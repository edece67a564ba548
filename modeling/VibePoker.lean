import VibePoker.Theorems.AbstractHistory
import VibePoker.Theorems.Accounts
import VibePoker.Theorems.Answers
import VibePoker.Theorems.Antes
import VibePoker.Theorems.AwaitingAction
import VibePoker.Theorems.BetCaps
import VibePoker.Theorems.Button
import VibePoker.Theorems.CardsOnce
import VibePoker.Theorems.ClientMirror
import VibePoker.Theorems.Conservation
import VibePoker.Theorems.Departed
import VibePoker.Theorems.Directory
import VibePoker.Theorems.EventStream
import VibePoker.Theorems.ExactSampling
import VibePoker.Theorems.FairDeck
import VibePoker.Theorems.Framing
import VibePoker.Theorems.HandArchive
import VibePoker.Theorems.HandHistory
import VibePoker.Theorems.HandTotals
import VibePoker.Theorems.Handoff
import VibePoker.Theorems.Handshakes
import VibePoker.Theorems.HeadsUp
import VibePoker.Theorems.HumanPrompt
import VibePoker.Theorems.Idempotence
import VibePoker.Theorems.InfoSets
import VibePoker.Theorems.Leaving
import VibePoker.Theorems.LegalActions
import VibePoker.Theorems.LogReplay
import VibePoker.Theorems.LoneContender
import VibePoker.Theorems.Masking
import VibePoker.Theorems.Membership
import VibePoker.Theorems.NoRegret
import VibePoker.Theorems.Noninterference
import VibePoker.Theorems.Normalize
import VibePoker.Theorems.OddChips
import VibePoker.Theorems.OneSession
import VibePoker.Theorems.Overflow
import VibePoker.Theorems.Parallel
import VibePoker.Theorems.Players
import VibePoker.Theorems.PokerOrder
import VibePoker.Theorems.PotRaise
import VibePoker.Theorems.PreflopClasses
import VibePoker.Theorems.Quorum
import VibePoker.Theorems.RateLimit
import VibePoker.Theorems.ReachWeighting
import VibePoker.Theorems.Reconnect
import VibePoker.Theorems.RegretBound
import VibePoker.Theorems.Reopening
import VibePoker.Theorems.Replay
import VibePoker.Theorems.Reveal
import VibePoker.Theorems.Rule47A
import VibePoker.Theorems.SawShowdown
import VibePoker.Theorems.SeatNumbers
import VibePoker.Theorems.SeatRotation
import VibePoker.Theorems.ShippedAgents
import VibePoker.Theorems.Showdown
import VibePoker.Theorems.ShowdownPots
import VibePoker.Theorems.Stepper
import VibePoker.Theorems.SuitSymmetry
import VibePoker.Theorems.SuitTraining
import VibePoker.Theorems.TableChips
import VibePoker.Theorems.TableStakes
import VibePoker.Theorems.Termination
import VibePoker.Theorems.Transport
import VibePoker.Theorems.Truncation
