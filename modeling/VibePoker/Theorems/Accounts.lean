import VibePoker.Game.Reached

/-!
# The accounts of a hand

Five figures of every seat are updated by hand in each of the engine's operations.
The accounts hold after all of them: chips are only moved from the stack to the
street bet and from there to the pot.

## Main definitions

* `Accounts` — the accounts of a table

## Main results

* `accounts_of_reached` — the accounts hold in every state reached
-/

namespace VibePoker.Game

open VibePoker.Core

variable {n : ℕ} {e : Engine}

/-- The accounts of a table whose seats started with `start`, when `events` were
emitted last. -/
structure Accounts (start : Fin n → ℕ) (s : GameState n) (events : List EngineEvent) : Prop where
  stack_add : ∀ i, (s.players i).stack + (s.players i).totalCommitted = start i
  pot_add : s.pot.total + ∑ i, (s.players i).betThisStreet = ∑ i, (s.players i).totalCommitted
  announced : ∀ seat action potTotal, .actionTaken seat action potTotal ∈ events →
    potTotal = ∑ i, (s.players i).totalCommitted
  bet_le : ∀ i, (s.players i).betThisStreet ≤ (s.players i).totalCommitted
  allIn_stack : ∀ i, (s.players i).status = .allIn → (s.players i).stack = 0
  active_stack : ∀ i, (s.players i).status = .active → 0 < (s.players i).stack
  out_committed : ∀ i, (s.players i).status = .out → (s.players i).totalCommitted = 0

/-! ## Every operation keeps the ledger -/

/-- Seats that act or fold at the same time keep the ledger. -/
theorem Ledger.of_acts {start : Fin n → ℕ} {s s' : GameState n} (h : Ledger start s)
    (hacts : ∀ i, s'.players i = s.players i ∨ Acts (s.players i) (s'.players i))
    (hpot : s'.pot = s.pot) : Ledger start s' := by
  refine ⟨fun i => ?_, ?_⟩
  · rcases hacts i with hsame | hacts
    · rw [hsame]
      exact h.seat i
    · exact (h.seat i).acts hacts
  · rw [hpot, h.pot_eq]
    refine Finset.sum_congr rfl fun i _ => ?_
    rcases hacts i with hsame | hacts
    · rw [hsame]
    · exact ((h.seat i).collected_eq hacts).symm

theorem Ledger.initState (handId : ℕ) (startingStacks : List ℕ) (dealer : ℕ) :
    Ledger startingStacks.get (e.initState handId startingStacks dealer) where
  seat i := SeatLedger.freshPlayer (startingStacks.get i)
  pot_eq := by
    rw [eq_comm]
    exact Finset.sum_eq_zero fun i _ => rfl

theorem acts_postAnte (p : PlayerState) : e.postAnte p = p ∨ Acts p (e.postAnte p) := by
  rw [Engine.postAnte]
  split
  · exact Or.inr (acts_putAllIn p e.rules.ante)
  · exact Or.inl rfl

theorem Ledger.antesPosted {start : Fin n → ℕ} {s : GameState n} (h : Ledger start s) :
    Ledger start (Game.antesPosted e s).1 := by
  rw [Game.antesPosted]
  split
  · exact h.of_acts (fun i => acts_postAnte (s.players i)) rfl
  · exact h

theorem Ledger.post {start : Fin n → ℕ} {s : GameState n} (h : Ledger start s) (seat : Fin n)
    (amount : ℕ) : Ledger start (Engine.post s seat amount).1 := by
  refine h.of_acts (fun i => ?_) rfl
  by_cases hi : i = seat
  · subst hi
    right
    rw [Engine.post, setPlayer_self]
    exact acts_putAllIn _ _
  · exact Or.inl (setPlayer_of_ne s _ hi)

theorem Ledger.postBlinds {start : Fin n → ℕ} {s s' : GameState n} {events : List EngineEvent}
    (h : Ledger start s) (hpost : e.postBlinds s = some (s', events)) : Ledger start s' := by
  rw [Engine.postBlinds] at hpost
  split at hpost
  case isTrue hseats =>
    simp only [Option.some.injEq, Prod.mk.injEq] at hpost
    obtain ⟨rfl, -⟩ := hpost
    exact ((h.post ⟨sbSeat s, hseats.1⟩ e.rules.smallBlind).post ⟨bbSeat s, hseats.2⟩
      e.rules.bigBlind).congr rfl rfl
  case isFalse => simp at hpost

/-- The cards of the seats are not in the ledger. -/
theorem Ledger.of_cards {start : Fin n → ℕ} {s s' : GameState n} (h : Ledger start s)
    (hplayers : ∀ i, s'.players i =
      { s.players i with holeCards := (s'.players i).holeCards })
    (hpot : s'.pot = s.pot) : Ledger start s' := by
  refine ⟨fun i => ?_, ?_⟩
  · rw [hplayers i]
    have hseat := h.seat i
    exact ⟨hseat.stack_add, hseat.bet_le, hseat.stack_pos, hseat.stack_eq, hseat.start_eq⟩
  · rw [hpot, h.pot_eq]
    exact Finset.sum_congr rfl fun i _ => by rw [hplayers i]

theorem Ledger.giveCards {start : Fin n → ℕ} {s : GameState n} (h : Ledger start s) (seat : Fin n)
    (hole : Option (Card × Card)) :
    Ledger start (s.setPlayer seat { s.players seat with holeCards := hole }) := by
  refine h.of_cards (fun i => ?_) rfl
  by_cases hi : i = seat
  · subst hi
    rw [setPlayer_self]
  · rw [setPlayer_of_ne s _ hi]

theorem Ledger.dealHoleCards {start : Fin n → ℕ} {seats : List (Fin n)} {s s' : GameState n}
    {deck deck' : Deck} {events : List EngineEvent} (h : Ledger start s)
    (hdeal : Engine.dealHoleCards seats s deck = some (s', deck', events)) :
    Ledger start s' := by
  induction seats generalizing s deck events with
  | nil =>
    obtain ⟨rfl, -⟩ := Prod.mk.inj (Option.some.inj hdeal)
    exact h
  | cons i seats ih =>
    rcases dealHoleCards_cons hdeal with ⟨_, _, _, _, later, -, -, -, hrest, -⟩ | ⟨-, hrest⟩
    · exact ih (h.giveCards i _) hrest
    · exact ih h hrest

theorem Ledger.foldDeadHands {start : Fin n → ℕ} {seatKinds : Option (List SeatKind)}
    {s s' : GameState n} (h : Ledger start s)
    (hfold : Engine.foldDeadHands seatKinds s = some s') : Ledger start s' := by
  cases seatKinds with
  | none =>
    obtain rfl := Option.some.inj hfold
    exact h
  | some kinds =>
    simp only [Engine.foldDeadHands] at hfold
    split at hfold
    case isTrue => simp at hfold
    case isFalse =>
      obtain rfl := Option.some.inj hfold
      refine h.of_acts (fun i => ?_) rfl
      dsimp only
      split
      · exact Or.inr .folds
      · exact Or.inl rfl

theorem Ledger.beginStreet {start : Fin n → ℕ} {s : GameState n}
    (h : Ledger start (collectStreetBets s)) (street : Street) :
    Ledger start (e.beginStreet (collectStreetBets s) street) := h.congr rfl rfl

theorem Ledger.performAction {start : Fin n → ℕ} {s : GameState n} (h : Ledger start s)
    {seat : Fin n} (hactive : (s.players seat).status = .active) (raw : Action) :
    Ledger start (Engine.applyAction s seat (Engine.normalizeAction s seat raw)).1 :=
  h.acted (actedBy_performAction ((h.seat seat).stack_pos hactive) raw)

section Hand

variable {handId deckSeed : ℕ} {startingStacks : List ℕ} {dealer : ℕ}
  {s : GameState startingStacks.length} {events : List EngineEvent}

theorem Reached.ledger (h : Reached e handId deckSeed startingStacks dealer s events) :
    Ledger startingStacks.get s := by
  induction h with
  | started => exact .initState handId startingStacks dealer
  | antesPosted _ ih => exact ih.antesPosted
  | blindsPosted _ hpost ih => exact ih.postBlinds hpost
  | holeCardsDealt _ _ hdeal ih => exact ih.dealHoleCards hdeal
  | deadHandsFolded _ _ hfold ih => exact ih.foldDeadHands hfold
  | asked _ seat ih => exact ih.setActionOn seat
  | acted _ hactive raw ih => exact ih.performAction hactive raw
  | collected _ ih => exact ih.collect
  | streetBegun _ street ih => exact ih.beginStreet street
  | boardDealt _ hdeal ih =>
    obtain ⟨cards, -, rfl, -⟩ := dealBoardCards_board hdeal
    exact ih.congr rfl rfl
  | boardFilled _ cards ih => exact ih.congr rfl rfl

/-- In every state of a hand before the award, the accounts are in order. -/
theorem accounts_of_reached (h : Reached e handId deckSeed startingStacks dealer s events) :
    Accounts startingStacks.get s events where
  stack_add i := (h.ledger.seat i).stack_add
  pot_add := h.ledger.potTotal_eq
  announced seat action potTotal hevent := by
    have hannounced : potTotal = s.potTotal := h.announces _ hevent
    rw [hannounced, GameState.potTotal]
    exact h.ledger.potTotal_eq
  bet_le i := (h.ledger.seat i).bet_le
  allIn_stack i := (h.ledger.seat i).stack_eq
  active_stack i := (h.ledger.seat i).stack_pos
  out_committed i hout := by
    have hseat := h.ledger.seat i
    have := hseat.stack_add
    have := hseat.start_eq hout
    omega

end Hand

/-- Three seats see the flop, one of them all-in before it, and the next one goes all-in as well. -/
theorem accounts_of_all_in :
    ∃ p ∈ promptsOf (runHand ⟨⟨.noLimit, 1, 2, 0⟩, ⟨fun _ => 0⟩⟩ 1 0 (fun i => ⟨i⟩) [100, 40, 60] 0
        none [.raise 10, .allIn, .call, .call]).1,
      p.1.state.street = .flop ∧ p.1.state.pot.total = 120 ∧
        Accounts [100, 40, 60].get
          (Engine.applyAction p.1.state p.1.seat
            (Engine.normalizeAction p.1.state p.1.seat .allIn)).1
          (Engine.applyAction p.1.state p.1.seat
            (Engine.normalizeAction p.1.state p.1.seat .allIn)).2.2 := by
  have hflop : (promptsOf (runHand ⟨⟨.noLimit, 1, 2, 0⟩, ⟨fun _ => 0⟩⟩ 1 0 (fun i => ⟨i⟩)
      [100, 40, 60] 0 none [.raise 10, .allIn, .call, .call]).1).any fun p =>
        p.1.state.street = .flop ∧ p.1.state.pot.total = 120 ∧
          (p.1.state.players p.1.seat).status = .active := by
    decide +kernel
  obtain ⟨p, hp, hcond⟩ := List.any_eq_true.mp hflop
  obtain ⟨hstreet, hpot, hactive⟩ := of_decide_eq_true hcond
  obtain ⟨output, houtput, hprompt⟩ := List.mem_filterMap.mp hp
  cases output with
  | event | notify => cases hprompt
  | prompt d obs =>
    obtain rfl := Option.some.inj hprompt
    rcases (runHand_from (fun i => ⟨i⟩) none _).1 _ houtput with
      ⟨events, hreached⟩ | ⟨_, _, _, _, -, hreports⟩
    · exact ⟨_, hp, hstreet, hpot, accounts_of_reached (hreached.acted hactive .allIn)⟩
    · cases hreports

end VibePoker.Game
