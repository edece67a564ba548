import VibePoker.Game.Checks
import VibePoker.Game.Cover
import VibePoker.Game.Prompts

/-!
# Showdowns

A hand that ends with several contenders is decided by their cards, provided
betting starts at all. If the forced bets leave no seat with chips behind, the
first seat takes the whole pot and no board is dealt. All this is about hands in
which no amount overflows.

## Main definitions

* `CardsDecide` — several contenders are paid by the strength of their hands

## Main results

* `cards_decide_iff` — when this holds for every course of the hand
* `cards_not_consulted` — a table where it does not
-/

namespace VibePoker.Game

open VibePoker.Core VibePoker.CS

variable {n : ℕ} {e : Engine}

/-- Number of seats that still contest the pot. -/
def contenders (players : Fin n → PlayerState) : ℕ :=
  (Finset.univ.filter fun i => (players i).stillIn).card

/-- If the hand finished with several contenders, the board is complete and every
pot is paid, in full and evenly, to the strongest of the hands that may win it. -/
def CardsDecide (e : Engine) (outcome : HandOutcome n) : Prop :=
  ∀ result players chipDeltas rest, outcome = .finished result players chipDeltas rest →
    2 ≤ contenders players →
      result.board.length = 5 ∧
        ∃ awards, List.Forall₂ (PaysPot e result.board players) (buildShowdownPots players) awards ∧
          ∀ i, chipDeltas i = (awards.map fun award => award i).sum

/-- The state of a terminal node pays several contenders by their hands. -/
def DecidedByCards (e : Engine) (s : GameState n) (chipDeltas : Fin n → ℤ) : Prop :=
  2 ≤ contenders s.players → s.board.length = 5 ∧
    ∃ awards, List.Forall₂ (PaysPot e s.board s.players) (buildShowdownPots s.players) awards ∧
      ∀ i, chipDeltas i = (awards.map fun award => award i).sum

theorem cardsDecide_of_ends {ok : Decision n → Action → Prop} {t : GameTree n}
    {rest : List Action} {outcome : HandOutcome n}
    (h : ∀ chipDeltas, t.phase = .terminal chipDeltas → DecidedByCards e t.state chipDeltas)
    (hends : GameTree.Ends e ok t rest outcome) : CardsDecide e outcome := by
  intro result players chipDeltas rest' hfinished
  subst hfinished
  obtain ⟨hphase, rfl, -, rfl⟩ := hends.terminal
  exact h chipDeltas hphase

/-- Paying a showdown does not change what decides it. -/
theorem decidedByCards_of_resolveShowdown {s s' : GameState n} {chipDeltas : Fin n → ℤ}
    (h : e.resolveShowdown s = some (s', chipDeltas)) : DecidedByCards e s' chipDeltas := by
  obtain ⟨hboard, hawards, rfl⟩ := resolveShowdown_eq_some h
  obtain ⟨awards, hpays, hsum⟩ := paysPots_of_awardPots hawards
  refine fun _ => ⟨hboard, awards, ?_, hsum⟩
  have hpots := buildShowdownPots_withStacks s.players
    fun i => ((s.players i).stack + chipDeltas i).toNat
  change List.Forall₂ _ (buildShowdownPots (withStacks s.players _)) awards
  rw [hpots]
  exact hpays.imp fun pot award => paysPot_withStacks

theorem contenders_uncontested (s : GameState n) (deck : Deck) (winner : Fin n) :
    contenders (GameTree.uncontested s deck winner).state.players = s.playersStillIn := by
  rw [contenders, GameState.playersStillIn]
  congr 1
  ext i
  simp only [Finset.mem_filter, Finset.mem_univ, true_and, GameTree.uncontested,
    Engine.awardUncontested, GameState.setActionOn_players]
  split <;> rfl

/-- Every answer leads to a decision or to an end at which a single contender is
left or the cards decide. -/
theorem decidedByCards_of_step {start : Fin n → ℕ} {dealt : ℕ} {t t' : GameTree n}
    {d : Decision n} {action : Action} (hplay : Playing start dealt t.deck d)
    (hd : t.decision? = some d) (hstep : (t.applyAction e action).2 = some t')
    {chipDeltas : Fin n → ℤ} (hphase : t'.phase = .terminal chipDeltas) :
    DecidedByCards e t'.state chipDeltas := by
  have hfollows := hplay.follows hd hstep
  cases hfollows with
  | uncontested winner hone hwinner =>
    intro htwo
    rw [contenders_uncontested] at htwo
    omega
  | next => simp [GameTree.atDecision] at hphase
  | street => simp [GameTree.atDecision] at hphase
  | showdown s' s'' deck' chipDeltas' hmany hdone hlater hresolve =>
    obtain rfl : chipDeltas' = chipDeltas := by simpa using hphase
    exact decidedByCards_of_resolveShowdown hresolve

section Hand

variable {handId deckSeed : ℕ} {order : Fin 52 → Card} {startingStacks : List ℕ} {dealer : ℕ}
  {t : GameTree startingStacks.length}

/-- When somebody can be asked, every hand ends as it should. -/
theorem decidedByCards_of_trace {ok : Decision startingStacks.length → Action → Prop}
    {i : Fin startingStacks.length}
    (hactive : (forcedPlayer e startingStacks dealer i).status = .active)
    (hnew : (GameTree.new e handId deckSeed order startingStacks dealer none).2 = some t)
    {used : List Action} {t' : GameTree startingStacks.length}
    (htrace : Trace (GameTree.Step e ok) t used t') {chipDeltas : Fin startingStacks.length → ℤ}
    (hphase : t'.phase = .terminal chipDeltas) : DecidedByCards e t'.state chipDeltas := by
  have hstart : ∀ chipDeltas, t.phase = .terminal chipDeltas →
      DecidedByCards e t.state chipDeltas := by
    obtain ⟨s, deck, hopened, ⟨first, -, rfl⟩ | ⟨hnone, -⟩⟩ := new_cases hnew
    · simp [GameTree.atDecision]
    · have hstatus : (s.players i).status = .active := by
        rw [hopened.players_eq i]
        exact hactive
      exact absurd hstatus (hnone i)
  have hinv := htrace.invariant
    (fun t => (∀ d, t.decision? = some d →
        Playing startingStacks.get (2 * fundedSeats startingStacks) t.deck d) ∧
      ∀ chipDeltas, t.phase = .terminal chipDeltas → DecidedByCards e t.state chipDeltas)
    ?_ ⟨playing_new hnew, hstart⟩
  · exact hinv.2 chipDeltas hphase
  · rintro t action t' ⟨hplaying, -⟩ ⟨d, hd, -, hstep⟩
    exact ⟨fun d' => playing_of_follows (hplaying d hd) ((hplaying d hd).follows hd hstep),
      fun _ => decidedByCards_of_step (hplaying d hd) hd hstep⟩

/-- If the forced bets put every seat all-in, the first seat is paid at once. -/
theorem finished_without_board (hfunded : 2 ≤ fundedSeats startingStacks)
    (hcards : fundedSeats startingStacks ≤ 26)
    (hnone : ∀ i, (forcedPlayer e startingStacks dealer i).status ≠ .active) :
    ∃ result players chipDeltas,
      (runHand e handId deckSeed order startingStacks dealer none []).2 =
        .finished result players chipDeltas [] ∧
      promptsOf (runHand e handId deckSeed order startingStacks dealer none []).1 = [] ∧
      result.board = [] ∧ 2 ≤ contenders players := by
  have hpos : 0 < fundedSeats startingStacks := by omega
  obtain ⟨live, hlive⟩ := exists_funded hpos
  obtain ⟨t, hnew⟩ : ∃ t,
      (GameTree.new e handId deckSeed order startingStacks dealer none).2 = some t :=
    new_isSome hcards (fun _ _ => rfl) hlive rfl
  have hplay : (GameTree.playHand e handId deckSeed order startingStacks dealer none []).2 =
      (t.play e []).2 ∧
      promptsOf (GameTree.playHand e handId deckSeed order startingStacks dealer none []).1 =
        promptsOf (t.play e []).1 := by
    rw [GameTree.playHand, GameTree.playFrom, hnew]
    simp
  obtain ⟨s, deck, hopened, ⟨first, hactive, -⟩ | ⟨-, winner, -, rfl⟩⟩ := new_cases hnew
  · refine absurd ?_ (hnone first)
    rw [hopened.players_eq first] at hactive
    exact hactive
  · have hphase : (GameTree.uncontested s deck winner).phase =
        .terminal (Engine.awardUncontested s winner).2 := rfl
    rw [runHand_snd, promptsOf_runHand, hplay.1, hplay.2, GameTree.play_of_terminal hphase]
    refine ⟨_, _, _, rfl, rfl, hopened.board_eq, ?_⟩
    rw [contenders_uncontested, hopened.playersStillIn_eq hpos]
    exact hfunded

/-- Every course of a hand without dead hands, as far as no amount overflows, lets
the cards decide between several contenders, on the engine and on the stepper,
exactly if the forced bets leave some seat with chips behind or the hole cards
cannot be dealt. -/
theorem cards_decide_iff (e : Engine) (handId deckSeed : ℕ) (order : Fin 52 → Card)
    (startingStacks : List ℕ) (dealer : ℕ) (hfunded : 2 ≤ fundedSeats startingStacks)
    (hopens : (runHandChecked e handId deckSeed order startingStacks dealer none []).isSome) :
    (∀ answers hand,
      PlaysLegally e handId deckSeed order startingStacks dealer none answers hand →
      CardsDecide e hand.2 ∧
        CardsDecide e
          (GameTree.playHand e handId deckSeed order startingStacks dealer none answers).2) ↔
      (∃ i, e.rules.ante + blindsOf e startingStacks dealer i < startingStacks.get i) ∨
        26 < fundedSeats startingStacks := by
  simp only [← forcedPlayer_active_iff]
  constructor
  · intro h
    -- with everybody all in from the forced bets the first contender is paid without a board
    by_contra hnot
    push Not at hnot
    obtain ⟨result, players, chipDeltas, hfinished, hprompts, hboard, htwo⟩ :
        ∃ result players chipDeltas,
          (runHand e handId deckSeed order startingStacks dealer none []).2 =
            .finished result players chipDeltas [] ∧
          promptsOf (runHand e handId deckSeed order startingStacks dealer none []).1 = [] ∧
          result.board = [] ∧ 2 ≤ contenders players :=
      finished_without_board hfunded hnot.2 hnot.1
    have hdecided := (h [] _ (playsLegally_nil hopens)).1 result players chipDeltas [] hfinished
      htwo
    simp [hboard] at hdecided
  · intro h answers hand hplays
    rw [← runHand_snd, hplays.runHand_eq, and_self, ← hplays.runHand_eq]
    rcases runHand_trace (e := e) (fun _ _ => True) (fun _ _ => trivial) with
      ⟨-, hpanicked⟩ | ⟨t, used, rest, t', hnew, -, htrace, hends⟩
    · rw [hpanicked]
      intro result players chipDeltas rest hfinished
      simp at hfinished
    · rcases h with ⟨i, hactive⟩ | hmany
      · exact cardsDecide_of_ends
          (fun _ => decidedByCards_of_trace hactive hnew htrace) hends
      · simp [new_eq_none hmany] at hnew

end Hand

/-- The size of the board and the number of contenders of a finished hand. -/
def HandOutcome.showdown : HandOutcome n → Option (ℕ × ℕ)
  | .finished result players _ _ => some (result.board.length, contenders players)
  | _ => none

/-- At a table for two with chips behind the blinds both seats go all-in: the board is dealt and
the cards decide. -/
theorem cards_decide_heads_up :
    ∃ hand, PlaysLegally ⟨⟨.noLimit, 1, 2, 0⟩, ⟨fun _ => 0⟩⟩ 1 0 (fun i => ⟨i⟩) [100, 100] 0 none
        [.allIn, .allIn] hand ∧ hand.2.showdown = some (5, 2) ∧
      CardsDecide ⟨⟨.noLimit, 1, 2, 0⟩, ⟨fun _ => 0⟩⟩ hand.2 ∧
      CardsDecide ⟨⟨.noLimit, 1, 2, 0⟩, ⟨fun _ => 0⟩⟩
        (GameTree.playHand ⟨⟨.noLimit, 1, 2, 0⟩, ⟨fun _ => 0⟩⟩ 1 0 (fun i => ⟨i⟩) [100, 100] 0
          none [.allIn, .allIn]).2 := by
  have hplays : PlaysLegally ⟨⟨.noLimit, 1, 2, 0⟩, ⟨fun _ => 0⟩⟩ 1 0 (fun i => ⟨i⟩) [100, 100] 0
      none [.allIn, .allIn] _ := ⟨runHandChecked_of_isSome (by decide +kernel), by decide +kernel⟩
  exact ⟨_, hplays, by decide +kernel,
    (cards_decide_iff _ 1 0 _ [100, 100] 0 (by decide) (by decide +kernel)).mpr
      (Or.inl ⟨0, by decide⟩) _ _ hplays⟩

/-! ## A pot awarded without looking at the cards -/

theorem CardsDecide.board_eq {outcome : HandOutcome n} {board seats : ℕ}
    (h : CardsDecide e outcome) (hshowdown : outcome.showdown = some (board, seats))
    (htwo : 2 ≤ seats) : board = 5 := by
  cases outcome with
  | finished result players chipDeltas rest =>
    obtain ⟨rfl, rfl⟩ : _ = board ∧ _ = seats := by simpa [HandOutcome.showdown] using hshowdown
    exact (h result players chipDeltas rest rfl htwo).1
  | waiting => simp [HandOutcome.showdown] at hshowdown
  | panicked => simp [HandOutcome.showdown] at hshowdown
  | spinning => simp [HandOutcome.showdown] at hshowdown

/-- A table whose ante exceeds the stacks. -/
def anteEngine : Engine := ⟨⟨.noLimit, 1, 2, 100⟩, ⟨fun _ => 0⟩⟩

/-- The antes put both seats all-in; the first is paid and no board is dealt. -/
theorem cards_not_consulted :
    ¬ ∀ answers hand, PlaysLegally anteEngine 1 0 (fun i => ⟨i⟩) [50, 50] 0 none answers hand →
      CardsDecide anteEngine hand.2 := by
  intro h
  have hshowdown : (runHand anteEngine 1 0 (fun i => ⟨i⟩) [50, 50] 0 none []).2.showdown =
      some (0, 2) := by decide +kernel
  have hplays : PlaysLegally anteEngine 1 0 (fun i => ⟨i⟩) [50, 50] 0 none [] _ :=
    playsLegally_nil (by decide +kernel)
  have hfive := (h [] _ hplays).board_eq hshowdown le_rfl
  simp at hfive

end VibePoker.Game
