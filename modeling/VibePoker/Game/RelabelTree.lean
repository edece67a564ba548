import VibePoker.Game.Relabel
import VibePoker.Game.Step

/-!
# The stepper on relabelled cards

Where the evaluator does not tell some cards apart, the stepper goes the same way when they are
exchanged, and it pays the same at the end.

## Main results

* `new_relabel`, `applyAction_relabel` — the stepper on a relabelled deck is the relabelled one
-/

namespace VibePoker.Game

open VibePoker.Core VibePoker.Math

variable {n : ℕ} {e : Engine}

namespace GameTree

def relabel (f : Card → Card) (t : GameTree n) : GameTree n :=
  { t with
    state := t.state.relabel f
    deck := relabelDeck f t.deck }

@[simp] theorem relabel_phase (f : Card → Card) (t : GameTree n) :
    (t.relabel f).phase = t.phase := rfl

variable {f : Card → Card}

theorem decision?_relabel (t : GameTree n) :
    (t.relabel f).decision? = t.decision?.map (Decision.relabel f) := by
  rw [decision?, decision?, relabel_phase]
  cases t.phase <;> rfl

theorem observationOwned_relabel (t : GameTree n) :
    (t.relabel f).observationOwned e = (t.observationOwned e).map (Observation.relabel f) := by
  cases hd : t.decision? with
  | none =>
    obtain ⟨chipDeltas, hphase⟩ := decision?_eq_none_iff.mp hd
    rw [observationOwned, observationOwned, relabel_phase, hphase]
    rfl
  | some d =>
    have hd' : (t.relabel f).decision? = some (d.relabel f) := by
      rw [decision?_relabel, hd]
      rfl
    rw [observationOwned_of_decision hd, observationOwned_of_decision hd', observation_relabel]

/-- The end of a hand in which one contender is left. -/
theorem uncontested_relabel (s : GameState n) (deck : Deck) (winner : Fin n) :
    (⟨(Engine.awardUncontested (s.relabel f) winner).1.setActionOn none, relabelDeck f deck,
      .terminal (Engine.awardUncontested (s.relabel f) winner).2⟩ : GameTree n) =
      relabel f ⟨(Engine.awardUncontested s winner).1.setActionOn none, deck,
        .terminal (Engine.awardUncontested s winner).2⟩ := by
  rw [awardUncontested_relabel]
  rfl

theorem advanceStreets_relabel (h : e.Overlooks f) (fuel : ℕ) (s : GameState n) (deck : Deck) :
    (advanceStreets e fuel (s.relabel f) (relabelDeck f deck)).2 =
      (advanceStreets e fuel s deck).2.map (relabel f) := by
  induction fuel generalizing s deck with
  | zero => rfl
  | succ fuel ih =>
    have hstreet : (s.relabel f).street = s.street := rfl
    rw [advanceStreets, advanceStreets, hstreet]
    cases nextStreet s.street with
    | none =>
      simp only [dealRemainingBoard_relabel, Option.bind_eq_bind]
      cases (Engine.dealRemainingBoard s deck).2 with
      | none => rfl
      | some dealt =>
        have hresolve : e.resolveShowdown { dealt.1.relabel f with street := .showdown } =
            (e.resolveShowdown { dealt.1 with street := .showdown }).map
              fun settled => (settled.1.relabel f, settled.2) :=
          resolveShowdown_relabel h { dealt.1 with street := .showdown }
        simp only [Option.map_some, Option.bind_some, hresolve]
        cases e.resolveShowdown { dealt.1 with street := .showdown } <;> rfl
    | some street =>
      simp only [relabel_beginStreet, dealBoardCards_relabel]
      cases Engine.dealBoardCards (e.beginStreet s street.1) deck street.2 street.1 with
      | none => rfl
      | some dealt =>
        have hfirst : Engine.firstToAct (dealt.1.relabel f) = Engine.firstToAct dealt.1 := rfl
        simp only [Option.map_some, hfirst]
        cases Engine.firstToAct dealt.1 with
        | none => exact ih (collectStreetBets dealt.1) dealt.2.1
        | some first => rfl

theorem advance_relabel (h : e.Overlooks f) (s : GameState n) (deck : Deck) (current : Fin n)
    (hasResponded : Fin n → Bool) :
    (advance e (s.relabel f) (relabelDeck f deck) current hasResponded).2 =
      (advance e s deck current hasResponded).2.map (relabel f) := by
  have hin : (s.relabel f).playersStillIn = s.playersStillIn := rfl
  have hwinner : (s.relabel f).firstStillIn = s.firstStillIn := rfl
  have hunsettled : (fun i => (s.relabel f).unsettled hasResponded i) =
      fun i => s.unsettled hasResponded i := rfl
  rw [advance, advance, hin, hwinner, hunsettled]
  split
  · cases s.firstStillIn with
    | none => rfl
    | some winner => exact congrArg some (uncontested_relabel s deck winner)
  · cases (ringAfter n current).find? fun i => s.unsettled hasResponded i with
    | some next => rfl
    | none => exact advanceStreets_relabel h 4 ((collectStreetBets s).setActionOn none) deck

/-- An answer leads a relabelled tree to the relabelled one. -/
theorem applyAction_relabel (h : e.Overlooks f) (t : GameTree n) (action : Action) :
    ((t.relabel f).applyAction e action).2 = (t.applyAction e action).2.map (relabel f) := by
  cases hd : t.decision? with
  | none =>
    obtain ⟨chipDeltas, hphase⟩ := decision?_eq_none_iff.mp hd
    rw [applyAction, applyAction, relabel_phase, hphase]
    rfl
  | some d =>
    have hd' : (t.relabel f).decision? = some (d.relabel f) := by
      rw [decision?_relabel, hd]
      rfl
    rw [applyAction_snd hd, applyAction_snd hd', acted_relabel, respondedAfter_relabel]
    exact advance_relabel h _ t.deck d.seat _

/-- A hand starts on a relabelled deck as the relabelled hand. -/
theorem new_relabel {handId deckSeed dealer : ℕ} {order : Fin 52 → Card}
    {startingStacks : List ℕ} {seatKinds : Option (List SeatKind)} :
    (new e handId deckSeed (f ∘ order) startingStacks dealer seatKinds).2 =
      (new e handId deckSeed order startingStacks dealer seatKinds).2.map (relabel f) := by
  have hsetup := @setupHand_relabel _ e f (.new order) (e.initState handId startingStacks dealer)
    seatKinds
  have hdeck : relabelDeck f (.new order) = .new (f ∘ order) := rfl
  have hinit : (e.initState handId startingStacks dealer).relabel f =
      e.initState handId startingStacks dealer := rfl
  rw [hdeck, hinit] at hsetup
  rw [new, new, hsetup]
  cases setupHand e (.new order) (e.initState handId startingStacks dealer) seatKinds with
  | none => rfl
  | some setup =>
    obtain ⟨s, deck, canonicalBb, events⟩ := setup
    have hnext : nextActiveAfter canonicalBb (s.relabel f).players =
        nextActiveAfter canonicalBb s.players := rfl
    have hwinner : (s.relabel f).firstStillIn = s.firstStillIn := rfl
    simp only [Option.map_some, hnext, hwinner]
    cases nextActiveAfter canonicalBb s.players with
    | some first => rfl
    | none =>
      cases s.firstStillIn with
      | none => rfl
      | some winner => exact congrArg some (uncontested_relabel s deck winner)

end GameTree

end VibePoker.Game
