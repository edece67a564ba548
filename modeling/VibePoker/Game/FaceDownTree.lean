import VibePoker.Game.FaceDown
import VibePoker.Game.Step

/-!
# The stepper on face-down cards

As long as the stepper comes to decisions, it has not looked at a card: the same answers lead
a hand whose cards lie face down to the same decisions.

## Main results

* `applyAction_faceDown` — an answer that leads to a decision leads to the same one face down
* `new_faceDown` — a hand of one deck starts as that of any other one, face down
-/

namespace VibePoker.Game

open VibePoker.Core VibePoker.Math

variable {n : ℕ} {e : Engine}

namespace GameTree

def faceDown (t : GameTree n) : GameTree n :=
  { t with
    state := t.state.faceDown
    deck := faceDownDeck t.deck }

theorem decision?_faceDown (t : GameTree n) :
    t.faceDown.decision? = t.decision?.map Decision.faceDown := by
  obtain ⟨s, deck, _ | _⟩ := t <;> rfl

theorem observationOwned_faceDown (t : GameTree n) :
    t.faceDown.observationOwned e = (t.observationOwned e).map Observation.faceDown := by
  cases hd : t.decision? with
  | none =>
    obtain ⟨chipDeltas, hphase⟩ := decision?_eq_none_iff.mp hd
    have hphase' : t.faceDown.phase = .terminal chipDeltas := hphase
    rw [observationOwned, observationOwned, hphase, hphase']
    rfl
  | some d =>
    have hd' : t.faceDown.decision? = some d.faceDown := by rw [decision?_faceDown, hd]; rfl
    rw [observationOwned_of_decision hd, observationOwned_of_decision hd', observation_faceDown]

variable {s : GameState n} {deck : Deck} {u : GameTree n} {d : Decision n}

/-- The streets that lead to a decision. -/
theorem advanceStreets_faceDown {fuel : ℕ} (h : (advanceStreets e fuel s deck).2 = some u)
    (hd : u.decision? = some d) :
    (advanceStreets e fuel s.faceDown (faceDownDeck deck)).2 = some u.faceDown := by
  induction fuel generalizing s deck with
  | zero => cases h
  | succ fuel ih =>
    rw [advanceStreets] at h ⊢
    have hstreet : s.faceDown.street = s.street := rfl
    rw [hstreet]
    cases hnext : nextStreet s.street with
    | none =>
      -- after the last street the hand is over
      simp only [hnext, Option.bind_eq_bind, Option.bind_eq_some_iff, Option.some.injEq] at h
      obtain ⟨_, -, _, -, rfl⟩ := h
      cases hd
    | some street =>
      simp only [hnext, faceDown_beginStreet, dealBoardCards_faceDown] at h ⊢
      cases hdealt : Engine.dealBoardCards (e.beginStreet s street.1) deck street.2 street.1 with
      | none => simp [hdealt] at h
      | some dealt =>
        simp only [hdealt, Option.map_some] at h ⊢
        have hfirst : Engine.firstToAct dealt.1.faceDown = Engine.firstToAct dealt.1 := rfl
        rw [hfirst]
        cases hact : Engine.firstToAct dealt.1 with
        | none =>
          simp only [hact] at h
          exact ih h
        | some first =>
          simp only [hact] at h
          obtain rfl := Option.some.inj h
          rfl

theorem advance_faceDown {current : Fin n} {hasResponded : Fin n → Bool}
    (h : (advance e s deck current hasResponded).2 = some u) (hd : u.decision? = some d) :
    (advance e s.faceDown (faceDownDeck deck) current hasResponded).2 = some u.faceDown := by
  have hin : s.faceDown.playersStillIn = s.playersStillIn := rfl
  have hunsettled : (fun i => s.faceDown.unsettled hasResponded i) =
      fun i => s.unsettled hasResponded i := rfl
  rw [advance] at h ⊢
  rw [hin, hunsettled]
  split at h
  case isTrue hone =>
    simp only [Option.bind_eq_bind, Option.bind_eq_some_iff, Option.some.injEq] at h
    obtain ⟨_, -, rfl⟩ := h
    cases hd
  case isFalse hmany =>
    rw [if_neg hmany]
    cases hnext : (ringAfter n current).find? fun i => s.unsettled hasResponded i with
    | some next =>
      simp only [hnext] at h
      obtain rfl := Option.some.inj h
      rfl
    | none =>
      simp only [hnext] at h
      exact advanceStreets_faceDown h hd

/-- An answer that leads to a decision leads to the same one face down. -/
theorem applyAction_faceDown {t : GameTree n} {action : Action}
    (h : (t.applyAction e action).2 = some u) (hd : u.decision? = some d) :
    (t.faceDown.applyAction e action).2 = some u.faceDown := by
  cases hdecision : t.decision? with
  | none =>
    obtain ⟨chipDeltas, hphase⟩ := decision?_eq_none_iff.mp hdecision
    simp [applyAction, hphase] at h
  | some d₀ =>
    have hdecision' : t.faceDown.decision? = some d₀.faceDown := by
      rw [decision?_faceDown, hdecision]
      rfl
    rw [applyAction_snd hdecision] at h
    rw [applyAction_snd hdecision', acted_faceDown, respondedAfter_faceDown]
    exact advance_faceDown h hd

/-- A hand of one deck starts as that of any other one, face down. -/
theorem new_faceDown {handId deckSeed dealer : ℕ} {order : Fin 52 → Card}
    {startingStacks : List ℕ} {seatKinds : Option (List SeatKind)}
    {t : GameTree startingStacks.length} {d : Decision startingStacks.length}
    (h : (new e handId deckSeed order startingStacks dealer seatKinds).2 = some t)
    (hd : t.decision? = some d) (deckSeed' : ℕ) :
    (new e handId deckSeed' (fun _ => back) startingStacks dealer seatKinds).2 =
      some t.faceDown := by
  have hinit : (e.initState handId startingStacks dealer).faceDown =
      e.initState handId startingStacks dealer := rfl
  have hsetup := @setupHand_faceDown _ e (.new order) (e.initState handId startingStacks dealer)
    seatKinds
  have hdeck : faceDownDeck (.new order) = .new fun _ => back := rfl
  rw [hinit, hdeck] at hsetup
  rw [new] at h ⊢
  rw [hsetup]
  rcases hopened : setupHand e (.new order) (e.initState handId startingStacks dealer)
    seatKinds with _ | ⟨s, deck, canonicalBb, events⟩
  · simp [hopened] at h
  · simp only [hopened, Option.map_some] at h ⊢
    -- who acts first is decided by the statuses alone
    have hnext : nextActiveAfter canonicalBb s.faceDown.players =
        nextActiveAfter canonicalBb s.players := rfl
    rw [hnext]
    cases hfirst : nextActiveAfter canonicalBb s.players with
    | none =>
      simp only [hfirst, Option.bind_eq_bind, Option.bind_eq_some_iff, Option.some.injEq] at h
      obtain ⟨_, -, rfl⟩ := h
      cases hd
    | some first =>
      simp only [hfirst] at h
      obtain rfl := Option.some.inj h
      rfl

end GameTree

end VibePoker.Game
