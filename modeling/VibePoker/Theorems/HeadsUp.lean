import VibePoker.Game.Prompts

/-!
# Blinds and the button

The blinds are posted by the first and the second seat with chips after the dealer.
At a table with two such seats the dealer should post the small blind, but the search
starts after the dealer there as well, so the other seat does.

## Main definitions

* `openingState` — the table when the blinds are posted
* `BlindsInOrder` — who has to post the blinds, and who opens each street

## Main results

* `blinds_in_order_iff` — which tables keep the order
* `button_posts_big_blind` — a table that does not
-/

namespace VibePoker.Game

open VibePoker.Core VibePoker.Math

variable {n : ℕ} {e : Engine}

section Hand

variable (e) (handId deckSeed : ℕ) (order : Fin 52 → Card) (startingStacks : List ℕ) (dealer : ℕ)
  (seatKinds : Option (List SeatKind))

/-- The table when the blinds are posted. -/
def openingState : GameState startingStacks.length :=
  (antesPosted e (e.initState handId startingStacks dealer)).1

/-- At a table of two, `button` posts the small blind and opens the preflop if it can
still act; `other` posts the big blind and opens the later streets. -/
structure HeadsUpOrder (button other : Fin startingStacks.length) : Prop where
  small : sbSeat (openingState e handId startingStacks dealer) = button
  big : bbSeat (openingState e handId startingStacks dealer) = other
  preflop : ∀ answers d obs after,
    promptsOf (runHand e handId deckSeed order startingStacks dealer seatKinds answers).1 =
      (d, obs) :: after →
    d.state.street = .preflop → (d.state.players button).status = .active → d.seat = button
  later : ∀ answers before d obs after,
    promptsOf (runHand e handId deckSeed order startingStacks dealer seatKinds answers).1 =
      before ++ (d, obs) :: after →
    d.state.street ≠ .preflop → (∀ p ∈ before, p.1.state.street ≠ d.state.street) →
      d.seat = other

/-- The rules for the blinds: the dealer posts the small blind at a table of two, the
first and the second seat after the dealer post the blinds at a larger one. Seats
without chips do not count. -/
structure BlindsInOrder : Prop where
  headsUp : fundedSeats startingStacks = 2 → ∀ button other : Fin startingStacks.length,
    (button : ℕ) = dealer → 0 < startingStacks.get button → 0 < startingStacks.get other →
      other ≠ button →
        HeadsUpOrder e handId deckSeed order startingStacks dealer seatKinds button other
  several : 3 ≤ fundedSeats startingStacks → ∃ sb bb others,
    (ringAfter startingStacks.length dealer).filter (fun i => 0 < startingStacks.get i) =
        sb :: bb :: others ∧
      sbSeat (openingState e handId startingStacks dealer) = sb ∧
      bbSeat (openingState e handId startingStacks dealer) = bb

end Hand

section Hand

variable {handId deckSeed : ℕ} {order : Fin 52 → Card} {startingStacks : List ℕ} {dealer : ℕ}
  {seatKinds : Option (List SeatKind)}

/-- The seats that are in when the blinds are posted are those with chips. -/
theorem openingState_stillIn (i : Fin startingStacks.length) :
    ((openingState e handId startingStacks dealer).players i).stillIn =
      decide (0 < startingStacks.get i) := by
  rw [openingState, antesPosted_players, postAnte_freshPlayer_stillIn]

theorem openingState_dealer : (openingState e handId startingStacks dealer).dealer = dealer := by
  rw [openingState, antesPosted]
  split <;> rfl

theorem nextActiveAfterInList_openingState (start : ℕ) :
    nextActiveAfterInList start (openingState e handId startingStacks dealer).players =
      (ringAfter startingStacks.length start).find? fun i => 0 < startingStacks.get i := by
  rw [nextActiveAfterInList]
  simp only [openingState_stillIn]

/-- The small blind is posted by the first seat with chips after the dealer, and the
big blind by the second. -/
theorem blinds_of_filter {sb bb : Fin startingStacks.length}
    {others : List (Fin startingStacks.length)}
    (h : (ringAfter startingStacks.length dealer).filter (fun i => 0 < startingStacks.get i) =
      sb :: bb :: others) :
    sbSeat (openingState e handId startingStacks dealer) = sb ∧
      bbSeat (openingState e handId startingStacks dealer) = bb := by
  obtain ⟨hsb, hbb⟩ := find?_ringAfter_of_filter h
  have hsmall : sbSeat (openingState e handId startingStacks dealer) = sb := by
    rw [sbSeat, openingState_dealer, nextActiveAfterInList_openingState, hsb]
    rfl
  refine ⟨hsmall, ?_⟩
  rw [bbSeat, hsmall, nextActiveAfterInList_openingState, hbb]
  rfl

theorem blinds_several (hseveral : 3 ≤ fundedSeats startingStacks) : ∃ sb bb others,
    (ringAfter startingStacks.length dealer).filter (fun i => 0 < startingStacks.get i) =
        sb :: bb :: others ∧
      sbSeat (openingState e handId startingStacks dealer) = sb ∧
      bbSeat (openingState e handId startingStacks dealer) = bb := by
  have hlength := length_filter_ringAfter dealer
    fun i : Fin startingStacks.length => decide (0 < startingStacks.get i)
  simp only [decide_eq_true_eq, ← fundedSeats_eq_card] at hlength
  cases hring : (ringAfter startingStacks.length dealer).filter
      (fun i => 0 < startingStacks.get i) with
  | nil =>
    rw [hring, List.length_nil] at hlength
    omega
  | cons sb rest =>
    cases rest with
    | nil =>
      rw [hring, List.length_singleton] at hlength
      omega
    | cons bb others => exact ⟨sb, bb, others, rfl, blinds_of_filter hring⟩

/-- While another seat has chips, the dealer does not post the small blind. -/
theorem sbSeat_ne_dealer {button other : Fin startingStacks.length}
    (hbutton : (button : ℕ) = dealer) (hother : 0 < startingStacks.get other)
    (hne : other ≠ button) :
    sbSeat (openingState e handId startingStacks dealer) ≠ button := by
  let p := fun i : Fin startingStacks.length => decide (0 < startingStacks.get i)
  have hin : p other := decide_eq_true hother
  obtain ⟨found, hfound, -⟩ := find?_ringAfter_isSome (button : ℕ) hin
  have := find?_ringAfter_ne hin hne hfound
  rw [sbSeat, openingState_dealer, nextActiveAfterInList_openingState, ← hbutton, hfound]
  exact fun h => this (Fin.ext h)

/-- At a table with at least three seats with chips, or two of which one is the
dealer, the blinds are in order exactly if there are three. -/
theorem blinds_in_order_iff
    (h : 3 ≤ fundedSeats startingStacks ∨ fundedSeats startingStacks = 2 ∧
      ∃ button : Fin startingStacks.length, (button : ℕ) = dealer ∧
        0 < startingStacks.get button) :
    BlindsInOrder e handId deckSeed order startingStacks dealer seatKinds ↔
      3 ≤ fundedSeats startingStacks := by
  constructor
  · intro horder
    rcases h with hseveral | ⟨htwo, button, hbutton, hfunded⟩
    · exact hseveral
    · -- the other of the two seats posts the small blind
      have hcard := htwo
      rw [fundedSeats_eq_card] at hcard
      obtain ⟨other, hother, hne⟩ := Finset.exists_mem_ne (hcard ▸ Nat.one_lt_two) button
      have hchips : 0 < startingStacks.get other := by simpa using hother
      have hsmall := (horder.headsUp htwo button other hbutton hfunded hchips hne).small
      exact absurd hsmall (sbSeat_ne_dealer hbutton hchips hne)
  · intro hseveral
    exact ⟨fun htwo => by omega, fun _ => blinds_several hseveral⟩

end Hand

/-- Three players with chips, one seat without. -/
theorem blinds_in_order_three :
    BlindsInOrder ⟨⟨.noLimit, 1, 2, 0⟩, ⟨fun _ => 0⟩⟩ 1 0 (fun i => ⟨i⟩) [100, 0, 50, 80] 0 none :=
  (blinds_in_order_iff (Or.inl (by decide))).mpr (by decide)

/-- Two players: the dealer posts the big blind. -/
theorem button_posts_big_blind :
    ¬ BlindsInOrder ⟨⟨.noLimit, 1, 2, 0⟩, ⟨fun _ => 0⟩⟩ 1 0 (fun i => ⟨i⟩) [100, 100] 0 none := by
  intro horder
  have hsmall := (horder.headsUp rfl 0 1 rfl (by decide) (by decide) (by decide)).small
  exact absurd hsmall (by decide)

end VibePoker.Game
