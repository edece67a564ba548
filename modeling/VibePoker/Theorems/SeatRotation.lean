import VibePoker.Game.ReseatHand

/-!
# Rotating the seats

A hand does not depend on where the table starts to number its seats. When the stacks, the
dealer, the designations and the hole cards move on by some seats, and the board cards and
the actions stay, the seats that moved are asked in the same order and offered the same
actions, the same actions are applied with the same pots, and each seat that moved gets what
it got before, odd chips included.

## Main definitions

* `rotateSeat`, `rotateKinds` — the seat numbers and designations after a rotation
* `PaysAlike` — two hands come out alike up to the seat numbers

## Main results

* `rotated_alike` — a rotated hand is played and paid like the hand
-/

namespace VibePoker.Game

open VibePoker.Core VibePoker.Math

variable {n m : ℕ} {e : Engine}

/-! ## Rotations of a table -/

/-- The new number of a seat when the table of `n` counts from seat `r` on. -/
def rotateSeat (n r seat : ℕ) : ℕ := (seat + (n - r % n)) % n

/-- The designations by the new numbers. A seat without one is live, and designations beyond
the table stay where they are. -/
def rotateKinds (n r : ℕ) (kinds : List SeatKind) : List SeatKind :=
  (List.range n).map (fun seat => kinds.getD ((seat + r) % n) .live) ++ kinds.drop n

/-- With one designation for each seat, the designations are rotated. -/
theorem rotateKinds_eq_rotate (r : ℕ) (kinds : List SeatKind) :
    rotateKinds kinds.length r kinds = kinds.rotate r := by
  rw [rotateKinds, List.drop_length, List.append_nil]
  refine List.ext_getElem (by simp) fun seat hseat hseat' => ?_
  have hlt : (seat + r) % kinds.length < kinds.length := by
    rw [List.length_rotate] at hseat'
    exact Nat.mod_lt _ (Nat.zero_lt_of_lt hseat')
  rw [List.getElem_map, List.getElem_range, List.getD_eq_getElem?_getD,
    List.getElem?_eq_getElem hlt, Option.getD_some, List.getElem_rotate]

theorem shift_val (r : ℕ) (h : m = n) (i : Fin n) :
    (Rotation.shift r h i : ℕ) = rotateSeat n r i := rfl

theorem shift_seat (r : ℕ) (h : m = n) (hn : 0 < n) (k : ℕ) :
    (Rotation.shift r h).seat k = rotateSeat n r k := by
  rw [Rotation.seat, dif_pos hn, shift_val, rotateSeat, rotateSeat, Nat.mod_add_mod]

/-- The seat that got a new number. -/
theorem deadHand_rotateKinds (r : ℕ) (h : m = n) (seatKinds : Option (List SeatKind))
    (i : Fin n) :
    deadHand (seatKinds.map (rotateKinds n r)) (Rotation.shift r h i) = deadHand seatKinds i := by
  cases seatKinds with
  | none => rfl
  | some kinds =>
    have hback : ((Rotation.shift r h i : ℕ) + r) % n = i :=
      congrArg Fin.val ((Rotation.shift r h).toEquiv.symm_apply_apply i)
    have hlt : (Rotation.shift r h i : ℕ) < n := (Rotation.shift r h i).isLt.trans_eq h
    have hget : (rotateKinds n r kinds)[(Rotation.shift r h i : ℕ)]? =
        some (kinds.getD i .live) := by
      rw [rotateKinds, List.getElem?_append_left (by simpa using hlt), List.getElem?_map,
        List.getElem?_range hlt, Option.map_some, hback]
    simp only [Option.map_some, deadHand, Engine.isDeadHand, hget, Option.some.injEq]
    rw [List.getD_eq_getElem?_getD]
    cases kinds[(i : ℕ)]? with
    | none => simp
    | some kind => simp

theorem kindsFit_rotateKinds (r : ℕ) {seatKinds : Option (List SeatKind)}
    (h : KindsFit seatKinds n) : KindsFit (seatKinds.map (rotateKinds n r)) n := by
  cases seatKinds with
  | none => exact fun _ _ => rfl
  | some kinds =>
    intro seat hseat
    have hkept : (rotateKinds n r kinds)[seat]? = kinds[seat]? := by
      rw [rotateKinds, List.getElem?_append_right (by simpa using hseat), List.getElem?_drop]
      congr 1
      simp
      omega
    have := h seat hseat
    simpa only [Option.map_some, deadHand, Engine.isDeadHand, hkept] using this

/-! ## What stays the same -/

/-- The outcome reported for a seat, if it was dealt in. -/
def HandResult.outcomeOf (result : HandResult) (seat : ℕ) : Option SeatOutcome :=
  result.seats.find? fun o => o.seat = seat

/-- The hands come out alike: on the same board each seat has the same outcome under its new
number, the chips that it won or lost among it. -/
def PaysAlike (r : ℕ) : HandOutcome n → HandOutcome m → Prop
  | .finished result _ _ rest, .finished result' _ _ rest' =>
    rest' = rest ∧ result'.board = result.board ∧
      ∀ seat < n, result'.outcomeOf (rotateSeat n r seat) =
        (result.outcomeOf seat).map fun o => { o with seat := rotateSeat n r seat }
  | .waiting, .waiting | .panicked, .panicked | .spinning, .spinning => True
  | _, _ => False

theorem outcomeOf_reseat (μ : Reseating n m) (result : HandResult) (i : Fin n) :
    (result.reseat μ).outcomeOf (μ i) =
      (result.outcomeOf i).map fun o => { o with seat := (μ i : ℕ) } := by
  have hback : (μ.toEquiv.symm (μ i) : ℕ) = i := congrArg Fin.val (μ.toEquiv.symm_apply_apply i)
  rw [HandResult.outcomeOf, HandResult.reseat, List.find?_filterMap]
  generalize hfound : (List.finRange m).find? _ = found
  cases found with
  | none =>
    -- the seat has no outcome under either number
    have hnone := (find?_finRange_eq_none_iff _).mp hfound (μ i)
    rw [hback] at hnone
    rw [HandResult.outcomeOf]
    cases hout : result.seats.find? fun o => o.seat = (i : ℕ) with
    | none => rfl
    | some o => simp [hout] at hnone
  | some j =>
    have hj := List.find?_some hfound
    obtain ⟨o, ho, hnumber⟩ := (Option.any_eq_true _ _).mp hj
    obtain ⟨o', -, rfl⟩ := Option.map_eq_some_iff.mp ho
    obtain rfl : j = μ i := Fin.ext (by simpa using hnumber)
    rw [Option.bind_some, hback]
    rfl

theorem paysAlike_reseat {r : ℕ} (μ : Reseating n m) (hseat : ∀ i, (μ i : ℕ) = rotateSeat n r i)
    (outcome : HandOutcome n) : PaysAlike r outcome (outcome.reseat μ) := by
  cases outcome with
  | finished result players chipDeltas rest =>
    refine ⟨rfl, rfl, fun seat hlt => ?_⟩
    have := outcomeOf_reseat μ result ⟨seat, hlt⟩
    rwa [hseat] at this
  | _ => trivial

/-- Some seat is `Active` when the preflop betting starts. -/
def opensActive (e : Engine) (handId : ℕ) (order : Fin 52 → Card) (startingStacks : List ℕ)
    (dealer : ℕ) (seatKinds : Option (List SeatKind)) : Bool :=
  match setupHand e (.new order) (e.initState handId startingStacks dealer) seatKinds with
  | none => false
  | some opened => (List.finRange startingStacks.length).any fun i =>
    (opened.1.players i).status = .active

/-! ## The rotated hand -/

/-- A hand with its seats rotated, and the same board and actions, asks the rotated seats in
the same order and offers them the same, applies the same actions with the same pots, and
pays the rotated seats the same. -/
theorem rotated_alike {handId handId' deckSeed deckSeed' : ℕ} {order order' : Fin 52 → Card}
    {startingStacks : List ℕ} {dealer : ℕ} {seatKinds : Option (List SeatKind)} (r : ℕ)
    (answers : List Action)
    (hactive : opensActive e handId order startingStacks dealer seatKinds)
    (hhole : ∀ seat < startingStacks.length, 0 < startingStacks.getD seat 0 →
      holeCardsInOrder order' (startingStacks.rotate r) (rotateSeat startingStacks.length r seat) =
        holeCardsInOrder order startingStacks seat)
    (hboard : ∀ k : Fin 52, 2 * fundedSeats startingStacks ≤ k →
      k < 2 * fundedSeats startingStacks + 5 → order' k = order k) :
    let n := startingStacks.length
    let run := runHand e handId deckSeed order startingStacks dealer seatKinds answers
    let run' := runHand e handId' deckSeed' order' (startingStacks.rotate r) (rotateSeat n r dealer)
      (seatKinds.map (rotateKinds n r)) answers
    (promptsOf run'.1).map (fun p => (p.1.seat.val, p.2.legalActions)) =
        (promptsOf run.1).map (fun p => (rotateSeat n r p.1.seat, p.2.legalActions)) ∧
      reportedActions run'.1 =
        (reportedActions run.1).map (fun a => (rotateSeat n r a.1, a.2)) ∧
      PaysAlike r run.2 run'.2 := by
  have hlength : (startingStacks.rotate r).length = startingStacks.length := List.length_rotate ..
  set μ : Reseating startingStacks.length (startingStacks.rotate r).length :=
    { Rotation.shift r hlength with
      handId := handId'
      cards := order' } with hμ
  have hseat : ∀ i, (μ i : ℕ) = rotateSeat startingStacks.length r i := fun _ => rfl
  rw [opensActive] at hactive
  split at hactive
  · cases hactive
  · rename_i opened hsetup
    obtain ⟨s, deck, canonicalBb, events⟩ := opened
    obtain ⟨i, -, hi⟩ := List.any_eq_true.mp hactive
    have hpos : 0 < startingStacks.length := i.pos
    have hnumber : ∀ k, μ.seat k = rotateSeat startingStacks.length r k :=
      shift_seat r hlength hpos
    have hstack : ∀ i, (startingStacks.rotate r).get (μ i) = startingStacks.get i := fun i => by
      rw [List.get_eq_getElem, List.getElem_rotate, List.get_eq_getElem]
      congr 1
      exact congrArg Fin.val (μ.toEquiv.symm_apply_apply i)
    -- the rotation deals each seat the cards of the seat it was
    have hdeal : μ.Deal order dealer (rotateSeat startingStacks.length r dealer) seatKinds
        (seatKinds.map (rotateKinds startingStacks.length r)) :=
      { stack_eq := hstack
        dealer_eq := (hnumber dealer).symm
        kinds_eq := deadHand_rotateKinds r hlength seatKinds
        kindsFit := fun hfit => hlength.symm ▸ kindsFit_rotateKinds r hfit
        holeCards_eq := fun i hfunded => hhole i i.isLt (by simpa using hfunded)
        board_eq := hboard }
    obtain ⟨hprompts, hactions, hout⟩ := hdeal.runHand_eq hsetup
      (by simpa using hi) deckSeed deckSeed' answers
    refine ⟨?_, ?_, ?_⟩
    · rw [hprompts, List.map_map]
      refine List.map_congr_left fun p _ => ?_
      rfl
    · rw [hactions]
      simp only [hnumber]
    · rw [hout]
      exact paysAlike_reseat μ hseat _

/-! ## A rotated table of three -/

/-- The first six cards as hole cards for the seats `1`, `2` and `0`. -/
def movedOrder (k : Fin 52) : Card := if k < 6 then ⟨(k + 2) % 6⟩ else ⟨k⟩

/-- Three seats with different stacks play a raised pot. -/
def threeHanded (order : Fin 52 → Card) (startingStacks : List ℕ) (dealer : ℕ) :
    List (Output startingStacks.length) × HandOutcome startingStacks.length :=
  runHand ⟨.noLimitHoldem 1 2, ⟨fun _ => 0⟩⟩ 1 0 order startingStacks dealer none
    [.raise 7, .call, .fold, .check, .allIn, .call]

theorem rotated_alike_three :
    let run := threeHanded Card.mk [50, 100, 80] 2
    let run' := threeHanded movedOrder ([50, 100, 80].rotate 1) (rotateSeat 3 1 2)
    (promptsOf run'.1).map (fun p => (p.1.seat.val, p.2.legalActions)) =
        (promptsOf run.1).map (fun p => (rotateSeat 3 1 p.1.seat, p.2.legalActions)) ∧
      reportedActions run'.1 = (reportedActions run.1).map (fun a => (rotateSeat 3 1 a.1, a.2)) ∧
      PaysAlike 1 run.2 run'.2 :=
  @rotated_alike ⟨.noLimitHoldem 1 2, ⟨fun _ => 0⟩⟩ 1 1 0 0 Card.mk movedOrder [50, 100, 80] 2 none 1
    [.raise 7, .call, .fold, .check, .allIn, .call] (by decide +kernel) (by decide +kernel)
    (by decide +kernel)

end VibePoker.Game
