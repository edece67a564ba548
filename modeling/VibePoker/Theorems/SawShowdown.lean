import VibePoker.Dataset.Rows

/-!
# Who saw the showdown

The extractor marks every seat that has not folded, however the hand ended. It is right
about a hand that went to showdown, and wrong about the winner of any other hand.

## Main definitions

* `WentToShowdown` — a full board and two seats still in
* `SawShowdownExact` — the marked seats are those at the showdown

## Main results

* `sawShowdownExact_iff` — the hands for which that is so
-/

namespace VibePoker.Dataset

open VibePoker.Core VibePoker.Game

variable {seatClass : List String} {hand : CompleteHand}

/-! ## The statement -/

/-- The hand was settled at showdown: with five board cards and at least two seats that had
not folded. -/
def WentToShowdown (hand : CompleteHand) : Prop :=
  hand.result.board.length = 5 ∧ 2 ≤ (Finset.univ.filter fun i => (hand.players i).stillIn).card

/-- The rows with `sawShowdown` are those of the seats that had not folded in a hand that
went to showdown. -/
def SawShowdownExact (hand : CompleteHand) (seatClass : List String) : Prop :=
  ∀ row ∈ extractHandStats hand.log seatClass, row.sawShowdown = true ↔
    WentToShowdown hand ∧ ∃ i, i.val = row.seat ∧ (hand.players i).stillIn

/-! ## Rows and seats -/

/-- A row is that of a seat with a class, and marks it if it is still in. -/
theorem row_of_mem {r : HandStats} (hr : r ∈ extractHandStats hand.log seatClass) :
    ∃ i : Fin hand.startingStacks.length, i.val = r.seat ∧ i < seatClass.length ∧
      (r.sawShowdown = true ↔ (hand.players i).stillIn) := by
  rw [extractHandStats, Extractor.foldl_log, List.nil_append] at hr
  obtain ⟨o, ho, hrow⟩ := List.mem_filterMap.mp hr
  have hmem := List.mem_map_of_mem (f := SeatOutcome.seat) ho
  rw [hand.tellsSeats.seats_eq] at hmem
  obtain ⟨i, hi, hseat⟩ := List.mem_map.mp hmem
  have hout : (hand.players i).status ≠ .out := of_decide_eq_true (List.mem_filter.mp hi).2
  rw [Extractor.row?] at hrow
  split at hrow
  case isTrue => cases hrow
  case isFalse hsatOut =>
    obtain ⟨ownClass, hclass, rfl⟩ := Option.map_eq_some_iff.mp hrow
    have hfolded := hand.tellsSeats.folded_iff o ho i hseat.symm
    rw [or_iff_right hsatOut] at hfolded
    have hin : (hand.players i).stillIn = true ↔ ¬ (hand.players i).status = .folded := by
      cases hstatus : (hand.players i).status with
      | out => exact absurd hstatus hout
      | _ => simp [PlayerState.stillIn, hstatus]
    refine ⟨i, hseat, hseat ▸ (List.getElem?_eq_some_iff.mp hclass).1, ?_⟩
    rw [hin, hfolded, ← (@Extractor.beforeEnd_builder seatClass {} hand o.seat).1]
    rw [Extractor.row, Bool.not_eq_true', Bool.not_eq_true]

/-- A seat that is still in and has a class has a row. -/
theorem exists_row {i : Fin hand.startingStacks.length} (hin : (hand.players i).stillIn)
    (hclass : i < seatClass.length) :
    ∃ r ∈ extractHandStats hand.log seatClass, r.seat = i := by
  have hfolded : (hand.players i).status ≠ .folded ∧ (hand.players i).status ≠ .out := by
    cases hstatus : (hand.players i).status <;> simp [PlayerState.stillIn, hstatus] at hin ⊢
  have hmem : i.val ∈ hand.result.seats.map SeatOutcome.seat := by
    rw [hand.tellsSeats.seats_eq]
    exact List.mem_map_of_mem
      (List.mem_filter.mpr ⟨List.mem_finRange i, decide_eq_true hfolded.2⟩)
  obtain ⟨o, ho, hseat⟩ := List.mem_map.mp hmem
  have hsatOut : ¬ o.satOut = true := fun hsatOut =>
    hfolded.1 ((hand.tellsSeats.folded_iff o ho i hseat).mpr (Or.inl hsatOut))
  rw [extractHandStats, Extractor.foldl_log, List.nil_append]
  have hrow : Extractor.row? seatClass hand.handId
      (Extractor.beforeEnd seatClass {} hand).builder o = some (Extractor.row seatClass hand.handId
        ((Extractor.beforeEnd seatClass {} hand).builder o.seat) o seatClass[i]) := by
    rw [Extractor.row?, if_neg hsatOut, hseat, List.getElem?_eq_getElem hclass, Option.map_some]
    rfl
  exact ⟨_, List.mem_filterMap.mpr ⟨o, ho, hrow⟩, hseat⟩

/-! ## The hands that are marked right -/

/-- For every complete hand, the marked rows are those of the seats at the showdown if and
only if the hand went to showdown or no seat that is still in has a class. -/
theorem sawShowdownExact_iff (hand : CompleteHand) (seatClass : List String) :
    SawShowdownExact hand seatClass ↔ WentToShowdown hand ∨
      ∀ i, (hand.players i).stillIn → seatClass.length ≤ i := by
  constructor
  · intro hexact
    by_contra hnot
    obtain ⟨hshowdown, i, hin, hclass⟩ := by simpa only [not_or, not_forall, not_le] using hnot
    obtain ⟨r, hr, hseat⟩ := exists_row hin hclass
    obtain ⟨j, hj, -, hmarked⟩ := row_of_mem hr
    obtain rfl : j = i := Fin.ext (hj.trans hseat)
    exact hshowdown ((hexact r hr).mp (hmarked.mpr hin)).1
  · intro h r hr
    obtain ⟨i, hi, hclass, hmarked⟩ := row_of_mem hr
    rw [hmarked]
    constructor
    · intro hin
      exact ⟨h.resolve_right fun hnone => absurd (hnone i hin) (Nat.not_le.mpr hclass), i, hi, hin⟩
    · rintro ⟨-, j, hj, hin⟩
      obtain rfl : j = i := Fin.ext (hj.trans hi.symm)
      exact hin

/-! ## A hand that is won without a showdown -/

theorem walkedHand_isFinished : (runHand ⟨.noLimitHoldem 1 2, ⟨fun _ => 0⟩⟩ 1 0 (fun i => ⟨i⟩)
    [100, 100] 0 none [.fold]).2.isFinished := by
  decide +kernel

/-- The small blind folds, and the big blind wins the blinds on an empty board. -/
def walkedHand : CompleteHand :=
  .ofFinished ⟨.noLimitHoldem 1 2, ⟨fun _ => 0⟩⟩ 1 0 (fun i => ⟨i⟩) [100, 100] 0 none [.fold]
    walkedHand_isFinished

/-- The big blind has the row of a seat that saw a showdown. -/
theorem walk_marked : ¬ SawShowdownExact walkedHand ["nit", "lag"] := by
  intro hexact
  have hany : ∃ r ∈ extractHandStats walkedHand.log ["nit", "lag"], r.sawShowdown = true := by
    decide +kernel
  have hboard : walkedHand.result.board.length = 0 := by decide +kernel
  obtain ⟨r, hr, hmarked⟩ := hany
  obtain ⟨⟨hfull, -⟩, -⟩ := (hexact r hr).mp hmarked
  rw [hboard] at hfull
  cases hfull

end VibePoker.Dataset
