import VibePoker.Dataset.HandStats
import VibePoker.Game.HandLog

/-!
# The rows of a hand

Within a hand the extractor pushes no row; at its end it pushes one for each seat in the
result that does not sit out and has a class. A builder knows whether its seat has folded,
and nothing about a seat that never acted.

## Main definitions

* `row?` — the row of a seat, if it gets one

## Main results

* `builder_actionTaken` — what an action changes in the builders
* `foldl_log` — the rows of a hand that ends
-/

namespace VibePoker.Dataset

open VibePoker.Core VibePoker.Game

variable {seatClass : List String}

namespace Extractor

/-! ## Within a hand -/

theorem builder_actionTaken (x : Extractor) (seat other pot : ℕ) (action : Action) :
    (x.onEvent seatClass (.actionTaken other action pot)).builder seat =
      if seat = other then (x.builder seat).onAction x.street action else x.builder seat := by
  change (Function.update x.perSeat other _ seat).getD {} = _
  rw [Function.update_apply]
  split
  case isTrue h => rw [h, Option.getD_some]
  case isFalse => rfl

theorem onAction_folded (entry : Builder) (street : Street) (action : Action) :
    (entry.onAction street action).folded = (entry.folded || action = .fold) := by
  cases action <;> simp [Builder.onAction]

/-- An event within a hand pushes no row, and concerns the seat that acts. -/
theorem onEvent_mid (x : Extractor) {event : EngineEvent} (hmid : event.isMid) (seat : ℕ) :
    (x.onEvent seatClass event).out = x.out ∧ (x.onEvent seatClass event).handId = x.handId ∧
      (((x.onEvent seatClass event).builder seat).folded = true ↔
        (x.builder seat).folded = true ∨ ∃ pot, event.action? = some (seat, .fold, pot)) ∧
      ((∀ act ∈ event.action?, act.1 ≠ seat) →
        (x.onEvent seatClass event).builder seat = x.builder seat) := by
  cases event with
  | handStarted | handEnded => cases hmid
  | holeCardsDealt | playerAllIn | boardDealt =>
    exact ⟨rfl, rfl, by simp [EngineEvent.action?]; rfl, fun _ => rfl⟩
  | actionTaken other action pot =>
    refine ⟨rfl, rfl, ?_, fun hne => ?_⟩
    · rw [builder_actionTaken]
      split
      case isTrue h => simp [onAction_folded, EngineEvent.action?, h]
      case isFalse h => simp [EngineEvent.action?, Ne.symm h]
    · rw [builder_actionTaken, if_neg fun h => hne _ rfl h.symm]

/-- So do the events within a hand. -/
theorem foldl_mid (x : Extractor) {mid : List EngineEvent} (hmid : ∀ event ∈ mid, event.isMid)
    (seat : ℕ) :
    (mid.foldl (onEvent seatClass) x).out = x.out ∧
      (mid.foldl (onEvent seatClass) x).handId = x.handId ∧
      (((mid.foldl (onEvent seatClass) x).builder seat).folded = true ↔
        (x.builder seat).folded = true ∨
          ∃ pot, (seat, .fold, pot) ∈ mid.filterMap EngineEvent.action?) ∧
      ((∀ act ∈ mid.filterMap EngineEvent.action?, act.1 ≠ seat) →
        (mid.foldl (onEvent seatClass) x).builder seat = x.builder seat) := by
  induction mid generalizing x with
  | nil => simp
  | cons event mid ih =>
    obtain ⟨hout, hid, hfolded, hkept⟩ :=
      @onEvent_mid seatClass x event (hmid event List.mem_cons_self) seat
    obtain ⟨hout', hid', hfolded', hkept'⟩ :=
      ih (x.onEvent seatClass event) fun later hlater => hmid later (List.mem_cons_of_mem _ hlater)
    refine ⟨hout'.trans hout, hid'.trans hid, ?_, fun hne => ?_⟩
    · rw [List.foldl_cons, hfolded', hfolded, or_assoc, ← exists_or]
      simp only [List.mem_filterMap, List.mem_cons, exists_eq_or_imp]
    · have hne' : (∀ act ∈ event.action?, act.1 ≠ seat) ∧
          ∀ act ∈ mid.filterMap EngineEvent.action?, act.1 ≠ seat := by
        simp only [List.mem_filterMap, List.mem_cons, exists_eq_or_imp] at hne ⊢
        exact ⟨fun act hact => hne act (Or.inl hact), fun act hact => hne act (Or.inr hact)⟩
      rw [List.foldl_cons, hkept' hne'.2, hkept hne'.1]

/-! ## The end of a hand -/

/-- The row that is pushed for an outcome, if any. -/
def row? (seatClass : List String) (handId : ℕ) (noted : ℕ → Builder) (outcome : SeatOutcome) :
    Option HandStats :=
  if outcome.satOut then none
  else (seatClass[outcome.seat]?).map (row seatClass handId (noted outcome.seat) outcome)

theorem onOutcome_eq (x : Extractor) (outcome : SeatOutcome) :
    (x.onOutcome seatClass outcome).out =
        x.out ++ (row? seatClass x.handId x.builder outcome).toList ∧
      (x.onOutcome seatClass outcome).handId = x.handId ∧
      ∀ seat, seat ≠ outcome.seat → (x.onOutcome seatClass outcome).builder seat = x.builder seat := by
  rw [onOutcome, row?]
  split
  case isTrue => simp
  case isFalse =>
    split
    case h_1 hnone => simp [hnone]
    case h_2 ownClass hsome =>
      refine ⟨by simp [hsome], rfl, fun seat hseat => ?_⟩
      change (Function.update x.perSeat outcome.seat none seat).getD {} = _
      rw [Function.update_of_ne hseat]
      rfl

/-- The rows of a result that names no seat twice. -/
theorem foldl_onOutcome (x : Extractor) {outcomes : List SeatOutcome}
    (hnodup : (outcomes.map SeatOutcome.seat).Nodup) :
    (outcomes.foldl (onOutcome seatClass) x).out =
      x.out ++ outcomes.filterMap (row? seatClass x.handId x.builder) := by
  induction outcomes generalizing x with
  | nil => simp
  | cons o outcomes ih =>
    rw [List.map_cons, List.nodup_cons] at hnodup
    obtain ⟨hout, hid, hkept⟩ := @onOutcome_eq seatClass x o
    have hrows : outcomes.filterMap (row? seatClass (x.onOutcome seatClass o).handId
        (x.onOutcome seatClass o).builder) =
          outcomes.filterMap (row? seatClass x.handId x.builder) := by
      refine List.filterMap_congr fun later hlater => ?_
      have hne : later.seat ≠ o.seat := fun heq =>
        hnodup.1 (heq ▸ List.mem_map_of_mem hlater)
      rw [row?, row?, hid, hkept later.seat hne]
    rw [List.foldl_cons, ih _ hnodup.2, hrows, hout, List.append_assoc]
    congr 1
    cases hrow : row? seatClass x.handId x.builder o with
    | none => simp [hrow]
    | some r => simp [hrow]

/-! ## The log of a hand -/

/-- The extractor before the end of a hand. -/
def beforeEnd (seatClass : List String) (x : Extractor) (hand : CompleteHand) : Extractor :=
  hand.log.dropLast.foldl (onEvent seatClass) x

variable (x : Extractor) (hand : CompleteHand)

/-- What the builders have noted at the end of a hand: who has folded, and nothing of seats
that never acted. -/
theorem beforeEnd_builder (seat : ℕ) :
    (((x.beforeEnd seatClass hand).builder seat).folded = true ↔
        ∃ pot, (seat, .fold, pot) ∈ hand.actions) ∧
      ((∀ act ∈ hand.actions, act.1 ≠ seat) → (x.beforeEnd seatClass hand).builder seat = {}) := by
  obtain ⟨mid, hlog, hmid, hactions⟩ := hand.tellsSeats.log_eq
  obtain ⟨-, -, hfolded, hkept⟩ := @foldl_mid seatClass
    (x.onEvent seatClass (.handStarted hand.handId hand.dealer hand.deckSeed)) mid hmid seat
  rw [beforeEnd, hlog, ← List.cons_append, List.dropLast_concat, List.foldl_cons, ← hactions]
  refine ⟨hfolded.trans ?_, hkept⟩
  simp [builder, onEvent]

/-- A hand that ends adds its rows. -/
theorem foldl_log :
    (hand.log.foldl (onEvent seatClass) x).out = x.out ++ hand.result.seats.filterMap
      (row? seatClass hand.handId (x.beforeEnd seatClass hand).builder) := by
  obtain ⟨mid, hlog, hmid, -⟩ := hand.tellsSeats.log_eq
  obtain ⟨hout, hid, -⟩ := @foldl_mid seatClass
    (x.onEvent seatClass (.handStarted hand.handId hand.dealer hand.deckSeed)) mid hmid 0
  rw [beforeEnd, hlog, ← List.cons_append, List.dropLast_concat, List.foldl_append,
    List.foldl_cons, List.foldl_cons, List.foldl_nil]
  refine (foldl_onOutcome _ hand.nodup_seats).trans ?_
  rw [hout, hid]
  rfl

end Extractor

end VibePoker.Dataset
