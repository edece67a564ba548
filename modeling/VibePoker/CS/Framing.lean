import Mathlib.Data.List.Forall2

/-!
# Reading framed values

A reader takes one value off the front of its input. A frame is read as a value
whatever follows it; the frames of a list of values, one after the other, are read as
the list. Cut off after some bytes, they are read up to the frame that the cut is in.

## Main definitions

* `Reader` — takes a value off its input, which gets shorter
* `Reader.readAll` — read until a read fails
* `Reader.Reads` — a frame of a value
* `cutAt` — where frames are cut after some bytes

## Main results

* `Reader.readAll_frames` — frames are read as their values, and used up
* `Reader.readAll_take` — frames that are cut off are read up to the cut
-/

namespace VibePoker.CS

variable {β ε α : Type*}

/-- Takes a value off the front of the input, or fails. -/
structure Reader (β ε α : Type*) where
  read : List β → Except ε (α × List β)
  shorter : ∀ {input rest : List β} {a : α}, read input = .ok (a, rest) →
    rest.length < input.length

namespace Reader

/-- Read values until a read fails: the values, the error, and the input that is left. -/
def readAll (r : Reader β ε α) (input : List β) : List α × ε × List β :=
  match h : r.read input with
  | .error error => ([], error, input)
  | .ok (a, rest) =>
    have := r.shorter h
    let later := r.readAll rest
    (a :: later.1, later.2)
termination_by input.length

/-- The frame is read as the value, whatever follows it. -/
def Reads (r : Reader β ε α) (frame : List β) (a : α) : Prop :=
  ∀ rest, r.read (frame ++ rest) = .ok (a, rest)

variable {r : Reader β ε α}

theorem readAll_of_error {input : List β} {error : ε} (h : r.read input = .error error) :
    r.readAll input = ([], error, input) := by
  rw [readAll]
  split
  case h_1 error' h' =>
    rw [h] at h'
    cases h'
    rfl
  case h_2 a rest h' =>
    rw [h] at h'
    cases h'

theorem readAll_of_ok {input rest : List β} {a : α} (h : r.read input = .ok (a, rest)) :
    r.readAll input = (a :: (r.readAll rest).1, (r.readAll rest).2) := by
  rw [readAll]
  split
  case h_1 error h' =>
    rw [h] at h'
    cases h'
  case h_2 a' rest' h' =>
    rw [h] at h'
    cases h'
    rfl

/-- Frames, one after the other, are read as their values. -/
theorem readAll_frames {frames : List (List β)} {values : List α}
    (h : List.Forall₂ r.Reads frames values) (rest : List β) :
    r.readAll (frames.flatten ++ rest) = (values ++ (r.readAll rest).1, (r.readAll rest).2) := by
  induction h with
  | nil => rfl
  | cons hframe hframes ih =>
    rw [List.flatten_cons, List.append_assoc, readAll_of_ok (hframe _), ih]
    rfl

end Reader

/-! ## Frames that are cut off -/

/-- Where frames are cut after `size` bytes: how many frames are complete, and how many
bytes of the next one are there. -/
def cutAt : List (List β) → ℕ → ℕ × ℕ
  | [], _ => (0, 0)
  | frame :: frames, size =>
    if frame.length ≤ size then
      let later := cutAt frames (size - frame.length)
      (later.1 + 1, later.2)
    else (0, size)

/-- What is left of the frame that the cut is in. -/
def pieceAt (frames : List (List β)) (size : ℕ) : List β :=
  (frames.getD (cutAt frames size).1 []).take (cutAt frames size).2

theorem flatten_take (frames : List (List β)) (size : ℕ) :
    frames.flatten.take size = (frames.take (cutAt frames size).1).flatten ++ pieceAt frames size := by
  induction frames generalizing size with
  | nil => simp [pieceAt]
  | cons frame frames ih =>
    rw [List.flatten_cons, List.take_append, pieceAt, cutAt]
    by_cases hsize : frame.length ≤ size
    · rw [if_pos hsize, List.take_of_length_le hsize, ih (size - frame.length)]
      simp [pieceAt]
    · rw [if_neg hsize, Nat.sub_eq_zero_of_le (Nat.le_of_not_le hsize)]
      simp

/-- A cut within a frame is in one of the frames, and not at the end of it. -/
theorem exists_of_cutAt_pos {frames : List (List β)} {size : ℕ} (h : (cutAt frames size).2 ≠ 0) :
    ∃ frame, frames[(cutAt frames size).1]? = some frame ∧
      (cutAt frames size).2 < frame.length := by
  induction frames generalizing size with
  | nil => exact absurd rfl h
  | cons frame frames ih =>
    rw [cutAt] at h ⊢
    by_cases hsize : frame.length ≤ size
    · rw [if_pos hsize] at h ⊢
      rw [List.getElem?_cons_succ]
      exact ih h
    · rw [if_neg hsize]
      exact ⟨frame, rfl, Nat.lt_of_not_le hsize⟩

/-- Frames that are cut off are read up to the cut. -/
theorem Reader.readAll_take {r : Reader β ε α} {frames : List (List β)} {values : List α}
    (h : List.Forall₂ r.Reads frames values) (size : ℕ) :
    r.readAll (frames.flatten.take size) =
      (values.take (cutAt frames size).1 ++ (r.readAll (pieceAt frames size)).1,
        (r.readAll (pieceAt frames size)).2) := by
  rw [flatten_take]
  exact Reader.readAll_frames (List.forall₂_take _ h) _

end VibePoker.CS
