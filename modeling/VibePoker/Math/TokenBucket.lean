import Mathlib.Algebra.Order.Field.Basic
import Mathlib.Data.Nat.Cast.Order.Ring
import Mathlib.Tactic.Linarith
import Mathlib.Tactic.Ring

/-!
# Token buckets

A bucket is filled at a steady rate up to its capacity, and whoever takes from it takes
one token. What has been taken decides what is left: the level at a time is the least,
over the times at which a token was taken, of what the capacity and the rate since then
leave after the tokens taken since then.

## Main definitions

* `Bucket.attempt` — take a token, if there is one
* `Fits` — a number of tokens is within the limit of each window that ends now

## Main results

* `Bucket.Follows.one_le_levelAt_iff` — whether there is a token, from the times of the
  tokens taken
* `Bucket.Follows.attempt` — an attempt keeps the bucket and the tokens taken together
-/

namespace VibePoker.Math

variable {K : Type*} [Field K] [LinearOrder K]

/-- With tokens taken at the times `past`, newest first, `x` more at `now` keep within
the limit of each window that ends now. -/
def Fits (capacity rate : K) (past : List K) (now x : K) : Prop :=
  x ≤ capacity ∧ ∀ (k : ℕ) (s : K), past[k]? = some s → x + (k + 1) ≤ capacity + rate * (now - s)

theorem fits_nil {capacity rate now x : K} : Fits capacity rate [] now x ↔ x ≤ capacity := by
  simp [Fits]

/-- One more token in the past. -/
theorem fits_cons [IsStrictOrderedRing K] {capacity rate s now x : K} {past : List K} :
    Fits capacity rate (s :: past) now x ↔
      x ≤ capacity ∧ x + 1 ≤ capacity + rate * (now - s) ∧
        ∀ (k : ℕ) (u : K), past[k]? = some u → x + 1 + (k + 1) ≤ capacity + rate * (now - u) := by
  have hshift : ∀ k : ℕ, x + ((k + 1 : ℕ) + 1 : K) = x + 1 + (k + 1) := by
    intro k
    push_cast
    ring
  constructor
  · rintro ⟨hcapacity, hwindows⟩
    refine ⟨hcapacity, by simpa using hwindows 0 s rfl, fun k u hu => ?_⟩
    rw [← hshift]
    exact hwindows (k + 1) u hu
  · rintro ⟨hcapacity, hfirst, hlater⟩
    refine ⟨hcapacity, fun k u hu => ?_⟩
    cases k with
    | zero =>
      obtain rfl : s = u := by simpa using hu
      simpa using hfirst
    | succ k =>
      rw [hshift]
      exact hlater k u hu

/-- The windows that begin with each of the tokens taken, oldest first. -/
theorem fits_reverse {capacity rate now x : K} {times : List K} :
    Fits capacity rate times.reverse now x ↔ x ≤ capacity ∧ ∀ (i : ℕ) (s : K),
      times[i]? = some s → x + (times.length - i : ℕ) ≤ capacity + rate * (now - s) := by
  refine and_congr_right fun _ => ⟨fun h i s hs => ?_, fun h k s hs => ?_⟩
  · have hi := (List.getElem?_eq_some_iff.mp hs).1
    have hback : times.length - 1 - (times.length - 1 - i) = i := by omega
    have hcount : times.length - i = times.length - 1 - i + 1 := by omega
    rw [hcount]
    push_cast
    refine h (times.length - 1 - i) s ?_
    rw [List.getElem?_reverse (by omega), hback]
    exact hs
  · have hk : k < times.length := by
      have := (List.getElem?_eq_some_iff.mp hs).1
      rwa [List.length_reverse] at this
    rw [List.getElem?_reverse hk] at hs
    have hcount : times.length - (times.length - 1 - k) = k + 1 := by omega
    have := h (times.length - 1 - k) s hs
    rw [hcount] at this
    exact_mod_cast this

/-- A bucket, with its level at the last time it was looked at. -/
structure Bucket (K : Type*) where
  capacity : K
  rate : K
  level : K
  last : K

namespace Bucket

/-- A full bucket. -/
def full (capacity rate start : K) : Bucket K := ⟨capacity, rate, capacity, start⟩

/-- What the bucket holds at a later time. -/
def levelAt (b : Bucket K) (now : K) : K := min (b.level + b.rate * (now - b.last)) b.capacity

/-- Take a token, if there is one. -/
def attempt (b : Bucket K) (now : K) : Bool × Bucket K :=
  if 1 ≤ b.levelAt now then (true, { b with level := b.levelAt now - 1, last := now })
  else (false, { b with level := b.levelAt now, last := now })

/-- The level of the bucket is what the tokens taken at the times `past` leave. -/
def Follows (b : Bucket K) (past : List K) : Prop :=
  ∀ now x, b.last ≤ now → (x ≤ b.levelAt now ↔ Fits b.capacity b.rate past now x)

variable {b : Bucket K} {past : List K} {now : K}

/-- Whether there is a token is decided by the tokens taken so far. -/
theorem Follows.one_le_levelAt_iff (h : b.Follows past) (hnow : b.last ≤ now) :
    1 ≤ b.levelAt now ↔ Fits b.capacity b.rate past now 1 :=
  h now 1 hnow

variable [IsStrictOrderedRing K]

theorem follows_full {capacity rate start : K} (hrate : 0 ≤ rate) :
    (full capacity rate start).Follows [] := by
  intro now x hnow
  have hfilled : 0 ≤ rate * (now - start) := mul_nonneg hrate (sub_nonneg.mpr hnow)
  rw [fits_nil, levelAt, full, min_eq_right (by linarith)]

/-- Looking at the bucket changes nothing. -/
theorem Follows.refill (h : b.Follows past) (hrate : 0 ≤ b.rate) (hnow : b.last ≤ now) :
    Follows { b with level := b.levelAt now, last := now } past := by
  intro later x hlater
  rw [← h later x (hnow.trans hlater)]
  have hfilled : 0 ≤ b.rate * (later - now) := mul_nonneg hrate (sub_nonneg.mpr hlater)
  have hsplit : b.rate * (later - b.last) = b.rate * (now - b.last) + b.rate * (later - now) := by
    ring
  simp only [levelAt, le_min_iff, hsplit]
  constructor
  · rintro ⟨hlevel, hcapacity⟩
    have := min_le_left (b.level + b.rate * (now - b.last)) b.capacity
    exact ⟨by linarith, hcapacity⟩
  · rintro ⟨hlevel, hcapacity⟩
    refine ⟨?_, hcapacity⟩
    rw [← sub_le_iff_le_add]
    exact le_min (by linarith) (by linarith)

/-- A token that is taken joins the past. -/
theorem Follows.take (h : b.Follows past) (hnow : b.last ≤ now) :
    Follows { b with level := b.levelAt now - 1, last := now } (now :: past) := by
  intro later x hlater
  -- the level before the token was taken, and before the bucket filled up again
  have hbefore := h now (x + 1 - b.rate * (later - now)) hnow
  have hsplit : ∀ s, b.rate * (later - s) = b.rate * (now - s) + b.rate * (later - now) := by
    intro s
    ring
  have hlevel : x ≤ b.levelAt now - 1 + b.rate * (later - now) ↔
      x + 1 - b.rate * (later - now) ≤ b.levelAt now := by
    constructor <;> intro hle <;> linarith
  rw [fits_cons]
  change x ≤ min (b.levelAt now - 1 + b.rate * (later - now)) b.capacity ↔ _
  rw [le_min_iff, hlevel, hbefore]
  constructor
  · rintro ⟨⟨hfirst, hwindows⟩, hcapacity⟩
    refine ⟨hcapacity, by linarith, fun k u hu => ?_⟩
    have := hwindows k u hu
    rw [hsplit u]
    linarith
  · rintro ⟨hcapacity, hfirst, hwindows⟩
    refine ⟨⟨by linarith, fun k u hu => ?_⟩, hcapacity⟩
    have := hwindows k u hu
    rw [hsplit u] at this
    linarith

/-- An attempt takes a token exactly if one more fits, and the bucket follows what has
been taken. -/
theorem Follows.attempt (h : b.Follows past) (hrate : 0 ≤ b.rate) (hnow : b.last ≤ now) :
    ((b.attempt now).1 = true ∧ Fits b.capacity b.rate past now 1 ∧
        (b.attempt now).2.Follows (now :: past)) ∨
      (b.attempt now).1 = false ∧ ¬ Fits b.capacity b.rate past now 1 ∧
        (b.attempt now).2.Follows past := by
  rw [Bucket.attempt, ← h.one_le_levelAt_iff hnow]
  split
  · exact Or.inl ⟨rfl, ‹_›, h.take hnow⟩
  · exact Or.inr ⟨rfl, ‹_›, h.refill hrate hnow⟩

end Bucket

end VibePoker.Math
