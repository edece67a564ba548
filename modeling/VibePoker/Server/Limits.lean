import Mathlib.Data.Rat.Cast.Order
import VibePoker.Math.TokenBucket
import VibePoker.Net.Protocol

/-!
# Rate limits

The token bucket of a connection, and the loop that reads its messages. Times are in
nanoseconds and never go back; the levels of the bucket are rational numbers in place
of floating-point ones. How a message is handled is left to the request handlers: here
the loop hands it on, and says how it ends.

## Main definitions

* `TokenBucket.tryConsume`
* `readerLoop` — the messages that are handled, and the end of the loop
-/

namespace VibePoker.Server

open VibePoker.Net VibePoker.Math

/-- How many messages a connection may send. -/
structure ConnectionLimits where
  rateBurst : ℕ
  rateRefillPerSec : ℕ
deriving DecidableEq, Repr

/-- Thirty messages in quick succession, and twenty per second. -/
instance instInhabitedConnectionLimits : Inhabited ConnectionLimits := ⟨⟨30, 20⟩⟩

/-- A number of nanoseconds in seconds. -/
def asSecs (nanos : ℕ) : ℚ := nanos / 10 ^ 9

theorem asSecs_mono {s t : ℕ} (h : s ≤ t) : asSecs s ≤ asSecs t := by
  unfold asSecs
  gcongr

theorem asSecs_sub {s t : ℕ} (h : s ≤ t) : asSecs (t - s) = asSecs t - asSecs s := by
  rw [asSecs, asSecs, asSecs, Nat.cast_sub h, sub_div]

/-! ## The bucket -/

structure TokenBucket where
  capacity : ℚ
  refillPerSec : ℚ
  tokens : ℚ
  lastRefill : ℕ
deriving DecidableEq, Repr

namespace TokenBucket

def new (limits : ConnectionLimits) (now : ℕ) : TokenBucket :=
  ⟨limits.rateBurst, limits.rateRefillPerSec, limits.rateBurst, now⟩

def refill (b : TokenBucket) (now : ℕ) : TokenBucket :=
  let elapsed := asSecs (now - b.lastRefill)
  if 0 < elapsed then
    { b with tokens := min (b.tokens + elapsed * b.refillPerSec) b.capacity, lastRefill := now }
  else b

/-- Consume a token, if there is one after the refill. -/
def tryConsume (b : TokenBucket) (now : ℕ) : Bool × TokenBucket :=
  let b := b.refill now
  if 1 ≤ b.tokens then (true, { b with tokens := b.tokens - 1 }) else (false, b)

/-- The bucket, with its times in seconds. -/
def toBucket (b : TokenBucket) : Bucket ℚ :=
  ⟨b.capacity, b.refillPerSec, b.tokens, asSecs b.lastRefill⟩

variable {b : TokenBucket} {now : ℕ}

/-- A refill that finds no time elapsed has nothing to do. -/
theorem toBucket_refill (hnow : b.lastRefill ≤ now) (htokens : b.tokens ≤ b.capacity) :
    (b.refill now).toBucket =
      { b.toBucket with level := b.toBucket.levelAt (asSecs now), last := asSecs now } := by
  simp only [refill, toBucket, Bucket.levelAt, ← asSecs_sub hnow]
  split
  · rw [mul_comm]
  · rename_i helapsed
    have hzero : asSecs (now - b.lastRefill) = 0 :=
      le_antisymm (not_lt.mp helapsed) (by unfold asSecs; positivity)
    have hlast : asSecs b.lastRefill = asSecs now := by
      have := asSecs_sub hnow
      linarith
    rw [hzero, mul_zero, add_zero, min_eq_left htokens, hlast]

/-- The bucket of the connection is the general one. -/
theorem toBucket_tryConsume (hnow : b.lastRefill ≤ now) (htokens : b.tokens ≤ b.capacity) :
    (b.tryConsume now).1 = (b.toBucket.attempt (asSecs now)).1 ∧
      (b.tryConsume now).2.toBucket = (b.toBucket.attempt (asSecs now)).2 := by
  have hrefill := toBucket_refill hnow htokens
  have hlevel : (b.refill now).tokens = b.toBucket.levelAt (asSecs now) :=
    congrArg Bucket.level hrefill
  by_cases htoken : 1 ≤ (b.refill now).tokens
  · simp only [tryConsume, Bucket.attempt, ← hlevel, if_pos htoken, true_and]
    have := congrArg (fun bucket : Bucket ℚ => { bucket with level := bucket.level - 1 }) hrefill
    rwa [← hlevel] at this
  · simp only [tryConsume, Bucket.attempt, ← hlevel, if_neg htoken, true_and]
    rwa [← hlevel] at hrefill

/-- The level is that after the refill, or one less. -/
theorem tryConsume_snd (b : TokenBucket) (now : ℕ) :
    ∃ tokens, (b.tryConsume now).2 = { b.refill now with tokens := tokens } ∧
      tokens ≤ (b.refill now).tokens := by
  rw [tryConsume]
  split
  · exact ⟨_, rfl, sub_le_self _ zero_le_one⟩
  · exact ⟨_, rfl, le_rfl⟩

theorem capacity_tryConsume (b : TokenBucket) (now : ℕ) :
    (b.tryConsume now).2.capacity = b.capacity := by
  obtain ⟨tokens, hnext, -⟩ := tryConsume_snd b now
  rw [hnext, refill]
  split <;> rfl

theorem refillPerSec_tryConsume (b : TokenBucket) (now : ℕ) :
    (b.tryConsume now).2.refillPerSec = b.refillPerSec := by
  obtain ⟨tokens, hnext, -⟩ := tryConsume_snd b now
  rw [hnext, refill]
  split <;> rfl

theorem lastRefill_tryConsume_le (hnow : b.lastRefill ≤ now) :
    (b.tryConsume now).2.lastRefill ≤ now := by
  obtain ⟨tokens, hnext, -⟩ := tryConsume_snd b now
  rw [hnext, refill]
  split
  · exact le_rfl
  · exact hnow

theorem tokens_tryConsume_le (htokens : b.tokens ≤ b.capacity) :
    (b.tryConsume now).2.tokens ≤ b.capacity := by
  obtain ⟨tokens, hnext, hle⟩ := tryConsume_snd b now
  rw [hnext]
  refine hle.trans ?_
  rw [refill]
  split
  · exact min_le_right _ _
  · exact htokens

/-- What the bucket keeps between two messages; `past` are the times at which tokens were
consumed, newest first. -/
structure Ready (b : TokenBucket) (past : List ℚ) : Prop where
  tokens_le : b.tokens ≤ b.capacity
  refill_nonneg : 0 ≤ b.refillPerSec
  follows : b.toBucket.Follows past

theorem ready_new (limits : ConnectionLimits) (now : ℕ) : (new limits now).Ready [] where
  tokens_le := le_rfl
  refill_nonneg := Nat.cast_nonneg _
  follows := Bucket.follows_full (Nat.cast_nonneg _)

/-- A token is consumed exactly if one more fits. -/
theorem Ready.tryConsume {past : List ℚ} (h : b.Ready past) (hnow : b.lastRefill ≤ now) :
    ((b.tryConsume now).1 = true ∧ Fits b.capacity b.refillPerSec past (asSecs now) 1 ∧
        (b.tryConsume now).2.Ready (asSecs now :: past)) ∨
      (b.tryConsume now).1 = false ∧ ¬ Fits b.capacity b.refillPerSec past (asSecs now) 1 := by
  obtain ⟨hok, hbucket⟩ := toBucket_tryConsume hnow h.tokens_le
  rw [hok]
  rcases h.follows.attempt h.refill_nonneg (asSecs_mono hnow) with
    ⟨htaken, hfits, hfollows⟩ | ⟨hrefused, hfull, -⟩
  · refine Or.inl ⟨htaken, hfits, ?_, ?_, hbucket ▸ hfollows⟩
    · rw [capacity_tryConsume]
      exact tokens_tryConsume_le h.tokens_le
    · rw [refillPerSec_tryConsume]
      exact h.refill_nonneg
  · exact Or.inr ⟨hrefused, hfull⟩

end TokenBucket

/-! ## The reader loop -/

/-- What the loop wakes up to. -/
inductive Wake
  /-- A message was read at this time; `revoked` is the flag of the session. -/
  | message (now : ℕ) (revoked : Bool) (msg : ClientMessage)
  /-- The peer has closed the connection. -/
  | closed
  /-- The bytes read are no message. -/
  | failed
  /-- Nothing was read for too long. -/
  | elapsed
deriving DecidableEq, Repr

/-- How the loop ends. -/
inductive ReaderEnd
  | closed
  | goodbye (reason : String)
  | wire
  | outOfOrder
deriving DecidableEq, Repr

/-- How the loop ends after a message, if it does. -/
def endsReader : ClientMessage → Option ReaderEnd
  | .register .. | .authenticate .. => some .outOfOrder
  | .disconnect => some (.goodbye "client requested")
  | _ => none

/-- The messages that are handled, with their times, and the end of the loop. -/
def readerLoop (bucket : TokenBucket) : List Wake → List (ℕ × ClientMessage) × Option ReaderEnd
  | [] => ([], none)
  | .closed :: _ => ([], some .closed)
  | .failed :: _ => ([], some .wire)
  | .elapsed :: _ => ([], some (.goodbye "idle timeout"))
  | .message now revoked msg :: wakes =>
    if revoked then ([], some (.goodbye "session revoked"))
    else if !(bucket.tryConsume now).1 then ([], some (.goodbye "rate limit exceeded"))
    else
      match endsReader msg with
      | some outcome => ([(now, msg)], some outcome)
      | none =>
        let rest := readerLoop (bucket.tryConsume now).2 wakes
        ((now, msg) :: rest.1, rest.2)

section ReaderLoop

variable {bucket : TokenBucket} {now : ℕ} {msg : ClientMessage} {wakes : List Wake}

/-- A message that ends the loop. -/
theorem readerLoop_last (hok : (bucket.tryConsume now).1 = true) {outcome : ReaderEnd}
    (hends : endsReader msg = some outcome) :
    readerLoop bucket (.message now false msg :: wakes) = ([(now, msg)], some outcome) := by
  simp [readerLoop, hok, hends]

/-- A message after which the loop goes on. -/
theorem readerLoop_next (hok : (bucket.tryConsume now).1 = true) (hends : endsReader msg = none) :
    readerLoop bucket (.message now false msg :: wakes) =
      ((now, msg) :: (readerLoop (bucket.tryConsume now).2 wakes).1,
        (readerLoop (bucket.tryConsume now).2 wakes).2) := by
  simp [readerLoop, hok, hends]

/-- A message that there is no token for. -/
theorem readerLoop_refused (hrefused : (bucket.tryConsume now).1 = false) :
    readerLoop bucket (.message now false msg :: wakes) =
      ([], some (.goodbye "rate limit exceeded")) := by
  simp [readerLoop, hrefused]

/-- No message is an occasion to speak of the rate limit. -/
theorem endsReader_ne (msg : ClientMessage) :
    endsReader msg ≠ some (.goodbye "rate limit exceeded") := by
  cases msg <;> simp [endsReader]

end ReaderLoop

/-- When the loop wakes up to messages. -/
def readTimes : List Wake → List ℕ
  | [] => []
  | .message now _ _ :: wakes => now :: readTimes wakes
  | _ :: wakes => readTimes wakes

end VibePoker.Server
