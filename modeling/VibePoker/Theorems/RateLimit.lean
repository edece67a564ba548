import VibePoker.Server.Limits

/-!
# The rate limit of a connection

The messages that a connection has handled keep, in every window of time, to the burst
and the refill rate of its limits, and a connection is closed for sending too much only
when one more message would break the limit of a window.

## Main definitions

* `Exceeds` — one more message is more than the limits admit in some window

## Main results

* `reader_loop_rate_limit`
-/

namespace VibePoker.Server

open VibePoker.Net VibePoker.Math

/-- After the messages that were handled, one more at `now` is more than the limits admit
in the window that begins with some message, or at all. -/
def Exceeds (limits : ConnectionLimits) (handled : List (ℕ × ClientMessage)) (now : ℕ) : Prop :=
  limits.rateBurst = 0 ∨ ∃ (i : ℕ) (first : ℕ × ClientMessage), handled[i]? = some first ∧
    limits.rateBurst + limits.rateRefillPerSec * (asSecs now - asSecs first.1) <
      (handled.length - i + 1 : ℕ)

/-- The times at which messages were handled, in seconds. -/
def handledTimes (handled : List (ℕ × ClientMessage)) : List ℚ :=
  handled.map fun entry => asSecs entry.1

theorem exceeds_iff {limits : ConnectionLimits} {handled : List (ℕ × ClientMessage)} {now : ℕ} :
    Exceeds limits handled now ↔ ¬ Fits (limits.rateBurst : ℚ) limits.rateRefillPerSec
      (handledTimes handled).reverse (asSecs now) 1 := by
  have hburst : (1 : ℚ) ≤ limits.rateBurst ↔ limits.rateBurst ≠ 0 := by
    rw [Nat.one_le_cast, Nat.one_le_iff_ne_zero]
  rw [fits_reverse, hburst, not_and_or, not_not]
  refine or_congr_right ?_
  simp only [handledTimes, List.getElem?_map, List.length_map, Option.map_eq_some_iff,
    not_forall, not_le]
  constructor
  · rintro ⟨i, first, hfirst, hlt⟩
    refine ⟨i, asSecs first.1, ⟨first, hfirst, rfl⟩, ?_⟩
    push_cast at hlt
    linarith
  · rintro ⟨i, -, ⟨first, hfirst, rfl⟩, hlt⟩
    refine ⟨i, first, hfirst, ?_⟩
    push_cast
    linarith

variable {bucket : TokenBucket} {past : List ℚ} {wakes : List Wake}

/-- The windows that end with the `j`-th message, and with the one that is refused. -/
theorem readerLoop_fits (h : bucket.Ready past)
    (hascend : (bucket.lastRefill :: readTimes wakes).Pairwise (· ≤ ·)) :
    (∀ j t, (readerLoop bucket wakes).1[j]? = some t →
        Fits bucket.capacity bucket.refillPerSec
          ((handledTimes ((readerLoop bucket wakes).1.take j)).reverse ++ past) (asSecs t.1) 1) ∧
      ((readerLoop bucket wakes).2 = some (.goodbye "rate limit exceeded") →
        (∀ entry ∈ (readerLoop bucket wakes).1, endsReader entry.2 = none) ∧
          ∃ now msg, wakes[(readerLoop bucket wakes).1.length]? = some (.message now false msg) ∧
            ¬ Fits bucket.capacity bucket.refillPerSec
              ((handledTimes (readerLoop bucket wakes).1).reverse ++ past) (asSecs now) 1) := by
  induction wakes generalizing bucket past with
  | nil => simp [readerLoop]
  | cons wake wakes ih =>
    cases wake with
    | closed | failed | elapsed => simp [readerLoop]
    | message now revoked msg =>
      obtain ⟨hfirst, hlater⟩ := List.pairwise_cons.mp hascend
      have hnow := hfirst now List.mem_cons_self
      cases revoked with
      | true => simp [readerLoop]
      | false =>
        rcases h.tryConsume hnow with ⟨hok, hfits, hready⟩ | ⟨hrefused, hfull⟩
        · cases hends : endsReader msg with
          | some outcome =>
            rw [readerLoop_last hok hends]
            refine ⟨fun j t ht => ?_, fun hlimit => ?_⟩
            · obtain ⟨rfl, rfl⟩ : j = 0 ∧ (now, msg) = t := by
                cases j <;> simp_all
              exact hfits
            · exact absurd (hends.trans hlimit) (endsReader_ne msg)
          | none =>
            obtain ⟨hhandled, hlimit⟩ := ih hready (List.pairwise_cons.mpr ⟨fun t ht =>
              (TokenBucket.lastRefill_tryConsume_le hnow).trans
                ((List.pairwise_cons.mp hlater).1 t ht), (List.pairwise_cons.mp hlater).2⟩)
            rw [TokenBucket.capacity_tryConsume, TokenBucket.refillPerSec_tryConsume]
              at hhandled hlimit
            rw [readerLoop_next hok hends]
            have hpast : ∀ times, (handledTimes ((now, msg) :: times)).reverse ++ past =
                (handledTimes times).reverse ++ (asSecs now :: past) := by
              intro times
              rw [handledTimes, List.map_cons, List.reverse_cons, List.append_assoc]
              rfl
            refine ⟨fun j t ht => ?_, fun hclosed => ?_⟩
            · cases j with
              | zero =>
                obtain rfl : (now, msg) = t := by simpa using ht
                exact hfits
              | succ j =>
                rw [List.take_succ_cons, hpast]
                exact hhandled j t (by simpa using ht)
            · obtain ⟨hgoes, later, msg', hwake, hfull⟩ := hlimit hclosed
              rw [hpast]
              exact ⟨List.forall_mem_cons.mpr ⟨hends, hgoes⟩, later, msg', hwake, hfull⟩
        · rw [readerLoop_refused hrefused]
          exact ⟨by simp, fun _ => ⟨by simp, now, msg, rfl, hfull⟩⟩

/-- Where the loop stops before a message that it could have handled, it is for the limit. -/
theorem readerLoop_stops
    (hgoes : ∀ entry ∈ (readerLoop bucket wakes).1, endsReader entry.2 = none)
    {now : ℕ} {msg : ClientMessage}
    (hwake : wakes[(readerLoop bucket wakes).1.length]? = some (.message now false msg)) :
    (readerLoop bucket wakes).2 = some (.goodbye "rate limit exceeded") := by
  induction wakes generalizing bucket with
  | nil => simp at hwake
  | cons wake wakes ih =>
    cases wake with
    | closed | failed | elapsed => simp [readerLoop] at hwake
    | message now' revoked msg' =>
      cases revoked with
      | true => simp [readerLoop] at hwake
      | false =>
        cases hok : (bucket.tryConsume now').1 with
        | false => rw [readerLoop_refused hok]
        | true =>
          cases hends : endsReader msg' with
          | some outcome =>
            rw [readerLoop_last hok hends] at hgoes
            exact absurd ((hgoes _ List.mem_cons_self).symm.trans hends) (by simp)
          | none =>
            rw [readerLoop_next hok hends] at hgoes hwake ⊢
            exact ih (List.forall_mem_cons.mp hgoes).2 (by simpa using hwake)

/-- In every run of a reader loop that wakes up at ascending times, no message was handled
beyond the limits of a window, and the loop ends for the rate limit exactly if it went
on after each message and then read one that is beyond the limits. -/
theorem reader_loop_rate_limit (limits : ConnectionLimits) (start : ℕ) (wakes : List Wake)
    (hascend : (start :: readTimes wakes).Pairwise (· ≤ ·)) :
    (∀ j t, (readerLoop (.new limits start) wakes).1[j]? = some t →
        ¬ Exceeds limits ((readerLoop (.new limits start) wakes).1.take j) t.1) ∧
      ((readerLoop (.new limits start) wakes).2 = some (.goodbye "rate limit exceeded") ↔
        (∀ entry ∈ (readerLoop (.new limits start) wakes).1, endsReader entry.2 = none) ∧
          ∃ now msg, wakes[(readerLoop (.new limits start) wakes).1.length]? =
              some (.message now false msg) ∧
            Exceeds limits (readerLoop (.new limits start) wakes).1 now) := by
  obtain ⟨hhandled, hlimit⟩ := readerLoop_fits (TokenBucket.ready_new limits start) hascend
  simp only [List.append_nil] at hhandled hlimit
  simp only [exceeds_iff, not_not]
  refine ⟨hhandled, hlimit, ?_⟩
  rintro ⟨hgoes, now, msg, hwake, -⟩
  exact readerLoop_stops hgoes hwake

/-- Two messages at once are one too many for a burst of one. -/
theorem reader_loop_rate_limit_two :
    (readerLoop (.new ⟨1, 1⟩ 0) [.message 5 false .heartbeat, .message 5 false .heartbeat]).2 =
      some (.goodbye "rate limit exceeded") := by
  refine (reader_loop_rate_limit ⟨1, 1⟩ 0
    [.message 5 false .heartbeat, .message 5 false .heartbeat] (by decide)).2.mpr ?_
  have hloop : (readerLoop (.new ⟨1, 1⟩ 0)
      [.message 5 false .heartbeat, .message 5 false .heartbeat]).1 = [(5, .heartbeat)] := by
    decide +kernel
  rw [hloop]
  refine ⟨by simp [endsReader], 5, .heartbeat, rfl, Or.inr ⟨0, _, rfl, ?_⟩⟩
  norm_num [asSecs]

end VibePoker.Server
