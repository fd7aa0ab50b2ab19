import Crabscale.Rust.Collections
import Mathlib

/-!
# The rate limiter

One bucket of tokens for each key, filled at a constant rate up to the burst. With exact fractions
for the tokens, `retry_after_least` says that the announced wait is the shortest whole number of
seconds that suffices.
-/

namespace Crabscale.Server

open Rust

/-! ## Buckets -/

def seconds (nanos : Nat) : ℚ := nanos / 10 ^ 9

theorem seconds_nonneg (nanos : Nat) : 0 ≤ seconds nanos := by
  unfold seconds
  positivity

/-- The tokens that come in a second. -/
def ratePerSec (perMin : Nat) : ℚ := perMin / 60

theorem rate_nonneg (perMin : Nat) : 0 ≤ ratePerSec perMin := by
  unfold ratePerSec
  positivity

theorem rate_pos {perMin : Nat} (h : 0 < perMin) : 0 < ratePerSec perMin := by
  unfold ratePerSec
  positivity

/-- A bucket, as it was at a time in nanoseconds. -/
structure Bucket where
  tokens : ℚ
  updated : Nat
  nonneg : 0 ≤ tokens

namespace Bucket

/-- The tokens at a later time. -/
def tokensAt (perMin burst : Nat) (bucket : Bucket) (now : Nat) : ℚ :=
  min (bucket.tokens + seconds (now - bucket.updated) * ratePerSec perMin) burst

theorem tokens_at_nonneg (perMin burst : Nat) (bucket : Bucket) (now : Nat) :
    0 ≤ bucket.tokensAt perMin burst now :=
  le_min (add_nonneg bucket.nonneg (mul_nonneg (seconds_nonneg _) (rate_nonneg perMin)))
    (Nat.cast_nonneg burst)

def refill (perMin burst : Nat) (bucket : Bucket) (now : Nat) : Bucket :=
  if 0 < seconds (now - bucket.updated) then
    { tokens := bucket.tokensAt perMin burst now
      updated := now
      nonneg := bucket.tokens_at_nonneg perMin burst now }
  else { bucket with updated := now }

/-- A bucket for a new key. -/
def fresh (burst now : Nat) : Bucket :=
  { tokens := burst, updated := now, nonneg := Nat.cast_nonneg burst }

def spend (bucket : Bucket) : Bucket :=
  if h : 1 ≤ bucket.tokens then
    { bucket with tokens := bucket.tokens - 1, nonneg := sub_nonneg.mpr h }
  else bucket

/-- The seconds until there is a token; the cast to `u64` saturates. -/
def retryAfter (perMin : Nat) (bucket : Bucket) : Nat :=
  max (min ⌈(1 - bucket.tokens) / ratePerSec perMin⌉₊ (2 ^ 64 - 1)) 1

variable {perMin burst now secs : Nat} {bucket : Bucket}

@[simp] theorem refill_updated : (bucket.refill perMin burst now).updated = now := by
  unfold refill
  split <;> rfl

/-- Seconds after it was filled a bucket has a token just if they bring what is missing. -/
theorem refill_later (hburst : 1 ≤ burst) (hupdated : bucket.updated = now) (hsecs : 0 < secs) :
    1 ≤ (bucket.refill perMin burst (now + secs * 10 ^ 9)).tokens ↔
      1 ≤ bucket.tokens + secs * ratePerSec perMin := by
  have hburst : (1 : ℚ) ≤ burst := by exact_mod_cast hburst
  have helapsed : seconds (now + secs * 10 ^ 9 - bucket.updated) = secs := by
    rw [hupdated, Nat.add_sub_cancel_left, seconds]
    push_cast
    norm_num
  have hpos : (0 : ℚ) < secs := by exact_mod_cast hsecs
  rw [refill, if_pos (by rwa [helapsed])]
  dsimp only
  rw [tokensAt, helapsed, le_min_iff, and_iff_left hburst]

/-- The announced wait is the shortest one. -/
theorem retry_after_iff (hrate : 0 < perMin) (hsecs : 0 < secs) :
    1 ≤ bucket.tokens + secs * ratePerSec perMin ↔ bucket.retryAfter perMin ≤ secs := by
  have hrates := rate_pos hrate
  -- A minute fills any bucket, so the cast never saturates.
  have hminute : ⌈(1 - bucket.tokens) / ratePerSec perMin⌉₊ ≤ 60 := by
    have hper : (1 : ℚ) ≤ perMin := by exact_mod_cast hrate
    have hnonneg := bucket.nonneg
    rw [Nat.ceil_le, div_le_iff₀ hrates, ratePerSec]
    push_cast
    linarith
  rw [retryAfter, min_eq_left (by omega), max_le_iff, and_iff_left (Nat.succ_le_of_lt hsecs),
    Nat.ceil_le, div_le_iff₀ hrates, sub_le_iff_le_add']

end Bucket

/-! ## The limiter -/

/-- `RateLimiter`; a rate or a burst of zero disables the limit. -/
structure RateLimiter where
  buckets : HashMap String Bucket := ∅
  perMin : Nat
  burst : Nat
  maxEntries : Nat

namespace RateLimiter

def idleTtl : Nat := 10 * 60 * 10 ^ 9

def prune (limiter : RateLimiter) (now : Nat) : RateLimiter :=
  if limiter.buckets.keys.length < limiter.maxEntries then limiter
  else
    { limiter with
      buckets := HashMap.retain (fun _ bucket =>
        !(idleTtl ≤ now - bucket.updated && limiter.burst ≤ bucket.tokens)) limiter.buckets }

/-- When the bucket of a key was updated. -/
def updatedAt (limiter : RateLimiter) (key : String) : Nat :=
  (limiter.buckets.lookup key).elim 0 Bucket.updated

def evictOldest (limiter : RateLimiter) (order : Iteration String) : RateLimiter :=
  match (order.walk limiter.buckets.keys).argmin limiter.updatedAt with
  | some key => { limiter with buckets := limiter.buckets.erase key }
  | none => limiter

def makeRoom (limiter : RateLimiter) (order : Iteration String) (now : Nat) : RateLimiter :=
  let pruned :=
    if limiter.maxEntries ≤ limiter.buckets.keys.length then limiter.prune now else limiter
  if limiter.maxEntries ≤ pruned.buckets.keys.length then pruned.evictOldest order else pruned

/-- The bucket of a key, filled or new, and the limiter with room for it. -/
def filled (limiter : RateLimiter) (order : Iteration String) (key : String) (now : Nat) :
    Bucket × RateLimiter :=
  match limiter.buckets.lookup key with
  | some bucket => (bucket.refill limiter.perMin limiter.burst now, limiter)
  | none => (.fresh limiter.burst now, limiter.makeRoom order now)

/-- `check` at a time: no answer when a token was taken, or the seconds to wait. -/
def check (limiter : RateLimiter) (order : Iteration String) (key : String) (now : Nat) :
    Option Nat × RateLimiter :=
  if ratePerSec limiter.perMin ≤ 0 ∨ (limiter.burst : ℚ) ≤ 0 then (none, limiter)
  else
    let (bucket, room) := limiter.filled order key now
    (if 1 ≤ bucket.tokens then none else some (bucket.retryAfter limiter.perMin),
      { room with buckets := room.buckets.insert key bucket.spend })

variable {limiter : RateLimiter} {order : Iteration String} {key : String} {now : Nat}

section Enabled

variable (hrate : 0 < limiter.perMin) (hburst : 0 < limiter.burst)

include hrate hburst

theorem check_enabled : limiter.check order key now =
    (if 1 ≤ (limiter.filled order key now).1.tokens then none
      else some ((limiter.filled order key now).1.retryAfter limiter.perMin),
    { (limiter.filled order key now).2 with
      buckets := (limiter.filled order key now).2.buckets.insert key
        (limiter.filled order key now).1.spend }) := by
  have hburst : (0 : ℚ) < limiter.burst := by exact_mod_cast hburst
  rw [check, if_neg (not_or.mpr ⟨not_le.mpr (rate_pos hrate), not_le.mpr hburst⟩)]

theorem check_admits_iff :
    (limiter.check order key now).1 = none ↔ 1 ≤ (limiter.filled order key now).1.tokens := by
  rw [check_enabled hrate hburst, ite_eq_left_iff]
  exact ⟨fun h => by_contra fun hempty => (Option.some_ne_none _ (h hempty)).elim,
    fun h hempty => (hempty h).elim⟩

end Enabled

theorem filled_some {bucket : Bucket} (h : limiter.buckets.lookup key = some bucket) :
    limiter.filled order key now =
      (bucket.refill limiter.perMin limiter.burst now, limiter) := by
  rw [filled, h]

theorem filled_none (h : limiter.buckets.lookup key = none) :
    limiter.filled order key now = (.fresh limiter.burst now, limiter.makeRoom order now) := by
  rw [filled, h]

end RateLimiter

/-- A refused client that comes back after the announced seconds is admitted, and it is not before
that. -/
theorem retry_after_least (limiter after : RateLimiter) (hburst : 1 ≤ limiter.burst)
    (order : Iteration String) (key : String) (now secs : Nat)
    (h : limiter.check order key now = (some secs, after)) (order' : Iteration String) :
    0 < secs ∧ ∀ wait, 0 < wait →
      ((after.check order' key (now + wait * 10 ^ 9)).1 = none ↔ secs ≤ wait) := by
  have hrate : 0 < limiter.perMin := by
    refine Nat.pos_of_ne_zero fun hzero => ?_
    rw [RateLimiter.check, if_pos (.inl (by simp [ratePerSec, hzero]))] at h
    cases h
  have hone : (1 : ℚ) ≤ limiter.burst := by exact_mod_cast hburst
  rw [RateLimiter.check_enabled hrate hburst] at h
  cases hlookup : limiter.buckets.lookup key with
  | none =>
    rw [RateLimiter.filled_none hlookup] at h
    cases (if_pos hone).symm.trans (Prod.ext_iff.mp h).1
  | some bucket =>
    rw [RateLimiter.filled_some hlookup] at h
    dsimp only at h
    split at h
    · cases h
    case isFalse hempty =>
    cases h
    refine ⟨Nat.lt_of_lt_of_le Nat.one_pos (le_max_right _ _), fun wait hwait => ?_⟩
    rw [RateLimiter.check_admits_iff (by exact hrate) (by exact hburst),
      RateLimiter.filled_some (AList.lookup_insert _), Bucket.spend, dif_neg hempty]
    dsimp only
    rw [Bucket.refill_later hburst Bucket.refill_updated hwait, Bucket.retry_after_iff hrate hwait]

/-- A limiter whose only bucket is empty. -/
def emptied : RateLimiter :=
  { buckets := AList.singleton "a" ⟨0, 0, le_rfl⟩, perMin := 60, burst := 1, maxEntries := 4 }

def inOrder : Iteration String := ⟨id, fun _ => .refl _⟩

theorem retry_after_least_emptied :
    (emptied.check inOrder "a" 0).1 = some 1 ∧ ∀ wait, 0 < wait →
      (((emptied.check inOrder "a" 0).2.check inOrder "a" (0 + wait * 10 ^ 9)).1 = none ↔
        1 ≤ wait) := by
  have h : (emptied.check inOrder "a" 0).1 = some 1 := by decide +kernel
  exact ⟨h, (retry_after_least emptied _ (by decide) inOrder "a" 0 1 (Prod.ext h rfl) inOrder).2⟩

end Crabscale.Server
