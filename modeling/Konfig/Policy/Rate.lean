import Mathlib.Data.Rat.Cast.Defs
import Mathlib.Algebra.Order.Field.Rat
import Konfig.Policy.Quota
import Konfig.Lib.TokenBucket

/-!
# The apply rate limit

`ApplyLimiter` of `quota.rs`: one token bucket per identity, refilled at
`maxAppliesPerSecond` up to `maxAppliesBurst`.  The tokens and the clock, which the
source keeps as `f64` and `Instant`, are exact rationals, the clock in seconds.
-/

namespace Konfig

open Lib

/-- `effective_apply_rate`: the rate and the burst, both `0` where there is no limit. -/
def effectiveApplyRate (table : QuotaTable) (synced : Bool) (defaultRate : UInt32) (identity : String) :
    UInt32 × UInt32 :=
  let (rate, burst) :=
    if synced then
      match table.quotaFor identity with
      | some q => (q.maxAppliesPerSecond, q.maxAppliesBurst)
      | none => (defaultRate, 0)
    else (defaultRate, 0)
  if rate = 0 then (0, 0)
  else (rate, if burst > 0 then burst else max rate 1)

/-- The burst of a quota; one second of tokens where it is unset. -/
def TenantQuota.burst (q : TenantQuota) : UInt32 :=
  if q.maxAppliesBurst > 0 then q.maxAppliesBurst else max q.maxAppliesPerSecond 1

theorem effectiveApplyRate_of_quota {table : QuotaTable} {identity : String} {q : TenantQuota}
    (hq : table.quotaFor identity = some q) (hrate : q.maxAppliesPerSecond ≠ 0) (defaultRate : UInt32) :
    effectiveApplyRate table true defaultRate identity = (q.maxAppliesPerSecond, q.burst) := by
  simp only [effectiveApplyRate, hq, if_true, if_neg hrate]
  rfl

/-- `ApplyLimiter`: a `DashMap<String, Bucket>`. -/
abbrev ApplyLimiter := Map String (Bucket ℚ)

/-- `f64::from`. -/
def amount (n : UInt32) : ℚ := (n.toNat : ℚ)

theorem amount_nonneg (n : UInt32) : 0 ≤ amount n := Nat.cast_nonneg _

inductive ApplyDecision
  | allowed (overBudget : Bool)
  | denied
  deriving DecidableEq, Repr

inductive ApplyOutcome
  | allowed
  | overBudget (rate burst : UInt32)
  | denied (rate burst : UInt32)
  deriving DecidableEq, Repr

namespace ApplyLimiter

def tryAcquireAt (limiter : ApplyLimiter) (identity : String) (rate burst cost : UInt32) (now : ℚ) :
    Bool × ApplyLimiter :=
  let (ok, e) := Bucket.acquire (amount rate) (amount burst) (amount cost) now (limiter.lookup identity)
  (ok, limiter.insert identity e)

def admitAt (limiter : ApplyLimiter) (identity : String) (mode : QuotaMode) (rate burst cost : UInt32)
    (now : ℚ) : ApplyDecision × ApplyLimiter :=
  let (ok, limiter) := limiter.tryAcquireAt identity rate burst cost now
  match mode with
  | .enforce => (if ok then .allowed false else .denied, limiter)
  | .permissive | .disabled => (.allowed !ok, limiter)

end ApplyLimiter

/-- `apply_admission`, at a reading of the clock. -/
def applyAdmission (limiter : ApplyLimiter) (table : QuotaTable) (synced : Bool) (mode : QuotaMode)
    (defaultRate : UInt32) (identity : String) (cost : UInt32) (now : ℚ) : ApplyOutcome × ApplyLimiter :=
  if mode = .disabled then (.allowed, limiter)
  else
    let (rate, burst) := effectiveApplyRate table synced defaultRate identity
    if rate = 0 then (.allowed, limiter)
    else
      match limiter.admitAt identity mode rate burst cost now with
      | (.allowed false, limiter) => (.allowed, limiter)
      | (.allowed true, limiter) => (.overBudget rate burst, limiter)
      | (.denied, limiter) => (.denied rate burst, limiter)

/-- **An enforced limit grants what the bucket of the identity grants.** -/
theorem applyAdmission_enforce {limiter : ApplyLimiter} {table : QuotaTable} {synced : Bool}
    {defaultRate : UInt32} {identity : String} {rate burst : UInt32}
    (h : effectiveApplyRate table synced defaultRate identity = (rate, burst)) (hrate : rate ≠ 0)
    (cost : UInt32) (now : ℚ) :
    applyAdmission limiter table synced .enforce defaultRate identity cost now =
      let e := Bucket.acquire (amount rate) (amount burst) (amount cost) now (limiter.lookup identity)
      (if e.1 then .allowed else .denied rate burst, limiter.insert identity e.2) := by
  unfold applyAdmission
  rw [if_neg (by decide), h]
  simp only [if_neg hrate, ApplyLimiter.admitAt, ApplyLimiter.tryAcquireAt]
  by_cases hok : (Bucket.acquire (amount rate) (amount burst) (amount cost) now
      (limiter.lookup identity)).1 = true
  · simp only [hok, if_true]
  · simp only [hok, Bool.false_eq_true, if_false]

/-- The buckets of other identities are not touched. -/
theorem lookup_applyAdmission_ne {limiter : ApplyLimiter} {table : QuotaTable} {synced : Bool}
    {mode : QuotaMode} {defaultRate : UInt32} {identity other : String} (h : other ≠ identity)
    (cost : UInt32) (now : ℚ) :
    (applyAdmission limiter table synced mode defaultRate identity cost now).2.lookup other =
      limiter.lookup other := by
  unfold applyAdmission
  split
  · rfl
  · simp only
    split
    · rfl
    · have hkept : (limiter.admitAt identity mode (effectiveApplyRate table synced defaultRate identity).1
          (effectiveApplyRate table synced defaultRate identity).2 cost now).2.lookup other =
          limiter.lookup other := by
        simp only [ApplyLimiter.admitAt, ApplyLimiter.tryAcquireAt]
        cases mode <;> exact AList.lookup_insert_ne h
      split <;> rename_i heq <;> rw [heq] at hkept <;> exact hkept

end Konfig
