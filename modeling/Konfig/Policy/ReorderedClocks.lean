import Mathlib.Order.Bounds.Basic
import Konfig.Lib.Machine
import Konfig.Policy.Rate

/-!
# Readings of the clock out of order

A caller of `ApplyLimiter::admit` reads the clock before `try_acquire_at` takes the entry
of its identity, so that the readings can come to the bucket in another order than they
were made.  A bucket that gets an older reading counts no time as passed, and stores it:
the time up to the newer reading is credited once more.

* `LimiterRun.step`: the calls of one identity, in the order of its entry lock.
* `acquire_bounded`: the tokens stay within the burst in any order; what is granted is
  within the limit when no reading is older than the one that the bucket has.
* `granted_unbounded`: two readings that alternate are granted any number of tokens.
-/

namespace Konfig

open Lib

/-- A call of `try_acquire_at`. -/
structure AcquireCall where
  cost : UInt32
  now : ℚ

/-- The limiter with what one identity was granted, a history variable. -/
structure LimiterRun where
  limiter : ApplyLimiter
  granted : ℚ

def LimiterRun.start : LimiterRun := { limiter := ∅, granted := 0 }

variable {identity : String} {rate burst : UInt32}

def LimiterRun.step (identity : String) (rate burst : UInt32) (s : LimiterRun) (c : AcquireCall) :
    Option LimiterRun :=
  match s.limiter.tryAcquireAt identity rate burst c.cost c.now with
  | (ok, limiter) => some { limiter, granted := s.granted + if ok then amount c.cost else 0 }

/-- The bucket of the identity. -/
def LimiterRun.bucket (s : LimiterRun) (identity : String) : Option (Bucket ℚ) := s.limiter.lookup identity

/-- What a call does to the bucket, and what it adds to the grants. -/
theorem LimiterRun.of_step {s t : LimiterRun} {c : AcquireCall}
    (h : s.step identity rate burst c = some t) :
    t.bucket identity = some (Bucket.acquire (amount rate) (amount burst) (amount c.cost) c.now
        (s.bucket identity)).2 ∧
      t.granted = s.granted + if (Bucket.acquire (amount rate) (amount burst) (amount c.cost) c.now
        (s.bucket identity)).1 then amount c.cost else 0 := by
  cases h
  exact ⟨AList.lookup_insert _, rfl⟩

/-- The readings of some calls. -/
def readings (calls : List AcquireCall) : Set ℚ := {t | ∃ c ∈ calls, c.now = t}

/-- The bucket holds no newer reading. -/
def ClockInOrder (identity : String) (s : LimiterRun) (c : AcquireCall) : Prop :=
  ∀ b ∈ s.bucket identity, b.last ≤ c.now

/-- The tokens stay within the burst, and the grants within the burst and what accrues
between the first reading and the last. -/
structure LimiterRun.Bounded (identity : String) (rate burst : UInt32) (calls : List AcquireCall)
    (s : LimiterRun) : Prop where
  tokens : ∀ b ∈ s.bucket identity, 0 ≤ b.tokens ∧ b.tokens ≤ amount burst
  granted : ∀ u v, IsLeast (readings calls) u → IsGreatest (readings calls) v →
    s.granted ≤ amount burst + amount rate * (v - u)

/-- **In any order the tokens are between none and the burst.** -/
theorem tokens_bounded {calls : List AcquireCall} {s : LimiterRun}
    (hrun : run (LimiterRun.step identity rate burst) .start calls = some s) :
    ∀ b ∈ s.bucket identity, 0 ≤ b.tokens ∧ b.tokens ≤ amount burst := by
  refine run_induction (fun _ s => ∀ b ∈ s.bucket identity, 0 ≤ b.tokens ∧ b.tokens ≤ amount burst)
    (fun b hb => ?_) ?_ calls s hrun
  · cases hb
  · intro as s c t _ hs h b hb
    rw [(LimiterRun.of_step h).1, Option.mem_def, Option.some.injEq] at hb
    rw [← hb]
    exact Bucket.tokens_acquire (amount_nonneg rate) (amount_nonneg burst) (amount_nonneg c.cost)
      fun b' hb' => (hs b' hb').1

/-- In order, what was granted and what is left are paid for by one burst and the time
since `u`. -/
theorem funded_of_clockInOrder {u : ℚ} {calls : List AcquireCall} {s : LimiterRun}
    (hrun : run (LimiterRun.step identity rate burst) .start calls = some s)
    (horder : Along (LimiterRun.step identity rate burst) (fun _ => ClockInOrder identity) .start calls)
    (hu : ∀ c ∈ calls, u ≤ c.now) :
    Bucket.Funded (amount rate) (amount burst) u s.granted (s.bucket identity) := by
  refine run_induction_along (fun _ => ClockInOrder identity)
    (fun as s => (∀ c ∈ as, u ≤ c.now) →
      Bucket.Funded (amount rate) (amount burst) u s.granted (s.bucket identity))
    (fun _ => Or.inl rfl) ?_ calls s hrun horder hu
  intro as s c t _ ih hin h hu
  obtain ⟨hbucket, hgranted⟩ := LimiterRun.of_step h
  rw [hbucket, hgranted]
  exact (ih fun c hc => hu c (List.mem_append_left _ hc)).acquire (amount c.cost) (amount_nonneg rate)
    (amount_nonneg burst) (hu c (by simp)) hin

/-- The bucket holds the reading of a call. -/
theorem last_mem {calls : List AcquireCall} {s : LimiterRun}
    (hrun : run (LimiterRun.step identity rate burst) .start calls = some s) :
    ∀ b, s.bucket identity = some b → b.last ∈ readings calls := by
  refine run_induction (fun as s => ∀ b, s.bucket identity = some b → b.last ∈ readings as)
    (fun b hb => ?_) ?_ calls s hrun
  · cases hb
  · intro as s c t _ _ h b hb
    rw [(LimiterRun.of_step h).1, Option.some.injEq] at hb
    rw [← hb, Bucket.acquire_last]
    exact ⟨c, by simp, rfl⟩

/-- **What a limit bounds**: the tokens in any order of the readings, and the grants when
no call brings an older reading than the bucket has. -/
theorem acquire_bounded {calls : List AcquireCall} {s : LimiterRun}
    (hrun : run (LimiterRun.step identity rate burst) .start calls = some s)
    (horder : Along (LimiterRun.step identity rate burst) (fun _ => ClockInOrder identity) .start calls) :
    s.Bounded identity rate burst calls where
  tokens := tokens_bounded hrun
  granted u v hu hv := by
    have hfunded := funded_of_clockInOrder hrun horder fun c hc => hu.2 ⟨c, hc, rfl⟩
    refine hfunded.le (amount_nonneg burst) (amount_nonneg rate) (hu.2 hv.1) fun b hb => ?_
    exact hv.2 (last_mem hrun b hb)

/-- Two calls of a tenant with one token and a thousand of them a second. -/
def twoInOrder : List AcquireCall := [⟨1, 0⟩, ⟨1, 1⟩]

theorem twoInOrder_along :
    Along (LimiterRun.step "dave" 1000 1) (fun _ => ClockInOrder "dave") .start twoInOrder := by
  refine along_cons nofun fun s hs => along_cons (fun b hb => ?_) fun _ _ => along_nil _ _
  rw [(LimiterRun.of_step hs).1, Option.mem_def, Option.some.injEq] at hb
  rw [← hb, Bucket.acquire_last]
  exact zero_le_one

theorem acquire_bounded_twoInOrder :
    ∃ s, run (LimiterRun.step "dave" 1000 1) .start twoInOrder = some s ∧
      s.Bounded "dave" 1000 1 twoInOrder := by
  have hrun : ∃ s, run (LimiterRun.step "dave" 1000 1) .start twoInOrder = some s := ⟨_, rfl⟩
  obtain ⟨s, hs⟩ := hrun
  exact ⟨s, hs, acquire_bounded hs twoInOrder_along⟩

/-! ### Out of order -/

/-- A reading and a newer one, over and over. -/
def alternating (u v : ℚ) : ℕ → List AcquireCall
  | 0 => []
  | n + 1 => alternating u v n ++ [⟨1, u⟩, ⟨1, v⟩]

variable {u v : ℚ}

theorem readings_alternating {n : ℕ} {t : ℚ} (h : t ∈ readings (alternating u v n)) : t = u ∨ t = v := by
  induction n with
  | zero => obtain ⟨c, hc, _⟩ := h; cases hc
  | succ n ih =>
    obtain ⟨c, hc, rfl⟩ := h
    rw [alternating, List.mem_append, List.mem_pair] at hc
    rcases hc with hc | rfl | rfl
    · exact ih ⟨c, hc, rfl⟩
    · exact Or.inl rfl
    · exact Or.inr rfl

theorem LimiterRun.granted_le_step {s t : LimiterRun} {c : AcquireCall}
    (h : s.step identity rate burst c = some t) : s.granted ≤ t.granted := by
  rw [(LimiterRun.of_step h).2, le_add_iff_nonneg_right]
  split
  · exact amount_nonneg c.cost
  · exact le_rfl

/-- A call that finds its cost in the bucket after the refill is granted. -/
theorem LimiterRun.granted_of_refill {s t : LimiterRun} {c : AcquireCall} {b : Bucket ℚ}
    (h : s.step identity rate burst c = some t) (hb : s.bucket identity = some b)
    (hle : amount c.cost ≤ (b.refill (amount rate) (amount burst) c.now).tokens) :
    t.granted = s.granted + amount c.cost := by
  rw [(LimiterRun.of_step h).2, Bucket.granted_of_le, if_pos rfl]
  rw [hb]
  exact hle

/-- Between the two readings a bucket that was left at the older one gains a token. -/
theorem one_le_refill (hburst : 1 ≤ amount burst) (hrate : 1 ≤ (v - u) * amount rate) {b : Bucket ℚ}
    (hlast : b.last = u) (hb : 0 ≤ b.tokens) :
    1 ≤ (b.refill (amount rate) (amount burst) v).tokens := by
  refine le_min ?_ hburst
  have hgain : (v - u) * amount rate ≤ max (v - b.last) 0 * amount rate := by
    rw [hlast]
    exact mul_le_mul_of_nonneg_right (le_max_left _ _) (amount_nonneg rate)
  linarith

/-- **Readings that alternate are granted one token a round.** -/
theorem granted_unbounded (hburst : 1 ≤ amount burst) (hrate : 1 ≤ (v - u) * amount rate) (n : ℕ) :
    ∃ s, run (LimiterRun.step identity rate burst) .start (alternating u v n) = some s ∧
      (n : ℚ) ≤ s.granted := by
  induction n with
  | zero => exact ⟨.start, rfl, le_rfl⟩
  | succ n ih =>
    obtain ⟨s, hs, hn⟩ := ih
    have hrun : ∃ m t, s.step identity rate burst ⟨1, u⟩ = some m ∧
        m.step identity rate burst ⟨1, v⟩ = some t := ⟨_, _, rfl, rfl⟩
    obtain ⟨m, t, hm, ht⟩ := hrun
    have hrunm : run (LimiterRun.step identity rate burst) .start (alternating u v n ++ [⟨1, u⟩]) = some m :=
      run_snoc.mpr ⟨s, hs, hm⟩
    refine ⟨t, ?_, ?_⟩
    · rw [alternating, List.append_cons]
      exact run_snoc.mpr ⟨m, hrunm, ht⟩
    · have hbucket := (LimiterRun.of_step hm).1
      have hone : amount 1 = 1 := rfl
      have hgranted : t.granted = m.granted + amount 1 := by
        refine LimiterRun.granted_of_refill ht hbucket ?_
        rw [hone]
        exact one_le_refill hburst hrate Bucket.acquire_last (tokens_bounded hrunm _ hbucket).1
      have hmono := LimiterRun.granted_le_step hm
      rw [hgranted, hone, Nat.cast_add, Nat.cast_one]
      linarith


/-- A millisecond, over and over: three tokens and more where the limit is two. -/
theorem reordered_overruns :
    ∃ s, run (LimiterRun.step "dave" 1000 1) .start (alternating 0 (1 / 1000) 3) = some s ∧
      ¬ s.Bounded "dave" 1000 1 (alternating 0 (1 / 1000) 3) := by
  have hone : amount 1 = 1 := rfl
  have hrate : amount 1000 = 1000 := rfl
  have hrounds : ∃ s, run (LimiterRun.step "dave" 1000 1) .start (alternating 0 (1 / 1000) 3) = some s ∧
      ((3 : ℕ) : ℚ) ≤ s.granted :=
    granted_unbounded (le_of_eq hone.symm) (by rw [hrate]; norm_num) 3
  obtain ⟨s, hs, hgranted⟩ := hrounds
  refine ⟨s, hs, fun hbounded => ?_⟩
  have hleast : IsLeast (readings (alternating 0 (1 / 1000) 3)) 0 := by
    refine ⟨⟨⟨1, 0⟩, by simp [alternating], rfl⟩, fun t ht => ?_⟩
    rcases readings_alternating ht with rfl | rfl <;> norm_num
  have hgreatest : IsGreatest (readings (alternating 0 (1 / 1000) 3)) (1 / 1000) := by
    refine ⟨⟨⟨1, 1 / 1000⟩, by simp [alternating], rfl⟩, fun t ht => ?_⟩
    rcases readings_alternating ht with rfl | rfl <;> norm_num
  have hle := hbounded.granted 0 (1 / 1000) hleast hgreatest
  rw [hone, hrate] at hle
  norm_num at hle hgranted
  linarith

end Konfig
