import Mathlib.Data.Finset.Card
import Konfig.Service.Targets

/-!
# What a call is charged

A call takes its tokens when it is admitted (`rate_limit_apply`) and writes later: it
still has to read, and each patch may be retried.  A `Charge` follows one call: what it
was granted and the objects it has attempted to write.

* `call_charged`: a call that takes tokens takes them first, one for each object it will
  attempt to write.  Every other call but `Revert` attempts no write, and `Revert` takes
  no tokens.
-/

namespace Konfig

open Lib

/-! ### Writes and grants -/

/-- An object that can be written. -/
inductive Target
  | config (key : Key)
  | secret (key : Key)
  deriving DecidableEq

/-- The object an operation attempts to write. -/
def ServiceOp.writes : ServiceOp → Option Target
  | .kube (.patch key _) => some (.config key)
  | .secretKube (.patch key _) => some (.secret key)
  | _ => none

def ServiceOp.isAdmission : ServiceOp → Bool
  | .applyAdmission _ _ => true
  | _ => false

/-- Whom the limiter grants how many tokens. -/
def ServiceOp.granted : (o : ServiceOp) → o.Resp → Option (String × UInt32)
  | .applyAdmission identity cost, .allowed => some (identity, cost)
  | .applyAdmission identity cost, .overBudget _ _ => some (identity, cost)
  | _, _ => none

theorem granted_other {o : ServiceOp} (h : o.isAdmission = false) (r : o.Resp) : o.granted r = none := by
  cases o with
  | applyAdmission identity cost => cases h
  | _ => rfl

theorem granted_admission {identity : String} {cost : UInt32} {r : ApplyOutcome} {a : String × UInt32}
    (h : (ServiceOp.applyAdmission identity cost).granted r = some a) : a = (identity, cost) := by
  cases r <;> cases h <;> rfl

abbrev ServiceEvent := Event ServiceOp ServiceOp.Resp

/-- The objects that call `i` attempts to write. -/
def written (i : Nat) (tr : List ServiceEvent) : Finset Target :=
  (tr.filterMap fun e => if e.pid = i then e.op.writes else none).toFinset

/-! ### What a call is charged -/

/-- The tokens a call was granted, and the objects it has attempted to write. -/
structure Charge where
  paid : Option Nat
  targets : Finset Target

namespace Charge

def start : Charge := { paid := none, targets := ∅ }

def upd (g : Charge) (o : ServiceOp) (r : o.Resp) : Charge where
  paid := ((o.granted r).map fun a => a.2.toNat).or g.paid
  targets := o.writes.elim g.targets fun t => insert t g.targets

/-- Tokens come first and under the caller's identity, and what was paid covers every
write. -/
structure Covers (caller : Caller) (rpc : Rpc) (g : Charge) (o : ServiceOp) : Prop where
  first : ∀ identity cost, o = .applyAdmission identity cost → identity = caller.identity.id ∧ g = start
  paid : ∀ t, o.writes = some t → rpc.isRevert = false → g.paid ≠ none
  enough : ∀ t n, o.writes = some t → g.paid = some n → (insert t g.targets).card ≤ n

variable {g : Charge} {o : ServiceOp} {r : o.Resp}

theorem paid_upd_other (h : o.isAdmission = false) : (g.upd o r).paid = g.paid := by
  simp [upd, granted_other h]

theorem paid_of_granted {identity : String} {cost : UInt32} (h : o.granted r = some (identity, cost)) :
    (g.upd o r).paid = some cost.toNat := by
  simp [upd, h]

theorem targets_upd_quiet (h : o.writes = none) : (g.upd o r).targets = g.targets := by
  simp [upd, h]

theorem targets_upd_write {t : Target} (h : o.writes = some t) :
    (g.upd o r).targets = insert t g.targets := by
  simp [upd, h]

variable {caller : Caller} {rpc : Rpc}

/-- What was paid stays. -/
theorem Covers.paid_upd (h : Covers caller rpc g o) {n : Nat} (hpaid : g.paid = some n) :
    (g.upd o r).paid = some n := by
  cases o with
  | applyAdmission identity cost =>
    rw [(h.first identity cost rfl).2] at hpaid
    cases hpaid
  | _ => exact hpaid

theorem Covers.granted (h : Covers caller rpc g o) {identity : String} {cost : UInt32}
    (hg : o.granted r = some (identity, cost)) : identity = caller.identity.id := by
  cases o with
  | applyAdmission id cost' =>
    cases granted_admission hg
    exact (h.first identity cost rfl).1
  | _ => cases hg

/-- What was paid covers the objects. -/
theorem Covers.card_le (h : Covers caller rpc g o) (hcard : ∀ n, g.paid = some n → g.targets.card ≤ n) :
    ∀ n, (g.upd o r).paid = some n → (g.upd o r).targets.card ≤ n := by
  intro n hn
  cases hw : o.writes with
  | some t =>
    have hother : o.isAdmission = false := by
      cases o with
      | applyAdmission identity cost => cases hw
      | _ => rfl
    rw [paid_upd_other hother] at hn
    rw [targets_upd_write hw]
    exact h.enough t n hw hn
  | none =>
    rw [targets_upd_quiet hw]
    cases o with
    | applyAdmission identity cost =>
      rw [(h.first identity cost rfl).2]
      exact Nat.zero_le n
    | _ => exact hcard n hn

end Charge

/-- The charge of call `i`. -/
abbrev charge (i : Nat) (tr : List ServiceEvent) : Charge := ghost Charge.upd .start i tr

theorem charge_snoc (i : Nat) (tr : List ServiceEvent) (e : ServiceEvent) :
    charge i (tr ++ [e]) = if e.pid = i then (charge i tr).upd e.op e.resp else charge i tr :=
  ghost_snoc i tr e

theorem charge_targets (i : Nat) (tr : List ServiceEvent) : (charge i tr).targets = written i tr := by
  induction tr using List.reverseRecOn with
  | nil => rfl
  | append_singleton tr e ih =>
    unfold written at ih ⊢
    rw [charge_snoc, List.filterMap_append, List.toFinset_append, ← ih]
    by_cases hi : e.pid = i
    · rw [if_pos hi]
      cases hw : e.op.writes with
      | none => simp [Charge.targets_upd_quiet hw, hi, hw]
      | some t => simp [Charge.targets_upd_write hw, hi, hw, Finset.union_comm]
    · simp [hi]

/-- What was paid was granted. -/
theorem granted_of_paid {i : Nat} : ∀ {tr : List ServiceEvent}, (charge i tr).paid ≠ none →
    ∃ a ∈ tr, a.pid = i ∧ ∃ identity cost, a.op.granted a.resp = some (identity, cost) := by
  intro tr
  induction tr using List.reverseRecOn with
  | nil => intro h; exact absurd rfl h
  | append_singleton tr e ih =>
    intro h
    rw [charge_snoc] at h
    by_cases hold : (charge i tr).paid = none
    · by_cases hi : e.pid = i
      · cases hg : e.op.granted e.resp with
        | none => simp [hi, Charge.upd, hg, hold] at h
        | some a => exact ⟨e, by simp, hi, a.1, a.2, hg⟩
      · rw [if_neg hi] at h
        exact absurd hold h
    · obtain ⟨a, ha, hrest⟩ := ih hold
      exact ⟨a, List.mem_append_left _ ha, hrest⟩

section Calls

variable {caller : Caller} {rpc : Rpc} {α : Type}

/-- Operations that take no tokens and write objects of `T` only. -/
def ServiceOp.Into (T : Finset Target) (o : ServiceOp) : Prop :=
  o.isAdmission = false ∧ ∀ t, o.writes = some t → t ∈ T

abbrev Charged (caller : Caller) (rpc : Rpc) (x : ServiceM α) (Q : Charge → α → Prop) (g : Charge) :
    Prop :=
  Proc.wpOk Charge.upd (Charge.Covers caller rpc) x Q g

/-- What comes after the admission is paid for. -/
theorem charged_paid {T : Finset Target} {n : Nat} (hT : T.card ≤ n) {x : ServiceM α}
    (hx : IssuesOk (ServiceOp.Into T) x) {g : Charge} (hpaid : g.paid = some n) (hsub : g.targets ⊆ T) :
    Charged caller rpc x (fun _ _ => True) g := by
  refine Proc.wp_mono _ _ (fun _ _ _ _ _ => trivial) _ _
    (Proc.Issues.wp _ _ (fun g : Charge => g.paid = some n ∧ g.targets ⊆ T) ?_
      (Proc.issues_of_wpOk hx) g ⟨hpaid, hsub⟩)
  intro g o hg ho
  refine ⟨⟨fun identity cost heq => ?_, fun t _ _ hnone => ?_, fun t m hw hm => ?_⟩, fun r => ⟨?_, ?_⟩⟩
  · rw [heq] at ho
    cases ho.1
  · rw [hg.1] at hnone
    cases hnone
  · rw [hg.1, Option.some.injEq] at hm
    rw [← hm]
    exact (Finset.card_le_card (Finset.insert_subset (ho.2 t hw) hg.2)).trans hT
  · rw [Charge.paid_upd_other ho.1]
    exact hg.1
  · cases hw : o.writes with
    | none =>
      rw [Charge.targets_upd_quiet hw]
      exact hg.2
    | some t =>
      rw [Charge.targets_upd_write hw]
      exact Finset.insert_subset (ho.2 t hw) hg.2

/-- A call that takes no tokens and writes nothing, or is a `Revert`. -/
theorem charged_unpaid {x : ServiceM α}
    (hx : IssuesOk (fun o => o.isAdmission = false ∧ (rpc.isRevert = false → o.writes = none)) x) :
    Charged caller rpc x (fun _ _ => True) .start := by
  refine Proc.wp_mono _ _ (fun _ _ _ _ _ => trivial) _ _
    (Proc.Issues.wp _ _ (fun g : Charge => g.paid = none) ?_ (Proc.issues_of_wpOk hx) _ rfl)
  intro g o hg ho
  refine ⟨⟨fun identity cost heq => ?_, fun t hw hrpc => ?_, fun t m _ hm => ?_⟩, fun r => ?_⟩
  · rw [heq] at ho
    cases ho.1
  · rw [ho.2 hrpc] at hw
    cases hw
  · rw [hg] at hm
    cases hm
  · rw [Charge.paid_upd_other ho.1]
    exact hg

theorem charged_discard {x : ServiceM α} {g : Charge} (h : Charged caller rpc x (fun _ _ => True) g) :
    Charged caller rpc (do let _ ← x) (fun _ _ => True) g :=
  Proc.wpOk_seq _ _ h fun _ _ _ => Proc.wpOk_pure _ _ trivial

/-- The config writes of requests about `S`. -/
theorem into_kube {S : Key → Prop} {T : Finset Target} (h : ∀ key, S key → .config key ∈ T)
    (o : KubeOp) (ho : S o.key) : (ServiceOp.kube o).Into T := by
  refine ⟨rfl, fun t ht => ?_⟩
  cases o with
  | patch key body =>
    cases ht
    exact h key ho
  | _ => cases ht

theorem into_secretKube {T : Finset Target} {key : Key} (h : .secret key ∈ T) (o : SecretOp)
    (ho : o.key = key) : (ServiceOp.secretKube o).Into T := by
  refine ⟨rfl, fun t ht => ?_⟩
  cases o with
  | patch key' secret =>
    cases ht
    rw [SecretOp.key] at ho
    rw [ho]
    exact h
  | _ => cases ht

variable [JsonSchema] {srv : KonfigServer}

/-- The two gates, the admission and the work. -/
theorem charged_gated {check : Except Status Unit} {cost : UInt32} {T : Finset Target}
    (hT : T.card ≤ cost.toNat) {x : ServiceM α} (hx : IssuesOk (ServiceOp.Into T) x) :
    Charged caller rpc (do
      liftM srv.checkDrain
      let _ ← (liftM check : ServiceM Unit)
      rateLimitApply caller cost
      x) (fun _ _ => True) .start := by
  refine Proc.wpOk_bind _ _ (Proc.wpOk_liftExcept _ _ fun _ _ => ?_)
  refine Proc.wpOk_bind _ _ (Proc.wpOk_liftExcept _ _ fun _ _ => ?_)
  have hpre : Charge.Covers caller rpc .start (.applyAdmission caller.identity.id cost) :=
    ⟨fun identity cost heq => by cases heq; exact ⟨rfl, rfl⟩, nofun, nofun⟩
  have hpaid : Charged caller rpc (rateLimitApply caller cost)
      (fun g _ => g.paid = some cost.toNat ∧ g.targets = ∅) .start := by
    refine Proc.wpOk_bind _ _ (Proc.wpOk_op _ _ hpre fun r => ?_)
    cases r with
    | allowed => exact Proc.wpOk_pure _ _ ⟨rfl, rfl⟩
    | overBudget rate burst => exact Proc.wpOk_pure _ _ ⟨rfl, rfl⟩
    | denied rate burst => exact Proc.wpOk_throw _ _
  refine Proc.wpOk_seq _ _ hpaid fun g _ hg => ?_
  exact charged_paid hT hx hg.1 (by rw [hg.2]; exact Finset.empty_subset T)

variable [SerdeYaml] [SerdeJson] [SecretYaml]

/-- **A call is charged for what it writes, before it writes.**  A message of the wire has
fewer than `2 ^ 32` items. -/
theorem call_charged (hwire : ∀ items, rpc = .batchApply items → items.length < 2 ^ 32) :
    (srv.call caller rpc).run.wp Charge.upd (Charge.Covers caller rpc) (fun _ _ => True) .start := by
  suffices h : Charged caller rpc (srv.call caller rpc) (fun _ _ => True) .start from
    Proc.wp_mono _ _ (fun _ _ _ => trivial) _ _ h
  cases rpc with
  | apply req =>
    refine charged_discard (charged_gated (T := {.config req.key}) (Finset.card_singleton _).le ?_)
    exact issues_audited
      (issues_kube (handleApply_on (S := (· = req.key)) _ _ rfl)
        (into_kube fun key hkey => Finset.mem_singleton.mpr (congrArg _ hkey)))
      (fun _ => ⟨rfl, nofun⟩) fun _ => ⟨rfl, nofun⟩
  | batchApply items =>
    have hcost : (items.map fun item => Target.config item.key).toFinset.card ≤
        (UInt32.ofNat items.length).toNat := by
      rw [UInt32.toNat_ofNat_of_lt' (hwire items rfl), ← List.length_map fun item => Target.config item.key]
      exact List.toFinset_card_le _
    refine charged_discard (charged_gated hcost ?_)
    have hmem : ∀ key, (∃ item ∈ items, item.key = key) →
        Target.config key ∈ (items.map fun item => Target.config item.key).toFinset := by
      rintro key ⟨item, hi, rfl⟩
      exact List.mem_toFinset.mpr (List.mem_map_of_mem hi)
    exact issues_applyBatch (S := fun key => ∃ item ∈ items, item.key = key) (into_kube hmem)
      (fun _ => ⟨rfl, nofun⟩) (fun _ _ => ⟨rfl, nofun⟩) fun item hi => ⟨item, hi, rfl⟩
  | applySecret req =>
    refine charged_discard (charged_gated (T := {.secret req.key}) (Finset.card_singleton _).le ?_)
    exact issues_audited
      (issues_secretKube (handleApplySecret_on (S := (· = req.key)) rfl)
        (into_secretKube (Finset.mem_singleton_self _)))
      (fun _ => ⟨rfl, nofun⟩) fun _ => ⟨rfl, nofun⟩
  | revert req =>
    refine charged_unpaid (call_issues fun _ o ho => ⟨?_, nofun⟩)
    cases o with
    | applyAdmission identity cost => cases ho
    | _ => rfl
  | get key | getAll ns | dryRunApply req =>
    refine charged_unpaid (call_issues fun _ o ho => ?_)
    subst ho
    exact ⟨rfl, fun _ => rfl⟩
  | subscribe req =>
    refine charged_unpaid (call_issues fun _ o ho => ?_)
    rcases ho with rfl | rfl <;> exact ⟨rfl, fun _ => rfl⟩
  | getSecret key | getAllSecrets ns =>
    refine charged_unpaid (call_issues fun _ o ho => ?_)
    rcases ho with rfl | ⟨record, rfl⟩ <;> exact ⟨rfl, fun _ => rfl⟩
  | subscribeSecrets req =>
    refine charged_unpaid (call_issues fun _ o ho => ?_)
    rcases ho with rfl | rfl | ⟨record, rfl⟩ <;> exact ⟨rfl, fun _ => rfl⟩

end Calls

end Konfig
