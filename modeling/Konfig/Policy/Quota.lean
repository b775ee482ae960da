import Konfig.Kube
import Konfig.Lib.WatchMirror

/-!
# Tenant budgets

The budget table of `quota.rs` and the watcher that publishes it from the
`TenantQuota` objects.  The watcher is a `Lib.Kind` like the ACL watcher's, but
several objects of one identity are combined axis by axis with `tighter`, where
`0` stands for no limit.

A budget is read as the set of usages it admits (`TenantQuota.Admits`): the
combined budget admits what both admit (`admits_mostRestrictive`), and a budget
is determined by what it admits (`admits_ext`).  So the order in which the
mirror is visited does not show in the table (`quotaView`).
-/

namespace Konfig

open Lib

/-- A resolved budget; `0` on an axis is unlimited. -/
structure TenantQuota where
  maxSubscribers : UInt32
  maxAppliesPerSecond : UInt32
  maxAppliesBurst : UInt32
  cacheMemoryBudgetBytes : UInt64
  deriving DecidableEq, Repr

/-- The tighter of two limits, where `0` loses to any real bound. -/
def tighter {α : Type} [DecidableEq α] [OfNat α 0] [Min α] (a b : α) : α :=
  if a = 0 then b else if b = 0 then a else min a b

def tighterU32 (a b : UInt32) : UInt32 := tighter a b

def tighterU64 (a b : UInt64) : UInt64 := tighter a b

def TenantQuota.mostRestrictive (q other : TenantQuota) : TenantQuota where
  maxSubscribers := tighterU32 q.maxSubscribers other.maxSubscribers
  maxAppliesPerSecond := tighterU32 q.maxAppliesPerSecond other.maxAppliesPerSecond
  maxAppliesBurst := tighterU32 q.maxAppliesBurst other.maxAppliesBurst
  cacheMemoryBudgetBytes := tighterU64 q.cacheMemoryBudgetBytes other.cacheMemoryBudgetBytes

/-! ### What a budget admits -/

/-- The limit `limit` admits the amount `n`. -/
def Within (n limit : Nat) : Prop := limit = 0 ∨ n ≤ limit

theorem within_zero (limit : Nat) : Within 0 limit := Or.inr (Nat.zero_le _)

theorem within_tighter (n a b : Nat) : Within n (tighter a b) ↔ Within n a ∧ Within n b := by
  unfold Within tighter
  by_cases ha : a = 0
  · simp [ha]
  · by_cases hb : b = 0
    · rw [if_neg ha, if_pos hb]
      omega
    · rw [if_neg ha, if_neg hb]
      omega

theorem within_ext {a b : Nat} (h : ∀ n, Within n a ↔ Within n b) : a = b := by
  have h0 := h (a + b + 1)
  have ha := h a
  have hb := h b
  unfold Within at h0 ha hb
  omega

/-- A view in `Nat` that keeps zero and minima keeps `tighter`. -/
theorem tighter_toNat {α : Type} [DecidableEq α] [OfNat α 0] [Min α] (toNat : α → Nat) {a b : α}
    (hz : ∀ c : α, c = 0 ↔ toNat c = 0) (hmin : toNat (min a b) = min (toNat a) (toNat b)) :
    toNat (tighter a b) = tighter (toNat a) (toNat b) := by
  unfold tighter
  simp only [hz]
  split
  · rfl
  · split
    · rfl
    · exact hmin

theorem toNat_tighterU32 (a b : UInt32) : (tighterU32 a b).toNat = tighter a.toNat b.toNat := by
  refine tighter_toNat UInt32.toNat (fun c => UInt32.toNat_inj.symm) ?_
  show (if a ≤ b then a else b).toNat = _
  by_cases h : a ≤ b
  · rw [if_pos h]
    exact (Nat.min_eq_left (UInt32.le_iff_toNat_le.mp h)).symm
  · rw [if_neg h]
    rw [UInt32.le_iff_toNat_le] at h
    omega

theorem toNat_tighterU64 (a b : UInt64) : (tighterU64 a b).toNat = tighter a.toNat b.toNat := by
  refine tighter_toNat UInt64.toNat (fun c => UInt64.toNat_inj.symm) ?_
  show (if a ≤ b then a else b).toNat = _
  by_cases h : a ≤ b
  · rw [if_pos h]
    exact (Nat.min_eq_left (UInt64.le_iff_toNat_le.mp h)).symm
  · rw [if_neg h]
    rw [UInt64.le_iff_toNat_le] at h
    omega

/-- What a tenant uses on the four axes. -/
structure Usage where
  subscribers : Nat
  appliesPerSecond : Nat
  appliesBurst : Nat
  cacheBytes : Nat

structure TenantQuota.Admits (q : TenantQuota) (u : Usage) : Prop where
  subscribers : Within u.subscribers q.maxSubscribers.toNat
  appliesPerSecond : Within u.appliesPerSecond q.maxAppliesPerSecond.toNat
  appliesBurst : Within u.appliesBurst q.maxAppliesBurst.toNat
  cacheBytes : Within u.cacheBytes q.cacheMemoryBudgetBytes.toNat

/-- **The combined budget admits what both admit.** -/
theorem TenantQuota.admits_mostRestrictive (q r : TenantQuota) (u : Usage) :
    (q.mostRestrictive r).Admits u ↔ q.Admits u ∧ r.Admits u := by
  have key : (q.mostRestrictive r).Admits u ↔
      (Within u.subscribers q.maxSubscribers.toNat ∧ Within u.subscribers r.maxSubscribers.toNat) ∧
      (Within u.appliesPerSecond q.maxAppliesPerSecond.toNat ∧
        Within u.appliesPerSecond r.maxAppliesPerSecond.toNat) ∧
      (Within u.appliesBurst q.maxAppliesBurst.toNat ∧
        Within u.appliesBurst r.maxAppliesBurst.toNat) ∧
      (Within u.cacheBytes q.cacheMemoryBudgetBytes.toNat ∧
        Within u.cacheBytes r.cacheMemoryBudgetBytes.toNat) := by
    simp only [← within_tighter, ← toNat_tighterU32, ← toNat_tighterU64]
    exact ⟨fun h => ⟨h.1, h.2, h.3, h.4⟩, fun h => ⟨h.1, h.2.1, h.2.2.1, h.2.2.2⟩⟩
  rw [key]
  constructor
  · rintro ⟨h1, h2, h3, h4⟩
    exact ⟨⟨h1.1, h2.1, h3.1, h4.1⟩, ⟨h1.2, h2.2, h3.2, h4.2⟩⟩
  · rintro ⟨hq, hr⟩
    exact ⟨⟨hq.1, hr.1⟩, ⟨hq.2, hr.2⟩, ⟨hq.3, hr.3⟩, ⟨hq.4, hr.4⟩⟩

/-- A budget is determined by what it admits. -/
theorem TenantQuota.admits_ext {q r : TenantQuota} (h : ∀ u, q.Admits u ↔ r.Admits u) : q = r := by
  have axis : ∀ (u : Nat → Usage) {a b : Nat}, (∀ n, q.Admits (u n) ↔ Within n a) →
      (∀ n, r.Admits (u n) ↔ Within n b) → a = b := by
    intro u a b ha hb
    exact within_ext fun n => by rw [← ha, ← hb, h]
  have h1 : q.maxSubscribers.toNat = r.maxSubscribers.toNat :=
    axis (fun n => ⟨n, 0, 0, 0⟩)
      (fun n => ⟨fun k => k.1, fun k => ⟨k, within_zero _, within_zero _, within_zero _⟩⟩)
      (fun n => ⟨fun k => k.1, fun k => ⟨k, within_zero _, within_zero _, within_zero _⟩⟩)
  have h2 : q.maxAppliesPerSecond.toNat = r.maxAppliesPerSecond.toNat :=
    axis (fun n => ⟨0, n, 0, 0⟩)
      (fun n => ⟨fun k => k.2, fun k => ⟨within_zero _, k, within_zero _, within_zero _⟩⟩)
      (fun n => ⟨fun k => k.2, fun k => ⟨within_zero _, k, within_zero _, within_zero _⟩⟩)
  have h3 : q.maxAppliesBurst.toNat = r.maxAppliesBurst.toNat :=
    axis (fun n => ⟨0, 0, n, 0⟩)
      (fun n => ⟨fun k => k.3, fun k => ⟨within_zero _, within_zero _, k, within_zero _⟩⟩)
      (fun n => ⟨fun k => k.3, fun k => ⟨within_zero _, within_zero _, k, within_zero _⟩⟩)
  have h4 : q.cacheMemoryBudgetBytes.toNat = r.cacheMemoryBudgetBytes.toNat :=
    axis (fun n => ⟨0, 0, 0, n⟩)
      (fun n => ⟨fun k => k.4, fun k => ⟨within_zero _, within_zero _, within_zero _, k⟩⟩)
      (fun n => ⟨fun k => k.4, fun k => ⟨within_zero _, within_zero _, within_zero _, k⟩⟩)
  obtain ⟨q1, q2, q3, q4⟩ := q
  obtain ⟨r1, r2, r3, r4⟩ := r
  rw [TenantQuota.mk.injEq]
  exact ⟨UInt32.toNat_inj.mp h1, UInt32.toNat_inj.mp h2, UInt32.toNat_inj.mp h3,
    UInt64.toNat_inj.mp h4⟩

/-! ### The table -/

/-- The wire shape of a `TenantQuota` spec, with its identity. -/
structure QuotaSpec where
  identity : String
  maxSubscribers : UInt32
  maxAppliesPerSecond : UInt32
  maxAppliesBurst : UInt32
  cacheMemoryBudgetBytes : UInt64

/-- `serde_json::from_value::<QuotaSpec>`. -/
def QuotaSpec.fromValue (v : Value) : Option QuotaSpec := do
  guard (v.isStruct 5)
  let identity ← (v.field 0 "identity").bind Value.decodeString
  let maxSubscribers ← v.fieldOr 1 "maxSubscribers" 0 Value.decodeU32
  let maxAppliesPerSecond ← v.fieldOr 2 "maxAppliesPerSecond" 0 Value.decodeU32
  let maxAppliesBurst ← v.fieldOr 3 "maxAppliesBurst" 0 Value.decodeU32
  let cacheMemoryBudgetBytes ← v.fieldOr 4 "cacheMemoryBudgetBytes" 0 Value.decodeU64
  return { identity, maxSubscribers, maxAppliesPerSecond, maxAppliesBurst, cacheMemoryBudgetBytes }

structure QuotaEntry where
  identity : String
  quota : TenantQuota
  deriving DecidableEq, Repr

def parseQuotaObject (obj : DynamicObject) : Option QuotaEntry := do
  let specValue ← obj.data.get "spec"
  let spec ← QuotaSpec.fromValue specValue
  let identity := trim spec.identity
  if identity = "" then none
  else
    let quota :=
      { maxSubscribers := spec.maxSubscribers
        maxAppliesPerSecond := spec.maxAppliesPerSecond
        maxAppliesBurst := spec.maxAppliesBurst
        cacheMemoryBudgetBytes := spec.cacheMemoryBudgetBytes }
    some { identity, quota }

abbrev QuotaTable := Map String TenantQuota

def QuotaTable.quotaFor (table : QuotaTable) (identity : String) : Option TenantQuota :=
  table.lookup identity

/-- `next.entry(identity).and_modify(most_restrictive).or_insert(quota)`. -/
def QuotaTable.combine (next : QuotaTable) (e : QuotaEntry) : QuotaTable :=
  match next.lookup e.identity with
  | some q => next.insert e.identity (q.mostRestrictive e.quota)
  | none => next.insert e.identity e.quota

/-- `publish`. -/
def QuotaTable.publish (entries : List QuotaEntry) : QuotaTable := entries.foldl QuotaTable.combine ∅

/-- An optional budget admits a usage when it is there and does. -/
def admitsOpt (q : Option TenantQuota) (u : Usage) : Prop := ∀ b, q = some b → b.Admits u

theorem QuotaTable.isSome_combine (t : QuotaTable) (e : QuotaEntry) (i : String) :
    ((t.combine e).quotaFor i).isSome ↔ (t.quotaFor i).isSome ∨ e.identity = i := by
  unfold QuotaTable.combine QuotaTable.quotaFor
  by_cases h : e.identity = i
  · subst h
    cases hl : t.lookup e.identity <;> simp
  · cases hl : t.lookup e.identity <;> simp [AList.lookup_insert_ne (Ne.symm h), h]

theorem QuotaTable.admits_combine (t : QuotaTable) (e : QuotaEntry) (i : String) (u : Usage) :
    admitsOpt ((t.combine e).quotaFor i) u ↔
      admitsOpt (t.quotaFor i) u ∧ (e.identity = i → e.quota.Admits u) := by
  unfold QuotaTable.combine QuotaTable.quotaFor admitsOpt
  by_cases h : e.identity = i
  · subst h
    cases hl : t.lookup e.identity with
    | none => simp
    | some q => simp [TenantQuota.admits_mostRestrictive]
  · cases hl : t.lookup e.identity <;> simp [AList.lookup_insert_ne (Ne.symm h), h]

theorem QuotaTable.quotaFor_foldl : ∀ (es : List QuotaEntry) (t : QuotaTable) (i : String),
    (((es.foldl QuotaTable.combine t).quotaFor i).isSome ↔
      (t.quotaFor i).isSome ∨ ∃ e ∈ es, e.identity = i) ∧
    ∀ u, admitsOpt ((es.foldl QuotaTable.combine t).quotaFor i) u ↔
      admitsOpt (t.quotaFor i) u ∧ ∀ e ∈ es, e.identity = i → e.quota.Admits u := by
  intro es
  induction es with
  | nil => intro t i; simp
  | cons e es ih =>
    intro t i
    obtain ⟨hsome, hadm⟩ := ih (t.combine e) i
    rw [List.foldl_cons]
    refine ⟨?_, fun u => ?_⟩
    · rw [hsome, QuotaTable.isSome_combine, List.exists_mem_cons_iff, or_assoc]
    · rw [hadm u, QuotaTable.admits_combine, List.forall_mem_cons, and_assoc]

/-- **An identity is bounded when some entry names it, and its budget admits
what all its entries admit.** -/
theorem QuotaTable.publish_quotaFor (es : List QuotaEntry) (i : String) :
    (((QuotaTable.publish es).quotaFor i).isSome ↔ ∃ e ∈ es, e.identity = i) ∧
    ∀ u, admitsOpt ((QuotaTable.publish es).quotaFor i) u ↔
      ∀ e ∈ es, e.identity = i → e.quota.Admits u := by
  obtain ⟨hsome, hadm⟩ := QuotaTable.quotaFor_foldl es ∅ i
  have hempty : QuotaTable.quotaFor ∅ i = none := AList.lookup_empty i
  rw [hempty] at hsome hadm
  simpa [QuotaTable.publish, admitsOpt] using And.intro hsome hadm

theorem admitsOpt_ext {q r : Option TenantQuota} (hs : q.isSome ↔ r.isSome)
    (h : ∀ u, admitsOpt q u ↔ admitsOpt r u) : q = r := by
  cases q with
  | none =>
    cases r with
    | none => rfl
    | some b => simp at hs
  | some a =>
    cases r with
    | none => simp at hs
    | some b =>
      rw [TenantQuota.admits_ext (q := a) (r := b) fun u => by simpa [admitsOpt] using h u]

/-! ### The watcher -/

/-- How `quota.rs` mirrors and publishes `TenantQuota` objects. -/
def quotaKind : Kind DynamicObject String QuotaEntry QuotaTable where
  key obj := obj.metadata.name.getD ""
  parse := parseQuotaObject
  publish := QuotaTable.publish

def handleQuotaEvent : WatchEvent DynamicObject → Map String QuotaEntry → Bool →
    Map String QuotaEntry × Bool × Bool := quotaKind.handle

abbrev QuotaWatch := Watch String QuotaEntry QuotaTable

def QuotaWatch.new : QuotaWatch := { objects := ∅, table := ∅, synced := false }

/-- The budget of an identity. -/
def quotaView : quotaKind.View String (Option TenantQuota) where
  ident e := e.identity
  ask t i := t.quotaFor i
  congr i es es' h := by
    obtain ⟨hs, ha⟩ := QuotaTable.publish_quotaFor es i
    obtain ⟨hs', ha'⟩ := QuotaTable.publish_quotaFor es' i
    refine admitsOpt_ext ?_ fun u => ?_
    · change ((QuotaTable.publish es).quotaFor i).isSome ↔ ((QuotaTable.publish es').quotaFor i).isSome
      rw [hs, hs']
      exact ⟨fun ⟨e, he, hi⟩ => ⟨e, (h e hi).mp he, hi⟩, fun ⟨e, he, hi⟩ => ⟨e, (h e hi).mpr he, hi⟩⟩
    · change admitsOpt ((QuotaTable.publish es).quotaFor i) u ↔
        admitsOpt ((QuotaTable.publish es').quotaFor i) u
      rw [ha, ha']
      exact ⟨fun k e he hi => k e ((h e hi).mpr he) hi, fun k e he hi => k e ((h e hi).mp he) hi⟩

/-! ### Enforcement -/

/-- `QuotaMode`. -/
inductive QuotaMode
  | disabled
  | permissive
  | enforce
  deriving DecidableEq, Repr

/-- `effective_subscriber_limit`: `0` is unlimited.  A budget that names the
identity wins, also at `0`, once the watcher has synced. -/
def effectiveSubscriberLimit (table : QuotaTable) (synced : Bool) (defaultMax : UInt32)
    (identity : String) : UInt32 :=
  if synced then
    match table.quotaFor identity with
    | some q => q.maxSubscribers
    | none => defaultMax
  else defaultMax

end Konfig
