import Konfig.Lib.Compartments
import Konfig.Policy.QuotaMerge
import Konfig.Policy.Rate
import Konfig.Policy.Subscribers
import Konfig.Secrets.Types
import Konfig.TenantCache

/-!
# Tenants do not see each other

What the server keeps by identity, in one machine: the token buckets of the applies, the
slots of the subscribers, and the bytes of what was served, which `CacheAccountant` and
`AccountedStream` of `tenant_cache.rs` count on the way out.  The calls of any number of tenants
come in any order, each under the `TenantQuota` objects that are mirrored at that time.

* `Delivery.cost`: what a delivery is charged.
* `TenantCall.own`, `TenantCall.others`: what a call does to its tenant, and to the others.
* `tenants_isolated`: a tenant is answered by its own calls and the objects that name it.
-/

namespace Konfig

open Lib

/-! ### The bytes of a delivery -/

/-- `config_cost`. -/
def configCost (c : Config) : Option (String × String × ℕ) :=
  some (c.ns, c.name, c.contentJson.utf8ByteSize + c.ns.utf8ByteSize + c.name.utf8ByteSize)

/-- `config_event_cost`: a tombstone without a config is free. -/
def configEventCost (e : ConfigEvent) : Option (String × String × ℕ) := e.config.bind configCost

/-- `secret_cost`. -/
def secretCost (s : SecretResponse) : Option (String × String × ℕ) :=
  some (s.ns, s.name, s.dataJson.utf8ByteSize + s.ns.utf8ByteSize + s.name.utf8ByteSize)

/-- `secret_event_cost`. -/
def secretEventCost (e : SecretEvent) : Option (String × String × ℕ) := e.secret.bind secretCost

/-- A message of one of the four RPCs that are accounted. -/
inductive Delivery
  | config (c : Config)
  | configEvent (e : ConfigEvent)
  | secret (s : SecretResponse)
  | secretEvent (e : SecretEvent)

def Delivery.cost : Delivery → Option (String × String × ℕ)
  | .config c => configCost c
  | .configEvent e => configEventCost e
  | .secret s => secretCost s
  | .secretEvent e => secretEventCost e

/-- What polling a stream of messages gives. -/
inductive Polled (α : Type)
  | pending
  | ready (item : Option (Except Status α))

namespace CacheAccountant

/-- `record_cost`. -/
def recordCost (acct : CacheAccountant) (ledger : TenantCacheLedger) :
    Option (String × String × ℕ) → TenantCacheLedger × Option CacheMetrics
  | some (ns, name, bytes) =>
    let (ledger, metrics) := acct.record ledger ns name bytes
    (ledger, some metrics)
  | none => (ledger, none)

/-- `AccountedStream::poll_next`, after the inner stream was polled: what was polled is handed
on, and a message is charged. -/
def pollNext (acct : CacheAccountant) (ledger : TenantCacheLedger) (polled : Polled Delivery) :
    Polled Delivery × TenantCacheLedger × Option CacheMetrics :=
  match polled with
  | .ready (some (.ok item)) => (polled, acct.recordCost ledger item.cost)
  | .ready (some (.error _)) | .ready none | .pending => (polled, ledger, none)

end CacheAccountant

/-! ### The machine -/

/-- `effective_cache_budget`. -/
def effectiveCacheBudget (table : QuotaTable) (synced : Bool) (defaultBudget : UInt64) (identity : String) :
    UInt64 :=
  if synced then
    match table.quotaFor identity with
    | some q => q.cacheMemoryBudgetBytes
    | none => defaultBudget
  else defaultBudget

/-- The flags of the server. -/
structure QuotaFlags where
  mode : QuotaMode
  defaultApplyRate : UInt32
  defaultMaxSubscribers : UInt32
  defaultCacheBudgetBytes : UInt64

/-- The quotas at a call: the mirrored objects, in the order they were published in. -/
structure QuotaState where
  objects : Map String QuotaEntry
  order : List String
  visits : order.Perm objects.keys
  synced : Bool

def QuotaState.table (q : QuotaState) : QuotaTable := publishedIn q.objects q.order

/-- What is kept by identity. -/
structure TenantStores where
  limiter : ApplyLimiter := ∅
  counts : SubscriberCounts := ∅
  ledger : TenantCacheLedger := ∅

/-- An access to one of the stores. -/
inductive TenantCall
  /-- `rate_limit_apply`, at a reading of the clock. -/
  | apply (quotas : QuotaState) (identity : String) (cost : UInt32) (now : ℚ)
  /-- `admit_subscriber`. -/
  | subscribe (quotas : QuotaState) (identity : String)
  /-- A guard is dropped: the `get_mut` of `release`. -/
  | release (identity : String)
  /-- The `remove_if` of `release`. -/
  | remove (identity : String)
  /-- `cache_accountant`, at the start of an RPC. -/
  | account (quotas : QuotaState) (identity kind : String)
  /-- A response stream of the accountant is polled. -/
  | poll (acct : CacheAccountant) (polled : Polled Delivery)

def TenantCall.identity : TenantCall → String
  | .apply _ identity _ _ | .subscribe _ identity | .release identity | .remove identity
  | .account _ identity _ => identity
  | .poll acct _ => acct.identity

inductive TenantAnswer
  | applied (outcome : ApplyOutcome)
  | admitted (result : Except Status (Option Admit))
  | released (nowZero : Bool)
  | removed
  | accountant (acct : Option CacheAccountant)
  | polled (polled : Polled Delivery) (metrics : Option CacheMetrics)

def TenantStores.step (flags : QuotaFlags) (s : TenantStores) : TenantCall → TenantAnswer × TenantStores
  | .apply quotas identity cost now =>
    let (outcome, limiter) := applyAdmission s.limiter quotas.table quotas.synced flags.mode
      flags.defaultApplyRate identity cost now
    (.applied outcome, { s with limiter })
  | .subscribe quotas identity =>
    let (result, counts) := admitSubscriber s.counts quotas.table quotas.synced flags.mode
      flags.defaultMaxSubscribers identity
    (.admitted result, { s with counts })
  | .release identity =>
    let (nowZero, counts) := s.counts.decrement identity
    (.released nowZero, { s with counts })
  | .remove identity => (.removed, { s with counts := s.counts.removeIfZero identity })
  | .account quotas identity kind =>
    if flags.mode = .disabled then (.accountant none, s)
    else
      let budget := effectiveCacheBudget quotas.table quotas.synced flags.defaultCacheBudgetBytes identity
      (.accountant (some { identity, mode := flags.mode, budget, kind }), s)
  | .poll acct polled =>
    let (polled, ledger, metrics) := acct.pollNext s.ledger polled
    (.polled polled metrics, { s with ledger })

/-! ### What a tenant sees -/

/-- The entries of one identity. -/
structure TenantEntries where
  bucket : Option (Bucket ℚ)
  subscribers : Option UInt32
  view : Option TenantView

def TenantStores.entries (s : TenantStores) (identity : String) : TenantEntries where
  bucket := s.limiter.lookup identity
  subscribers := s.counts.lookup identity
  view := s.ledger.lookup identity

/-- The same objects name the identity. -/
structure QuotaState.SameFor (identity : String) (q q' : QuotaState) : Prop where
  synced : q.synced = q'.synced
  objects : ∀ e : QuotaEntry, e.identity = identity →
    ((∃ name, q.objects.lookup name = some e) ↔ ∃ name, q'.objects.lookup name = some e)

/-- Calls that ask the same, but for objects that name others. -/
inductive TenantCall.AsksSame (identity : String) : TenantCall → TenantCall → Prop
  | apply {q q' : QuotaState} (cost : UInt32) (now : ℚ) :
      q.SameFor identity q' → AsksSame identity (.apply q identity cost now) (.apply q' identity cost now)
  | subscribe {q q' : QuotaState} :
      q.SameFor identity q' → AsksSame identity (.subscribe q identity) (.subscribe q' identity)
  | account {q q' : QuotaState} (kind : String) :
      q.SameFor identity q' → AsksSame identity (.account q identity kind) (.account q' identity kind)
  | release : AsksSame identity (.release identity) (.release identity)
  | remove : AsksSame identity (.remove identity) (.remove identity)
  | poll {acct : CacheAccountant} (polled : Polled Delivery) :
      acct.identity = identity → AsksSame identity (.poll acct polled) (.poll acct polled)

theorem QuotaState.SameFor.refl (identity : String) (q : QuotaState) : q.SameFor identity q :=
  ⟨rfl, fun _ _ => Iff.rfl⟩

theorem TenantCall.AsksSame.refl {identity : String} {call : TenantCall} (h : call.identity = identity) :
    TenantCall.AsksSame identity call call := by
  cases call with
  | apply quotas _ cost now =>
    cases h
    exact .apply cost now (.refl _ quotas)
  | subscribe quotas _ =>
    cases h
    exact .subscribe (.refl _ quotas)
  | release _ =>
    cases h
    exact .release
  | remove _ =>
    cases h
    exact .remove
  | account quotas _ kind =>
    cases h
    exact .account kind (.refl _ quotas)
  | poll acct polled => exact .poll polled h

theorem QuotaState.SameFor.quotaFor {identity : String} {q q' : QuotaState} (h : q.SameFor identity q') :
    q.table.quotaFor identity = q'.table.quotaFor identity := published_congr q.visits q'.visits h.objects

/-! ### One entry -/

namespace SubscriberCounts

variable {c c' : SubscriberCounts} {i : String}

theorem current_congr (h : c.lookup i = c'.lookup i) : c.current i = c'.current i := by
  rw [current, current, h]

theorem lookup_orInsertZero_self : (c.orInsertZero i).lookup i = some (c.current i) := by
  unfold orInsertZero current
  cases h : c.lookup i with
  | some n => simp [h]
  | none => simp [AList.lookup_insert]

/-- An admission asks the entry of the identity, and moves no other. -/
theorem admitOne_congr (h : c.lookup i = c'.lookup i) (mode : QuotaMode) (limit : UInt32) :
    (c.admitOne i mode limit).1 = (c'.admitOne i mode limit).1 ∧
      (c.admitOne i mode limit).2.lookup i = (c'.admitOne i mode limit).2.lookup i := by
  have hcurrent := current_congr h
  cases mode with
  | enforce =>
    simp only [admitOne, tryIncrement, increment, current_orInsertZero, hcurrent]
    by_cases hfull : limit ≠ 0 ∧ c'.current i ≥ limit
    · simp only [if_pos hfull, lookup_orInsertZero_self, hcurrent, and_self]
    · simp only [if_neg hfull, AList.lookup_insert, and_self]
  | permissive | disabled =>
    simp only [admitOne, incrementUnchecked, increment, current_orInsertZero, hcurrent, AList.lookup_insert,
      and_self]

theorem lookup_admitOne_of_ne {j : String} (hj : j ≠ i) (mode : QuotaMode) (limit : UInt32) :
    (c.admitOne i mode limit).2.lookup j = c.lookup j := by
  rcases c.admitOne_cases i mode limit with ⟨ov, c', hdecided, -, hothers, -⟩ | hdenied
  · rw [hdecided]
    exact hothers j hj
  · rw [hdenied]

theorem decrement_congr (h : c.lookup i = c'.lookup i) : (c.decrement i).1 = (c'.decrement i).1 ∧
    (c.decrement i).2.lookup i = (c'.decrement i).2.lookup i := by
  cases hc : c.lookup i with
  | none =>
    have hc' : c'.lookup i = none := h.symm.trans hc
    simp only [decrement, hc, hc', and_self]
  | some e =>
    have hc' : c'.lookup i = some e := h.symm.trans hc
    simp only [decrement, hc, hc', AList.lookup_insert, and_self]

theorem removeIfZero_congr (h : c.lookup i = c'.lookup i) :
    (c.removeIfZero i).lookup i = (c'.removeIfZero i).lookup i := by
  unfold removeIfZero
  rw [← h]
  split
  · rw [AList.lookup_erase, AList.lookup_erase]
  · exact h

end SubscriberCounts

theorem ApplyLimiter.admitAt_congr {limiter limiter' : ApplyLimiter} {identity : String}
    (h : limiter.lookup identity = limiter'.lookup identity) (mode : QuotaMode) (rate burst cost : UInt32)
    (now : ℚ) :
    (limiter.admitAt identity mode rate burst cost now).1 = (limiter'.admitAt identity mode rate burst cost now).1 ∧
      (limiter.admitAt identity mode rate burst cost now).2.lookup identity =
        (limiter'.admitAt identity mode rate burst cost now).2.lookup identity := by
  unfold admitAt tryAcquireAt
  rw [h]
  cases mode with
  | enforce | permissive | disabled => exact ⟨rfl, by simp only [AList.lookup_insert]⟩

/-- An apply asks the bucket of the identity and its quota. -/
theorem applyAdmission_congr {limiter limiter' : ApplyLimiter} {table table' : QuotaTable} {identity : String}
    (hbucket : limiter.lookup identity = limiter'.lookup identity)
    (hquota : table.quotaFor identity = table'.quotaFor identity) (synced : Bool) (mode : QuotaMode)
    (defaultRate cost : UInt32) (now : ℚ) :
    (applyAdmission limiter table synced mode defaultRate identity cost now).1 =
        (applyAdmission limiter' table' synced mode defaultRate identity cost now).1 ∧
      (applyAdmission limiter table synced mode defaultRate identity cost now).2.lookup identity =
        (applyAdmission limiter' table' synced mode defaultRate identity cost now).2.lookup identity := by
  have hrate : effectiveApplyRate table synced defaultRate identity =
      effectiveApplyRate table' synced defaultRate identity := by
    unfold effectiveApplyRate
    rw [hquota]
  unfold applyAdmission
  rw [hrate]
  generalize effectiveApplyRate table' synced defaultRate identity = rates
  obtain ⟨rate, burst⟩ := rates
  obtain ⟨hdecided, hlook⟩ := ApplyLimiter.admitAt_congr hbucket mode rate burst cost now
  simp only
  split
  · exact ⟨rfl, hbucket⟩
  · split
    · exact ⟨rfl, hbucket⟩
    · generalize limiter.admitAt identity mode rate burst cost now = r at hdecided hlook ⊢
      generalize limiter'.admitAt identity mode rate burst cost now = r' at hdecided hlook ⊢
      obtain ⟨decision, buckets⟩ := r
      obtain ⟨decision', buckets'⟩ := r'
      obtain rfl : decision = decision' := hdecided
      cases decision with
      | allowed ov => cases ov <;> exact ⟨rfl, hlook⟩
      | denied => exact ⟨rfl, hlook⟩

theorem admitSubscriber_congr {c c' : SubscriberCounts} {table table' : QuotaTable} {identity : String}
    (hcount : c.lookup identity = c'.lookup identity)
    (hquota : table.quotaFor identity = table'.quotaFor identity) (synced : Bool) (mode : QuotaMode)
    (defaultMax : UInt32) :
    (admitSubscriber c table synced mode defaultMax identity).1 =
        (admitSubscriber c' table' synced mode defaultMax identity).1 ∧
      (admitSubscriber c table synced mode defaultMax identity).2.lookup identity =
        (admitSubscriber c' table' synced mode defaultMax identity).2.lookup identity := by
  have hlimit : effectiveSubscriberLimit table synced defaultMax identity =
      effectiveSubscriberLimit table' synced defaultMax identity := by
    unfold effectiveSubscriberLimit
    rw [hquota]
  unfold admitSubscriber
  rw [hlimit]
  split
  · exact ⟨rfl, hcount⟩
  · obtain ⟨hdecided, hlook⟩ := SubscriberCounts.admitOne_congr hcount mode
      (effectiveSubscriberLimit table' synced defaultMax identity)
    simp only
    generalize c.admitOne identity mode _ = r at hdecided hlook ⊢
    generalize c'.admitOne identity mode _ = r' at hdecided hlook ⊢
    obtain ⟨decided, counts⟩ := r
    obtain ⟨decided', counts'⟩ := r'
    obtain rfl : decided = decided' := hdecided
    cases decided with
    | allowed current limit ov => exact ⟨rfl, hlook⟩
    | denied current limit => exact ⟨rfl, hlook⟩

theorem lookup_admitSubscriber_of_ne {c : SubscriberCounts} {identity other : String} (h : other ≠ identity)
    (table : QuotaTable) (synced : Bool) (mode : QuotaMode) (defaultMax : UInt32) :
    (admitSubscriber c table synced mode defaultMax identity).2.lookup other = c.lookup other := by
  unfold admitSubscriber
  split
  · rfl
  · have hlook := SubscriberCounts.lookup_admitOne_of_ne (c := c) h mode
      (effectiveSubscriberLimit table synced defaultMax identity)
    simp only
    generalize c.admitOne identity mode _ = r at hlook ⊢
    obtain ⟨decided, counts⟩ := r
    cases decided with
    | allowed current limit ov => exact hlook
    | denied current limit => exact hlook

theorem CacheAccountant.pollNext_congr (acct : CacheAccountant) {ledger ledger' : TenantCacheLedger}
    (h : ledger.lookup acct.identity = ledger'.lookup acct.identity) (polled : Polled Delivery) :
    (acct.pollNext ledger polled).2.2 = (acct.pollNext ledger' polled).2.2 ∧
      (acct.pollNext ledger polled).2.1.lookup acct.identity =
        (acct.pollNext ledger' polled).2.1.lookup acct.identity := by
  cases polled with
  | pending => exact ⟨rfl, h⟩
  | ready item =>
    rcases item with _ | status | item
    · exact ⟨rfl, h⟩
    · exact ⟨rfl, h⟩
    · simp only [CacheAccountant.pollNext]
      cases item.cost with
      | none => exact ⟨rfl, h⟩
      | some cost =>
        simp only [CacheAccountant.recordCost, CacheAccountant.record, TenantCacheLedger.record, h,
          AList.lookup_insert, and_self]

theorem CacheAccountant.polled_pollNext (acct : CacheAccountant) (ledger : TenantCacheLedger)
    (polled : Polled Delivery) : (acct.pollNext ledger polled).1 = polled := by
  cases polled with
  | pending => rfl
  | ready item => rcases item with _ | status | item <;> rfl

theorem CacheAccountant.lookup_pollNext_of_ne (acct : CacheAccountant) (ledger : TenantCacheLedger)
    {other : String} (h : other ≠ acct.identity) (polled : Polled Delivery) :
    (acct.pollNext ledger polled).2.1.lookup other = ledger.lookup other := by
  cases polled with
  | pending => rfl
  | ready item =>
    rcases item with _ | status | item
    · rfl
    · rfl
    · simp only [CacheAccountant.pollNext]
      cases item.cost with
      | none => rfl
      | some cost => exact AList.lookup_insert_ne h

theorem effectiveCacheBudget_congr {identity : String} {q q' : QuotaState} (h : q.SameFor identity q')
    (defaultBudget : UInt64) :
    effectiveCacheBudget q.table q.synced defaultBudget identity =
      effectiveCacheBudget q'.table q'.synced defaultBudget identity := by
  unfold effectiveCacheBudget
  rw [h.synced, h.quotaFor]

/-! ### The compartments -/

variable {flags : QuotaFlags}

/-- What a call does to its own tenant. -/
theorem TenantCall.own {identity : String} {s s' : TenantStores} {call call' : TenantCall}
    (hs : s.entries identity = s'.entries identity)
    (hasks : TenantCall.AsksSame identity call call') :
    (s.step flags call).1 = (s'.step flags call').1 ∧
      (s.step flags call).2.entries identity = (s'.step flags call').2.entries identity := by
  obtain ⟨hbucket, hcount, hview⟩ := TenantEntries.mk.inj hs
  unfold TenantStores.entries
  rw [TenantEntries.mk.injEq]
  cases hasks with
  | apply cost now hquota =>
    obtain ⟨hout, hlook⟩ := applyAdmission_congr hbucket hquota.quotaFor _ flags.mode flags.defaultApplyRate cost now
    simp only [TenantStores.step]
    rw [← hquota.synced]
    exact ⟨congrArg TenantAnswer.applied hout, hlook, hcount, hview⟩
  | subscribe hquota =>
    obtain ⟨hout, hlook⟩ := admitSubscriber_congr hcount hquota.quotaFor _ flags.mode flags.defaultMaxSubscribers
    simp only [TenantStores.step]
    rw [← hquota.synced]
    exact ⟨congrArg TenantAnswer.admitted hout, hbucket, hlook, hview⟩
  | account kind hquota =>
    have hbudget := effectiveCacheBudget_congr hquota flags.defaultCacheBudgetBytes
    simp only [TenantStores.step]
    rw [hbudget]
    split <;> exact ⟨rfl, hbucket, hcount, hview⟩
  | release =>
    obtain ⟨hzero, hlook⟩ := SubscriberCounts.decrement_congr hcount
    exact ⟨congrArg TenantAnswer.released hzero, hbucket, hlook, hview⟩
  | remove => exact ⟨rfl, hbucket, SubscriberCounts.removeIfZero_congr hcount, hview⟩
  | @poll acct polled hid =>
    subst hid
    obtain ⟨hmetrics, hlook⟩ := acct.pollNext_congr hview polled
    have hpolled : (acct.pollNext s.ledger polled).1 = (acct.pollNext s'.ledger polled).1 := by
      rw [acct.polled_pollNext, acct.polled_pollNext]
    exact ⟨congrArg₂ TenantAnswer.polled hpolled hmetrics, hbucket, hcount, hlook⟩

/-- What it does to the others. -/
theorem TenantCall.others {identity : String} {s : TenantStores} {call : TenantCall}
    (h : call.identity ≠ identity) : (s.step flags call).2.entries identity = s.entries identity := by
  have hne : identity ≠ call.identity := Ne.symm h
  unfold TenantStores.entries
  cases call with
  | apply quotas other cost now =>
    rw [TenantEntries.mk.injEq]
    exact ⟨lookup_applyAdmission_ne hne cost now, rfl, rfl⟩
  | subscribe quotas other =>
    rw [TenantEntries.mk.injEq]
    exact ⟨rfl, lookup_admitSubscriber_of_ne hne _ _ _ _, rfl⟩
  | release other =>
    rw [TenantEntries.mk.injEq]
    exact ⟨rfl, SubscriberCounts.lookup_decrement_of_ne hne, rfl⟩
  | remove other =>
    rw [TenantEntries.mk.injEq]
    exact ⟨rfl, SubscriberCounts.lookup_removeIfZero_of_ne hne, rfl⟩
  | account quotas other kind =>
    simp only [TenantStores.step]
    split <;> rfl
  | poll acct polled =>
    rw [TenantEntries.mk.injEq]
    exact ⟨rfl, rfl, acct.lookup_pollNext_of_ne s.ledger hne polled⟩

/-- The stores are made of one compartment a tenant. -/
theorem tenantCompartments (flags : QuotaFlags) :
    Compartments (TenantStores.step flags) TenantCall.identity TenantStores.entries TenantCall.AsksSame where
  refl := TenantCall.AsksSame.refl
  own _ _ hs hasks := TenantCall.own hs hasks
  others := TenantCall.others

/-- **A tenant cannot tell what other tenants do, nor what quota they have.**  In any two runs
in which it makes the same calls, under the same objects that name it, it gets the same answers. -/
theorem tenants_isolated (flags : QuotaFlags) {identity : String} {s s' : TenantStores}
    {calls calls' : List TenantCall} (hs : s.entries identity = s'.entries identity)
    (hcalls : List.Forall₂ (TenantCall.AsksSame identity) (labelsOf TenantCall.identity identity calls)
      (labelsOf TenantCall.identity identity calls')) :
    answersTo (TenantStores.step flags) TenantCall.identity identity s calls =
        answersTo (TenantStores.step flags) TenantCall.identity identity s' calls' ∧
      (after (TenantStores.step flags) s calls).entries identity =
        (after (TenantStores.step flags) s' calls').entries identity :=
  (tenantCompartments flags).indistinguishable hs hcalls

section Two

/-- One subscriber each, and one apply a second. -/
def tightFlags : QuotaFlags := ⟨.enforce, 1, 1, 100⟩

def noQuotas : QuotaState := ⟨∅, [], .refl _, true⟩

/-- `beta` has an object of its own. -/
def betaQuotas : QuotaState := ⟨AList.singleton "beta" ⟨"beta", ⟨5, 5, 5, 100⟩⟩, ["beta"], .refl _, true⟩

theorem sameFor_betaQuotas : noQuotas.SameFor "alpha" betaQuotas := by
  refine ⟨rfl, fun e he => ⟨fun h => ?_, fun h => ?_⟩⟩
  · obtain ⟨name, hname⟩ := h
    cases hname
  · obtain ⟨name, hname⟩ := h
    have hmem := AList.mem_lookup_iff.mp hname
    obtain rfl : e = ⟨"beta", ⟨5, 5, 5, 100⟩⟩ := by
      have h := List.mem_singleton.mp hmem
      cases h
      rfl
    exact absurd he (by decide)

/-- `alpha` subscribes twice, between the calls of `beta`. -/
def betweenCalls : List TenantCall :=
  [.subscribe betaQuotas "beta", .subscribe betaQuotas "alpha", .apply betaQuotas "beta" 2 0,
    .subscribe betaQuotas "beta", .subscribe betaQuotas "alpha"]

theorem tenants_isolated_between :
    answersTo (TenantStores.step tightFlags) TenantCall.identity "alpha" {}
        [.subscribe noQuotas "alpha", .subscribe noQuotas "alpha"] =
      answersTo (TenantStores.step tightFlags) TenantCall.identity "alpha" {} betweenCalls ∧
    (after (TenantStores.step tightFlags) {} betweenCalls).counts.lookup "alpha" = some 1 := by
  have hcalls : List.Forall₂ (TenantCall.AsksSame "alpha")
      (labelsOf TenantCall.identity "alpha" [.subscribe noQuotas "alpha", .subscribe noQuotas "alpha"])
      (labelsOf TenantCall.identity "alpha" betweenCalls) :=
    .cons (.subscribe sameFor_betaQuotas) (.cons (.subscribe sameFor_betaQuotas) .nil)
  obtain ⟨hanswers, hentries⟩ := tenants_isolated tightFlags (rfl : TenantStores.entries {} "alpha" = _) hcalls
  exact ⟨hanswers, (congrArg TenantEntries.subscribers hentries).symm.trans rfl⟩

end Two

end Konfig
