import Konfig.Lib.Recency
import Konfig.Policy.Quota

/-!
# The bytes a tenant was served

`tenant_cache.rs`: each serve of a config or a secret counts its bytes for the identity it
was served to.  Under `Enforce` what the tenant was served least recently leaves its view
until the bytes are within `cacheMemoryBudgetBytes`; the payload itself stays in the shared
cache.  A view keeps two indexes, the slots by key and the keys by tick.  Byte counts and ticks are
natural numbers.

* `TenantView.WF`: the two indexes agree and the total is what the slots cost.
* `TenantView.entries_touch`, `TenantView.entries_evictTo`: in the order of the ticks a
  view is a list of entries that are touched and shed.
* `budget_enforced`: what a `record` does to the views after any number of them.
-/

namespace Konfig

open Lib

/-- The kind, the namespace and the name. -/
abbrev CacheKey := String × String × String

structure TenantView.Slot where
  bytes : ℕ
  tick : ℕ
  deriving DecidableEq, Repr

/-- `TenantView`. -/
structure TenantView where
  byKey : Map CacheKey TenantView.Slot := ∅
  byTick : Std.TreeMap ℕ CacheKey := ∅
  total : ℕ := 0
  nextTick : ℕ := 0

namespace TenantView

/-- Record or refresh `key`, now the one served most recently. -/
def touch (v : TenantView) (key : CacheKey) (bytes : ℕ) : TenantView :=
  let v := match v.byKey.lookup key with
    | some prev => { v with byTick := v.byTick.erase prev.tick, total := v.total - prev.bytes }
    | none => v
  let tick := v.nextTick
  { byKey := v.byKey.insert key { bytes, tick }
    byTick := v.byTick.insert tick key
    total := v.total + bytes
    nextTick := v.nextTick + 1 }

/-- Remove an entry from both indexes. -/
def evictOne (v : TenantView) (tick : ℕ) (key : CacheKey) : TenantView :=
  { v with
    byKey := v.byKey.erase key
    byTick := v.byTick.erase tick
    total := match v.byKey.lookup key with
      | some slot => v.total - slot.bytes
      | none => v.total }

/-- The loop of `evict_to`. -/
def evictLoop (v : TenantView) (budget evicted : ℕ) : TenantView × ℕ :=
  if v.total > budget ∧ v.byKey.keys.length > 1 then
    match h : v.byTick.toList with
    | [] => (v, evicted)
    | (tick, key) :: _ => (v.evictOne tick key).evictLoop budget (evicted + 1)
  else (v, evicted)
termination_by v.byTick.toList.length
decreasing_by
  rw [evictOne, toList_erase, h, List.filter_cons_of_neg (by simp)]
  exact Nat.lt_succ_of_le (List.length_filter_le _ _)

/-- `evict_to`: no budget at `0`. -/
def evictTo (v : TenantView) (budget : UInt64) : TenantView × ℕ :=
  if budget = 0 then (v, 0) else v.evictLoop budget.toNat 0

end TenantView

/-- `TenantCacheLedger`. -/
abbrev TenantCacheLedger := Map String TenantView

/-- What `record` tells the metrics: the gauge of the bytes, and the evictions to count. -/
structure CacheMetrics where
  bytes : ℕ
  evictions : Option ℕ
  deriving DecidableEq, Repr

/-- `TenantCacheLedger::record`. -/
def TenantCacheLedger.record (ledger : TenantCacheLedger) (identity kind ns name : String) (bytes : ℕ)
    (evictBudget : Option UInt64) : TenantCacheLedger × CacheMetrics :=
  let v := (ledger.lookup identity).getD {}
  let v := v.touch (kind, ns, name) bytes
  let (v, evicted) := match evictBudget with
    | some budget => v.evictTo budget
    | none => (v, 0)
  (ledger.insert identity v,
    { bytes := v.total, evictions := if evicted > 0 then some evicted else none })

/-- `CacheAccountant`: the tenant of one RPC, and its budget as of the start of it. -/
structure CacheAccountant where
  identity : String
  mode : QuotaMode
  budget : UInt64
  kind : String
  deriving DecidableEq, Repr

/-- `CacheAccountant::record`. -/
def CacheAccountant.record (acct : CacheAccountant) (ledger : TenantCacheLedger) (ns name : String)
    (bytes : ℕ) : TenantCacheLedger × CacheMetrics :=
  let evictBudget := if acct.mode = .enforce then some acct.budget else none
  ledger.record acct.identity acct.kind ns name bytes evictBudget

/-! ### The two indexes -/

namespace TenantView

def bytesOf (v : TenantView) (key : CacheKey) : ℕ := ((v.byKey.lookup key).map Slot.bytes).getD 0

/-- The entries of a view, the one served least recently first. -/
def entries (v : TenantView) : List (CacheKey × ℕ) := v.byTick.toList.map fun e => (e.2, v.bytesOf e.2)

structure WF (v : TenantView) : Prop where
  indexed : ∀ tick key, (tick, key) ∈ v.byTick.toList ↔
    ∃ bytes, v.byKey.lookup key = some { bytes, tick }
  fresh : ∀ e ∈ v.byTick.toList, e.1 < v.nextTick
  total : v.total = cost v.entries

theorem wf_empty : WF {} where
  indexed tick key := by
    rw [AList.lookup_empty]
    exact ⟨fun h => absurd h List.not_mem_nil, nofun⟩
  fresh e he := absurd he List.not_mem_nil
  total := rfl

variable {v : TenantView}

theorem bytesOf_of_lookup {key : CacheKey} {slot : Slot} (h : v.byKey.lookup key = some slot) :
    v.bytesOf key = slot.bytes := by
  rw [bytesOf, h]
  rfl

theorem WF.tick_eq (h : v.WF) {t t' : ℕ} {key : CacheKey} (ht : (t, key) ∈ v.byTick.toList)
    (ht' : (t', key) ∈ v.byTick.toList) : t = t' := by
  obtain ⟨b, hb⟩ := (h.indexed t key).mp ht
  obtain ⟨b', hb'⟩ := (h.indexed t' key).mp ht'
  rw [hb, Option.some.injEq, Slot.mk.injEq] at hb'
  exact hb'.2

theorem WF.mem_entries (h : v.WF) {key : CacheKey} {bytes : ℕ} :
    (key, bytes) ∈ v.entries ↔ ∃ tick, v.byKey.lookup key = some { bytes, tick } := by
  rw [entries, List.mem_map]
  constructor
  · rintro ⟨⟨tick, k⟩, hmem, heq⟩
    obtain ⟨b, hb⟩ := (h.indexed tick k).mp hmem
    rw [Prod.mk.injEq, bytesOf_of_lookup hb] at heq
    obtain ⟨rfl, rfl⟩ := heq
    exact ⟨tick, hb⟩
  · rintro ⟨tick, hlook⟩
    exact ⟨(tick, key), (h.indexed tick key).mpr ⟨bytes, hlook⟩, by rw [bytesOf_of_lookup hlook]⟩

theorem WF.nodup_keys (h : v.WF) : (v.entries.map Prod.fst).Nodup := by
  rw [entries, List.map_map, List.Nodup, List.pairwise_map]
  refine (toList_ticks v.byTick).imp_of_mem fun {a b} ha hb hlt heq => ?_
  have hb' : (b.1, a.2) ∈ v.byTick.toList := by
    rw [show a.2 = b.2 from heq]
    exact hb
  exact absurd hlt (by rw [h.tick_eq ha hb']; exact lt_irrefl _)

theorem WF.length_keys (h : v.WF) : v.byKey.keys.length = v.entries.length := by
  have hlen : (v.entries.map Prod.fst).length = v.entries.length := List.length_map _
  rw [← hlen]
  refine List.Perm.length_eq ((List.perm_ext_iff_of_nodup v.byKey.keys_nodup h.nodup_keys).mpr fun key => ?_)
  rw [← AList.mem_keys, ← AList.lookup_isSome, Option.isSome_iff_exists, List.mem_map]
  constructor
  · rintro ⟨⟨bytes, tick⟩, hlook⟩
    exact ⟨(key, bytes), h.mem_entries.mpr ⟨tick, hlook⟩, rfl⟩
  · rintro ⟨⟨k, bytes⟩, hmem, rfl⟩
    obtain ⟨tick, hlook⟩ := h.mem_entries.mp hmem
    exact ⟨_, hlook⟩

/-! ### A serve -/

theorem lookup_touch (key : CacheKey) (bytes : ℕ) (k : CacheKey) :
    (v.touch key bytes).byKey.lookup k =
      if k = key then some { bytes, tick := v.nextTick } else v.byKey.lookup k := by
  have hboth : (v.touch key bytes).byKey = v.byKey.insert key { bytes, tick := v.nextTick } := by
    unfold touch
    cases v.byKey.lookup key <;> rfl
  rw [hboth]
  split
  · rename_i h
    rw [h, AList.lookup_insert]
  · rename_i h
    rw [AList.lookup_insert_ne h]

theorem nextTick_touch (key : CacheKey) (bytes : ℕ) : (v.touch key bytes).nextTick = v.nextTick + 1 := by
  unfold touch
  cases v.byKey.lookup key <;> rfl

/-- The tick of the last serve goes, the next one comes to the end. -/
theorem WF.toList_touch (h : v.WF) (key : CacheKey) (bytes : ℕ) :
    (v.touch key bytes).byTick.toList =
      v.byTick.toList.filter (·.2 ≠ key) ++ [(v.nextTick, key)] := by
  unfold touch
  cases hlook : v.byKey.lookup key with
  | some prev =>
    have hmem : (prev.tick, key) ∈ v.byTick.toList := (h.indexed _ _).mpr ⟨prev.bytes, hlook⟩
    have hsame : v.byTick.toList.filter (·.1 ≠ prev.tick) = v.byTick.toList.filter (·.2 ≠ key) := by
      refine List.filter_congr fun e he => ?_
      have hiff : e.1 = prev.tick ↔ e.2 = key := by
        constructor
        · intro heq
          obtain ⟨b, hb⟩ := (h.indexed e.1 e.2).mp he
          obtain ⟨b', hb'⟩ := (h.indexed prev.tick key).mp hmem
          have hin : (prev.tick, e.2) ∈ v.byTick.toList := by
            rw [← heq]
            exact he
          rw [Std.TreeMap.mem_toList_iff_getElem?_eq_some] at hin hmem
          exact Option.some.inj (hin.symm.trans hmem)
        · intro heq
          have hin : (e.1, key) ∈ v.byTick.toList := by
            rw [← heq]
            exact he
          exact h.tick_eq hin hmem
      simp only [ne_eq, hiff]
    dsimp only
    rw [toList_insert_last, toList_erase, hsame]
    intro e he
    rw [toList_erase] at he
    exact h.fresh e (List.mem_of_mem_filter he)
  | none =>
    have hsame : v.byTick.toList.filter (·.2 ≠ key) = v.byTick.toList := by
      refine List.filter_eq_self.mpr fun e he => ?_
      obtain ⟨b, hb⟩ := (h.indexed e.1 e.2).mp he
      rw [decide_eq_true_eq]
      rintro rfl
      rw [hlook] at hb
      cases hb
    dsimp only
    rw [toList_insert_last h.fresh, hsame]

theorem WF.entries_touch (h : v.WF) (key : CacheKey) (bytes : ℕ) :
    (v.touch key bytes).entries = Lib.touch v.entries (key, bytes) := by
  have hbytes : ∀ k, (v.touch key bytes).bytesOf k = if k = key then bytes else v.bytesOf k := by
    intro k
    rw [bytesOf, lookup_touch]
    split <;> rfl
  rw [entries, h.toList_touch, List.map_append, Lib.touch, entries, List.filter_map]
  congr 1
  · refine List.map_congr_left fun e he => ?_
    rw [hbytes, if_neg (by simpa using (List.mem_filter.mp he).2)]
  · rw [List.map_singleton, hbytes, if_pos rfl]

theorem WF.total_touch (h : v.WF) (key : CacheKey) (bytes : ℕ) :
    (v.touch key bytes).total = cost (Lib.touch v.entries (key, bytes)) := by
  have htotal : (v.touch key bytes).total = cost (v.entries.filter (·.1 ≠ key)) + bytes := by
    unfold touch
    cases hlook : v.byKey.lookup key with
    | some prev =>
      have hcost := cost_filter_ne h.nodup_keys (h.mem_entries.mpr ⟨prev.tick, hlook⟩)
      dsimp only at hcost ⊢
      rw [h.total]
      omega
    | none =>
      have hsame : v.entries.filter (·.1 ≠ key) = v.entries := by
        refine List.filter_eq_self.mpr fun e he => ?_
        obtain ⟨tick, htick⟩ := h.mem_entries.mp he
        rw [decide_eq_true_eq]
        rintro rfl
        rw [hlook] at htick
        cases htick
      dsimp only
      rw [hsame, h.total]
  rw [htotal, Lib.touch, cost_append]
  rfl

theorem WF.touch (h : v.WF) (key : CacheKey) (bytes : ℕ) : (v.touch key bytes).WF where
  indexed tick k := by
    rw [h.toList_touch, List.mem_append, List.mem_filter, List.mem_singleton, lookup_touch]
    by_cases hk : k = key
    · simp [hk, eq_comm]
    · simp [hk, h.indexed]
  fresh e he := by
    rw [h.toList_touch, List.mem_append, List.mem_singleton] at he
    rw [nextTick_touch]
    rcases he with he | rfl
    · exact Nat.lt_succ_of_lt (h.fresh e (List.mem_of_mem_filter he))
    · exact Nat.lt_succ_self _
  total := by rw [h.total_touch, h.entries_touch]

/-! ### Evictions -/

/-- The loop drops the entry served least recently. -/
theorem WF.evictOne (h : v.WF) {tick : ℕ} {key : CacheKey} {rest : List (ℕ × CacheKey)}
    (hlist : v.byTick.toList = (tick, key) :: rest) :
    ∃ bytes, v.entries = (key, bytes) :: (v.evictOne tick key).entries ∧ (v.evictOne tick key).WF := by
  have hsorted := toList_ticks v.byTick
  rw [hlist, List.pairwise_cons] at hsorted
  have hhead : (tick, key) ∈ v.byTick.toList := by
    rw [hlist]
    exact List.mem_cons_self
  have htail : ∀ e ∈ rest, e ∈ v.byTick.toList := fun e he => by
    rw [hlist]
    exact List.mem_cons_of_mem _ he
  have hkey : ∀ e ∈ rest, e.2 ≠ key := by
    rintro e he rfl
    exact absurd (h.tick_eq hhead (htail e he)) (hsorted.1 e he).ne
  have hrest : (v.evictOne tick key).byTick.toList = rest := by
    rw [TenantView.evictOne, toList_erase, hlist, List.filter_cons_of_neg (by simp)]
    exact List.filter_eq_self.mpr fun e he => by simpa using (hsorted.1 e he).ne'
  obtain ⟨bytes, hlook⟩ := (h.indexed tick key).mp hhead
  have hcons : v.entries = (key, bytes) :: (v.evictOne tick key).entries := by
    rw [entries, entries, hrest, hlist, List.map_cons, bytesOf_of_lookup hlook]
    congr 1
    refine List.map_congr_left fun e he => ?_
    rw [bytesOf, bytesOf, TenantView.evictOne, AList.lookup_erase_ne (hkey e he)]
  refine ⟨bytes, hcons, ?_, ?_, ?_⟩
  · intro t k
    rw [hrest, TenantView.evictOne]
    by_cases hk : k = key
    · rw [hk, AList.lookup_erase]
      exact ⟨fun hmem => absurd rfl (hkey _ hmem), nofun⟩
    · rw [AList.lookup_erase_ne hk, ← h.indexed, hlist, List.mem_cons, Prod.mk.injEq]
      simp [hk]
  · intro e he
    rw [hrest] at he
    exact h.fresh e (htail e he)
  · have htotal := h.total
    rw [hcons, cost_cons] at htotal
    have hless : (v.evictOne tick key).total = v.total - bytes := by
      rw [TenantView.evictOne, hlook]
    omega

/-- One iteration. -/
theorem evictLoop_over {budget evicted tick : ℕ} {key : CacheKey} {rest : List (ℕ × CacheKey)}
    (hover : v.total > budget ∧ v.byKey.keys.length > 1) (hlist : v.byTick.toList = (tick, key) :: rest) :
    v.evictLoop budget evicted = (v.evictOne tick key).evictLoop budget (evicted + 1) := by
  rw [TenantView.evictLoop, if_pos hover]
  split
  · rename_i hnil
    rw [hnil] at hlist
    cases hlist
  · rename_i tick' key' rest' hlist'
    rw [hlist', List.cons.injEq, Prod.mk.injEq] at hlist
    rw [hlist.1.1, hlist.1.2]

/-- The test of the loop. -/
theorem WF.fits_iff (h : v.WF) (budget : ℕ) :
    Fits budget v.entries ↔ ¬ (v.total > budget ∧ v.byKey.keys.length > 1) := by
  rw [Fits, ← h.total, ← h.length_keys, not_and_or, not_lt, not_lt]

/-- **The loop sheds the entries.** -/
theorem WF.evictLoop (h : v.WF) (budget evicted : ℕ) :
    (v.evictLoop budget evicted).1.WF ∧ (v.evictLoop budget evicted).1.entries = shed budget v.entries ∧
      (v.evictLoop budget evicted).2 + (shed budget v.entries).length = evicted + v.entries.length := by
  induction v, evicted using TenantView.evictLoop.induct budget with
  | case1 v evicted hover hnil =>
    -- more than one key, and so a tick
    have hlen : v.entries.length = 0 := by rw [entries, hnil]; rfl
    rw [h.length_keys, hlen] at hover
    exact absurd hover.2 (by omega)
  | case2 v evicted hover tick key rest hlist ih =>
    obtain ⟨bytes, hcons, hwf⟩ := h.evictOne hlist
    obtain ⟨ihwf, ihentries, ihlen⟩ := ih hwf
    have hshed : shed budget v.entries = shed budget (v.evictOne tick key).entries := by
      have hnot := mt (h.fits_iff budget).mp (not_not_intro hover)
      rw [hcons] at hnot ⊢
      rw [shed, if_neg hnot]
    rw [evictLoop_over hover hlist, hshed]
    refine ⟨ihwf, ihentries, ?_⟩
    rw [ihlen, hcons, List.length_cons]
    omega
  | case3 v evicted hdone =>
    have hshed : shed budget v.entries = v.entries := by
      have hfits := (h.fits_iff budget).mpr hdone
      cases he : v.entries with
      | nil => rfl
      | cons e l =>
        rw [he] at hfits
        rw [shed, if_pos hfits]
    have hloop : v.evictLoop budget evicted = (v, evicted) := by
      rw [TenantView.evictLoop, if_neg hdone]
    rw [hloop, hshed]
    exact ⟨h, rfl, rfl⟩

/-- What `evict_to` leaves of entries that end in the one just served. -/
theorem WF.evictTo (h : v.WF) {l : List (CacheKey × ℕ)} {e : CacheKey × ℕ} (he : v.entries = l ++ [e])
    (budget : UInt64) :
    (v.evictTo budget).1.WF ∧ (v.evictTo budget).1.entries = l.drop (v.evictTo budget).2 ++ [e] ∧
      (budget ≠ 0 → IsLeast {m | Fits budget.toNat (l.drop m ++ [e])} (v.evictTo budget).2) ∧
      (budget = 0 → (v.evictTo budget).2 = 0) := by
  unfold TenantView.evictTo
  by_cases hb : budget = 0
  · rw [if_pos hb]
    exact ⟨h, by rw [he]; rfl, fun hne => absurd hb hne, fun _ => rfl⟩
  · rw [if_neg hb]
    obtain ⟨hwf, hentries, hlen⟩ := h.evictLoop budget.toNat 0
    obtain ⟨n, hle, hshed, hleast⟩ := shed_snoc budget.toNat l e
    rw [he, hshed] at hentries hlen
    have hn : (v.evictLoop budget.toNat 0).2 = n := by
      simp only [List.length_append, List.length_drop, List.length_singleton] at hlen
      omega
    rw [hn]
    exact ⟨hwf, hentries, fun _ => hleast, fun h0 => absurd h0 hb⟩

end TenantView

/-! ### The ledger -/

/-- Something served to the tenant of an RPC. -/
structure Serve where
  acct : CacheAccountant
  ns : String
  name : String
  bytes : ℕ

namespace Serve

/-- Its entry in the view of the tenant. -/
def entry (c : Serve) : CacheKey × ℕ := ((c.acct.kind, c.ns, c.name), c.bytes)

def record (ledger : TenantCacheLedger) (c : Serve) : TenantCacheLedger × CacheMetrics :=
  c.acct.record ledger c.ns c.name c.bytes

/-- The tenant has a budget to keep. -/
def Enforced (c : Serve) : Prop := c.acct.mode = .enforce ∧ c.acct.budget ≠ 0

end Serve

/-- The ledger after some serves. -/
def serveAll (calls : List Serve) : TenantCacheLedger := calls.foldl (fun ledger c => (c.record ledger).1) ∅

def TenantCacheLedger.view (ledger : TenantCacheLedger) (identity : String) : TenantView :=
  (ledger.lookup identity).getD {}

/-- What an identity was served. -/
def servedTo (identity : String) (calls : List Serve) : List (CacheKey × ℕ) :=
  (calls.filter (·.acct.identity = identity)).map Serve.entry

theorem lookup_record (ledger : TenantCacheLedger) (c : Serve) {identity : String}
    (h : identity ≠ c.acct.identity) : (c.record ledger).1.lookup identity = ledger.lookup identity :=
  AList.lookup_insert_ne h

/-- The entries of a tenant other than the one that is served. -/
def TenantCacheLedger.others (ledger : TenantCacheLedger) (c : Serve) : List (CacheKey × ℕ) :=
  (ledger.view c.acct.identity).entries.filter (·.1 ≠ c.entry.1)

/-- What `record` does to the view of the tenant, where `n` entries are evicted. -/
structure Recorded (ledger : TenantCacheLedger) (c : Serve) (n : ℕ) : Prop where
  entries : ((c.record ledger).1.view c.acct.identity).entries = (ledger.others c).drop n ++ [c.entry]
  metrics : (c.record ledger).2 =
    { bytes := ((c.record ledger).1.view c.acct.identity).total
      evictions := if n > 0 then some n else none }
  enforced : c.Enforced → IsLeast {m | Fits c.acct.budget.toNat ((ledger.others c).drop m ++ [c.entry])} n
  free : ¬ c.Enforced → n = 0

theorem record_view {ledger : TenantCacheLedger} {c : Serve} (h : (ledger.view c.acct.identity).WF) :
    ((c.record ledger).1.view c.acct.identity).WF ∧ ∃ n, Recorded ledger c n := by
  have hwf := h.touch c.entry.1 c.bytes
  have hentries : ((ledger.view c.acct.identity).touch c.entry.1 c.bytes).entries =
      ledger.others c ++ [c.entry] := h.entries_touch c.entry.1 c.bytes
  have hview : ∀ v : TenantView,
      TenantCacheLedger.view (AList.insert c.acct.identity v ledger) c.acct.identity = v := fun v => by
    rw [TenantCacheLedger.view, AList.lookup_insert, Option.getD_some]
  by_cases hmode : c.acct.mode = .enforce
  · obtain ⟨hwf', hentries', henforced, hfree⟩ := hwf.evictTo hentries c.acct.budget
    have hrecord : c.record ledger =
        (AList.insert c.acct.identity
            (((ledger.view c.acct.identity).touch c.entry.1 c.bytes).evictTo c.acct.budget).1 ledger,
          { bytes := (((ledger.view c.acct.identity).touch c.entry.1 c.bytes).evictTo c.acct.budget).1.total
            evictions :=
              if (((ledger.view c.acct.identity).touch c.entry.1 c.bytes).evictTo c.acct.budget).2 > 0 then
                some (((ledger.view c.acct.identity).touch c.entry.1 c.bytes).evictTo c.acct.budget).2
              else none }) := by
      unfold Serve.record CacheAccountant.record
      rw [if_pos hmode]
      rfl
    rw [hrecord, hview]
    refine ⟨hwf', _, ?_, ?_, fun henf => henforced henf.2, fun hnot => hfree ?_⟩
    · rw [hrecord, hview]
      exact hentries'
    · rw [hrecord, hview]
    · by_contra hb
      exact hnot ⟨hmode, hb⟩
  · have hrecord : c.record ledger =
        (AList.insert c.acct.identity ((ledger.view c.acct.identity).touch c.entry.1 c.bytes) ledger,
          { bytes := ((ledger.view c.acct.identity).touch c.entry.1 c.bytes).total, evictions := none }) := by
      unfold Serve.record CacheAccountant.record
      rw [if_neg hmode]
      rfl
    rw [hrecord, hview]
    refine ⟨hwf, 0, ?_, ?_, fun henf => absurd henf.1 hmode, fun _ => rfl⟩
    · rw [hrecord, hview]
      exact hentries
    · rw [hrecord, hview]
      rfl

/-! ### Any number of serves -/

theorem serveAll_snoc (calls : List Serve) (c : Serve) :
    serveAll (calls ++ [c]) = (c.record (serveAll calls)).1 := by
  rw [serveAll, List.foldl_append]
  rfl

theorem servedTo_snoc (identity : String) (calls : List Serve) (c : Serve) :
    servedTo identity (calls ++ [c]) =
      servedTo identity calls ++ if c.acct.identity = identity then [c.entry] else [] := by
  rw [servedTo, List.filter_append, List.map_append]
  congr 1
  split
  · rename_i h
    rw [List.filter_cons_of_pos (by simpa using h)]
    rfl
  · rename_i h
    rw [List.filter_cons_of_neg (by simpa using h)]
    rfl

/-- **In a reachable ledger** every view agrees with itself and holds, in their order, the
latest serves of its identity. -/
theorem serveAll_view (identity : String) (calls : List Serve) :
    ((serveAll calls).view identity).WF ∧
      ((serveAll calls).view identity).entries <:+ latest (servedTo identity calls) := by
  induction calls using List.reverseRecOn with
  | nil => exact ⟨TenantView.wf_empty, List.suffix_rfl⟩
  | append_singleton calls c ih =>
    rw [serveAll_snoc, servedTo_snoc]
    by_cases hid : c.acct.identity = identity
    · subst hid
      obtain ⟨hwf, n, hrec⟩ := record_view ih.1
      refine ⟨hwf, ?_⟩
      rw [hrec.entries, if_pos rfl, latest_snoc]
      refine List.IsSuffix.trans ?_ (touch_suffix ih.2 c.entry)
      obtain ⟨pre, hpre⟩ := List.drop_suffix n ((serveAll calls).others c)
      refine ⟨pre, ?_⟩
      rw [← List.append_assoc, hpre]
      rfl
    · rw [if_neg hid, List.append_nil, TenantCacheLedger.view, lookup_record _ _ (Ne.symm hid)]
      exact ih

/-- A serve after others. -/
structure BudgetEnforced (calls : List Serve) (c : Serve) : Prop where
  /-- `Recorded` says which entries are evicted, and that the others keep their bytes and order. -/
  recorded : ∃ n, Recorded (serveAll calls) c n
  within : c.Enforced →
    ((serveAll (calls ++ [c])).view c.acct.identity).total ≤ c.acct.budget.toNat ∨
      ((serveAll (calls ++ [c])).view c.acct.identity).entries = [c.entry]
  frame : ∀ identity, identity ≠ c.acct.identity →
    (serveAll (calls ++ [c])).lookup identity = (serveAll calls).lookup identity
  order : ∀ identity, ((serveAll (calls ++ [c])).view identity).entries <:+
    latest (servedTo identity (calls ++ [c]))
  total : ∀ identity, ((serveAll (calls ++ [c])).view identity).total =
    cost ((serveAll (calls ++ [c])).view identity).entries
  lastRecorded : ∀ identity, ∀ e ∈ ((serveAll (calls ++ [c])).view identity).entries,
    ∃ before after, servedTo identity (calls ++ [c]) = before ++ e :: after ∧ ∀ e' ∈ after, e'.1 ≠ e.1
  slots : ∀ identity key bytes, (key, bytes) ∈ ((serveAll (calls ++ [c])).view identity).entries ↔
    ∃ tick, ((serveAll (calls ++ [c])).view identity).byKey.lookup key = some { bytes, tick }

/-- **Every serve keeps the budget.** -/
theorem budget_enforced (calls : List Serve) (c : Serve) : BudgetEnforced calls c := by
  obtain ⟨hwf, n, hrec⟩ := record_view (serveAll_view c.acct.identity calls).1
  have hafter := fun identity => serveAll_view identity (calls ++ [c])
  refine ⟨⟨n, hrec⟩, fun henf => ?_, fun identity hne => ?_, fun identity => (hafter identity).2,
    fun identity => (hafter identity).1.total, fun identity e he => ?_, fun identity key bytes =>
      (hafter identity).1.mem_entries⟩
  · rw [serveAll_snoc]
    have hfits := (hrec.enforced henf).1
    rw [hwf.total, hrec.entries]
    refine Or.imp id (fun hlen => ?_) hfits
    rw [List.length_append, List.length_singleton] at hlen
    rw [List.length_eq_zero_iff.mp (by omega : ((serveAll calls).others c |>.drop n).length = 0)]
    rfl
  · rw [serveAll_snoc, lookup_record _ _ hne]
  · exact mem_latest ((hafter identity).2.subset he)

end Konfig
