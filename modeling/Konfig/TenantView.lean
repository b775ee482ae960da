import Konfig.TenantCache
import Konfig.Lib.Checked
import Mathlib.Data.List.Infix

/-!
# The indexes of a tenant's view

`touch` and `evict_to` of `tenant_cache.rs` with everything that could go wrong in them: a
subtraction or an addition that leaves its type, the `expect` on an entry of `by_tick`, the
early `break`.

* `WF.touchChecked`, `WF.evictToChecked`: on a view whose indexes agree nothing does.
* `Represents`: the invariant, against the touches the view has seen.
* `tenant_view_sound`: it holds after every sequence of calls.
-/

namespace Konfig

open Lib

/-- A `usize` or a `u64`. -/
def InU64 (n : ℕ) : Prop := n < 2 ^ 64

instance : DecidablePred InU64 := fun n => inferInstanceAs (Decidable (n < 2 ^ 64))

/-- What a call of `evict_to` returns.  `broke` is a history variable: the loop ended in its
`break`. -/
structure Evicted where
  count : ℕ
  broke : Bool
  deriving DecidableEq, Repr

namespace TenantView

/-! ### The calls -/

def touchChecked (v : TenantView) (key : CacheKey) (bytes : ℕ) : Checked TenantView := do
  let v ← match v.byKey.lookup key with
    | some prev => do
      let total ← Checked.sub v.total prev.bytes
      pure { v with byTick := v.byTick.erase prev.tick, total }
    | none => pure v
  let tick := v.nextTick
  let nextTick ← Checked.number InU64 (v.nextTick + 1)
  let total ← Checked.number InU64 (v.total + bytes)
  return { byKey := v.byKey.insert key { bytes, tick }, byTick := v.byTick.insert tick key, total, nextTick }

/-- One iteration of the loop, at the smallest tick. -/
def evictOneChecked (v : TenantView) (tick : ℕ) : Checked TenantView := do
  let key ← Checked.expect v.byTick[tick]?
  let v := { v with byTick := v.byTick.erase tick }
  match v.byKey.lookup key with
  | some slot => do
    let total ← Checked.sub v.total slot.bytes
    return { v with byKey := v.byKey.erase key, total }
  | none => return v

theorem byTick_evictOneChecked {v v' : TenantView} {tick : ℕ} (h : v.evictOneChecked tick = .ok v') :
    v'.byTick = v.byTick.erase tick := by
  unfold evictOneChecked at h
  obtain ⟨key, _, h⟩ := Checked.bind_eq_ok.mp h
  dsimp only at h
  split at h
  · obtain ⟨total, _, h⟩ := Checked.bind_eq_ok.mp h
    cases h
    rfl
  · cases h
    rfl

set_option linter.unusedVariables false in
/-- The loop of `evict_to`. -/
def evictLoopChecked (v : TenantView) (budget evicted : ℕ) : Checked (TenantView × Evicted) :=
  if v.total > budget ∧ v.byKey.keys.length > 1 then
    match h : v.byTick.toList with
    | [] => .ok (v, { count := evicted, broke := true })
    | (tick, _) :: _ =>
      match h' : v.evictOneChecked tick with
      | .error fault => .error fault
      | .ok v' =>
        match Checked.number InU64 (evicted + 1) with
        | .error fault => .error fault
        | .ok evicted => v'.evictLoopChecked budget evicted
  else .ok (v, { count := evicted, broke := false })
termination_by v.byTick.toList.length
decreasing_by
  rw [byTick_evictOneChecked h', toList_erase, h, List.filter_cons_of_neg (by simp)]
  exact Nat.lt_succ_of_le (List.length_filter_le _ _)

def evictToChecked (v : TenantView) (budget : UInt64) : Checked (TenantView × Evicted) :=
  if budget = 0 then .ok (v, { count := 0, broke := false }) else v.evictLoopChecked budget.toNat 0

/-! ### Nothing goes wrong -/

variable {v : TenantView}

theorem WF.bytes_le_total (h : v.WF) {key : CacheKey} {slot : Slot} (hlook : v.byKey.lookup key = some slot) :
    slot.bytes ≤ v.total := by
  rw [h.total, ← cost_filter_ne h.nodup_keys (h.mem_entries.mpr ⟨slot.tick, hlook⟩)]
  exact Nat.le_add_left _ _

theorem WF.touchChecked (h : v.WF) {key : CacheKey} {bytes : ℕ} (htick : InU64 (v.nextTick + 1))
    (htotal : InU64 (v.touch key bytes).total) : v.touchChecked key bytes = .ok (v.touch key bytes) := by
  unfold TenantView.touch at htotal
  unfold TenantView.touchChecked TenantView.touch
  cases hlook : v.byKey.lookup key with
  | none =>
    simp only [hlook] at htotal
    simp only [pure_bind]
    rw [Checked.number_of htick, Checked.number_of htotal]
    rfl
  | some prev =>
    simp only [hlook] at htotal
    simp only [Checked.sub_of_le (h.bytes_le_total hlook), Checked.ok_bind, pure_bind]
    rw [Checked.number_of htick, Checked.number_of htotal]
    rfl

theorem WF.evictOneChecked (h : v.WF) {tick : ℕ} {key : CacheKey} (hmem : (tick, key) ∈ v.byTick.toList) :
    v.evictOneChecked tick = .ok (v.evictOne tick key) := by
  obtain ⟨bytes, hlook⟩ := (h.indexed tick key).mp hmem
  unfold TenantView.evictOneChecked TenantView.evictOne
  rw [Std.TreeMap.mem_toList_iff_getElem?_eq_some.mp hmem]
  simp only [Checked.expect, Checked.ok_bind, hlook, Checked.sub_of_le (h.bytes_le_total hlook)]
  rfl

/-- As many ticks as entries have been given out. -/
theorem WF.length_entries_le (h : v.WF) : v.entries.length ≤ v.nextTick := by
  have hnodup : (v.byTick.toList.map Prod.fst).Nodup := by
    rw [List.Nodup, List.pairwise_map]
    exact (toList_ticks v.byTick).imp fun hlt => hlt.ne
  have hsub : v.byTick.toList.map Prod.fst ⊆ List.range v.nextTick := by
    intro tick htick
    obtain ⟨e, he, rfl⟩ := List.mem_map.mp htick
    exact List.mem_range.mpr (h.fresh e he)
  have hle := (List.subperm_of_subset hnodup hsub).length_le
  rw [List.length_map, List.length_range] at hle
  rwa [TenantView.entries, List.length_map]

theorem WF.evictLoopChecked (h : v.WF) {budget evicted : ℕ} (hroom : InU64 (evicted + v.entries.length)) :
    v.evictLoopChecked budget evicted =
      .ok ((v.evictLoop budget evicted).1, { count := (v.evictLoop budget evicted).2, broke := false }) := by
  induction v, evicted using TenantView.evictLoop.induct budget with
  | case1 v evicted hover hnil =>
    -- more than one key, and so a tick
    have hlen : v.entries.length = 0 := by rw [entries, hnil]; rfl
    rw [h.length_keys, hlen] at hover
    exact absurd hover.2 (by omega)
  | case2 v evicted hover tick key rest hlist ih =>
    have hmem : (tick, key) ∈ v.byTick.toList := by
      rw [hlist]
      exact List.mem_cons_self
    obtain ⟨bytes, hcons, hwf⟩ := h.evictOne hlist
    have hroom' : InU64 (evicted + 1 + (v.evictOne tick key).entries.length) := by
      rwa [hcons, List.length_cons, Nat.add_comm _ 1, ← Nat.add_assoc] at hroom
    have hcount : InU64 (evicted + 1) := Nat.lt_of_le_of_lt (Nat.le_add_right _ _) hroom'
    rw [evictLoop_over hover hlist, ← ih hwf hroom', TenantView.evictLoopChecked, if_pos hover]
    split
    · rename_i hnil
      rw [hnil] at hlist
      cases hlist
    · rename_i tick' key' rest' hlist'
      rw [hlist', List.cons.injEq, Prod.mk.injEq] at hlist
      obtain ⟨⟨rfl, rfl⟩, _⟩ := hlist
      split
      · rename_i fault hfault
        rw [h.evictOneChecked hmem] at hfault
        cases hfault
      · rename_i v' hv'
        rw [h.evictOneChecked hmem] at hv'
        cases hv'
        rw [Checked.number_of hcount]
  | case3 v evicted hdone =>
    rw [TenantView.evictLoopChecked, if_neg hdone, TenantView.evictLoop, if_neg hdone]

/-- What a call of `evict_to` does to a view. -/
structure EvictedFrom (v v' : TenantView) (e : Evicted) : Prop where
  notBroken : e.broke = false
  steps : e.count ≤ v.byKey.keys.length - 1
  removed : e.count + v'.byKey.keys.length = v.byKey.keys.length
  kept : ∀ key slot, v'.byKey.lookup key = some slot → v.byKey.lookup key = some slot
  clock : v'.nextTick = v.nextTick

theorem evictLoop_kept (budget evicted : ℕ) :
    (∀ key slot, (v.evictLoop budget evicted).1.byKey.lookup key = some slot →
      v.byKey.lookup key = some slot) ∧ (v.evictLoop budget evicted).1.nextTick = v.nextTick := by
  induction v, evicted using TenantView.evictLoop.induct budget with
  | case1 v evicted hover hnil =>
    have hloop : v.evictLoop budget evicted = (v, evicted) := by
      rw [TenantView.evictLoop, if_pos hover]
      split
      · rfl
      · rename_i hcons
        rw [hnil] at hcons
        cases hcons
    rw [hloop]
    exact ⟨fun _ _ => id, rfl⟩
  | case2 v evicted hover tick key rest hlist ih =>
    rw [evictLoop_over hover hlist]
    refine ⟨fun k slot hk => ?_, ih.2⟩
    have hone := ih.1 k slot hk
    rw [TenantView.evictOne] at hone
    by_cases hkey : k = key
    · rw [hkey, AList.lookup_erase] at hone
      cases hone
    · rwa [AList.lookup_erase_ne hkey] at hone
  | case3 v evicted hdone =>
    rw [TenantView.evictLoop, if_neg hdone]
    exact ⟨fun _ _ => id, rfl⟩

theorem length_shed_pos {l : List (CacheKey × ℕ)} (budget : ℕ) (h : l ≠ []) : 0 < (shed budget l).length := by
  obtain ⟨l, e, rfl⟩ := (List.eq_nil_or_concat' l).resolve_left h
  obtain ⟨n, _, hshed, _⟩ := shed_snoc budget l e
  rw [hshed, List.length_append]
  exact Nat.succ_pos _

/-- **A call of `evict_to`.** -/
theorem WF.evictToChecked (h : v.WF) (budget : UInt64) (htick : InU64 v.nextTick) :
    ∃ v' e, v.evictToChecked budget = .ok (v', e) ∧ EvictedFrom v v' e ∧ v'.WF ∧
      v'.entries = if budget = 0 then v.entries else shed budget.toNat v.entries := by
  unfold TenantView.evictToChecked
  by_cases hb : budget = 0
  · rw [if_pos hb, if_pos hb]
    exact ⟨v, _, rfl, ⟨rfl, Nat.zero_le _, Nat.zero_add _, fun _ _ => id, rfl⟩, h, rfl⟩
  · rw [if_neg hb, if_neg hb]
    have hroom : InU64 (0 + v.entries.length) := by
      rw [Nat.zero_add]
      exact h.length_entries_le.trans_lt htick
    obtain ⟨hwf, hentries, hcount⟩ := h.evictLoop budget.toNat 0
    obtain ⟨hkept, hclock⟩ := v.evictLoop_kept budget.toNat 0
    have hremoved : (v.evictLoop budget.toNat 0).2 + (v.evictLoop budget.toNat 0).1.byKey.keys.length =
        v.byKey.keys.length := by
      rw [hwf.length_keys, hentries, h.length_keys]
      omega
    refine ⟨_, _, h.evictLoopChecked hroom, ⟨rfl, ?_, hremoved, hkept, hclock⟩, hwf, hentries⟩
    -- one entry stays
    rw [h.length_keys]
    rcases eq_or_ne v.entries [] with hnil | hne
    · rw [hnil] at hcount ⊢
      simp only [shed, List.length_nil] at hcount ⊢
      omega
    · have hpos := length_shed_pos budget.toNat hne
      dsimp only
      omega

end TenantView

/-! ### Sequences of calls -/

inductive ViewOp
  | touch (key : CacheKey) (bytes : ℕ)
  | evictTo (budget : UInt64)
  deriving DecidableEq, Repr

/-- A call, without its result. -/
def TenantView.call (v : TenantView) : ViewOp → Checked TenantView
  | .touch key bytes => v.touchChecked key bytes
  | .evictTo budget => Prod.fst <$> v.evictToChecked budget

/-- The calls on a new view. -/
def calls (ops : List ViewOp) : Checked TenantView := ops.foldlM TenantView.call {}

/-- What was touched, and at which cost. -/
def ViewOp.touched : ViewOp → Option (CacheKey × ℕ)
  | .touch key bytes => some (key, bytes)
  | .evictTo _ => none

def touches (ops : List ViewOp) : List (CacheKey × ℕ) := ops.filterMap ViewOp.touched

/-- The view as entries in the order of their last touch. -/
def ViewOp.serve (l : List (CacheKey × ℕ)) : ViewOp → List (CacheKey × ℕ)
  | .touch key bytes => Lib.touch l (key, bytes)
  | .evictTo budget => if budget = 0 then l else shed budget.toNat l

def served (ops : List ViewOp) : List (CacheKey × ℕ) := ops.foldl ViewOp.serve []

/-- The last touch of `key` is number `i`, at the cost `bytes`. -/
def LastTouch (uses : List (CacheKey × ℕ)) (key : CacheKey) (i bytes : ℕ) : Prop :=
  uses[i]? = some (key, bytes) ∧ ∀ j e, i < j → uses[j]? = some e → e.1 ≠ key

/-- **The representation invariant** of a view after some calls. -/
structure Represents (ops : List ViewOp) (v : TenantView) : Prop where
  total : v.total = (v.byKey.entries.map fun e => e.2.bytes).sum
  tickOfKey : ∀ key slot, v.byKey.lookup key = some slot → v.byTick[slot.tick]? = some key
  keyOfTick : ∀ tick key, v.byTick[tick]? = some key → ∃ slot, v.byKey.lookup key = some slot ∧ slot.tick = tick
  below : ∀ tick key, v.byTick[tick]? = some key → tick < v.nextTick
  clock : v.nextTick = (touches ops).length
  order : ∀ key slot, v.byKey.lookup key = some slot → LastTouch (touches ops) key slot.tick slot.bytes

theorem LastTouch.last (uses : List (CacheKey × ℕ)) (key : CacheKey) (bytes : ℕ) :
    LastTouch (uses ++ [(key, bytes)]) key uses.length bytes := by
  refine ⟨by simp, fun j e hj he => ?_⟩
  have hlt := (List.getElem?_eq_some_iff.mp he).1
  rw [List.length_append, List.length_singleton] at hlt
  omega

theorem LastTouch.snoc {uses : List (CacheKey × ℕ)} {key : CacheKey} {i bytes : ℕ}
    (h : LastTouch uses key i bytes) {use : CacheKey × ℕ} (hne : use.1 ≠ key) :
    LastTouch (uses ++ [use]) key i bytes := by
  obtain ⟨hget, hlast⟩ := h
  have hi := (List.getElem?_eq_some_iff.mp hget).1
  refine ⟨by rw [List.getElem?_append_left hi, hget], fun j e hj he => ?_⟩
  rcases Nat.lt_or_ge j uses.length with hlt | hge
  · rw [List.getElem?_append_left hlt] at he
    exact hlast j e hj he
  · rw [List.getElem?_append_right hge, List.getElem?_singleton] at he
    split at he
    · cases he
      exact hne
    · cases he

/-- The slots cost what the entries cost. -/
theorem TenantView.WF.sum_slots {v : TenantView} (h : v.WF) :
    v.total = (v.byKey.entries.map fun e => e.2.bytes).sum := by
  have hnodup : (v.byKey.entries.map fun e => (e.1, e.2.bytes)).Nodup := by
    refine List.Nodup.of_map Prod.fst ?_
    rw [List.map_map]
    exact v.byKey.nodupKeys
  have hperm : v.entries.Perm (v.byKey.entries.map fun e => (e.1, e.2.bytes)) := by
    refine (List.perm_ext_iff_of_nodup h.nodup_keys.of_map hnodup).mpr fun e => ?_
    obtain ⟨key, bytes⟩ := e
    rw [h.mem_entries, List.mem_map]
    constructor
    · rintro ⟨tick, hlook⟩
      exact ⟨⟨key, _⟩, AList.mem_lookup_iff.mp hlook, rfl⟩
    · rintro ⟨⟨k, slot⟩, hmem, heq⟩
      cases heq
      exact ⟨slot.tick, AList.mem_lookup_iff.mpr hmem⟩
  rw [h.total, cost, (hperm.map Prod.snd).sum_nat, List.map_map]
  rfl

/-- The invariant of the run: the view is well formed and holds the entries in their order. -/
structure Kept (ops : List ViewOp) (v : TenantView) : Prop where
  wf : v.WF
  entries : v.entries = served ops
  clock : v.nextTick = (touches ops).length
  order : ∀ key slot, v.byKey.lookup key = some slot → LastTouch (touches ops) key slot.tick slot.bytes

theorem Kept.represents {ops : List ViewOp} {v : TenantView} (h : Kept ops v) : Represents ops v where
  total := h.wf.sum_slots
  tickOfKey := fun key slot hlook =>
    Std.TreeMap.mem_toList_iff_getElem?_eq_some.mp ((h.wf.indexed slot.tick key).mpr ⟨slot.bytes, hlook⟩)
  keyOfTick := fun tick key hget => by
    obtain ⟨bytes, hlook⟩ := (h.wf.indexed tick key).mp (Std.TreeMap.mem_toList_iff_getElem?_eq_some.mpr hget)
    exact ⟨_, hlook, rfl⟩
  below := fun tick key hget => h.wf.fresh (tick, key) (Std.TreeMap.mem_toList_iff_getElem?_eq_some.mpr hget)
  clock := h.clock
  order := h.order

theorem served_snoc (ops : List ViewOp) (op : ViewOp) : served (ops ++ [op]) = op.serve (served ops) := by
  rw [served, List.foldl_append]
  rfl

theorem touches_append (ops ops' : List ViewOp) : touches (ops ++ ops') = touches ops ++ touches ops' :=
  List.filterMap_append

theorem calls_snoc {ops : List ViewOp} {v : TenantView} (h : calls ops = .ok v) (op : ViewOp) :
    calls (ops ++ [op]) = v.call op := by
  unfold calls at h ⊢
  rw [List.foldlM_append, h, Checked.ok_bind, List.foldlM_cons]
  simp

/-- A touch. -/
theorem Kept.touch {ops : List ViewOp} {v : TenantView} (h : Kept ops v) (key : CacheKey) (bytes : ℕ) :
    Kept (ops ++ [.touch key bytes]) (v.touch key bytes) := by
  have htouches : touches (ops ++ [.touch key bytes]) = touches ops ++ [(key, bytes)] :=
    touches_append ops [.touch key bytes]
  refine ⟨h.wf.touch key bytes, ?_, ?_, fun k slot hlook => ?_⟩
  · rw [h.wf.entries_touch, h.entries, served_snoc]
    rfl
  · rw [TenantView.nextTick_touch, h.clock, htouches, List.length_append]
    rfl
  · rw [TenantView.lookup_touch] at hlook
    rw [htouches]
    split at hlook
    · rename_i hk
      cases hlook
      rw [hk, h.clock]
      exact LastTouch.last _ key bytes
    · rename_i hk
      exact (h.order k slot hlook).snoc (Ne.symm hk)

/-- An eviction. -/
theorem Kept.evictTo {ops : List ViewOp} {v : TenantView} (h : Kept ops v) (budget : UInt64)
    (htick : InU64 v.nextTick) : ∃ v' e, v.evictToChecked budget = .ok (v', e) ∧
      TenantView.EvictedFrom v v' e ∧ Kept (ops ++ [.evictTo budget]) v' := by
  obtain ⟨v', e, hcall, hevicted, hwf, hentries⟩ := h.wf.evictToChecked budget htick
  have htouches : touches (ops ++ [.evictTo budget]) = touches ops := by
    rw [touches_append]
    exact List.append_nil _
  refine ⟨v', e, hcall, hevicted, hwf, ?_, ?_, fun key slot hlook => ?_⟩
  · rw [hentries, h.entries, served_snoc]
    rfl
  · rw [hevicted.clock, h.clock, htouches]
  · rw [htouches]
    exact h.order key slot (hevicted.kept key slot hlook)

/-- The run. -/
theorem calls_kept (ops : List ViewOp) (hbytes : ∀ pre, pre <+: ops → InU64 (cost (served pre)))
    (hticks : InU64 (touches ops).length) : ∃ v, calls ops = .ok v ∧ Kept ops v := by
  induction ops using List.reverseRecOn with
  | nil => exact ⟨{}, rfl, TenantView.wf_empty, rfl, rfl, fun key slot hlook => by cases hlook⟩
  | append_singleton ops op ih =>
    have hlen : (touches ops).length ≤ (touches (ops ++ [op])).length := by
      rw [touches_append, List.length_append]
      exact Nat.le_add_right _ _
    obtain ⟨v, hv, hkept⟩ :=
      ih (fun pre hpre => hbytes pre (hpre.trans (List.prefix_append _ _))) (hlen.trans_lt hticks)
    rw [calls_snoc hv]
    cases op with
    | touch key bytes =>
      have hnext := hkept.touch key bytes
      refine ⟨v.touch key bytes, hkept.wf.touchChecked ?_ ?_, hnext⟩
      · rw [← TenantView.nextTick_touch, hnext.clock]
        exact hticks
      · rw [hnext.wf.total, hnext.entries]
        exact hbytes _ List.prefix_rfl
    | evictTo budget =>
      have htick : InU64 v.nextTick := by
        rw [hkept.clock]
        exact hlen.trans_lt hticks
      obtain ⟨v', e, hcall, _, hnext⟩ := hkept.evictTo budget htick
      refine ⟨v', ?_, hnext⟩
      rw [TenantView.call, hcall]
      rfl

/-- **The view represents its touches.**  After every sequence of calls whose byte sums and
number of touches are within their types nothing has gone wrong, the invariant holds, and a
call of `evict_to` ends without its `break`, in as many steps as it removes keys. -/
theorem tenant_view_sound (ops : List ViewOp) (hbytes : ∀ pre, pre <+: ops → InU64 (cost (served pre)))
    (hticks : InU64 (touches ops).length) :
    ∃ v, calls ops = .ok v ∧ Represents ops v ∧ ∀ budget, ∃ v' e,
      v.evictToChecked budget = .ok (v', e) ∧ TenantView.EvictedFrom v v' e ∧
        Represents (ops ++ [.evictTo budget]) v' := by
  obtain ⟨v, hv, hkept⟩ := calls_kept ops hbytes hticks
  have htick : InU64 v.nextTick := by
    rw [hkept.clock]
    exact hticks
  refine ⟨v, hv, hkept.represents, fun budget => ?_⟩
  obtain ⟨v', e, hcall, hevicted, hnext⟩ := hkept.evictTo budget htick
  exact ⟨v', e, hcall, hevicted, hnext.represents⟩

/-- A key touched again at another cost, and an eviction between two others. -/
def someCalls : List ViewOp :=
  let key (name : String) : CacheKey := ("config", "default", name)
  [.touch (key "a") 5, .touch (key "b") 7, .touch (key "a") 2, .evictTo 4, .touch (key "c") 1]

theorem tenant_view_sound_calls : ∃ v, calls someCalls = .ok v ∧ Represents someCalls v := by
  obtain ⟨v, hv, hrep, _⟩ := tenant_view_sound someCalls
    (fun pre hpre => (by decide : ∀ pre ∈ someCalls.inits, InU64 (cost (served pre))) pre
      ((List.mem_inits pre someCalls).mpr hpre)) (by decide)
  exact ⟨v, hv, hrep⟩

end Konfig
