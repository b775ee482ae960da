import Mathlib.Data.String.Basic
import Mathlib.Data.UInt
import Konfig.Exchanges

/-!
# All or nothing, and the order of a batch

`handle_batch_apply` runs four gates over its items before the first write, sorts the
items, and writes them one by one through `apply_spec`, which reads and compares again.
`BatchLaw` says what this is for: a batch with a fault is turned down without a write, any
other one is written item by item in the order of the targets, and the order in which the
request lists them does not matter.

* `batchApply_lawful`: the law, where an empty batch counts as a fault and the stored
  versions fit in 32 bits.
* `batchApply_unlawful`: an empty batch has no faulty item and is turned down, and a stored
  version that does not fit is read modulo `2 ^ 32`.
-/

namespace Konfig

open Lib Proc

/-! ### The order of the targets -/

/-- The order of `sort_batch_items`, on distinct targets. -/
def Key.Before (a b : Key) : Prop := a.ns < b.ns ∨ a.ns = b.ns ∧ a.name < b.name

/-- The comparison of `sort_batch_items`. -/
def Key.le (a b : Key) : Bool :=
  decide (a.ns < b.ns) || (a.ns == b.ns && decide (a.name ≤ b.name))

theorem Key.le_iff {a b : Key} : Key.le a b = true ↔ a.ns < b.ns ∨ a.ns = b.ns ∧ a.name ≤ b.name := by
  simp [Key.le]

theorem Key.sorted_trans {a b c : Key} (hab : Key.le a b = true) (hbc : Key.le b c = true) :
    Key.le a c = true := by
  rw [Key.le_iff] at *
  rcases hab with hab | ⟨hab, hab'⟩
  · rcases hbc with hbc | ⟨hbc, _⟩
    · exact .inl (lt_trans hab hbc)
    · exact .inl (hbc ▸ hab)
  · rcases hbc with hbc | ⟨hbc, hbc'⟩
    · exact .inl (hab ▸ hbc)
    · exact .inr ⟨hab.trans hbc, le_trans hab' hbc'⟩

theorem Key.sorted_total (a b : Key) : (Key.le a b || Key.le b a) = true := by
  rw [Bool.or_eq_true, Key.le_iff, Key.le_iff]
  rcases lt_trichotomy a.ns b.ns with h | h | h
  · exact .inl (.inl h)
  · rcases le_total a.name b.name with h' | h'
    · exact .inl (.inr ⟨h, h'⟩)
    · exact .inr (.inr ⟨h.symm, h'⟩)
  · exact .inr (.inl h)

theorem Key.sorted_antisymm {a b : Key} (hab : Key.le a b = true) (hba : Key.le b a = true) : a = b := by
  rw [Key.le_iff] at hab hba
  have hns : a.ns = b.ns := by
    rcases hab with h | ⟨h, _⟩
    · rcases hba with h' | ⟨h', _⟩
      · exact absurd (lt_trans h h') (lt_irrefl _)
      · exact h'.symm
    · exact h
  have hname : a.name = b.name := by
    rw [hns] at hab hba
    simp only [lt_irrefl, false_or, true_and] at hab hba
    exact le_antisymm hab hba
  cases a
  cases b
  simp only [Key.mk.injEq]
  exact ⟨hns, hname⟩

theorem Key.before_of_le {a b : Key} (h : Key.le a b = true) (hne : a ≠ b) : a.Before b := by
  rcases Key.le_iff.mp h with h | ⟨hns, hname⟩
  · exact .inl h
  · refine .inr ⟨hns, lt_of_le_of_ne hname fun hname => hne ?_⟩
    cases a
    cases b
    simp_all

theorem sortBatchItems_eq (items : List BatchItem) :
    sortBatchItems items = items.mergeSort fun a b => Key.le a.key b.key := rfl

/-- The items in the order they are written. -/
theorem sorted_sortBatchItems (items : List BatchItem) :
    (sortBatchItems items).Pairwise fun a b => Key.le a.key b.key = true := by
  rw [sortBatchItems_eq]
  have htrans : ∀ a b c : BatchItem, Key.le a.key b.key = true → Key.le b.key c.key = true →
      Key.le a.key c.key = true := fun _ _ _ => Key.sorted_trans
  have htotal : ∀ a b : BatchItem, (Key.le a.key b.key || Key.le b.key a.key) = true :=
    fun a b => Key.sorted_total a.key b.key
  exact List.pairwise_mergeSort htrans htotal items

theorem perm_sortBatchItems (items : List BatchItem) : (sortBatchItems items).Perm items :=
  List.mergeSort_perm _ _

/-- Distinct targets come out strictly increasing. -/
theorem before_sortBatchItems {items : List BatchItem} (hnodup : (items.map (·.key)).Nodup) :
    ((sortBatchItems items).map (·.key)).Pairwise Key.Before := by
  have hperm : ((sortBatchItems items).map (·.key)).Nodup :=
    ((perm_sortBatchItems items).map _).nodup_iff.mpr hnodup
  rw [List.pairwise_map]
  rw [List.Nodup, List.pairwise_map] at hperm
  exact ((sorted_sortBatchItems items).and hperm).imp fun h => Key.before_of_le h.1 h.2

/-- The order does not depend on how the request lists the items. -/
theorem sortBatchItems_perm {items items' : List BatchItem} (h : items'.Perm items)
    (hnodup : (items.map (·.key)).Nodup) : sortBatchItems items' = sortBatchItems items := by
  have hperm : (sortBatchItems items').Perm (sortBatchItems items) :=
    (perm_sortBatchItems items').trans (h.trans (perm_sortBatchItems items).symm)
  refine hperm.eq_of_pairwise (fun a b ha hb hab hba => ?_) (sorted_sortBatchItems items')
    (sorted_sortBatchItems items)
  have ha' : a ∈ items := h.mem_iff.mp ((perm_sortBatchItems items').mem_iff.mp ha)
  have hb' : b ∈ items := (perm_sortBatchItems items).mem_iff.mp hb
  exact List.inj_on_of_nodup_map hnodup ha' hb' (Key.sorted_antisymm hab hba)

/-! ### The gates -/

section Gates

variable [JsonSchema] [SerdeYaml]

/-- The item a request parses to. -/
def BatchItem.ofRequest (req : ApplyRequest) : Option BatchItem :=
  (SerdeYaml.fromStr req.yamlContent).toOption.map fun spec => { key := req.key, spec }

omit [JsonSchema] in
theorem BatchItem.ofRequest_eq {req : ApplyRequest} {item : BatchItem} :
    BatchItem.ofRequest req = some item ↔
      item.key = req.key ∧ SerdeYaml.fromStr req.yamlContent = .ok item.spec := by
  unfold BatchItem.ofRequest
  cases SerdeYaml.fromStr req.yamlContent with
  | error e => simp [Except.toOption]
  | ok spec =>
    simp only [Except.toOption, Option.map_some, Option.some.injEq, Except.ok.injEq]
    constructor
    · rintro rfl
      exact ⟨rfl, rfl⟩
    · rintro ⟨hkey, rfl⟩
      cases item
      simp_all

omit [JsonSchema] in
/-- **The parse gate**: every document parses, and no target comes twice. -/
theorem parseItems_ok {items : List BatchItem} : ∀ {reqs : List ApplyRequest} {seen : List Key},
    parseItems seen reqs = .ok items ↔ reqs.map BatchItem.ofRequest = items.map some ∧
      (reqs.map (·.key)).Nodup ∧ ∀ req ∈ reqs, req.key ∉ seen := by
  intro reqs
  induction reqs generalizing items with
  | nil =>
    intro seen
    constructor
    · intro h
      cases h
      exact ⟨rfl, List.nodup_nil, fun req hreq => absurd hreq List.not_mem_nil⟩
    · rintro ⟨h, _⟩
      rw [List.map_nil, eq_comm, List.map_eq_nil_iff] at h
      rw [h]
      rfl
  | cons req reqs ih =>
    intro seen
    rw [parseItems]
    by_cases hseen : req.key ∈ seen
    · rw [if_pos hseen]
      constructor
      · intro h
        cases h
      · rintro ⟨_, _, h⟩
        exact absurd hseen (h req List.mem_cons_self)
    rw [if_neg hseen]
    cases hspec : SerdeYaml.fromStr req.yamlContent with
    | error e =>
      have hnone : BatchItem.ofRequest req = none := by
        unfold BatchItem.ofRequest
        rw [hspec]
        rfl
      constructor
      · intro h
        cases h
      · rintro ⟨h, _⟩
        cases items <;> simp [hnone] at h
    | ok spec =>
      have hitem : BatchItem.ofRequest req = some { key := req.key, spec } :=
        BatchItem.ofRequest_eq.mpr ⟨rfl, hspec⟩
      -- the rest of the batch is parsed with this target among the seen ones
      have hrest : (do
          let items ← parseItems (req.key :: seen) reqs
          return { key := req.key, spec } :: items : Except Status (List BatchItem)) = .ok items ↔
          ∃ rest, items = { key := req.key, spec } :: rest ∧ parseItems (req.key :: seen) reqs = .ok rest := by
        cases parseItems (req.key :: seen) reqs with
        | error e =>
          constructor
          · intro h
            cases h
          · rintro ⟨_, _, h⟩
            cases h
        | ok rest =>
          constructor
          · intro h
            cases h
            exact ⟨rest, rfl, rfl⟩
          · rintro ⟨_, rfl, h⟩
            cases h
            rfl
      rw [hrest]
      constructor
      · rintro ⟨rest, rfl, h⟩
        obtain ⟨hmap, hnodup, hnot⟩ := ih.mp h
        refine ⟨by rw [List.map_cons, List.map_cons, hitem, hmap], ?_, ?_⟩
        · rw [List.map_cons, List.nodup_cons]
          refine ⟨fun hmem => ?_, hnodup⟩
          obtain ⟨req', hreq', hkey⟩ := List.mem_map.mp hmem
          exact hnot req' hreq' (hkey ▸ List.mem_cons_self)
        · intro req' hreq'
          rcases List.mem_cons.mp hreq' with rfl | hreq'
          · exact hseen
          · exact fun hmem => hnot req' hreq' (List.mem_cons_of_mem _ hmem)
      · rintro ⟨hmap, hnodup, hnot⟩
        cases items with
        | nil => simp at hmap
        | cons item rest =>
          rw [List.map_cons, List.map_cons, List.cons.injEq, hitem, Option.some.injEq] at hmap
          rw [List.map_cons, List.nodup_cons] at hnodup
          refine ⟨rest, by rw [hmap.1], ih.mpr ⟨hmap.2, hnodup.2, fun req' hreq' hmem => ?_⟩⟩
          rcases List.mem_cons.mp hmem with hkey | hmem
          · exact hnodup.1 (hkey ▸ List.mem_map_of_mem hreq')
          · exact hnot req' (List.mem_cons_of_mem _ hreq') hmem

omit [SerdeYaml] in
/-- **The schema gate.** -/
theorem validateItems_ok {table : SchemaTable} : ∀ {items : List BatchItem},
    validateItems table items = .ok () ↔
      ∀ item ∈ items, table.validate item.key.ns item.key.name item.spec.content = .ok () := by
  intro items
  induction items with
  | nil => exact ⟨fun _ item hitem => absurd hitem List.not_mem_nil, fun _ => rfl⟩
  | cons item items ih =>
    rw [validateItems, List.forall_mem_cons, ← ih, ← validateAgainstSchema_ok]
    cases validateAgainstSchema table item.key item.spec with
    | error e =>
      constructor
      · intro h
        cases h
      · rintro ⟨h, _⟩
        cases h
    | ok u => exact ⟨fun h => ⟨rfl, h⟩, fun h => h.2⟩

omit [JsonSchema] [SerdeYaml] in
/-- **The version gate**, on the versions that were read. -/
theorem gateBatchVersions_ok {read : Key → UInt32} : ∀ {items : List BatchItem},
    gateBatchVersions items (items.map fun item => read item.key) = .ok () ↔
      ∀ item ∈ items, read item.key < item.spec.schemaVersion := by
  intro items
  induction items with
  | nil => exact ⟨fun _ item hitem => absurd hitem List.not_mem_nil, fun _ => rfl⟩
  | cons item items ih =>
    rw [List.map_cons, gateBatchVersions, List.forall_mem_cons, ← ih, ← schemaVersionDecision_ok]
    cases schemaVersionDecision item.spec.schemaVersion (read item.key) with
    | error e =>
      constructor
      · intro h
        cases h
      · rintro ⟨h, _⟩
        cases h
    | ok u => exact ⟨fun h => ⟨rfl, h⟩, fun h => h.2⟩

end Gates

/-! ### Reads and writes -/

/-- The patches of an exchange, accepted or not. -/
def KubeTrace.writes (tr : KubeTrace) : List (Key × Value) :=
  tr.filterMap fun e =>
    match e.1 with
    | .patch key body => some (key, body)
    | _ => none

@[simp] theorem KubeTrace.writes_append (tr₁ tr₂ : KubeTrace) :
    KubeTrace.writes (tr₁ ++ tr₂) = KubeTrace.writes tr₁ ++ KubeTrace.writes tr₂ :=
  List.filterMap_append

theorem readVersion_fits {s : Cluster} {key : Key} (hfit : s.version key < 2 ^ 32) :
    (s.readVersion key).toNat = s.version key := by
  unfold Cluster.readVersion
  cases hobj : s key with
  | none => simp [Cluster.version, hobj]
  | some obj => exact (Cluster.version_read hobj hfit).symm

/-- The reads of the version gate change nothing and tell the stored versions. -/
theorem fetchCurrents_served {s' : Cluster} : ∀ {items : List BatchItem} {s : Cluster} {tr : KubeTrace}
    {r : Except Status (List UInt32)}, Ends (fetchCurrents items) tr r →
      Answered Cluster.Serves s tr s' →
      s' = s ∧ r = .ok (items.map fun item => s.readVersion item.key) ∧ KubeTrace.writes tr = [] := by
  intro items
  induction items with
  | nil =>
    intro s tr r h hs
    obtain ⟨rfl, rfl⟩ := ends_pure.mp h
    exact ⟨answered_nil.mp hs, rfl, rfl⟩
  | cons item items ih =>
    intro s tr r h hs
    rw [fetchCurrents, ends_bind] at h
    rcases h with ⟨e, rfl, h⟩ | ⟨tr₁, tr₂, c, rfl, h₁, h₂⟩
    · obtain ⟨a, rfl, ha⟩ := fetch_ends.mp h
      obtain ⟨m, hread, _⟩ := answered_cons.mp hs
      rw [hread.read.2] at ha
      cases ha
    · obtain ⟨a, rfl, ha⟩ := fetch_ends.mp h₁
      obtain ⟨m, hread, hrest⟩ := answered_cons.mp hs
      obtain ⟨rfl, hc⟩ := hread.read
      rw [hc] at ha
      cases ha
      obtain ⟨r', rfl, hreads⟩ := ends_bind_pure.mp h₂
      obtain ⟨rfl, rfl, hwrites⟩ := ih hreads hrest
      exact ⟨rfl, rfl, hwrites⟩

/-- One write of a batch: the re-check of `apply_spec`, and the patch it lets through. -/
structure BatchItem.Written (tp : Option String) (item : BatchItem) (tr : KubeTrace) : Prop where
  recheck : ∃ a c obj, tr = [⟨.get item.key, a⟩, accepted item.key (patchBody item.key item.spec tp) obj] ∧
    readVersion a = .ok c ∧ c < item.spec.schemaVersion

/-- A served write with an increasing version succeeds. -/
theorem applySpec_served {s s' : Cluster} {item : BatchItem} {tp : Option String} {tr : KubeTrace}
    {r : Except Status ApplyResponse} (hlt : s.readVersion item.key < item.spec.schemaVersion)
    (h : Ends (applySpec item.key item.spec tp) tr r) (hs : Answered Cluster.Serves s tr s') :
    item.Written tp tr ∧ (∃ resp, r = .ok resp) ∧ ∀ key, key ≠ item.key → s' key = s key := by
  obtain ⟨a, tr', rfl, hcase⟩ := applySpec_ends h
  obtain ⟨m, hread, hrest⟩ := answered_cons.mp hs
  obtain ⟨rfl, ha⟩ := hread.read
  rcases hcase with ⟨_, _, hle⟩ | ⟨c, hc, hlt', ⟨errs, obj, rfl, rfl⟩ | ⟨errs, _, hne, rfl, _⟩⟩
  · exact absurd hlt (UInt32.not_lt.mpr (hle _ ha))
  · obtain rfl := refusals_served hrest
    refine ⟨⟨a, c, obj, rfl, hc, hlt'⟩, ⟨_, rfl⟩, fun key hkey => ?_⟩
    obtain ⟨m', hwrite, hnil⟩ := answered_cons.mp hrest
    obtain ⟨_, _, _, rfl⟩ := hwrite.write
    rw [answered_nil.mp hnil, Function.update_of_ne hkey]
  · rw [← List.append_nil (refusals _ _ _)] at hrest
    exact absurd (refusals_served hrest) hne

/-- **The writes of a batch**: one after the other, each with its re-check. -/
theorem applyItems_served {tp : Option String} {s' : Cluster} : ∀ {items : List BatchItem} {s : Cluster}
    {tr : KubeTrace} {r : Except Status (List BatchApplyResult)}, (items.map (·.key)).Nodup →
      (∀ item ∈ items, s.readVersion item.key < item.spec.schemaVersion) →
      Ends (applyItems tp items) tr r → Answered Cluster.Serves s tr s' →
      ∃ parts results, tr = parts.flatten ∧ List.Forall₂ (BatchItem.Written tp) items parts ∧
        r = .ok results ∧ results.map (·.key) = items.map (·.key) := by
  intro items
  induction items with
  | nil =>
    intro s tr r _ _ h hs
    obtain ⟨rfl, rfl⟩ := ends_pure.mp h
    exact ⟨[], [], rfl, .nil, rfl, rfl⟩
  | cons item items ih =>
    intro s tr r hnodup hlt h hs
    rw [List.map_cons, List.nodup_cons] at hnodup
    rw [applyItems, ends_bind] at h
    have hitem : s.readVersion item.key < item.spec.schemaVersion := hlt item List.mem_cons_self
    rcases h with ⟨e, rfl, h⟩ | ⟨tr₁, tr₂, resp, rfl, h₁, h₂⟩
    · obtain ⟨_, ⟨resp, hresp⟩, _⟩ := applySpec_served hitem h hs
      cases hresp
    · obtain ⟨m, hs₁, hs₂⟩ := answered_append.mp hs
      obtain ⟨hwritten, _, hframe⟩ := applySpec_served hitem h₁ hs₁
      obtain ⟨r', rfl, hitems⟩ := ends_bind_pure.mp h₂
      -- the other targets are as the gate saw them
      have hlt' : ∀ item' ∈ items, m.readVersion item'.key < item'.spec.schemaVersion := by
        intro item' hmem
        have hkey : item'.key ≠ item.key := fun heq => hnodup.1 (heq ▸ List.mem_map_of_mem hmem)
        unfold Cluster.readVersion
        rw [hframe _ hkey]
        exact hlt item' (List.mem_cons_of_mem _ hmem)
      obtain ⟨parts, results, rfl, hparts, rfl, hkeys⟩ := ih hnodup.2 hlt' hitems hs₂
      exact ⟨tr₁ :: parts, ⟨item.key, resp.resourceVersion⟩ :: results, rfl, .cons hwritten hparts, rfl,
        by rw [List.map_cons, List.map_cons, hkeys]⟩

theorem writes_of_written {tp : Option String} {items : List BatchItem} {parts : List KubeTrace}
    (h : List.Forall₂ (BatchItem.Written tp) items parts) :
    KubeTrace.writes parts.flatten = items.map fun item => (item.key, patchBody item.key item.spec tp) := by
  induction h with
  | nil => rfl
  | cons hwritten _ ih =>
    obtain ⟨a, c, obj, rfl, _, _⟩ := hwritten.recheck
    rw [List.flatten_cons, KubeTrace.writes_append, ih]
    rfl

/-! ### Accepted patches -/

/-- The versions the API server answered to the accepted patches of a key. -/
def KubeTrace.acceptedVersions (tr : KubeTrace) (key : Key) : List String :=
  tr.filterMap fun e =>
    match e with
    | ⟨.patch k _, .ok obj⟩ => if k = key then some (obj.metadata.resourceVersion.getD "") else none
    | _ => none

theorem KubeTrace.acceptedVersions_append (tr₁ tr₂ : KubeTrace) (key : Key) :
    KubeTrace.acceptedVersions (tr₁ ++ tr₂) key =
      KubeTrace.acceptedVersions tr₁ key ++ KubeTrace.acceptedVersions tr₂ key :=
  List.filterMap_append

/-- A key that no patch is for has no accepted one. -/
theorem KubeTrace.acceptedVersions_nil {tr : KubeTrace} {key : Key}
    (h : ∀ w ∈ KubeTrace.writes tr, w.1 ≠ key) : KubeTrace.acceptedVersions tr key = [] := by
  refine List.filterMap_eq_nil_iff.mpr fun e he => ?_
  rcases e with ⟨o, a⟩
  cases o with
  | get k => rfl
  | list ns name rv => rfl
  | patch k body =>
    have hk : k ≠ key := h (k, body) (List.mem_filterMap.mpr ⟨_, he, rfl⟩)
    cases a with
    | ok obj => exact if_neg hk
    | error e => rfl

theorem acceptedVersions_refusals (key k : Key) (body : Value) (errs : List KubeError) :
    KubeTrace.acceptedVersions (refusals key body errs) k = [] := by
  refine List.filterMap_eq_nil_iff.mpr fun e he => ?_
  obtain ⟨_, _, rfl⟩ := List.mem_map.mp he
  rfl

theorem writes_refusals {key : Key} {body : Value} {errs : List KubeError} {w : Key × Value}
    (h : w ∈ KubeTrace.writes (refusals key body errs)) : w = (key, body) := by
  obtain ⟨e, he, hw⟩ := List.mem_filterMap.mp h
  obtain ⟨_, _, rfl⟩ := List.mem_map.mp he
  exact (Option.some.inj hw).symm

/-- One write patches its own key, and is accepted once if it succeeds and never if it
fails. -/
theorem applySpec_versions {key : Key} {spec : ConfigSpec} {tp : Option String} {tr : KubeTrace}
    {r : Except Status ApplyResponse} (h : Ends (applySpec key spec tp) tr r) :
    (∀ w ∈ KubeTrace.writes tr, w.1 = key) ∧
      ((∃ rv, r = .ok ⟨rv⟩ ∧ KubeTrace.acceptedVersions tr key = [rv]) ∨
        ∃ st, r = .error st ∧ KubeTrace.acceptedVersions tr key = []) := by
  obtain ⟨a, tr', rfl, hcase⟩ := applySpec_ends h
  rcases hcase with ⟨rfl, ⟨st, rfl⟩, _⟩ | ⟨c, _, _, ⟨errs, obj, rfl, rfl⟩ | ⟨errs, st, _, rfl, rfl⟩⟩
  · exact ⟨fun w hw => absurd hw List.not_mem_nil, .inr ⟨st, rfl, rfl⟩⟩
  · refine ⟨fun w hw => ?_, .inl ⟨_, rfl, ?_⟩⟩
    · have hw : w ∈ KubeTrace.writes (refusals key (patchBody key spec tp) errs ++
          [accepted key (patchBody key spec tp) obj]) := hw
      rw [KubeTrace.writes_append] at hw
      rcases List.mem_append.mp hw with hw | hw
      · rw [writes_refusals hw]
      · rw [List.mem_singleton.mp hw]
    · show KubeTrace.acceptedVersions (refusals key (patchBody key spec tp) errs ++
        [accepted key (patchBody key spec tp) obj]) key = _
      rw [KubeTrace.acceptedVersions_append, acceptedVersions_refusals, List.nil_append]
      show (if key = key then some _ else none).toList = _
      rw [if_pos rfl]
      rfl
  · refine ⟨fun w hw => ?_, .inr ⟨st, rfl, acceptedVersions_refusals key key _ errs⟩⟩
    have hw : w ∈ KubeTrace.writes (refusals key (patchBody key spec tp) errs) := hw
    rw [writes_refusals hw]

/-- The writes of a batch: an accepted one for every item and its version in the results, or
an item that has none. -/
theorem applyItems_versions {tp : Option String} : ∀ {items : List BatchItem} {tr : KubeTrace}
    {r : Except Status (List BatchApplyResult)}, (items.map (·.key)).Nodup →
      Ends (applyItems tp items) tr r →
      (∀ w ∈ KubeTrace.writes tr, w.1 ∈ items.map (·.key)) ∧
        ((∃ results, r = .ok results ∧ List.Forall₂ (fun item (res : BatchApplyResult) =>
            res.key = item.key ∧ KubeTrace.acceptedVersions tr item.key = [res.resourceVersion])
            items results) ∨
          ∃ st, r = .error st ∧ ∃ item ∈ items, KubeTrace.acceptedVersions tr item.key = []) := by
  intro items
  induction items with
  | nil =>
    intro tr r _ h
    obtain ⟨rfl, rfl⟩ := ends_pure.mp h
    exact ⟨fun w hw => absurd hw List.not_mem_nil, .inl ⟨[], rfl, .nil⟩⟩
  | cons item items ih =>
    intro tr r hnodup h
    rw [List.map_cons, List.nodup_cons] at hnodup
    rw [applyItems, ends_bind] at h
    rcases h with ⟨e, rfl, h⟩ | ⟨tr₁, tr₂, resp, rfl, h₁, h₂⟩
    · obtain ⟨hkeys, ⟨rv, hr, _⟩ | ⟨st, _, hnone⟩⟩ := applySpec_versions h
      · cases hr
      · refine ⟨fun w hw => ?_, .inr ⟨e, rfl, item, List.mem_cons_self, hnone⟩⟩
        rw [hkeys w hw]
        exact List.mem_cons_self
    · obtain ⟨r', rfl, hitems⟩ := ends_bind_pure.mp h₂
      obtain ⟨hkeys₁, ⟨rv, hr, hone⟩ | ⟨st, hr, _⟩⟩ := applySpec_versions h₁
      · cases hr
        obtain ⟨hkeys₂, hcase⟩ := ih hnodup.2 hitems
        -- each item is written in its own part of the exchange
        have hhead : KubeTrace.acceptedVersions (tr₁ ++ tr₂) item.key = [rv] := by
          rw [KubeTrace.acceptedVersions_append, hone, KubeTrace.acceptedVersions_nil, List.append_nil]
          exact fun w hw heq => hnodup.1 (heq ▸ hkeys₂ w hw)
        have htail : ∀ item' ∈ items, KubeTrace.acceptedVersions (tr₁ ++ tr₂) item'.key =
            KubeTrace.acceptedVersions tr₂ item'.key := by
          intro item' hitem'
          have hnone : KubeTrace.acceptedVersions tr₁ item'.key = [] := by
            refine KubeTrace.acceptedVersions_nil fun w hw heq => ?_
            rw [hkeys₁ w hw] at heq
            exact hnodup.1 (heq ▸ List.mem_map_of_mem hitem')
          rw [KubeTrace.acceptedVersions_append, hnone, List.nil_append]
        refine ⟨fun w hw => ?_, ?_⟩
        · rw [KubeTrace.writes_append] at hw
          rcases List.mem_append.mp hw with hw | hw
          · rw [hkeys₁ w hw]
            exact List.mem_cons_self
          · exact List.mem_cons_of_mem _ (hkeys₂ w hw)
        · rcases hcase with ⟨results, rfl, hall⟩ | ⟨st, rfl, item', hitem', hnone⟩
          · refine .inl ⟨⟨item.key, rv⟩ :: results, rfl, .cons ⟨rfl, hhead⟩ ?_⟩
            rw [List.forall₂_iff_get] at hall ⊢
            refine ⟨hall.1, fun i h₁ h₂ => ?_⟩
            rw [htail _ (List.get_mem items ⟨i, h₁⟩)]
            exact hall.2 i h₁ h₂
          · exact .inr ⟨st, rfl, item', List.mem_cons_of_mem _ hitem', by rw [htail item' hitem', hnone]⟩
      · cases hr

/-- A result is found under the key of its item. -/
theorem find_result {P : BatchItem → BatchApplyResult → Prop} {items : List BatchItem}
    {results : List BatchApplyResult} (h : List.Forall₂ (fun item res => res.key = item.key ∧ P item res)
      items results) (hnodup : (items.map (·.key)).Nodup) :
    ∀ item ∈ items, ∃ res, results.find? (fun r => r.key = item.key) = some res ∧ P item res := by
  induction h with
  | nil => intro item hitem; exact absurd hitem List.not_mem_nil
  | @cons item res items results hhead _ ih =>
    rw [List.map_cons, List.nodup_cons] at hnodup
    intro item' hitem'
    rcases List.mem_cons.mp hitem' with rfl | hitem'
    · exact ⟨res, by rw [List.find?_cons_of_pos (by simp [hhead.1])], hhead.2⟩
    · obtain ⟨res', hfind, hP⟩ := ih hnodup.2 item' hitem'
      refine ⟨res', ?_, hP⟩
      rw [List.find?_cons_of_neg, hfind]
      rw [decide_eq_true_eq, hhead.1]
      exact fun heq => hnodup.1 (heq ▸ List.mem_map_of_mem hitem')

/-- The reads of the version gate write nothing. -/
theorem writes_fetchCurrents : ∀ {items : List BatchItem} {tr : KubeTrace}
    {r : Except Status (List UInt32)}, Ends (fetchCurrents items) tr r → KubeTrace.writes tr = [] := by
  intro items
  induction items with
  | nil =>
    intro tr r h
    obtain ⟨rfl, _⟩ := ends_pure.mp h
    rfl
  | cons item items ih =>
    intro tr r h
    rw [fetchCurrents, ends_bind] at h
    rcases h with ⟨e, _, h⟩ | ⟨tr₁, tr₂, c, rfl, h₁, h₂⟩
    · obtain ⟨a, rfl, _⟩ := fetch_ends.mp h
      rfl
    · obtain ⟨a, rfl, _⟩ := fetch_ends.mp h₁
      obtain ⟨r', _, hitems⟩ := ends_bind_pure.mp h₂
      rw [KubeTrace.writes_append, ih hitems]
      rfl

/-! ### The batch -/

section Batches

variable [JsonSchema] [SerdeYaml]

/-- The batch passes the gates that read nothing, and these are its items. -/
structure BatchParsed (table : SchemaTable) (reqs : List ApplyRequest) (items : List BatchItem) :
    Prop where
  nonempty : reqs ≠ []
  parsed : reqs.map BatchItem.ofRequest = items.map some
  distinct : (reqs.map (·.key)).Nodup
  valid : ∀ item ∈ items, table.validate item.key.ns item.key.name item.spec.content = .ok ()

/-- The batch passes every gate. -/
structure Cluster.Accepts (s : Cluster) (table : SchemaTable) (reqs : List ApplyRequest)
    (items : List BatchItem) : Prop extends BatchParsed table reqs items where
  newer : ∀ item ∈ items, s.readVersion item.key < item.spec.schemaVersion

/-- The call fails and has written nothing. -/
structure BatchRejected (tr : KubeTrace) (r : Except Status (List BatchApplyResult)) : Prop where
  failed : ∃ st, r = .error st
  unwritten : KubeTrace.writes tr = []

/-- The call succeeds: after reads alone, the sorted items are written one by one. -/
structure BatchCarriedOut (tp : Option String) (items : List BatchItem) (tr : KubeTrace)
    (r : Except Status (List BatchApplyResult)) : Prop where
  rechecked : ∃ gates parts, tr = gates ++ parts.flatten ∧ KubeTrace.writes gates = [] ∧
    List.Forall₂ (BatchItem.Written tp) (sortBatchItems items) parts
  results : ∃ results, r = .ok results ∧ results.map (·.key) = (sortBatchItems items).map (·.key)

omit [JsonSchema] [SerdeYaml] in
theorem BatchCarriedOut.writes_eq {tp : Option String} {items : List BatchItem} {tr : KubeTrace}
    {r : Except Status (List BatchApplyResult)} (h : BatchCarriedOut tp items tr r) :
    KubeTrace.writes tr =
      (sortBatchItems items).map fun item => (item.key, patchBody item.key item.spec tp) := by
  obtain ⟨gates, parts, rfl, hgates, hparts⟩ := h.rechecked
  rw [KubeTrace.writes_append, hgates, writes_of_written hparts, List.nil_append]

omit [JsonSchema] in
theorem parsed_keys {reqs : List ApplyRequest} {items : List BatchItem}
    (h : reqs.map BatchItem.ofRequest = items.map some) : items.map (·.key) = reqs.map (·.key) := by
  induction reqs generalizing items with
  | nil =>
    rw [List.map_nil, eq_comm, List.map_eq_nil_iff] at h
    rw [h]
    rfl
  | cons req reqs ih =>
    cases items with
    | nil => simp at h
    | cons item items =>
      rw [List.map_cons, List.map_cons, List.cons.injEq] at h
      rw [List.map_cons, List.map_cons, ih h.2, (BatchItem.ofRequest_eq.mp h.1).1]

omit [JsonSchema] in
theorem parsed_eq {reqs : List ApplyRequest} {items : List BatchItem}
    (h : reqs.map BatchItem.ofRequest = items.map some) : items = reqs.filterMap BatchItem.ofRequest := by
  have hid : (reqs.map BatchItem.ofRequest).filterMap id = reqs.filterMap BatchItem.ofRequest := by
    rw [List.filterMap_map]
    rfl
  rw [← hid, h, List.filterMap_map]
  exact List.filterMap_some.symm

omit [JsonSchema] in
theorem exists_parsed {reqs : List ApplyRequest}
    (h : ∀ req ∈ reqs, ∃ item, BatchItem.ofRequest req = some item) :
    ∃ items : List BatchItem, reqs.map BatchItem.ofRequest = items.map some := by
  induction reqs with
  | nil => exact ⟨[], rfl⟩
  | cons req reqs ih =>
    obtain ⟨item, hitem⟩ := h req List.mem_cons_self
    obtain ⟨items, hitems⟩ := ih fun req' hreq' => h req' (List.mem_cons_of_mem _ hreq')
    exact ⟨item :: items, by rw [List.map_cons, List.map_cons, hitem, hitems]⟩

omit [JsonSchema] in
theorem parseBatchItems_ok {reqs : List ApplyRequest} {items : List BatchItem} :
    parseBatchItems reqs = .ok items ↔ reqs ≠ [] ∧
      reqs.map BatchItem.ofRequest = items.map some ∧ (reqs.map (·.key)).Nodup := by
  unfold parseBatchItems
  cases reqs with
  | nil =>
    constructor
    · intro h
      cases h
    · rintro ⟨h, _⟩
      exact absurd rfl h
  | cons req reqs =>
    rw [if_neg (by simp), parseItems_ok]
    simp

/-- **What `BatchApply` does**: two gates that read nothing, the reads, the version gate on
what was read, and the writes. -/
theorem handleBatchApply_ends {table : SchemaTable} {reqs : List ApplyRequest} {tp : Option String}
    {tr : KubeTrace} {r : Except Status (List BatchApplyResult)}
    (h : Ends (handleBatchApply table reqs tp) tr r) :
    (tr = [] ∧ (∃ st, r = .error st) ∧ ∀ items, ¬ BatchParsed table reqs items) ∨
      ∃ items, BatchParsed table reqs items ∧
        ((∃ st, r = .error st ∧ Ends (fetchCurrents items) tr (.error st)) ∨
          ∃ tr₁ tr₂ currents, tr = tr₁ ++ tr₂ ∧ Ends (fetchCurrents items) tr₁ (.ok currents) ∧
            ((∃ st, gateBatchVersions items currents = .error st ∧ tr₂ = [] ∧ r = .error st) ∨
              gateBatchVersions items currents = .ok () ∧
                Ends (applyItems tp (sortBatchItems items)) tr₂ r)) := by
  unfold handleBatchApply at h
  rw [ends_liftExcept_bind] at h
  rcases h with ⟨e, he, rfl, rfl⟩ | ⟨items, hitems, h⟩
  · refine .inl ⟨rfl, ⟨e, rfl⟩, fun items hp => ?_⟩
    rw [parseBatchItems_ok.mpr ⟨hp.nonempty, hp.parsed, hp.distinct⟩] at he
    cases he
  obtain ⟨hne, hmap, hnodup⟩ := parseBatchItems_ok.mp hitems
  rw [ends_liftExcept_bind] at h
  rcases h with ⟨e, he, rfl, rfl⟩ | ⟨_, hvalid, h⟩
  · refine .inl ⟨rfl, ⟨e, rfl⟩, fun items' hp => ?_⟩
    obtain rfl : items' = items := by rw [parsed_eq hp.parsed, parsed_eq hmap]
    rw [validateItems_ok.mpr hp.valid] at he
    cases he
  refine .inr ⟨items, ⟨hne, hmap, hnodup, validateItems_ok.mp hvalid⟩, ?_⟩
  rw [ends_bind] at h
  rcases h with h | ⟨tr₁, tr₂, currents, rfl, hreads, h⟩
  · exact .inl h
  refine .inr ⟨tr₁, tr₂, currents, rfl, hreads, ?_⟩
  rw [ends_liftExcept_bind] at h
  rcases h with h | ⟨_, hgate, h⟩
  · exact .inl h
  · exact .inr ⟨hgate, h⟩

/-- **Four gates, then the writes**: a batch that nobody interferes with is turned down, or
it is accepted and carried out. -/
theorem handleBatchApply_served {s s' : Cluster} {table : SchemaTable} {reqs : List ApplyRequest}
    {tp : Option String} {tr : KubeTrace} {r : Except Status (List BatchApplyResult)}
    (h : Ends (handleBatchApply table reqs tp) tr r) (hs : Answered Cluster.Serves s tr s') :
    (BatchRejected tr r ∧ ∀ items, ¬ s.Accepts table reqs items) ∨
      ∃ items, s.Accepts table reqs items ∧ BatchCarriedOut tp items tr r := by
  rcases handleBatchApply_ends h with ⟨rfl, hr, hno⟩ | ⟨items, hp, h⟩
  · exact .inl ⟨⟨hr, rfl⟩, fun items hacc => hno items hacc.toBatchParsed⟩
  rcases h with ⟨st, rfl, hreads⟩ | ⟨tr₁, tr₂, currents, rfl, hreads, h⟩
  · obtain ⟨_, hr, _⟩ := fetchCurrents_served hreads hs
    cases hr
  obtain ⟨m, hs₁, hs₂⟩ := answered_append.mp hs
  obtain ⟨rfl, hcurrents, hwrites⟩ := fetchCurrents_served hreads hs₁
  cases hcurrents
  rcases h with ⟨st, hgate, rfl, rfl⟩ | ⟨hgate, h⟩
  · refine .inl ⟨⟨⟨st, rfl⟩, by rw [List.append_nil, hwrites]⟩, fun items' hacc => ?_⟩
    obtain rfl : items' = items := by rw [parsed_eq hacc.parsed, parsed_eq hp.parsed]
    rw [gateBatchVersions_ok.mpr hacc.newer] at hgate
    cases hgate
  have hnewer := gateBatchVersions_ok.mp hgate
  have hkeys : (items.map (·.key)).Nodup := (parsed_keys hp.parsed).symm ▸ hp.distinct
  have hperm := perm_sortBatchItems items
  obtain ⟨parts, results, rfl, hparts, rfl, hresults⟩ :=
    applyItems_served ((hperm.map _).nodup_iff.mpr hkeys)
      (fun item hitem => hnewer item (hperm.mem_iff.mp hitem)) h hs₂
  exact .inr ⟨items, ⟨hp, hnewer⟩, ⟨⟨tr₁, parts, rfl, hwrites, hparts⟩, ⟨results, rfl, hresults⟩⟩⟩

/-- The accepted items of a request whose items are listed in another order. -/
theorem Cluster.Accepts.perm {s : Cluster} {table : SchemaTable} {reqs reqs' : List ApplyRequest}
    {items : List BatchItem} (h : s.Accepts table reqs items) (hperm : reqs'.Perm reqs) :
    ∃ items', s.Accepts table reqs' items' ∧ items'.Perm items := by
  -- every request of the list parses, because it is one of the other list
  have hsome : ∀ req ∈ reqs', ∃ item, BatchItem.ofRequest req = some item := by
    intro req hreq
    have hmem : BatchItem.ofRequest req ∈ reqs.map BatchItem.ofRequest :=
      List.mem_map_of_mem (hperm.mem_iff.mp hreq)
    rw [h.parsed] at hmem
    obtain ⟨item, _, hitem⟩ := List.mem_map.mp hmem
    exact ⟨item, hitem.symm⟩
  obtain ⟨items', hitems'⟩ := exists_parsed hsome
  have hitems : items'.Perm items := by
    rw [parsed_eq h.parsed, parsed_eq hitems']
    exact hperm.filterMap _
  refine ⟨items', ⟨⟨?_, hitems', ?_, ?_⟩, ?_⟩, hitems⟩
  · rintro rfl
    exact h.nonempty hperm.symm.eq_nil
  · exact (hperm.map _).nodup_iff.mpr h.distinct
  · exact fun item hitem => h.valid item (hitems.mem_iff.mp hitem)
  · exact fun item hitem => h.newer item (hitems.mem_iff.mp hitem)

/-- **What a batch has written when it ends.** -/
theorem handleBatchApply_versions {table : SchemaTable} {reqs : List ApplyRequest} {tp : Option String}
    {tr : KubeTrace} {r : Except Status (List BatchApplyResult)}
    (h : Ends (handleBatchApply table reqs tp) tr r) :
    (∀ w ∈ KubeTrace.writes tr, w.1 ∈ reqs.map (·.key)) ∧
      ((∃ results, r = .ok results ∧ ∀ req ∈ reqs, ∃ res,
          results.find? (fun r => r.key = req.key) = some res ∧
          KubeTrace.acceptedVersions tr req.key = [res.resourceVersion]) ∨
        ∃ st, r = .error st ∧ (KubeTrace.writes tr = [] ∨
          ∃ req ∈ reqs, KubeTrace.acceptedVersions tr req.key = [])) := by
  rcases handleBatchApply_ends h with ⟨rfl, ⟨st, rfl⟩, _⟩ | ⟨items, hp, h⟩
  · exact ⟨fun w hw => absurd hw List.not_mem_nil, .inr ⟨st, rfl, .inl rfl⟩⟩
  rcases h with ⟨st, rfl, hreads⟩ | ⟨tr₁, tr₂, currents, rfl, hreads, h⟩
  · have hnone := writes_fetchCurrents hreads
    exact ⟨fun w hw => absurd (hnone ▸ hw) List.not_mem_nil, .inr ⟨st, rfl, .inl hnone⟩⟩
  have hnone := writes_fetchCurrents hreads
  have hwrites : KubeTrace.writes (tr₁ ++ tr₂) = KubeTrace.writes tr₂ := by
    rw [KubeTrace.writes_append, hnone, List.nil_append]
  have hversions : ∀ key, KubeTrace.acceptedVersions (tr₁ ++ tr₂) key =
      KubeTrace.acceptedVersions tr₂ key := by
    intro key
    have hread : KubeTrace.acceptedVersions tr₁ key = [] := by
      refine KubeTrace.acceptedVersions_nil fun w hw => ?_
      rw [hnone] at hw
      exact absurd hw List.not_mem_nil
    rw [KubeTrace.acceptedVersions_append, hread, List.nil_append]
  rcases h with ⟨st, _, rfl, rfl⟩ | ⟨_, h⟩
  · rw [hwrites]
    exact ⟨fun w hw => absurd hw List.not_mem_nil, .inr ⟨st, rfl, .inl rfl⟩⟩
  have hperm := perm_sortBatchItems items
  have hkeys : items.map (·.key) = reqs.map (·.key) := parsed_keys hp.parsed
  have hnodup : ((sortBatchItems items).map (·.key)).Nodup :=
    (hperm.map _).nodup_iff.mpr (hkeys ▸ hp.distinct)
  obtain ⟨hown, hcase⟩ := applyItems_versions hnodup h
  refine ⟨fun w hw => ?_, ?_⟩
  · rw [hwrites] at hw
    rw [← hkeys]
    exact (hperm.map _).mem_iff.mp (hown w hw)
  rcases hcase with ⟨results, rfl, hall⟩ | ⟨st, rfl, item, hitem, hno⟩
  · refine .inl ⟨results, rfl, fun req hreq => ?_⟩
    have hmem : req.key ∈ (sortBatchItems items).map (·.key) :=
      (hperm.map _).mem_iff.mpr (hkeys ▸ List.mem_map_of_mem hreq)
    obtain ⟨item, hitem, hkey⟩ := List.mem_map.mp hmem
    obtain ⟨res, hfind, hver⟩ := find_result hall hnodup item hitem
    rw [hversions, ← hkey]
    exact ⟨res, hfind, hver⟩
  · have hmem : item.key ∈ reqs.map (·.key) :=
      hkeys ▸ List.mem_map_of_mem (hperm.mem_iff.mp hitem)
    obtain ⟨req, hreq, hkey⟩ := List.mem_map.mp hmem
    exact .inr ⟨st, rfl, .inr ⟨req, hreq, by rw [hversions, hkey, hno]⟩⟩

/-! ### The law -/

/-- What is wrong with an item of the batch, or between two of them. -/
inductive BatchFault (s : Cluster) (table : SchemaTable) (reqs : List ApplyRequest) : Prop
  | unparsable (req : ApplyRequest) (hreq : req ∈ reqs)
      (h : ∀ spec, SerdeYaml.fromStr req.yamlContent ≠ .ok spec)
  | duplicate (h : ¬ (reqs.map (·.key)).Nodup)
  | violates (req : ApplyRequest) (hreq : req ∈ reqs) (spec : ConfigSpec)
      (hspec : SerdeYaml.fromStr req.yamlContent = .ok spec)
      (h : table.validate req.key.ns req.key.name spec.content ≠ .ok ())
  | stale (req : ApplyRequest) (hreq : req ∈ reqs) (spec : ConfigSpec)
      (hspec : SerdeYaml.fromStr req.yamlContent = .ok spec)
      (h : spec.schemaVersion.toNat ≤ s.version req.key)

/-- The call succeeds: every target of the request is written exactly once, in increasing
order and each after a re-check, and the results list the targets in that order. -/
structure BatchWritten (reqs : List ApplyRequest) (tp : Option String) (tr : KubeTrace)
    (r : Except Status (List BatchApplyResult)) : Prop where
  once : ((KubeTrace.writes tr).map Prod.fst).Perm (reqs.map (·.key))
  ordered : ((KubeTrace.writes tr).map Prod.fst).Pairwise Key.Before
  bodies : ∀ w ∈ KubeTrace.writes tr, ∃ req ∈ reqs, ∃ spec,
    SerdeYaml.fromStr req.yamlContent = .ok spec ∧ w = (req.key, patchBody req.key spec tp)
  rechecked : ∃ items gates parts, tr = gates ++ parts.flatten ∧ KubeTrace.writes gates = [] ∧
    List.Forall₂ (BatchItem.Written tp) items parts
  results : ∃ results, r = .ok results ∧ results.map (·.key) = (KubeTrace.writes tr).map Prod.fst

/-- What a batch owes its caller when nobody else writes, where `Fault` is what makes it
unacceptable. -/
def BatchLaw (Fault : Prop) (s : Cluster) (table : SchemaTable) (reqs : List ApplyRequest)
    (tp : Option String) : Prop :=
  ∀ tr r s', Ends (handleBatchApply table reqs tp) tr r → Answered Cluster.Serves s tr s' →
    (Fault → BatchRejected tr r) ∧ (¬ Fault → BatchWritten reqs tp tr r) ∧
    ∀ reqs' tr' r' s'', reqs'.Perm reqs → Ends (handleBatchApply table reqs' tp) tr' r' →
      Answered Cluster.Serves s tr' s'' →
      r'.isOk = r.isOk ∧ KubeTrace.writes tr' = KubeTrace.writes tr

/-- An accepted batch is one without a fault. -/
theorem accepts_iff_not_fault {s : Cluster} {table : SchemaTable} {reqs : List ApplyRequest}
    (hfit : ∀ req ∈ reqs, s.version req.key < 2 ^ 32) :
    (∃ items, s.Accepts table reqs items) ↔ ¬ (reqs = [] ∨ BatchFault s table reqs) := by
  constructor
  · rintro ⟨items, hacc⟩ (hnil | hfault)
    · exact hacc.nonempty hnil
    -- the item of a request, with what the gates found out about it
    have hitem : ∀ req ∈ reqs, ∃ item ∈ items, item.key = req.key ∧
        SerdeYaml.fromStr req.yamlContent = .ok item.spec := by
      intro req hreq
      have hmem := List.mem_map_of_mem (f := BatchItem.ofRequest) hreq
      rw [hacc.parsed] at hmem
      obtain ⟨item, hmem, heq⟩ := List.mem_map.mp hmem
      exact ⟨item, hmem, BatchItem.ofRequest_eq.mp heq.symm⟩
    cases hfault with
    | unparsable req hreq h =>
      obtain ⟨item, _, _, hspec⟩ := hitem req hreq
      exact h _ hspec
    | duplicate h => exact h hacc.distinct
    | violates req hreq spec hspec h =>
      obtain ⟨item, hmem, hkey, hspec'⟩ := hitem req hreq
      rw [hspec] at hspec'
      cases hspec'
      exact h (hkey ▸ hacc.valid item hmem)
    | stale req hreq spec hspec h =>
      obtain ⟨item, hmem, hkey, hspec'⟩ := hitem req hreq
      rw [hspec] at hspec'
      cases hspec'
      have hlt := hacc.newer item hmem
      rw [UInt32.lt_iff_toNat_lt, hkey, readVersion_fits (hfit req hreq)] at hlt
      omega
  · intro hno
    obtain ⟨hne, hno⟩ := not_or.mp hno
    have hparsed : ∀ req ∈ reqs, ∃ item, BatchItem.ofRequest req = some item := by
      intro req hreq
      by_contra hnone
      refine hno (.unparsable req hreq fun spec hspec => hnone ⟨⟨req.key, spec⟩, ?_⟩)
      exact BatchItem.ofRequest_eq.mpr ⟨rfl, hspec⟩
    obtain ⟨items, hitems⟩ := exists_parsed hparsed
    have hreq : ∀ item ∈ items, ∃ req ∈ reqs, item.key = req.key ∧
        SerdeYaml.fromStr req.yamlContent = .ok item.spec := by
      intro item hmem
      have hmem' := List.mem_map_of_mem (f := some) hmem
      rw [← hitems] at hmem'
      obtain ⟨req, hreq, heq⟩ := List.mem_map.mp hmem'
      exact ⟨req, hreq, BatchItem.ofRequest_eq.mp heq⟩
    refine ⟨items, ⟨hne, hitems, by_contra fun h => hno (.duplicate h), fun item hmem => ?_⟩,
      fun item hmem => ?_⟩
    · obtain ⟨req, hreq, hkey, hspec⟩ := hreq item hmem
      rw [hkey]
      by_contra h
      exact hno (.violates req hreq item.spec hspec h)
    · obtain ⟨req, hreq, hkey, hspec⟩ := hreq item hmem
      rw [UInt32.lt_iff_toNat_lt, hkey, readVersion_fits (hfit req hreq)]
      by_contra h
      exact hno (.stale req hreq item.spec hspec (by omega))

/-- What was carried out is what the law asks for. -/
theorem BatchCarriedOut.written {s : Cluster} {table : SchemaTable} {reqs : List ApplyRequest}
    {tp : Option String} {items : List BatchItem} {tr : KubeTrace}
    {r : Except Status (List BatchApplyResult)} (h : BatchCarriedOut tp items tr r)
    (hacc : s.Accepts table reqs items) : BatchWritten reqs tp tr r := by
  have hkeys := parsed_keys hacc.parsed
  have hfst : (KubeTrace.writes tr).map Prod.fst = (sortBatchItems items).map (·.key) := by
    rw [h.writes_eq, List.map_map]
    rfl
  refine ⟨?_, ?_, ?_, ?_, ?_⟩
  · rw [hfst, ← hkeys]
    exact (perm_sortBatchItems items).map _
  · rw [hfst]
    exact before_sortBatchItems (hkeys ▸ hacc.distinct)
  · intro w hw
    rw [h.writes_eq] at hw
    obtain ⟨item, hitem, rfl⟩ := List.mem_map.mp hw
    have hmem := List.mem_map_of_mem (f := some) ((perm_sortBatchItems items).mem_iff.mp hitem)
    rw [← hacc.parsed] at hmem
    obtain ⟨req, hreq, heq⟩ := List.mem_map.mp hmem
    obtain ⟨hkey, hspec⟩ := BatchItem.ofRequest_eq.mp heq
    exact ⟨req, hreq, item.spec, hspec, by rw [hkey]⟩
  · obtain ⟨gates, parts, htr, hgates, hparts⟩ := h.rechecked
    exact ⟨_, gates, parts, htr, hgates, hparts⟩
  · obtain ⟨results, hr, hresults⟩ := h.results
    exact ⟨results, hr, hresults.trans hfst.symm⟩

/-- **All or nothing, in the order of the targets**, whatever the order of the request. -/
theorem batchApply_lawful {s : Cluster} {table : SchemaTable} {reqs : List ApplyRequest}
    {tp : Option String} (hfit : ∀ req ∈ reqs, s.version req.key < 2 ^ 32) :
    BatchLaw (reqs = [] ∨ BatchFault s table reqs) s table reqs tp := by
  intro tr r s' h hs
  have hfault : (∃ items, s.Accepts table reqs items) ↔ ¬ (reqs = [] ∨ BatchFault s table reqs) :=
    accepts_iff_not_fault hfit
  rcases handleBatchApply_served h hs with ⟨hrej, hno⟩ | ⟨items, hacc, hdone⟩
  · refine ⟨fun _ => hrej, fun hnf => ?_, ?_⟩
    · obtain ⟨items, hacc⟩ := hfault.mpr hnf
      exact absurd hacc (hno items)
    · intro reqs' tr' r' s'' hperm h' hs'
      rcases handleBatchApply_served h' hs' with ⟨hrej', _⟩ | ⟨items', hacc', _⟩
      · obtain ⟨st, rfl⟩ := hrej.failed
        obtain ⟨st', rfl⟩ := hrej'.failed
        exact ⟨rfl, hrej'.unwritten.trans hrej.unwritten.symm⟩
      · obtain ⟨items, hacc, _⟩ := hacc'.perm hperm.symm
        exact absurd hacc (hno items)
  · refine ⟨fun hf => absurd hf (hfault.mp ⟨items, hacc⟩), fun _ => hdone.written hacc, ?_⟩
    intro reqs' tr' r' s'' hperm h' hs'
    obtain ⟨items', hacc', hitems⟩ := hacc.perm hperm
    rcases handleBatchApply_served h' hs' with ⟨_, hno⟩ | ⟨items'', hacc'', hdone'⟩
    · exact absurd hacc' (hno items')
    obtain rfl : items'' = items' := by rw [parsed_eq hacc''.parsed, parsed_eq hacc'.parsed]
    obtain ⟨_, hr, _⟩ := hdone.results
    obtain ⟨_, hr', _⟩ := hdone'.results
    rw [hr, hr', hdone.writes_eq, hdone'.writes_eq,
      sortBatchItems_perm hitems ((parsed_keys hacc.parsed).symm ▸ hacc.distinct)]
    exact ⟨rfl, rfl⟩

end Batches

/-! ### Two batches -/

section TwoBatches

local instance batchSchemas : JsonSchema := noSchemas

local instance batchDocuments : SerdeYaml := twoDocuments

/-- Version `3` of `trading/limits` and version `4` of `trading/rules`. -/
def twoStored : Cluster :=
  Function.update (Function.update (fun _ => none) limitsKey (some (stored ⟨3, defaultContent⟩)))
    rulesKey (some (storedRules ⟨4, defaultContent⟩))

/-- The targets in the wrong order. -/
def twoRequests : List ApplyRequest := [⟨rulesKey, "schema_version: 5"⟩, ⟨limitsKey, "schema_version: 5"⟩]

def twoItems : List BatchItem := [⟨rulesKey, ⟨5, defaultContent⟩⟩, ⟨limitsKey, ⟨5, defaultContent⟩⟩]

theorem twoStored_fits : ∀ req ∈ twoRequests, twoStored.version req.key < 2 ^ 32 := by
  intro req hreq
  rcases List.mem_pair.mp hreq with rfl | rfl
  · exact lt_of_eq_of_lt (Cluster.version_patched (v := 4) rfl) (by decide)
  · refine lt_of_eq_of_lt (Cluster.version_update_ne (by decide)) ?_
    exact lt_of_eq_of_lt (Cluster.version_patched (v := 3) rfl) (by decide)

theorem twoStored_accepts : twoStored.Accepts ∅ twoRequests twoItems := by
  refine ⟨⟨by simp [twoRequests], rfl, by decide, fun _ _ => rfl⟩, fun item hitem => ?_⟩
  rcases List.mem_pair.mp hitem with rfl | rfl
  · decide +kernel
  · decide +kernel

theorem sortBatchItems_twoItems : sortBatchItems twoItems = twoItems.reverse := by
  rw [sortBatchItems_perm (List.reverse_perm twoItems).symm (by decide), sortBatchItems_eq]
  exact List.mergeSort_of_pairwise (by decide +kernel)

theorem batchApply_lawful_two :
    BatchLaw (twoRequests = [] ∨ BatchFault twoStored ∅ twoRequests) twoStored ∅ twoRequests none ∧
    ∃ tr r s', Ends (handleBatchApply ∅ twoRequests none) tr r ∧ Answered Cluster.Serves twoStored tr s' ∧
      BatchWritten twoRequests none tr r ∧
      KubeTrace.writes tr = [(limitsKey, patchBody limitsKey ⟨5, defaultContent⟩ none),
        (rulesKey, patchBody rulesKey ⟨5, defaultContent⟩ none)] ∧
      ∃ tr' r' s'', Ends (handleBatchApply ∅ twoRequests.reverse none) tr' r' ∧
        Answered Cluster.Serves twoStored tr' s'' ∧ r'.isOk = r.isOk ∧
        KubeTrace.writes tr' = KubeTrace.writes tr := by
  have hlaw : BatchLaw (twoRequests = [] ∨ BatchFault twoStored ∅ twoRequests) twoStored ∅ twoRequests none :=
    batchApply_lawful twoStored_fits
  obtain ⟨tr, r, s', hend, hs⟩ :=
    ends_total Cluster.serves_total (handleBatchApply ∅ twoRequests none).run twoStored
  obtain ⟨tr', r', s'', hend', hs'⟩ :=
    ends_total Cluster.serves_total (handleBatchApply ∅ twoRequests.reverse none).run twoStored
  obtain ⟨_, hwritten, hperm⟩ := hlaw tr r s' hend hs
  have hok := (accepts_iff_not_fault twoStored_fits).mp ⟨twoItems, twoStored_accepts⟩
  refine ⟨hlaw, tr, r, s', hend, hs, hwritten hok, ?_, tr', r', s'', hend', hs',
    hperm _ tr' r' s'' (List.reverse_perm _) hend' hs'⟩
  rcases handleBatchApply_served hend hs with ⟨_, hno⟩ | ⟨items, hacc, hdone⟩
  · exact absurd twoStored_accepts (hno twoItems)
  · obtain rfl : items = twoItems := parsed_eq hacc.parsed
    rw [hdone.writes_eq, sortBatchItems_twoItems]
    rfl

/-- A config whose stored version does not fit in 32 bits. -/
def hugeVersion : DynamicObject where
  metadata := { name := some "limits", ns := some "trading" }
  data := .object [("spec", .object [("schema_version", .number (.posInt (2 ^ 32 + 3)))])]

/-- **The law fails** where only the items count as faults: an empty batch has none and is
turned down, and version `5` is written over version `2 ^ 32 + 3`, which is read as `3`. -/
theorem batchApply_unlawful :
    ¬ BatchLaw (BatchFault (fun _ => none) ∅ []) (fun _ => none) ∅ [] none ∧
      ¬ BatchLaw (BatchFault (fun _ => some hugeVersion) ∅ [⟨limitsKey, "schema_version: 5"⟩])
        (fun _ => some hugeVersion) ∅ [⟨limitsKey, "schema_version: 5"⟩] none := by
  refine ⟨fun h => ?_, fun h => ?_⟩
  · obtain ⟨tr, r, s', hend, hs⟩ :=
      ends_total Cluster.serves_total (handleBatchApply ∅ [] none).run (fun _ => none)
    have hok : ¬ BatchFault (fun _ => none) ∅ [] := by
      intro hf
      cases hf with
      | unparsable req hreq _ => exact absurd hreq List.not_mem_nil
      | duplicate h => exact h List.nodup_nil
      | violates req hreq _ _ _ => exact absurd hreq List.not_mem_nil
      | stale req hreq _ _ _ => exact absurd hreq List.not_mem_nil
    obtain ⟨results, hr, _⟩ := ((h tr r s' hend hs).2.1 hok).results
    rcases handleBatchApply_served hend hs with ⟨hrej, _⟩ | ⟨items, hacc, _⟩
    · obtain ⟨st, hst⟩ := hrej.failed
      rw [hr] at hst
      cases hst
    · exact hacc.nonempty rfl
  · obtain ⟨tr, r, s', hend, hs⟩ := ends_total Cluster.serves_total
      (handleBatchApply ∅ [⟨limitsKey, "schema_version: 5"⟩] none).run (fun _ => some hugeVersion)
    have hstale : BatchFault (fun _ => some hugeVersion) ∅ [⟨limitsKey, "schema_version: 5"⟩] :=
      .stale ⟨limitsKey, "schema_version: 5"⟩ List.mem_cons_self ⟨5, defaultContent⟩ rfl (by decide)
    obtain ⟨st, hst⟩ := ((h tr r s' hend hs).1 hstale).failed
    rcases handleBatchApply_served hend hs with ⟨_, hno⟩ | ⟨items, _, hdone⟩
    · refine hno [⟨limitsKey, 5, defaultContent⟩] ⟨⟨by simp, rfl, by simp, ?_⟩, ?_⟩
      · intro item _
        rfl
      · intro item hitem
        rw [List.mem_singleton.mp hitem]
        decide
    · obtain ⟨results, hr, _⟩ := hdone.results
      rw [hr] at hst
      cases hst

end TwoBatches

end Konfig
