import Konfig.Consumer.CatchUp
import Konfig.Etcd
import Konfig.Watcher

/-!
# Where a config comes from

The three write calls on an API server with its history (`Etcd`), the config watcher that
fills the cache, the namespace watcher with its subscriber, and the consumer's stores, one
behind the other.  Each hands on what it was given: what a consumer reads was written to the
same config by an `Apply` or a `BatchApply` and met the schema there, or was stored before.

* `Heard`: what a call has read of old specs, and `Call.hears`: it writes nothing else but
  what it was given.
* `authored_run`: every spec in the history was given to a call, or was there before.
* `Session.Carries`: what goes into a subscription comes out of it.
* `served_was_applied`: the cache and the consumer show nothing else.
-/

namespace Konfig

open Lib Proc

/-! ### The history -/

/-- The spec of an object. -/
def DynamicObject.spec (obj : DynamicObject) : Option ConfigSpec :=
  (obj.data.get "spec").bind ConfigSpec.fromValue

/-- An object is filed under its key, and under a resource version that shows it. -/
structure Etcd.Shows (s : Etcd) (key : Key) (obj : DynamicObject) : Prop where
  name : obj.metadata.name = some key.name
  ns : obj.metadata.ns = some key.ns
  shown : ∃ m, obj.metadata.resourceVersion = some (toString m) ∧ m ≤ s.rev ∧ s.asOf m key = some obj

/-- Everything in the history is filed. -/
def Etcd.Filed (s : Etcd) : Prop := s.Holds s.Shows

theorem Etcd.Shows.mono {s s' : Etcd} (h : s.Extends s') {key : Key} {obj : DynamicObject}
    (hs : s.Shows key obj) : s'.Shows key obj := by
  obtain ⟨m, hrv, hm, hat⟩ := hs.shown
  exact ⟨hs.name, hs.ns, m, hrv, hm.trans h.rev, (h.asOf hm key).trans hat⟩

theorem Etcd.Filed.write {s : Etcd} (h : s.Filed) {key : Key} {body : Value} {obj : DynamicObject}
    (happ : AppliedAs (s.rev + 1) key body obj) : Etcd.Filed (s.write key (some obj)) := by
  refine Revisions.Holds.write (fun n k o ho => (h n k o ho).mono (Revisions.extends_write _ _ _)) fun o ho => ?_
  obtain rfl := Option.some.inj ho
  exact ⟨happ.name, happ.ns, _, happ.rv, le_rfl, Revisions.asOf_write_self _ _ _⟩

theorem Etcd.Filed.delete {s : Etcd} (h : s.Filed) (key : Key) : Etcd.Filed (s.write key none) :=
  Revisions.Holds.write (fun n k o ho => (h n k o ho).mono (Revisions.extends_write _ _ _))
    fun _ ho => absurd ho (Option.not_mem_none _)

/-- An answer keeps the history filed. -/
theorem Etcd.Answer.filed {s s' : Etcd} {o : KubeOp} {r : o.Resp} (h : Etcd.Answer s o r s') (hs : s.Filed) :
    s'.Filed := by
  induction h with
  | found _ | missing _ | getFailed _ | patchFailed | listed _ _ | listFailed => exact hs
  | patched happ | patchLost happ => exact hs.write happ
  | deleted _ ih => exact ih (hs.delete _)
  | touched _ happ _ ih => exact ih (hs.write happ)

theorem filed_run {α : Type} {c₀ c : Etcd × List (Proc KubeOp KubeOp.Resp α)}
    {tr : List (Event KubeOp KubeOp.Resp)} (hfiled : c₀.1.Filed) (h : Run Etcd.Answer c₀ tr c) : c.1.Filed := by
  induction h with
  | nil => exact hfiled
  | snoc _ hs ih =>
    cases hs with
    | call _ hans => exact hans.filed ih

/-- An answer keeps what holds of every document that is patched, and is a matter of the spec. -/
theorem Etcd.Answer.holds {P : Key → DynamicObject → Prop} {s s' : Etcd} {o : KubeOp} {r : o.Resp}
    (h : Etcd.Answer s o r s')
    (hpatch : ∀ key body, o = .patch key body → ∀ m obj, AppliedAs m key body obj → P key obj)
    (htouch : ∀ key old m obj, P key old → AppliedAs m key old.data obj → P key obj) (hs : s.Holds P) :
    s'.Holds P := by
  induction h with
  | found _ | missing _ | getFailed _ | patchFailed | listed _ _ | listFailed => exact hs
  | patched happ | patchLost happ =>
    refine hs.write fun obj hobj => ?_
    obtain rfl := Option.some.inj hobj
    exact hpatch _ _ rfl _ _ happ
  | deleted _ ih => exact ih hpatch (hs.write fun _ ho => absurd ho (Option.not_mem_none _))
  | touched hold happ _ ih =>
    refine ih hpatch (hs.write fun obj hobj => ?_)
    obtain rfl := Option.some.inj hobj
    exact htouch _ _ _ _ (hs _ _ _ hold) happ

theorem AppliedAs.same_spec {m : ℕ} {key : Key} {old obj : DynamicObject} (h : AppliedAs m key old.data obj) :
    obj.spec = old.spec := by
  unfold DynamicObject.spec
  rw [h.spec]

theorem AppliedAs.patch_spec {m : ℕ} {key : Key} {spec : ConfigSpec} {tp : Option String}
    {obj : DynamicObject} (h : AppliedAs m key (patchBody key spec tp) obj) : obj.spec = some spec := by
  unfold DynamicObject.spec
  rw [h.spec, get_patchBody, Option.bind_some, fromValue_toValue]

/-! ### What a call writes -/

/-- A spec says what an earlier one did, under a version that is not below. -/
def Reissues (P : ConfigSpec → Prop) (spec : ConfigSpec) : Prop :=
  ∃ first, P first ∧ first.content = spec.content ∧ first.schemaVersion ≤ spec.schemaVersion

theorem Reissues.refl {P : ConfigSpec → Prop} {spec : ConfigSpec} (h : P spec) : Reissues P spec :=
  ⟨spec, h, rfl, UInt32.le_refl _⟩

theorem Reissues.trans {P Q : ConfigSpec → Prop} {spec : ConfigSpec} (h : Reissues P spec)
    (hPQ : ∀ first, P first → Reissues Q first) : Reissues Q spec := by
  obtain ⟨second, hsecond, hcontent, hversion⟩ := h
  obtain ⟨first, hfirst, hcontent', hversion'⟩ := hPQ second hsecond
  exact ⟨first, hfirst, hcontent'.trans hcontent, UInt32.le_trans hversion' hversion⟩

/-- The specs that a call was told of a config. -/
abbrev Heard := Key → ConfigSpec → Prop

/-- How it is told: it lists a revision. -/
def Heard.upd (g : Heard) : (o : KubeOp) → o.Resp → Heard
  | .list ns name _, .ok items => fun key spec =>
    g key spec ∨ key = ⟨ns, name⟩ ∧ ∃ obj ∈ items, obj.spec = some spec
  | _, _ => g

/-- A patch carries a spec that the call was given, or one that it was told. -/
def Heard.pre (given : Heard) (g : Heard) : KubeOp → Prop
  | .patch key body => ∃ spec tp, body = patchBody key spec tp ∧
      Reissues (fun first => given key first ∨ g key first) spec
  | _ => True

variable {given g : Heard}

theorem fetch_hears (key : Key) :
    Proc.wpOk Heard.upd (Heard.pre given) (fetchCurrentSchemaVersion key) (fun g' _ => g' = g) g := by
  refine Proc.wpOk_bind _ _ (Proc.wpOk_op _ _ trivial fun r => ?_)
  cases r with
  | ok obj => exact Proc.wpOk_pure _ _ rfl
  | error e =>
    by_cases h : apiStatusCode e = some 404
    · simp only [h, if_true]
      exact Proc.wpOk_pure _ _ rfl
    · simp only [h, if_false]
      exact Proc.wpOk_throw _ _

theorem applySpec_hears {key : Key} {spec : ConfigSpec} (tp : Option String)
    (h : Reissues (fun first => given key first ∨ g key first) spec) :
    Proc.wpOk Heard.upd (Heard.pre given) (applySpec key spec tp) (fun _ _ => True) g := by
  refine Proc.wpOk_seq _ _ (fetch_hears key) fun g' c hg' => ?_
  subst hg'
  refine Proc.wpOk_bind _ _ (Proc.wpOk_liftExcept _ _ fun _ _ => ?_)
  have hpatch : Proc.wpOk Heard.upd (Heard.pre given) (patchWithRetry key (patchBody key spec tp))
      (fun _ _ => True) g' := by
    refine wpOk_patchWithRetry (fun g : Heard => g = g') (fun g hg => ?_) (fun _ _ hg => hg) rfl
    rw [hg]
    exact ⟨spec, tp, rfl, h⟩
  exact Proc.wpOk_seq _ _ hpatch fun _ _ _ => Proc.wpOk_pure _ _ trivial

theorem fetchCurrents_hears (items : List BatchItem) : ∀ g : Heard,
    Proc.wpOk Heard.upd (Heard.pre given) (fetchCurrents items) (fun _ _ => True) g := by
  induction items with
  | nil => intro g; exact Proc.wpOk_pure _ _ trivial
  | cons item items ih =>
    intro g
    refine Proc.wpOk_seq _ _ (fetch_hears item.key) fun g' _ _ => ?_
    exact Proc.wpOk_seq _ _ (ih g') fun _ _ _ => Proc.wpOk_pure _ _ trivial

theorem applyItems_hears (tp : Option String) : ∀ items : List BatchItem,
    (∀ item ∈ items, given item.key item.spec) → ∀ g : Heard,
      Proc.wpOk Heard.upd (Heard.pre given) (applyItems tp items) (fun _ _ => True) g := by
  intro items
  induction items with
  | nil => intro _ g; exact Proc.wpOk_pure _ _ trivial
  | cons item items ih =>
    intro h g
    refine Proc.wpOk_seq _ _ (applySpec_hears tp (.refl (.inl (h item List.mem_cons_self)))) fun g' _ _ => ?_
    exact Proc.wpOk_seq _ _ (ih (fun i hi => h i (List.mem_cons_of_mem _ hi)) g') fun _ _ _ =>
      Proc.wpOk_pure _ _ trivial

section Calls

variable [JsonSchema] [SerdeYaml] [SerdeJson]

/-- A request asks for a spec: this is what its document says, and it meets the schema of its config. -/
def ApplyRequest.AsksFor (table : SchemaTable) (req : ApplyRequest) (key : Key) (spec : ConfigSpec) : Prop :=
  req.key = key ∧ SerdeYaml.fromStr req.yamlContent = .ok spec ∧
    table.validate key.ns key.name spec.content = .ok ()

/-- What a call is given to write. -/
def Call.Given (key : Key) (spec : ConfigSpec) : Call → Prop
  | .apply table req _ => req.AsksFor table key spec
  | .batchApply table reqs _ => ∃ req ∈ reqs, req.AsksFor table key spec
  | .revert _ _ => False

omit [SerdeJson] in
theorem handleApply_hears (table : SchemaTable) (req : ApplyRequest) (tp : Option String) (g : Heard) :
    Proc.wpOk Heard.upd (Heard.pre (req.AsksFor table)) (handleApply table req tp) (fun _ _ => True) g := by
  refine Proc.wpOk_bind _ _ (Proc.wpOk_liftExcept _ _ fun spec hspec => ?_)
  refine Proc.wpOk_bind _ _ (Proc.wpOk_liftExcept _ _ fun _ hvalid => ?_)
  exact applySpec_hears tp (.refl (.inl ⟨rfl, spec_of_parsed hspec, validateAgainstSchema_ok.mp hvalid⟩))

omit [SerdeJson] in
theorem handleBatchApply_hears (table : SchemaTable) (reqs : List ApplyRequest) (tp : Option String)
    (g : Heard) : Proc.wpOk Heard.upd
      (Heard.pre fun key spec => ∃ req ∈ reqs, req.AsksFor table key spec) (handleBatchApply table reqs tp)
      (fun _ _ => True) g := by
  refine Proc.wpOk_bind _ _ (Proc.wpOk_liftExcept _ _ fun items hitems => ?_)
  refine Proc.wpOk_bind _ _ (Proc.wpOk_liftExcept _ _ fun _ hvalid => ?_)
  refine Proc.wpOk_seq _ _ (fetchCurrents_hears items g) fun g' currents _ => ?_
  refine Proc.wpOk_bind _ _ (Proc.wpOk_liftExcept _ _ fun _ _ => ?_)
  refine applyItems_hears tp (sortBatchItems items) (fun item hitem => ?_) g'
  have hmem := (perm_sortBatchItems items).mem_iff.mp hitem
  have hparsed := (parseBatchItems_ok.mp hitems).2.1
  have hreq : some item ∈ reqs.map BatchItem.ofRequest := hparsed ▸ List.mem_map_of_mem hmem
  obtain ⟨req, hreq, hof⟩ := List.mem_map.mp hreq
  obtain ⟨hkey, hyaml⟩ := BatchItem.ofRequest_eq.mp hof
  exact ⟨req, hreq, hkey.symm, hyaml, validateItems_ok.mp hvalid item hmem⟩

omit [JsonSchema] [SerdeYaml] in
theorem fetchHistoricalSpec_hears (key : Key) (rv : String) : Proc.wpOk Heard.upd (Heard.pre given)
    (fetchHistoricalSpec key rv) (fun g' historical => g' key historical) g := by
  refine Proc.wpOk_bind _ _ (Proc.wpOk_op _ _ trivial fun r => ?_)
  cases r with
  | error e => exact Proc.wpOk_throw _ _
  | ok items =>
    simp only
    split
    · exact Proc.wpOk_throw _ _
    · next old hold =>
      refine Proc.wpOk_liftExcept _ _ fun historical hhist => ?_
      exact .inr ⟨rfl, old, List.mem_of_find?_eq_some hold, parseHistoricalObj_ok hhist⟩

omit [JsonSchema] [SerdeYaml] in
theorem handleRevert_hears (req : RevertRequest) (tp : Option String) (g : Heard) :
    Proc.wpOk Heard.upd (Heard.pre given) (handleRevert req tp) (fun _ _ => True) g := by
  unfold handleRevert
  split
  · exact Proc.wpOk_throw _ _
  · refine Proc.wpOk_seq _ _ (fetchHistoricalSpec_hears req.key req.toResourceVersion) ?_
    intro g₁ historical hheard
    refine Proc.wpOk_seq _ _ (fetch_hears req.key) fun g₂ current hg₂ => ?_
    subst hg₂
    refine Proc.wpOk_seq _ _ (applySpec_hears tp ⟨historical, .inr hheard, rfl, ?_⟩) fun _ _ _ =>
      Proc.wpOk_pure _ _ trivial
    exact UInt32.le_trans (le_max_version _ _) (le_saturatingSucc _)

/-- **A call writes what it was given**, or what it was told of the same config. -/
theorem Call.hears (call : Call) (g : Heard) :
    call.start.wp Heard.upd (Heard.pre fun key spec => call.Given key spec) (fun _ _ => True) g := by
  have hok : Proc.wpOk Heard.upd (Heard.pre fun key spec => call.Given key spec) call.handle
      (fun _ _ => True) g := by
    cases call with
    | apply table req tp =>
      exact Proc.wpOk_seq _ _ (handleApply_hears table req tp g) fun _ _ _ => Proc.wpOk_pure _ _ trivial
    | batchApply table reqs tp =>
      exact Proc.wpOk_seq _ _ (handleBatchApply_hears table reqs tp g) fun _ _ _ => Proc.wpOk_pure _ _ trivial
    | revert req tp =>
      exact Proc.wpOk_seq _ _ (handleRevert_hears req tp g) fun _ _ _ => Proc.wpOk_pure _ _ trivial
  exact Proc.wp_mono _ _ (fun _ _ _ => trivial) _ g hok

/-! ### What a run writes -/

/-- A spec that was given to a call for this config, or was there at the start. -/
def Original (s₀ : Etcd) (calls : List Call) (key : Key) (spec : ConfigSpec) : Prop :=
  (∃ n obj, s₀.asOf n key = some obj ∧ obj.spec = some spec) ∨ ∃ call ∈ calls, call.Given key spec

/-- Its content is original, and its version is not below the one it had. -/
abbrev Authored (s₀ : Etcd) (calls : List Call) (key : Key) (spec : ConfigSpec) : Prop :=
  Reissues (Original s₀ calls key) spec

/-- The spec of an object is authored. -/
def AuthoredObject (s₀ : Etcd) (calls : List Call) (key : Key) (obj : DynamicObject) : Prop :=
  ∀ spec ∈ obj.spec, Authored s₀ calls key spec

/-- **Every spec in the history is authored**, and so is all that a call was told. -/
theorem authored_run {s₀ : Etcd} {calls : List Call} {tr : List (Event KubeOp KubeOp.Resp)}
    {c : Etcd × List (Proc KubeOp KubeOp.Resp (Except Status Reply))}
    (hrun : Run Etcd.Answer (startedOn s₀ calls) tr c) :
    c.1.Holds (AuthoredObject s₀ calls) ∧
      ∀ i key spec, ghost Heard.upd (fun _ _ => False) i tr key spec → Authored s₀ calls key spec := by
  induction hrun with
  | nil =>
    refine ⟨fun n key obj hobj spec hspec => .refl (.inl ⟨n, obj, hobj, hspec⟩), fun i key spec h => ?_⟩
    exact h.elim
  | @snoc tr c c' e hrun hs ih =>
    obtain ⟨hholds, hheard⟩ := ih
    have hpid : ∃ call, calls[e.pid]? = some call := by
      have hlt := hs.pid_lt
      rw [hrun.length_eq, List.length_map] at hlt
      exact ⟨_, List.getElem?_eq_getElem hlt⟩
    obtain ⟨call, hcall⟩ := hpid
    have hmem : call ∈ calls := List.mem_of_getElem? hcall
    have hpre : Heard.pre (fun key spec => call.Given key spec)
        (ghost Heard.upd (fun _ _ => False) e.pid tr) e.op := by
      refine hrun.pre_at (fun p hp => ?_) hs
      rw [List.getElem?_map, hcall, Option.map_some, Option.some.injEq] at hp
      rw [← hp]
      exact call.hears _
    cases hs with
    | @call s s' ps i o k r hi hans =>
      have hafter : s'.Holds (AuthoredObject s₀ calls) := by
        refine hans.holds (fun key body ho m obj happ spec hspec => ?_) (fun key old m obj hold happ => ?_) hholds
        · subst ho
          obtain ⟨patched, tp, rfl, hpatched⟩ := hpre
          rw [happ.patch_spec, Option.mem_def, Option.some.injEq] at hspec
          rw [← hspec]
          refine hpatched.trans fun first hfirst => ?_
          rcases hfirst with hgiven | htold
          · exact .refl (.inr ⟨call, hmem, hgiven⟩)
          · exact hheard i key first htold
        · intro spec hspec
          rw [happ.same_spec] at hspec
          exact hold spec hspec
      refine ⟨hafter, fun j key spec h => ?_⟩
      rw [ghost_snoc] at h
      split at h
      · -- a list tells what is in the history
        have hshown := hans.shown
        cases hshown with
        | listed hrv hn =>
          rcases h with h | ⟨rfl, obj, hobj, hspec⟩
          · exact hheard j key spec h
          · exact hafter _ _ obj (Option.mem_toList.mp hobj) spec hspec
        | get | patched _ _ _ | refused | listFailed => exact hheard j key spec h
      · exact hheard j key spec h

/-! ### What is read of a revision -/

/-- A snapshot is of a revision in the history, and its content is authored. -/
structure Traced (s₀ : Etcd) (calls : List Call) (s : Etcd) (snap : ConfigSnapshot) : Prop where
  shown : ∃ m obj, snap.resourceVersion = toString m ∧ s.asOf m snap.key = some obj ∧
    obj.spec = some ⟨snap.schemaVersion, snap.content⟩
  authored : Authored s₀ calls snap.key ⟨snap.schemaVersion, snap.content⟩

omit [JsonSchema] [SerdeYaml] [SerdeJson] in
theorem parseConfigObject_spec {obj : DynamicObject} {loaded : Instant} {snap : ConfigSnapshot}
    (h : parseConfigObject loaded obj = some snap) :
    obj.spec = some ⟨snap.schemaVersion, snap.content⟩ ∧ snap.name = obj.metadata.name.getD "" ∧
      snap.ns = obj.metadata.ns.getD "" ∧ snap.resourceVersion = obj.metadata.resourceVersion.getD "" := by
  unfold parseConfigObject at h
  simp only [Option.bind_eq_bind, Option.bind_eq_some_iff] at h
  obtain ⟨specValue, hget, spec, hvalue, h⟩ := h
  cases h
  refine ⟨?_, rfl, rfl, rfl⟩
  rw [DynamicObject.spec, hget, Option.bind_some, hvalue]
  rfl

omit [SerdeJson] in
/-- What is read of an object in the history is traced. -/
theorem traced_of_parse {s₀ s : Etcd} {calls : List Call} (hfiled : s.Filed)
    (hholds : s.Holds (AuthoredObject s₀ calls)) {n : ℕ} {key : Key} {obj : DynamicObject}
    (hat : s.asOf n key = some obj) {loaded : Instant} {snap : ConfigSnapshot}
    (hparse : parseConfigObject loaded obj = some snap) : snap.key = key ∧ Traced s₀ calls s snap := by
  obtain ⟨hspec, hname, hns, hrv⟩ := parseConfigObject_spec hparse
  have hfile := hfiled n key obj hat
  obtain ⟨m, hm, -, hatm⟩ := hfile.shown
  rw [hfile.name, Option.getD_some] at hname
  rw [hfile.ns, Option.getD_some] at hns
  rw [hm, Option.getD_some] at hrv
  have hkey : snap.key = key := by
    unfold ConfigSnapshot.key
    rw [hname, hns]
  refine ⟨hkey, ⟨m, obj, hrv, ?_, hspec⟩, ?_⟩
  · rw [hkey]
    exact hatm
  · rw [hkey]
    exact hholds n key obj hat _ hspec

omit [SerdeJson] in
theorem Traced.setStale {s₀ s : Etcd} {calls : List Call} {snap : ConfigSnapshot} (h : Traced s₀ calls s snap)
    (now : Instant) : Traced s₀ calls s (snap.setStale now) := ⟨h.shown, h.authored⟩

end Calls

/-! ### The config watcher -/

/-- The object that an event tells to be there. -/
def present {E : Type} : WatchEvent E → Option E
  | .apply obj | .initApply obj => some obj
  | .delete _ | .init | .initDone => none

section Watcher

variable {E M : Type}

/-- What is written was buffered, or is told by the event. -/
theorem of_mem_relistWrites {parse : E → Option M} {relist : Option (List M)} {event : WatchEvent E} {m : M}
    (h : m ∈ relistWrites parse relist event) :
    (∃ buf ∈ relist, m ∈ buf) ∨ ∃ obj ∈ present event, parse obj = some m := by
  unfold relistWrites at h
  split at h
  · next buf => exact .inl ⟨buf, rfl, h⟩
  · cases h
  · exact .inr ⟨_, rfl, Option.mem_toList.mp h⟩
  · exact .inr ⟨_, rfl, Option.mem_toList.mp h⟩
  · cases h
  · cases h
  · cases h

/-- What is buffered was buffered before, or is told by the event. -/
theorem of_mem_buffer {now : Instant} {event : WatchEvent DynamicObject}
    {relist : Option (List ConfigSnapshot)} {batchRelist : Bool} {cache : ConfigCache}
    {buf : List ConfigSnapshot} (hbuf : buf ∈ (routeConfigEvent now event relist batchRelist cache).1)
    {snap : ConfigSnapshot} (h : snap ∈ buf) :
    (∃ old ∈ relist, snap ∈ old) ∨ ∃ obj ∈ present event, parseConfigObject now obj = some snap := by
  unfold routeConfigEvent routeRelistEvent at hbuf
  split at hbuf
  · next old =>
    split at hbuf
    · next obj =>
      cases hbuf
      dsimp only at h
      split at h
      · next new hnew =>
        rw [List.mem_append, List.mem_singleton] at h
        rcases h with h | rfl
        · exact .inl ⟨old, rfl, h⟩
        · exact .inr ⟨obj, rfl, hnew⟩
      · exact .inl ⟨old, rfl, h⟩
    · cases hbuf
    · cases hbuf
      exact .inl ⟨_, rfl, h⟩
  · split at hbuf
    · cases hbuf
      cases h
    · cases hbuf

theorem get_update (cache : ConfigCache) (snap : ConfigSnapshot) (key : Key) :
    (cache.update snap).get key = if key = snap.key then some snap else cache.get key := by
  show AList.lookup key (cache.entries.insert snap.key snap) = _
  by_cases h : key = snap.key
  · rw [if_pos h, h, AList.lookup_insert]
  · rw [if_neg h, AList.lookup_insert_ne h]
    rfl

/-- An entry was there, or is one of the writes. -/
theorem of_get_foldl_update {key : Key} {got : ConfigSnapshot} : ∀ (snaps : List ConfigSnapshot)
    (cache : ConfigCache), (snaps.foldl ConfigCache.update cache).get key = some got →
      cache.get key = some got ∨ got ∈ snaps := by
  intro snaps
  induction snaps with
  | nil => intro cache h; exact .inl h
  | cons snap snaps ih =>
    intro cache h
    rcases ih (cache.update snap) h with h | h
    · rw [get_update] at h
      split at h
      · exact .inr (Option.some.inj h ▸ List.mem_cons_self)
      · exact .inl h
    · exact .inr (List.mem_cons_of_mem _ h)

/-- What is read off an object that a label delivers. -/
def ConfigWatcherLabel.Tells (label : ConfigWatcherLabel) (snap : ConfigSnapshot) : Prop :=
  match label with
  | .event told now => ∃ obj ∈ present told, parseConfigObject now obj = some snap
  | .errored _ | .ended _ => False

/-- All that the watcher keeps meets `P`. -/
structure ConfigWatcher.Keeps (P : ConfigSnapshot → Prop) (w : ConfigWatcher) : Prop where
  cached : ∀ key snap, w.cache.get key = some snap → P snap
  buffered : ∀ buf ∈ w.relist, ∀ snap ∈ buf, P snap

theorem ConfigWatcher.keeps_start (P : ConfigSnapshot → Prop) : ConfigWatcher.start.Keeps P where
  cached key snap h := by
    rw [show ConfigWatcher.start.cache.get key = none from AList.lookup_empty key] at h
    cases h
  buffered _ h := by cases h

/-- A property that a mark leaves alone is kept by what meets it. -/
theorem ConfigWatcher.Keeps.step {P : ConfigSnapshot → Prop}
    (hmark : ∀ now snap, P snap → P (snap.setStale now)) {w w' : ConfigWatcher} {l : ConfigWatcherLabel}
    (h : w.Keeps P) (hl : ∀ snap, l.Tells snap → P snap) (hstep : w.step l = some w') : w'.Keeps P := by
  have hlose : ∀ now attempt, (w.lose now attempt).Keeps P := by
    intro now attempt
    refine ⟨fun key snap hget => ?_, fun _ hbuf => absurd hbuf (Option.not_mem_none _)⟩
    change AList.lookup key (w.cache.entries.mapVals _) = some snap at hget
    rw [Map.lookup_mapVals, Option.map_eq_some_iff] at hget
    obtain ⟨old, hold, rfl⟩ := hget
    exact hmark now old (h.cached key old hold)
  cases l with
  | errored now =>
    cases hstep
    exact hlose now _
  | ended now =>
    cases hstep
    exact hlose now _
  | event event now =>
    cases hstep
    refine ⟨fun key snap hget => ?_, fun buf hbuf snap hsnap => ?_⟩
    · change ConfigCache.get (routeConfigEvent now event w.relist (decide (0 < w.attempt)) w.cache).2 key = _
        at hget
      rw [routeConfigEvent_cache] at hget
      rcases of_get_foldl_update _ _ hget with hold | hnew
      · exact h.cached key snap hold
      · rcases of_mem_relistWrites hnew with ⟨buf, hbuf, hmem⟩ | htold
        · exact h.buffered buf hbuf snap hmem
        · exact hl snap htold
    · rcases of_mem_buffer hbuf hsnap with ⟨old, hold, hmem⟩ | htold
      · exact h.buffered old hold snap hmem
      · exact hl snap htold

theorem ConfigWatcher.keeps_run {P : ConfigSnapshot → Prop} (hmark : ∀ now snap, P snap → P (snap.setStale now))
    {labels : List ConfigWatcherLabel} (hlabels : ∀ l ∈ labels, ∀ snap, l.Tells snap → P snap)
    {w : ConfigWatcher} (hrun : run ConfigWatcher.step .start labels = some w) : w.Keeps P :=
  run_invariant (ConfigWatcher.keeps_start P) (fun _ _ _ h hl hstep => h.step hmark hl hstep) hlabels hrun

end Watcher

/-! ### The subscription -/

/-- What a subscriber has still to put into its channel. -/
def Phase.todo : Phase → List ConfigEvent
  | .snapshotting todo _ => todo
  | .replaying todo => todo.map Prod.fst
  | .connecting | .attached | .missed | .bridging | .closed => []

/-- The frame of a config that is there is read off its object. -/
theorem frameOf_present {now : Instant} {told : WatchEvent DynamicObject} {f : BroadcastFrame}
    (h : f ∈ frameOf now told) (htype : f.event.eventType ≠ .deleted) :
    ∃ obj ∈ present told, ∃ snap, parseConfigObject now obj = some snap ∧
      f.event.config = some (snapshotToProto now snap) := by
  obtain ⟨⟨eventType, obj⟩, hobj, h⟩ := Option.bind_eq_some_iff.mp h
  obtain ⟨snap, hparse, rfl⟩ := Option.map_eq_some_iff.mp h
  cases told with
  | apply told | initApply told =>
    cases hobj
    exact ⟨obj, rfl, snap, hparse, rfl⟩
  | delete told =>
    cases hobj
    exact absurd rfl htype
  | init | initDone => cases hobj

/-- All the events of a subscription meet `P`. -/
structure Session.Carries (P : ConfigEvent → Prop) (s : Session) : Prop where
  buffered : s.pump.Inv
  pushed : ∀ f ∈ s.pump.pushed, P f.event
  todo : ∀ e ∈ s.sub.phase.todo, P e
  stream : ∀ e ∈ s.sub.stream, P e

/-- What a label brings into a subscription. -/
def SessionLabel.Brings (label : SessionLabel) (event : ConfigEvent) : Prop :=
  match label with
  | .pump (.watch told now) => ∃ f ∈ frameOf now told, f.event = event
  | .sub (.readCache snaps now) => ∃ snap ∈ snaps, event = ⟨.snapshot, some (snapshotToProto now snap)⟩
  | _ => False

section Session

variable {P : ConfigEvent → Prop} {coalesced : Bool} {filter : SubscribeFilter} {s s' : Session}

theorem Session.carries_new (P : ConfigEvent → Prop) (resumeRv : String) : (Session.new resumeRv).Carries P where
  buffered := Pump.inv_new
  pushed _ hf := absurd hf List.not_mem_nil
  todo _ he := absurd he List.not_mem_nil
  stream _ he := absurd he List.not_mem_nil

theorem mem_lookupReplay {front : ℕ} {buf : List ReplayEntry} {rv : Option ℕ} {slice : List ReplayItem}
    (h : lookupReplay front buf rv = some slice) {it : ReplayItem} (hit : it ∈ slice) :
    ∃ e ∈ buf, e.item = it := by
  unfold lookupReplay at h
  split at h
  · cases h
    obtain ⟨e, he, rfl⟩ := List.mem_map.mp hit
    exact ⟨e, List.mem_of_mem_drop he, rfl⟩
  · cases h

/-- What is buffered was pushed. -/
theorem Session.Carries.entry (h : s.Carries P) {e : ReplayEntry} (he : e ∈ s.pump.buffer) : P e.event := by
  rw [h.buffered] at he
  obtain ⟨f, hf, hentry⟩ := List.mem_filterMap.mp ((rtake_sublist _ _).subset he)
  obtain ⟨rv, -, rfl⟩ := Option.map_eq_some_iff.mp hentry
  exact h.pushed f hf

/-- Nothing comes into a subscription but what a label brings. -/
theorem Session.Carries.step {l : SessionLabel} (h : s.Carries P) (hl : ∀ event, l.Brings event → P event)
    (hstep : s.step coalesced filter l = some s') : s'.Carries P := by
  cases l with
  | pump l =>
    obtain ⟨p, hp, rfl⟩ := Option.map_eq_some_iff.mp hstep
    refine ⟨h.buffered.step hp, ?_, h.todo, h.stream⟩
    obtain ⟨fs, -, hfs, -, hpushed, -⟩ | ⟨f, -, hpushed, -⟩ := Pump.step_cases hp
    · intro f hf
      rw [hpushed, List.mem_append] at hf
      rcases hf with hf | hf
      · exact h.pushed f hf
      · obtain ⟨now, told, rfl, hframe⟩ := hfs f hf
        exact hl f.event ⟨f, hframe, rfl⟩
    · rw [hpushed]
      exact h.pushed
  | sub l =>
    obtain ⟨sub, hsub, rfl⟩ := Option.map_eq_some_iff.mp hstep
    have hsent : ∀ f ∈ s.pump.sent, P f.event := fun f hf => h.pushed f (s.pump.sent_pushed.subset hf)
    have htodo := h.todo
    have hmove := Subscriber.step_move hsub
    cases hmove with
    | attach _ => exact ⟨h.buffered, h.pushed, fun _ he => absurd he List.not_mem_nil, h.stream⟩
    | @hit u front slice _ hlook =>
      refine ⟨h.buffered, h.pushed, fun event he => ?_, h.stream⟩
      obtain ⟨it, hit, rfl⟩ := List.mem_map.mp he
      obtain ⟨entry, hentry, rfl⟩ := mem_lookupReplay hlook hit
      exact h.entry hentry
    | miss _ _ => exact ⟨h.buffered, h.pushed, fun _ he => absurd he List.not_mem_nil, h.stream⟩
    | readCache _ _ =>
      refine ⟨h.buffered, h.pushed, fun event he => ?_, h.stream⟩
      obtain ⟨snap, hsnap, rfl⟩ := List.mem_map.mp he
      exact hl _ ⟨snap, List.mem_of_mem_filter hsnap, rfl⟩
    | readBuffer _ =>
      refine ⟨h.buffered, h.pushed, fun event he => ?_, h.stream⟩
      obtain ⟨it, hit, rfl⟩ := List.mem_map.mp he
      obtain ⟨entry, hentry, rfl⟩ := List.mem_map.mp hit
      exact h.entry (List.mem_of_mem_filter hentry)
    | @snapshot u maxRv event todo hphase =>
      rw [hphase] at htodo
      refine ⟨h.buffered, h.pushed, fun e he => htodo e (List.mem_cons_of_mem _ he), fun e he => ?_⟩
      rcases List.mem_append.mp he with he | he
      · exact h.stream e he
      · rw [List.mem_singleton.mp he]
        exact htodo event List.mem_cons_self
    | @replay u it todo hphase =>
      rw [hphase] at htodo
      refine ⟨h.buffered, h.pushed, fun e he => htodo e (List.mem_cons_of_mem _ he), fun e he => ?_⟩
      rcases List.mem_append.mp he with he | he
      · exact h.stream e he
      · obtain ⟨it', hit', rfl⟩ := List.mem_map.mp he
        rw [List.mem_singleton.mp (List.mem_of_mem_filter hit')]
        exact htodo it.1 List.mem_cons_self
    | bridge _ => exact ⟨h.buffered, h.pushed, fun _ he => absurd he List.not_mem_nil, h.stream⟩
    | @recv u frame _ hframe =>
      refine ⟨h.buffered, h.pushed, fun e he => htodo e he, fun e he => ?_⟩
      rcases List.mem_append.mp he with he | he
      · exact h.stream e he
      · obtain ⟨it, hit, rfl⟩ := List.mem_map.mp he
        rw [List.mem_singleton.mp (List.mem_of_mem_filter hit)]
        exact hsent frame (List.mem_of_getElem? hframe)
    | take => exact ⟨h.buffered, h.pushed, h.todo, h.stream⟩
    | close _ => exact ⟨h.buffered, h.pushed, fun _ he => absurd he List.not_mem_nil, h.stream⟩

end Session

/-! ### The consumer -/

section Consumer

variable [SerdeJson] {P : ConfigEvent → Prop} {coalesced : Bool} {l l' : Link} {start : Instant}

/-- What a store shows, but for the mark, is its first snapshot or was stored for an event that meets `P`. -/
def StoredOf (P : ConfigEvent → Prop) (start : Instant) (name : String) (got : ConsumerSnapshot) : Prop :=
  { got with staleSince := none } = .default start ∨
    ∃ now event, P event ∧ storedFor name (.event now event) = some { got with staleSince := none }

/-- A link of which the subscription and the stores have nothing but `P`. -/
structure Link.Carries (P : ConfigEvent → Prop) (start : Instant) (l : Link) : Prop where
  session : l.session.Carries P
  tracks : l.driver.Tracks
  stores : ∀ name got, l.driver.stores.lookup name = some got → StoredOf P start name got

/-- What a label brings into a link. -/
def LinkLabel.Brings (label : LinkLabel) (event : ConfigEvent) : Prop :=
  match label with
  | .server l => l.Brings event
  | .deliver _ | .cut _ _ | .refused _ => False

theorem StoredOf.mark {name : String} {got : ConsumerSnapshot} (h : StoredOf P start name got) (now : Instant) :
    StoredOf P start name (got.markStale now) := by
  unfold ConsumerSnapshot.markStale
  split
  · exact h
  · exact h

/-- One event or loss on the stores. -/
theorem Driver.stored_op {d : Driver} (ht : d.Tracks)
    (h : ∀ name got, d.stores.lookup name = some got → StoredOf P start name got) {op : ConsumerOp}
    (hop : ∀ now event, op = .event now event → P event) :
    ∀ name got, (d.op op).stores.lookup name = some got → StoredOf P start name got := by
  intro name got hgot
  rw [Driver.lookup_op ht, Option.map_eq_some_iff] at hgot
  obtain ⟨old, hold, hgot⟩ := hgot
  have hbefore := h name old hold
  cases op with
  | lost now =>
    rw [← hgot]
    exact hbefore.mark now
  | event now event =>
    cases hs : storedFor name (.event now event) with
    | none =>
      rw [hs] at hgot
      rw [← hgot]
      exact hbefore
    | some new =>
      rw [hs, Option.getD_some] at hgot
      subst hgot
      refine .inr ⟨now, event, hop now event rfl, ?_⟩
      rw [hs, ← staleSince_storedFor hs]

theorem Driver.stored_lost {d : Driver} (ht : d.Tracks)
    (h : ∀ name got, d.stores.lookup name = some got → StoredOf P start name got) (now : Instant) :
    ∀ name got, (d.op (.lost now)).stores.lookup name = some got → StoredOf P start name got := by
  have hop : ∀ now' event, ConsumerOp.lost now = .event now' event → P event := by
    intro now' event heq
    cases heq
  exact Driver.stored_op ht h hop

omit [SerdeJson] in
theorem Driver.lookup_new {names : List String} {name : String} :
    ∀ got ∈ (Driver.new names start).stores.lookup name, got = .default start := by
  suffices h : ∀ (ns : List String) (stores : Map String ConsumerSnapshot),
      (∀ got ∈ stores.lookup name, got = .default start) →
        ∀ got ∈ (ns.foldl (fun stores n => stores.insert n (.default start)) stores).lookup name,
          got = .default start from h names ∅ fun _ h => absurd h (Option.not_mem_none _)
  intro ns
  induction ns with
  | nil => intro stores h; exact h
  | cons n ns ih =>
    intro stores h
    refine ih (stores.insert n (.default start)) fun got hgot => ?_
    by_cases hn : name = n
    · rw [hn, AList.lookup_insert, Option.mem_def, Option.some.injEq] at hgot
      exact hgot.symm
    · rw [AList.lookup_insert_ne hn] at hgot
      exact h got hgot

theorem Link.carries_new (P : ConfigEvent → Prop) (names : List String) (start : Instant) :
    (Link.new names start).Carries P start where
  session := Session.carries_new P ""
  tracks := Driver.tracks_new names start
  stores name got hgot := by
    rw [Driver.lookup_new got hgot]
    exact .inl rfl

/-- Nothing comes into a link but what a label brings. -/
theorem Link.Carries.step {label : LinkLabel} (h : l.Carries P start)
    (hl : ∀ event, label.Brings event → P event)
    (hstep : l.step coalesced label = some l') : l'.Carries P start := by
  cases label with
  | server label =>
    have hmap : ∃ session, l.session.step coalesced (.ofNames l.driver.names) label = some session ∧
        l' = { l with session, snapshot := foundSnapshot (.ofNames l.driver.names) l.snapshot label } := by
      unfold Link.step at hstep
      split at hstep
      · cases hstep
      · next heq =>
        cases heq
        obtain ⟨session, hsession, rfl⟩ := Option.map_eq_some_iff.mp hstep
        exact ⟨session, hsession, rfl⟩
      · next heq => cases heq
      · next heq => cases heq
      · next heq => cases heq
    obtain ⟨session, hsession, rfl⟩ := hmap
    exact ⟨h.session.step hl hsession, h.tracks, h.stores⟩
  | deliver now =>
    unfold Link.step at hstep
    dsimp only at hstep
    split at hstep
    · next session event hsession hevent =>
      cases hstep
      have hP : P event := h.session.stream event (List.mem_of_getElem? hevent)
      refine ⟨h.session.step (l := .sub .take) (fun _ hb => False.elim hb) hsession, h.tracks.apply now event, ?_⟩
      have hop : ∀ now' event', ConsumerOp.event now event = .event now' event' → P event' := by
        intro now' event' heq
        cases heq
        exact hP
      exact Driver.stored_op h.tracks h.stores hop
    · cases hstep
  | cut error now =>
    cases hstep
    have hsession : Session.Carries P { l.session with sub := .new l.driver.resumeRv } :=
      ⟨h.session.buffered, h.session.pushed, fun _ he => absurd he List.not_mem_nil,
        fun _ he => absurd he List.not_mem_nil⟩
    cases error with
    | false => exact ⟨hsession, h.tracks, h.stores⟩
    | true =>
      exact ⟨hsession, (Driver.ledger_markAllStale h.tracks now).2, Driver.stored_lost h.tracks h.stores now⟩
  | refused now =>
    unfold Link.step at hstep
    dsimp only at hstep
    split at hstep
    · cases hstep
      exact ⟨h.session, (Driver.ledger_markAllStale h.tracks now).2, Driver.stored_lost h.tracks h.stores now⟩
    · cases hstep

theorem Link.carries_run {labels : List LinkLabel} {names : List String}
    (hlabels : ∀ label ∈ labels, ∀ event, label.Brings event → P event)
    (hrun : run (Link.step coalesced) (.new names start) labels = some l) : l.Carries P start :=
  run_invariant (Link.carries_new P names start) (fun _ _ _ h hl hstep => h.step hl hstep) hlabels hrun

end Consumer

/-! ### One behind the other -/

section Pipeline

variable [JsonSchema] [SerdeYaml] [SerdeJson]

/-- The objects that an event tells to be there are in the history. -/
def Etcd.Told (s : Etcd) (event : WatchEvent DynamicObject) : Prop :=
  ∀ obj ∈ present event, ∃ n key, s.asOf n key = some obj

/-- The config watcher is told by the API server. -/
def Etcd.Feeds (s : Etcd) : ConfigWatcherLabel → Prop
  | .event event _ => s.Told event
  | .errored _ | .ended _ => True

/-- The cache of a config watcher that is told by the API server. -/
def Etcd.Caches (s : Etcd) (cache : ConfigCache) : Prop :=
  ∃ labels w, (∀ l ∈ labels, s.Feeds l) ∧ run ConfigWatcher.step .start labels = some w ∧ w.cache = cache

/-- The watcher of a namespace is told by the API server of the configs there, and a
subscriber finds those in the cache. -/
def Etcd.Supplies (s : Etcd) (ns : String) : LinkLabel → Prop
  | .server (.pump (.watch event _)) => ∀ obj ∈ present event, ∃ n name, s.asOf n ⟨ns, name⟩ = some obj
  | .server (.sub (.readCache snaps _)) => ∃ cache order, s.Caches cache ∧ snaps = cache.allInNamespace order ns
  | _ => True

/-- An event of a config that is there shows a traced snapshot of this namespace. -/
def TracedEvent (s₀ : Etcd) (calls : List Call) (s : Etcd) (ns : String) (event : ConfigEvent) : Prop :=
  event.eventType ≠ .deleted → ∃ snap now, event.config = some (snapshotToProto now snap) ∧ snap.ns = ns ∧
    Traced s₀ calls s snap

/-- **Nothing is served that was not applied.**  The config watcher, the namespace watcher with its
subscriber and the consumer behind each other, on an API server whose specs nobody else writes, whatever
the order of all their steps.  An entry of the cache, and what a consumer reads of a config unless it has
received nothing yet, is a revision of this config: the history shows it under its resource version, and
its content was given for this config to an `Apply` or a `BatchApply`, under the same or a lower version
and as its schema allows, or was there at the start. -/
theorem served_was_applied {s₀ : Etcd} {calls : List Call} {tr : List (Event KubeOp KubeOp.Resp)}
    {c : Etcd × List (Proc KubeOp KubeOp.Resp (Except Status Reply))} (hfiled : s₀.Filed)
    (hrun : Run Etcd.Answer (startedOn s₀ calls) tr c) :
    (∀ cache key snap, c.1.Caches cache → cache.get key = some snap →
        snap.key = key ∧ Traced s₀ calls c.1 snap) ∧
      ∀ (ns : String) (names : List String) (start : Instant) (coalesced : Bool) (labels : List LinkLabel)
        (l : Link), (∀ label ∈ labels, c.1.Supplies ns label) →
        run (Link.step coalesced) (.new names start) labels = some l →
        ∀ name got, l.driver.stores.lookup name = some got →
          { got with staleSince := none } = .default start ∨
          ∃ snap now now', snap.key = ⟨ns, name⟩ ∧ Traced s₀ calls c.1 snap ∧
            snapshotFromProto now (snapshotToProto now' snap) = .ok { got with staleSince := none } := by
  obtain ⟨hholds, -⟩ := authored_run hrun
  have hfiled' : c.1.Filed := filed_run hfiled hrun
  have hcache : ∀ cache key snap, c.1.Caches cache → cache.get key = some snap →
      snap.key = key ∧ Traced s₀ calls c.1 snap := by
    rintro cache key snap ⟨labels, w, hlabels, hw, rfl⟩ hget
    refine ⟨w.cache.keyed key snap hget, ?_⟩
    refine (ConfigWatcher.keeps_run (P := Traced s₀ calls c.1) (fun now _ h => h.setStale now) ?_ hw).cached
      key snap hget
    intro label hlabel snap htells
    cases label with
    | event event now =>
      obtain ⟨obj, hobj, hparse⟩ := htells
      obtain ⟨n, key, hat⟩ := hlabels _ hlabel obj hobj
      exact (traced_of_parse hfiled' hholds hat hparse).2
    | errored now | ended now => exact htells.elim
  refine ⟨hcache, fun ns names start coalesced labels l hlabels hl name got hgot => ?_⟩
  have hbrings : ∀ label ∈ labels, ∀ event, label.Brings event → TracedEvent s₀ calls c.1 ns event := by
    intro label hlabel event hbrings htype
    have hsupplies := hlabels label hlabel
    cases label with
    | deliver _ | cut _ _ | refused _ => exact hbrings.elim
    | server label =>
      cases label with
      | pump label =>
        cases label with
        | elapsed | send => exact False.elim hbrings
        | watch told now =>
          obtain ⟨f, hf, rfl⟩ := hbrings
          obtain ⟨obj, hobj, snap, hparse, hconfig⟩ := frameOf_present hf htype
          obtain ⟨n, name, hat⟩ := hsupplies obj hobj
          obtain ⟨hkey, htraced⟩ := traced_of_parse hfiled' hholds hat hparse
          exact ⟨snap, now, hconfig, congrArg Key.ns hkey, htraced⟩
      | sub label =>
        cases label with
        | attach | lookup _ | readBuffer | emit | recv | take | drain => exact False.elim hbrings
        | readCache snaps now =>
          obtain ⟨snap, hsnap, rfl⟩ := hbrings
          obtain ⟨cache, order, hcached, rfl⟩ := hsupplies
          obtain ⟨key, -, hget⟩ := List.mem_filterMap.mp hsnap
          obtain ⟨-, htraced⟩ := hcache cache key snap hcached hget
          exact ⟨snap, now, rfl, ConfigCache.ns_of_mem_allInNamespace hsnap, htraced⟩
  rcases (Link.carries_run hbrings hl).stores name got hgot with hdefault | ⟨now, event, hevent, hstored⟩
  · exact .inl hdefault
  · right
    obtain ⟨cfg, hcfg, hname, htype, hread⟩ := storedFor_event.mp hstored
    obtain ⟨snap, now', hconfig, hns, htraced⟩ := hevent htype
    rw [hcfg, Option.some.injEq] at hconfig
    subst hconfig
    refine ⟨snap, now, now', ?_, htraced, hread⟩
    unfold ConfigSnapshot.key
    rw [hns, ← hname]
    rfl

end Pipeline

section Limits

attribute [local instance] historySchemas historyDocuments historyText

/-- What is read of the first revision of `trading/limits`. -/
def firstLimits : ConfigSnapshot := appliedSnapshot 0 limitsKey ⟨5, defaultContent⟩ "1" []

/-- A subscriber that is late finds `limits` in the cache and hands it to the consumer. -/
def lateConsumer : List LinkLabel :=
  [.server (.sub .attach), .server (.sub (.lookup 0)), .server (.sub (.readCache [firstLimits] 0)),
    .server (.sub .emit), .deliver 0]

theorem served_was_applied_limits : ∃ tr c l got,
    Run Etcd.Answer (startedOn noConfigs [applyLimits "schema_version: 5"]) tr c ∧
      run (Link.step false) (.new ["limits"] 0) lateConsumer = some l ∧
      l.driver.stores.lookup "limits" = some got ∧ got.schemaVersion = 5 ∧
      ∃ snap, Traced noConfigs [applyLimits "schema_version: 5"] c.1 snap ∧ snap.key = limitsKey := by
  obtain ⟨tr, c, hrun, hc, -⟩ := applied_limits
  have hat : c.1.asOf 1 limitsKey = some (limitsAt 1 ⟨5, defaultContent⟩) := by
    rw [hc]
    rfl
  have hcaches : c.1.Caches (ConfigCache.empty.update firstLimits) := by
    refine ⟨[.event (.initApply (limitsAt 1 ⟨5, defaultContent⟩)) 0], _, fun label hlabel => ?_, rfl, rfl⟩
    obtain rfl := List.mem_singleton.mp hlabel
    intro obj hobj
    obtain rfl := Option.some.inj hobj
    exact ⟨1, limitsKey, hat⟩
  have hsupplies : ∀ label ∈ lateConsumer, c.1.Supplies "trading" label := by
    intro label hlabel
    simp only [lateConsumer, List.mem_cons, List.not_mem_nil, or_false] at hlabel
    rcases hlabel with rfl | rfl | rfl | rfl | rfl
    · trivial
    · trivial
    · exact ⟨_, [limitsKey], hcaches, rfl⟩
    · trivial
    · trivial
  have hfiled : noConfigs.Filed := fun n key obj hobj => by cases hobj
  obtain ⟨-, hconsumer⟩ := served_was_applied hfiled hrun
  have hreads : ∃ l got, run (Link.step false) (.new ["limits"] 0) lateConsumer = some l ∧
      l.driver.stores.lookup "limits" = some got ∧ got.schemaVersion = 5 ∧ got.content = defaultContent :=
    ⟨_, _, rfl, rfl, rfl, rfl⟩
  obtain ⟨l, got, hl, hgot, hversion, hcontent⟩ := hreads
  rcases hconsumer "trading" ["limits"] 0 false lateConsumer l hsupplies hl "limits" got hgot with
    hdefault | hserved
  · have hnull := congrArg ConsumerSnapshot.content hdefault
    rw [show ({ got with staleSince := none } : ConsumerSnapshot).content = got.content from rfl, hcontent] at hnull
    cases hnull
  · obtain ⟨snap, now, now', hkey, htraced, -⟩ := hserved
    exact ⟨tr, c, l, got, hrun, hl, hgot, hversion, snap, htraced, hkey⟩

end Limits

end Konfig
