import Konfig.ConfigmapWatcher
import Konfig.Exchanges
import Konfig.Consumer.ReadModel
import Konfig.Lib.Decimal
import Konfig.Lib.Revisions
import Konfig.Writers

/-!
# An API server that keeps its revisions

`Etcd` is the API server with its history: every write takes the next resource version, and
a list at an exact resource version finds the configs as they were.  `Etcd.Answer` says
what it can answer, with anything that may happen in between: a config is deleted, or its
metadata is changed.  The specs are konfig's: all of its writers apply them under the one
field manager `konfig.v1`, by force, so that a patch replaces the whole spec.

* `shown_run`: what was answered in a run is in the history at its end.
* `ordered_run`: a patch comes after every revision that was listed before it.
* `revert_restores`: a `Revert` that succeeds leaves what its revision showed, whoever else
  writes.
* `apply_round_trip`: what an `Apply` that succeeds wrote is what is watched, served and read
  by a consumer under its resource version.
-/

namespace Konfig

open Lib Proc

/-- The configs with all their revisions. -/
abbrev Etcd := Revisions Key DynamicObject

/-- What a write leaves of a document: its spec, under the next resource version. -/
structure AppliedAs (rev : ℕ) (key : Key) (body : Value) (obj : DynamicObject) : Prop where
  name : obj.metadata.name = some key.name
  ns : obj.metadata.ns = some key.ns
  rv : obj.metadata.resourceVersion = some (toString rev)
  spec : obj.data.get "spec" = body.get "spec"

/-- The answers the API server can give, and the state each leaves behind. -/
inductive Etcd.Answer : Etcd → (o : KubeOp) → o.Resp → Etcd → Prop
  | found {s : Etcd} {key : Key} {obj : DynamicObject} :
      s.current key = some obj → Answer s (.get key) (.ok obj) s
  | missing {s : Etcd} {key : Key} {e : KubeError} :
      s.current key = none → Answer s (.get key) (.error e) s
  | getFailed {s : Etcd} {key : Key} {e : KubeError} :
      e.code ≠ some 404 → Answer s (.get key) (.error e) s
  | patched {s : Etcd} {key : Key} {body : Value} {obj : DynamicObject} :
      AppliedAs (s.rev + 1) key body obj → Answer s (.patch key body) (.ok obj) (s.write key (some obj))
  | patchLost {s : Etcd} {key : Key} {body : Value} {obj : DynamicObject} {e : KubeError} :
      AppliedAs (s.rev + 1) key body obj → Answer s (.patch key body) (.error e) (s.write key (some obj))
  | patchFailed {s : Etcd} {key : Key} {body : Value} {e : KubeError} :
      Answer s (.patch key body) (.error e) s
  | listed {s : Etcd} {ns name rv : String} {n : ℕ} :
      parseU64 rv = some n → n ≤ s.rev → Answer s (.list ns name rv) (.ok (s.asOf n ⟨ns, name⟩).toList) s
  | listFailed {s : Etcd} {ns name rv : String} {e : KubeError} :
      Answer s (.list ns name rv) (.error e) s
  /-- Somebody deletes a config first. -/
  | deleted {s s' : Etcd} {key : Key} {o : KubeOp} {r : o.Resp} :
      Answer (s.write key none) o r s' → Answer s o r s'
  /-- Somebody changes a config first, but for its spec. -/
  | touched {s s' : Etcd} {key : Key} {old obj : DynamicObject} {o : KubeOp} {r : o.Resp} :
      s.current key = some old → AppliedAs (s.rev + 1) key old.data obj →
        Answer (s.write key (some obj)) o r s' → Answer s o r s'

theorem Etcd.Answer.extends {s s' : Etcd} {o : KubeOp} {r : o.Resp} (h : Etcd.Answer s o r s') :
    s.Extends s' := by
  induction h with
  | found _ | missing _ | getFailed _ | patchFailed | listed _ _ | listFailed => exact .refl _
  | patched _ | patchLost _ => exact Revisions.extends_write _ _ _
  | deleted _ ih | touched _ _ _ ih => exact (Revisions.extends_write _ _ _).trans ih

/-! ### What a run leaves in the history -/

/-- A request and its answer are in the history. -/
inductive Shown (s : Etcd) : (o : KubeOp) → o.Resp → Prop
  | get {key : Key} {r : Except KubeError DynamicObject} : Shown s (.get key) r
  | patched {key : Key} {body : Value} {obj : DynamicObject} {m : ℕ} :
      AppliedAs m key body obj → m ≤ s.rev → s.asOf m key = some obj → Shown s (.patch key body) (.ok obj)
  | refused {key : Key} {body : Value} {e : KubeError} : Shown s (.patch key body) (.error e)
  | listed {ns name rv : String} {n : ℕ} :
      parseU64 rv = some n → n ≤ s.rev → Shown s (.list ns name rv) (.ok (s.asOf n ⟨ns, name⟩).toList)
  | listFailed {ns name rv : String} {e : KubeError} : Shown s (.list ns name rv) (.error e)

theorem Shown.mono {s s' : Etcd} (h : s.Extends s') {o : KubeOp} {r : o.Resp} (hs : Shown s o r) :
    Shown s' o r := by
  cases hs with
  | get => exact .get
  | patched happ hm hat => exact .patched happ (hm.trans h.rev) ((h.asOf hm _).trans hat)
  | refused => exact .refused
  | listed hrv hn =>
    rw [← h.asOf hn]
    exact .listed hrv (hn.trans h.rev)
  | listFailed => exact .listFailed

theorem Etcd.Answer.shown {s s' : Etcd} {o : KubeOp} {r : o.Resp} (h : Etcd.Answer s o r s') :
    Shown s' o r := by
  induction h with
  | found _ | missing _ | getFailed _ => exact .get
  | patched happ => exact .patched happ le_rfl (Revisions.asOf_write_self _ _ _)
  | patchLost _ | patchFailed => exact .refused
  | listed hrv hn => exact .listed hrv hn
  | listFailed => exact .listFailed
  | deleted _ ih | touched _ _ _ ih => exact ih

/-- **Whatever was answered in a run is in the history at its end.** -/
theorem shown_run {α : Type} {c₀ c : Etcd × List (Proc KubeOp KubeOp.Resp α)}
    {tr : List (Event KubeOp KubeOp.Resp)} (h : Run Etcd.Answer c₀ tr c) :
    c₀.1.Extends c.1 ∧ ∀ e ∈ tr, Shown c.1 e.op e.resp := by
  induction h with
  | nil => exact ⟨.refl _, fun e he => absurd he List.not_mem_nil⟩
  | snoc _ hs ih =>
    cases hs with
    | call _ hans =>
      refine ⟨ih.1.trans hans.extends, fun e he => ?_⟩
      rcases List.mem_append.mp he with he | he
      · exact (ih.2 e he).mono hans.extends
      · rw [List.mem_singleton.mp he]
        exact hans.shown

/-! ### The order of the answers -/

/-- A request with its answer. -/
abbrev KubeExchange := (o : KubeOp) × o.Resp

/-- An accepted patch of a revision. -/
def KubeExchange.PatchedAt (x : KubeExchange) (m : ℕ) : Prop :=
  ∃ key body obj, x = ⟨.patch key body, .ok obj⟩ ∧ AppliedAs m key body obj

/-- A list of a revision. -/
def KubeExchange.ListedAt (x : KubeExchange) (n : ℕ) : Prop :=
  ∃ ns name rv items, x = ⟨.list ns name rv, .ok items⟩ ∧ parseU64 rv = some n

theorem AppliedAs.unique {m m' : ℕ} {key key' : Key} {body body' : Value} {obj : DynamicObject}
    (h : AppliedAs m key body obj) (h' : AppliedAs m' key' body' obj) : m = m' := by
  have hrv := congrArg String.toList (Option.some.inj (h.rv.symm.trans h'.rv))
  rw [Nat.toString_eq_repr, Nat.toString_eq_repr, Nat.toList_repr, Nat.toList_repr] at hrv
  exact toDigits_injective (by decide) (by decide) hrv

/-- A patch lands after every revision there was. -/
theorem Etcd.Answer.rev_lt {s s' : Etcd} {o : KubeOp} {r : o.Resp} (h : Etcd.Answer s o r s') :
    ∀ m, KubeExchange.PatchedAt ⟨o, r⟩ m → s.rev < m := by
  induction h with
  | patched happ =>
    rintro m ⟨key, body, obj, hx, happ'⟩
    cases hx
    rw [happ'.unique happ]
    exact Nat.lt_succ_self _
  | found _ | missing _ | getFailed _ | patchLost _ | patchFailed | listed _ _ | listFailed =>
    rintro m ⟨key, body, obj, hx, -⟩
    cases hx
  | deleted _ ih | touched _ _ _ ih => exact fun m hm => lt_trans (Nat.lt_succ_self _) (ih m hm)

/-- A listed revision is in the past. -/
theorem Shown.rev_le {s : Etcd} {o : KubeOp} {r : o.Resp} (h : Shown s o r) :
    ∀ n, KubeExchange.ListedAt ⟨o, r⟩ n → n ≤ s.rev := by
  cases h with
  | listed hrv hn =>
    rintro n ⟨ns, name, rv, items, hx, hrv'⟩
    cases hx
    rw [hrv, Option.some.injEq] at hrv'
    rw [← hrv']
    exact hn
  | get | patched _ _ _ | refused | listFailed =>
    rintro n ⟨ns, name, rv, items, hx, -⟩
    cases hx

/-- **A patch comes after every revision that was listed before it.** -/
theorem ordered_run {α : Type} {c₀ c : Etcd × List (Proc KubeOp KubeOp.Resp α)}
    {tr : List (Event KubeOp KubeOp.Resp)} (h : Run Etcd.Answer c₀ tr c) :
    tr.Pairwise fun a b => ∀ n m, KubeExchange.ListedAt ⟨a.op, a.resp⟩ n →
      KubeExchange.PatchedAt ⟨b.op, b.resp⟩ m → n < m := by
  induction h with
  | nil => exact .nil
  | snoc hrun hs ih =>
    cases hs with
    | call _ hans =>
      refine List.pairwise_append.mpr ⟨ih, List.pairwise_singleton _ _, fun a ha b hb n m hn hm => ?_⟩
      rw [List.mem_singleton.mp hb] at hm
      exact lt_of_le_of_lt (((shown_run hrun).2 a ha).rev_le n hn) (hans.rev_lt m hm)

/-! ### What a call writes -/

theorem get_patchBody (key : Key) (spec : ConfigSpec) (tp : Option String) :
    (patchBody key spec tp).get "spec" = some spec.toValue := rfl

theorem fromValue_toValue (spec : ConfigSpec) : ConfigSpec.fromValue spec.toValue = some spec := by
  have hversion : spec.toValue.field 0 "schema_version" = some (.ofU32 spec.schemaVersion) := rfl
  have hcontent : spec.toValue.field 1 "content" = some spec.content := rfl
  rw [ConfigSpec.fromValue, hversion, Value.fieldOr, hcontent, Option.bind_some, decodeU32_ofU32]
  rfl

/-- An object reads as its spec says. -/
theorem parseConfigObject_of_spec {obj : DynamicObject} {spec : ConfigSpec}
    (h : (obj.data.get "spec").bind ConfigSpec.fromValue = some spec) (loaded : Instant) :
    parseConfigObject loaded obj = some
      { ConfigSnapshot.fromSpec (obj.metadata.name.getD "") (obj.metadata.ns.getD "") spec
          (obj.metadata.resourceVersion.getD "") loaded with labels := obj.metadata.labels.getD [] } := by
  obtain ⟨specValue, hget, hvalue⟩ := Option.bind_eq_some_iff.mp h
  simp only [parseConfigObject, hget, hvalue, Option.bind_eq_bind, Option.bind_some]
  rfl

/-- What is read off an applied object. -/
def appliedSnapshot (loaded : Instant) (key : Key) (spec : ConfigSpec) (rv : String) (labels : StringMap) :
    ConfigSnapshot :=
  { ConfigSnapshot.fromSpec key.name key.ns spec rv loaded with labels }

/-- **An applied object reads as the spec that was applied.** -/
theorem AppliedAs.parse {m : ℕ} {key : Key} {spec : ConfigSpec} {tp : Option String} {obj : DynamicObject}
    (h : AppliedAs m key (patchBody key spec tp) obj) (loaded : Instant) :
    parseConfigObject loaded obj =
      some (appliedSnapshot loaded key spec (toString m) (obj.metadata.labels.getD [])) := by
  have hspec : (obj.data.get "spec").bind ConfigSpec.fromValue = some spec := by
    rw [h.spec, get_patchBody, Option.bind_some, fromValue_toValue]
  rw [parseConfigObject_of_spec hspec, h.name, h.ns, h.rv]
  rfl

theorem le_saturatingSucc (n : UInt32) : n ≤ saturatingSucc n := by
  unfold saturatingSucc
  split
  · next h =>
    rw [UInt32.le_iff_toNat_le, UInt32.toNat_add, UInt32.toNat_one, Nat.mod_eq_of_lt h]
    exact Nat.le_succ _
  · exact UInt32.le_refl _

theorem le_max_version (a b : UInt32) : b ≤ max a b := by
  show b ≤ if a ≤ b then b else a
  split
  · exact UInt32.le_refl _
  · next h => exact UInt32.le_of_lt (UInt32.not_le.mp h)

section Revert

variable [SerdeJson]

/-- **What a `Revert` that succeeds does**: it lists, reads, and writes through `apply_spec`. -/
theorem handleRevert_ends_ok {req : RevertRequest} {tp : Option String} {tr : KubeTrace} {resp : RevertResponse}
    (h : Ends (handleRevert req tp) tr (.ok resp)) :
    ∃ items old historical a current tr₁ r, tr = ⟨.list req.key.ns req.key.name req.toResourceVersion, .ok items⟩ ::
        ⟨.get req.key, a⟩ :: tr₁ ∧
      items.find? (fun o => o.metadata.name == some req.key.name) = some old ∧
      parseHistoricalObj old = .ok historical ∧
      Ends (applySpec req.key ⟨resp.schemaVersion, historical.content⟩ tp) tr₁ (.ok r) ∧
      resp.resourceVersion = r.resourceVersion ∧
      resp.schemaVersion = saturatingSucc (max current historical.schemaVersion) := by
  unfold handleRevert at h
  split at h
  · obtain ⟨_, hr⟩ := ends_throw.mp h
    cases hr
  rw [ends_bind] at h
  rcases h with ⟨e, he, _⟩ | ⟨tr₁, tr₂, historical, rfl, h₁, h₂⟩
  · cases he
  rw [ends_bind] at h₂
  rcases h₂ with ⟨e, he, _⟩ | ⟨tr₂, tr₃, current, rfl, h₂, h₃⟩
  · cases he
  obtain ⟨a, rfl, _⟩ := fetch_ends.mp h₂
  obtain ⟨r, hr, hspec⟩ := ends_bind_pure.mp h₃
  cases r with
  | error e => cases hr
  | ok r =>
    cases hr
    unfold fetchHistoricalSpec KubeM.op at h₁
    rw [ends_op_bind] at h₁
    obtain ⟨answer, tr', rfl, h₁⟩ := h₁
    cases answer with
    | error e =>
      obtain ⟨_, he⟩ := ends_throw.mp h₁
      cases he
    | ok items =>
      simp only at h₁
      split at h₁
      · obtain ⟨_, he⟩ := ends_throw.mp h₁
        cases he
      · next old hold =>
        obtain ⟨rfl, hhist⟩ := ends_liftExcept.mp h₁
        exact ⟨items, old, historical, a, current, tr₃, r, rfl, hold, hhist.symm, hspec, rfl, rfl⟩

theorem parseHistoricalObj_ok {obj : DynamicObject} {spec : ConfigSpec} (h : parseHistoricalObj obj = .ok spec) :
    (obj.data.get "spec").bind ConfigSpec.fromValue = some spec := by
  unfold parseHistoricalObj at h
  split at h
  · cases h
  · next specValue hspec =>
    rw [hspec, Option.bind_some]
    split at h
    · next spec' hvalue =>
      cases h
      exact hvalue
    · cases h

end Revert

/-! ### Reverts -/

section Calls

variable [JsonSchema] [SerdeYaml] [SerdeJson]

/-- Calls that have just started on an API server. -/
abbrev startedOn (s : Etcd) (calls : List Call) :
    Etcd × List (Proc KubeOp KubeOp.Resp (Except Status Reply)) := (s, calls.map Call.start)

/-- A call that has ended in some interleaving, on its own. -/
theorem ends_of_run {s₀ : Etcd} {calls : List Call} {tr : List (Event KubeOp KubeOp.Resp)}
    {c : Etcd × List (Proc KubeOp KubeOp.Resp (Except Status Reply))} {i : ℕ} {call : Call}
    {r : Except Status Reply} (hrun : Run Etcd.Answer (startedOn s₀ calls) tr c)
    (hcall : calls[i]? = some call) (hend : c.2[i]? = some (.ret r)) : Ends call.handle (own i tr) r := by
  have h₀ : (startedOn s₀ calls).2[i]? = some call.start := by
    rw [List.getElem?_map, hcall]
    rfl
  obtain ⟨q, hq, hsteps⟩ := hrun.steps_own h₀
  rw [hend] at hq
  cases hq
  exact hsteps

/-- What a call exchanged is in the history. -/
theorem shown_of_own {s₀ : Etcd} {calls : List Call} {tr : List (Event KubeOp KubeOp.Resp)}
    {c : Etcd × List (Proc KubeOp KubeOp.Resp (Except Status Reply))} {i : ℕ} {o : KubeOp} {r : o.Resp}
    (hrun : Run Etcd.Answer (startedOn s₀ calls) tr c) (h : (⟨o, r⟩ : KubeExchange) ∈ own i tr) :
    Shown c.1 o r := (shown_run hrun).2 _ (mem_own.mp h)

/-- **A revert restores.**  Whoever else writes, a `Revert` that succeeds leaves, under a
later revision, the content that its config had at the revision it names, with the version
it answers, which is not below the one of then. -/
theorem revert_restores {s₀ : Etcd} {calls : List Call} {tr : List (Event KubeOp KubeOp.Resp)}
    {c : Etcd × List (Proc KubeOp KubeOp.Resp (Except Status Reply))} {i : ℕ} {req : RevertRequest}
    {tp : Option String} {resp : RevertResponse} (hrun : Run Etcd.Answer (startedOn s₀ calls) tr c)
    (hcall : calls[i]? = some (.revert req tp)) (hend : c.2[i]? = some (.ret (.ok (.reverted resp)))) :
    ∃ n m old new, parseU64 req.toResourceVersion = some n ∧ resp.resourceVersion = toString m ∧ n < m ∧
      c.1.asOf n req.key = some old ∧ c.1.asOf m req.key = some new ∧
      ∀ loaded, ∃ before after, parseConfigObject loaded old = some before ∧
        parseConfigObject loaded new = some after ∧ after.content = before.content ∧
        after.schemaVersion = resp.schemaVersion ∧ before.schemaVersion ≤ after.schemaVersion ∧
        after.resourceVersion = resp.resourceVersion := by
  obtain ⟨r, hr, hends⟩ := ends_bind_pure.mp (ends_of_run hrun hcall hend)
  cases r with
  | error e => cases hr
  | ok resp' =>
    cases hr
    obtain ⟨items, old, historical, a, current, tr₁, applied, hown, hold, hhist, hspec, hrv, hversion⟩ :=
      handleRevert_ends_ok hends
    obtain ⟨a', current', errs, new, -, -, rfl, rfl⟩ := applySpec_ends_ok hspec
    -- the list and the accepted patch, both in the history
    have hlist : (⟨.list req.key.ns req.key.name req.toResourceVersion, .ok items⟩ : KubeExchange) ∈ own i tr := by
      rw [hown]
      exact List.mem_cons_self
    have htail : accepted req.key (patchBody req.key ⟨resp.schemaVersion, historical.content⟩ tp) new ∈
        (⟨.get req.key, a⟩ : KubeExchange) :: ⟨.get req.key, a'⟩ ::
          (refusals req.key (patchBody req.key ⟨resp.schemaVersion, historical.content⟩ tp) errs ++
            [accepted req.key (patchBody req.key ⟨resp.schemaVersion, historical.content⟩ tp) new]) :=
      List.mem_cons_of_mem _ (List.mem_cons_of_mem _ (List.mem_append_right _ (List.mem_singleton_self _)))
    have hpatch : accepted req.key (patchBody req.key ⟨resp.schemaVersion, historical.content⟩ tp) new ∈
        own i tr := by
      rw [hown]
      exact List.mem_cons_of_mem _ htail
    have horder := pairwise_own (R := fun x y => ∀ n m, KubeExchange.ListedAt x n → KubeExchange.PatchedAt y m →
      n < m) i (ordered_run hrun)
    cases shown_of_own hrun hlist with
    | @listed ns name rv n hn hle =>
      cases shown_of_own hrun hpatch with
      | @patched key body obj m happ hm hat =>
        have hbefore : c.1.asOf n req.key = some old := by
          have hmem := List.mem_of_find?_eq_some hold
          exact Option.mem_toList.mp hmem
        have hlater : n < m := by
          rw [hown] at horder
          exact List.rel_of_pairwise_cons horder htail n m ⟨_, _, _, _, rfl, hn⟩ ⟨_, _, _, rfl, happ⟩
        have hnew : resp.resourceVersion = toString m := by
          rw [hrv, happ.rv]
          rfl
        refine ⟨n, m, old, new, hn, hnew, hlater, hbefore, hat, fun loaded => ?_⟩
        refine ⟨_, _, parseConfigObject_of_spec (parseHistoricalObj_ok hhist) loaded, happ.parse loaded, rfl, rfl,
          ?_, hnew.symm⟩
        show historical.schemaVersion ≤ resp.schemaVersion
        rw [hversion]
        exact UInt32.le_trans (le_max_version _ _) (le_saturatingSucc _)

/-! ### Round trips -/

/-- The JSON of a content is read as this content. -/
def ContentReadsBack (content : Value) : Prop :=
  content.render ≠ "" ∧ SerdeJson.fromStr content.render = .ok content

omit [JsonSchema] [SerdeYaml] in
theorem snapshotFromProto_snapshotToProto {snap : ConfigSnapshot} (h : ContentReadsBack snap.content)
    (now now' : Instant) : snapshotFromProto now (snapshotToProto now' snap) = .ok
      { content := snap.content, schemaVersion := snap.schemaVersion, resourceVersion := snap.resourceVersion,
        loadedAt := now, staleSince := none } := by
  have hjson : (snapshotToProto now' snap).contentJson = snap.content.render := rfl
  rw [snapshotFromProto, hjson, if_neg h.1, h.2]
  rfl

omit [JsonSchema] [SerdeYaml] in
/-- What a consumer reads once an event with a config has arrived. -/
theorem Driver.reads_event {d : Driver} {name : String} (hname : name ∈ d.stores) {type : EventType}
    (htype : type ≠ .deleted) {snap : ConfigSnapshot} (hsnap : snap.name = name)
    (hback : ContentReadsBack snap.content) (now now' : Instant) :
    ∃ got, (d.apply now ⟨type, some (snapshotToProto now' snap)⟩).stores.lookup name = some got ∧
      got.content = snap.content ∧ got.schemaVersion = snap.schemaVersion ∧
      got.resourceVersion = snap.resourceVersion := by
  obtain ⟨old, hold⟩ := Option.isSome_iff_exists.mp (AList.lookup_isSome.mpr hname)
  have hstored : storedFor name (.event now ⟨type, some (snapshotToProto now' snap)⟩) = some _ :=
    storedFor_event.mpr ⟨_, rfl, hsnap, htype, snapshotFromProto_snapshotToProto hback now now'⟩
  have hlook := Driver.lookup_apply d now ⟨type, some (snapshotToProto now' snap)⟩ name
  rw [hold, Option.map_some, hstored, Option.getD_some] at hlook
  exact ⟨_, hlook, rfl, rfl, rfl⟩

/-- **An apply is read back.**  Whoever else writes, an `Apply` that succeeds leaves the
document that it was given under the revision it answers.  That revision is read as this
document by whoever watches it, and by a consumer who gets it as an event. -/
theorem apply_round_trip {s₀ : Etcd} {calls : List Call} {tr : List (Event KubeOp KubeOp.Resp)}
    {c : Etcd × List (Proc KubeOp KubeOp.Resp (Except Status Reply))} {i : ℕ} {table : SchemaTable}
    {req : ApplyRequest} {tp : Option String} {resp : ApplyResponse}
    (hrun : Run Etcd.Answer (startedOn s₀ calls) tr c) (hcall : calls[i]? = some (.apply table req tp))
    (hend : c.2[i]? = some (.ret (.ok (.applied resp)))) :
    ∃ spec m obj, SerdeYaml.fromStr req.yamlContent = .ok spec ∧
      table.validate req.key.ns req.key.name spec.content = .ok () ∧ resp.resourceVersion = toString m ∧
      c.1.asOf m req.key = some obj ∧
      ∀ loaded, ∃ snap, parseConfigObject loaded obj = some snap ∧ snap.ns = req.key.ns ∧
        snap.name = req.key.name ∧ snap.content = spec.content ∧ snap.schemaVersion = spec.schemaVersion ∧
        snap.resourceVersion = resp.resourceVersion ∧
        ∀ (d : Driver) (type : EventType) (now now' : Instant), req.key.name ∈ d.stores → type ≠ .deleted →
          ContentReadsBack spec.content →
          ∃ got, (d.apply now ⟨type, some (snapshotToProto now' snap)⟩).stores.lookup req.key.name = some got ∧
            got.content = spec.content ∧ got.schemaVersion = spec.schemaVersion ∧
            got.resourceVersion = resp.resourceVersion := by
  obtain ⟨r, hr, hends⟩ := ends_bind_pure.mp (ends_of_run hrun hcall hend)
  cases r with
  | error e => cases hr
  | ok resp' =>
    cases hr
    rcases handleApply_ends hends with ⟨-, ⟨st, hst⟩, -⟩ | ⟨spec, hyaml, hvalid, hspec⟩
    · cases hst
    obtain ⟨a, current, errs, obj, -, -, hown, rfl⟩ := applySpec_ends_ok hspec
    have hpatch : accepted req.key (patchBody req.key spec tp) obj ∈ own i tr := by
      rw [hown]
      exact List.mem_cons_of_mem _ (List.mem_append_right _ (List.mem_singleton_self _))
    cases shown_of_own hrun hpatch with
    | @patched key body obj m happ hm hat =>
      have hrv : obj.metadata.resourceVersion.getD "" = toString m := by
        rw [happ.rv]
        rfl
      refine ⟨spec, m, obj, hyaml, validateAgainstSchema_ok.mp hvalid, hrv, hat, fun loaded => ?_⟩
      refine ⟨_, happ.parse loaded, rfl, rfl, rfl, rfl, hrv.symm, fun d type now now' hname htype hback => ?_⟩
      have hreads := @Driver.reads_event _ d req.key.name hname type htype
        (appliedSnapshot loaded req.key spec (toString m) (obj.metadata.labels.getD [])) rfl hback now now'
      obtain ⟨got, hgot, hcontent, hversion, hrv'⟩ := hreads
      exact ⟨got, hgot, hcontent, hversion, hrv'.trans hrv.symm⟩

end Calls

/-! ### A config on its own -/

theorem fetchHistoricalSpec_ends_of [SerdeJson] {key : Key} {rv : String} {items : List DynamicObject}
    {old : DynamicObject} {historical : ConfigSpec}
    (hold : items.find? (fun o => o.metadata.name == some key.name) = some old)
    (hparse : parseHistoricalObj old = .ok historical) :
    Ends (fetchHistoricalSpec key rv) [⟨.list key.ns key.name rv, .ok items⟩] (.ok historical) := by
  unfold fetchHistoricalSpec KubeM.op
  refine ends_op_bind.mpr ⟨.ok items, [], rfl, ?_⟩
  simp only [hold, hparse]
  exact ends_liftExcept.mpr ⟨rfl, rfl⟩

theorem handleRevert_ends_of [SerdeJson] {req : RevertRequest} {items : List DynamicObject} {old : DynamicObject}
    {historical : ConfigSpec} {a : Except KubeError DynamicObject} {current version : UInt32}
    (hrv : req.toResourceVersion ≠ "")
    (hold : items.find? (fun o => o.metadata.name == some req.key.name) = some old)
    (hparse : parseHistoricalObj old = .ok historical) (hread : readVersion a = .ok current)
    (hversion : saturatingSucc (max current historical.schemaVersion) = version) (hlt : current < version)
    (obj : DynamicObject) : Ends (handleRevert req none)
      [⟨.list req.key.ns req.key.name req.toResourceVersion, .ok items⟩, ⟨.get req.key, a⟩, ⟨.get req.key, a⟩,
        accepted req.key (patchBody req.key ⟨version, historical.content⟩ none) obj]
      (.ok ⟨obj.metadata.resourceVersion.getD "", version⟩) := by
  unfold handleRevert
  rw [if_neg hrv]
  refine ends_bind.mpr (.inr ⟨[_], [_, _, _], historical, rfl, fetchHistoricalSpec_ends_of hold hparse, ?_⟩)
  refine ends_bind.mpr (.inr ⟨[_], [_, _], current, rfl, fetch_ends.mpr ⟨a, rfl, hread.symm⟩, ?_⟩)
  rw [hversion]
  exact ends_bind_pure.mpr ⟨.ok _, rfl, applySpec_accepted_of hread hlt none obj⟩

section Limits

local instance historySchemas : JsonSchema := noSchemas

local instance historyDocuments : SerdeYaml := twoDocuments

/-- It reads the empty object. -/
local instance historyText : SerdeJson where
  fromStr text := if text = "\x7b\x7d" then .ok defaultContent else .error "not used"
  fromValueError _ := "not used"

/-- A revision of `trading/limits`. -/
def limitsAt (rev : ℕ) (spec : ConfigSpec) : DynamicObject where
  metadata := { name := some "limits", ns := some "trading", resourceVersion := some (toString rev) }
  data := patchBody limitsKey spec none

theorem limitsAt_applied (rev : ℕ) (spec : ConfigSpec) :
    AppliedAs rev limitsKey (patchBody limitsKey spec none) (limitsAt rev spec) := ⟨rfl, rfl, rfl, rfl⟩

/-- An API server with nothing on it. -/
def noConfigs : Etcd := ⟨0, [], fun _ h => absurd h List.not_mem_nil⟩

/-- An `Apply` that reads a version below its own, and whose patch is accepted under a revision. -/
theorem applyLimits_ends (yaml : String) {spec : ConfigSpec} (hyaml : SerdeYaml.fromStr yaml = .ok spec)
    {a : Except KubeError DynamicObject} {current : UInt32} (hread : readVersion a = .ok current)
    (hlt : current < spec.schemaVersion) (rev : ℕ) : Ends (applyLimits yaml).handle
      ([⟨.get limitsKey, a⟩] ++ [accepted limitsKey (patchBody limitsKey spec none) (limitsAt rev spec)])
      (.ok (.applied ⟨toString rev⟩)) := by
  have happly : handleApply ∅ ⟨limitsKey, yaml⟩ none = applySpec limitsKey spec none := by
    unfold handleApply applyInner
    rw [hyaml]
    rfl
  refine ends_bind_pure.mpr ⟨.ok ⟨toString rev⟩, rfl, ?_⟩
  rw [happly]
  exact applySpec_accepted_of hread hlt none (limitsAt rev spec)

theorem readVersion_missing : readVersion (.error notFound) = .ok 0 := rfl

/-- An `Apply` of version `5` on an empty API server. -/
theorem applied_limits : ∃ tr c, Run Etcd.Answer (startedOn noConfigs [applyLimits "schema_version: 5"]) tr c ∧
    c.1 = noConfigs.write limitsKey (some (limitsAt 1 ⟨5, defaultContent⟩)) ∧
    c.2[0]? = some (.ret (.ok (.applied ⟨"1"⟩))) :=
  ⟨_, _, run_of_steps (applyLimits_ends "schema_version: 5" rfl readVersion_missing (by decide) 1) .nil
    (.cons (.missing rfl) (.cons (.patched (limitsAt_applied 1 _)) (.nil _))), rfl, rfl⟩

/-- Two of them on an empty API server: both read, and then both write. -/
theorem applied_twice : ∃ tr c, Run Etcd.Answer
      (startedOn noConfigs [applyLimits "schema_version: 3", applyLimits "schema_version: 5"]) tr c ∧
    c.2[0]? = some (.ret (.ok (.applied ⟨"1"⟩))) ∧ c.2[1]? = some (.ret (.ok (.applied ⟨"2"⟩))) := by
  obtain ⟨p, hp, hp'⟩ := steps_split (applyLimits_ends "schema_version: 3" rfl readVersion_missing (by decide) 1)
  obtain ⟨q, hq, hq'⟩ := steps_split (applyLimits_ends "schema_version: 5" rfl readVersion_missing (by decide) 2)
  have hmissing : Answered Etcd.Answer noConfigs [⟨.get limitsKey, .error notFound⟩] noConfigs :=
    .cons (.missing rfl) (.nil _)
  have hfirst : Answered Etcd.Answer noConfigs
      [accepted limitsKey (patchBody limitsKey ⟨3, defaultContent⟩ none) (limitsAt 1 ⟨3, defaultContent⟩)] _ :=
    .cons (.patched (limitsAt_applied 1 _)) (.nil _)
  have hsecond : Answered Etcd.Answer (noConfigs.write limitsKey (some (limitsAt 1 ⟨3, defaultContent⟩)))
      [accepted limitsKey (patchBody limitsKey ⟨5, defaultContent⟩ none) (limitsAt 2 ⟨5, defaultContent⟩)] _ :=
    .cons (.patched (limitsAt_applied 2 _)) (.nil _)
  have hstart : Run Etcd.Answer
      (startedOn noConfigs [applyLimits "schema_version: 3", applyLimits "schema_version: 5"]) []
      (noConfigs, [(applyLimits "schema_version: 3").start, (applyLimits "schema_version: 5").start]) := .nil
  have hread := run_of_steps_at (i := 0) hp rfl hstart hmissing
  have hreads := run_of_steps_at (i := 1) hq rfl hread hmissing
  have hwrite := run_of_steps_at (i := 0) hp' rfl hreads hfirst
  exact ⟨_, _, run_of_steps_at (i := 1) hq' rfl hwrite hsecond, rfl, rfl⟩

/-- A consumer of `limits` reads version `v` at the revision `rv`. -/
def Etcd.ReadsLimits (s : Etcd) (rv : String) (v : UInt32) : Prop :=
  ∃ m obj snap got, rv = toString m ∧ s.asOf m limitsKey = some obj ∧ parseConfigObject 0 obj = some snap ∧
    ((Driver.new ["limits"] 0).apply 0 ⟨.snapshot, some (snapshotToProto 0 snap)⟩).stores.lookup "limits" =
      some got ∧ got.content = defaultContent ∧ got.schemaVersion = v ∧ got.resourceVersion = rv

/-- Each is what a consumer of `limits` reads at its revision. -/
theorem apply_round_trip_limits : ∃ tr c, Run Etcd.Answer
      (startedOn noConfigs [applyLimits "schema_version: 3", applyLimits "schema_version: 5"]) tr c ∧
    c.1.ReadsLimits "1" 3 ∧ c.1.ReadsLimits "2" 5 := by
  obtain ⟨tr, c, hrun, hend, hend'⟩ := applied_twice
  have hname : "limits" ∈ (Driver.new ["limits"] 0).stores := AList.lookup_isSome.mp rfl
  have hback : ContentReadsBack defaultContent := ⟨by decide, rfl⟩
  refine ⟨tr, c, hrun, ?_, ?_⟩
  · obtain ⟨spec, m, obj, hyaml, -, hm, hat, hread⟩ := apply_round_trip hrun rfl hend
    cases hyaml
    obtain ⟨snap, hsnap, -, -, -, -, -, hgot⟩ := hread 0
    obtain ⟨got, hlook, hcontent, hversion, hrv⟩ := hgot _ .snapshot 0 0 hname (by decide) hback
    exact ⟨m, obj, snap, got, hm, hat, hsnap, hlook, hcontent, hversion, hrv⟩
  · obtain ⟨spec, m, obj, hyaml, -, hm, hat, hread⟩ := apply_round_trip hrun rfl hend'
    cases hyaml
    obtain ⟨snap, hsnap, -, -, -, -, -, hgot⟩ := hread 0
    obtain ⟨got, hlook, hcontent, hversion, hrv⟩ := hgot _ .snapshot 0 0 hname (by decide) hback
    exact ⟨m, obj, snap, got, hm, hat, hsnap, hlook, hcontent, hversion, hrv⟩

/-- A content that is not the default. -/
def tightContent : Value := .object [("max", .number (.posInt 10))]

/-- Version `1` was tight, version `5` is not. -/
def loosened : Etcd :=
  (noConfigs.write limitsKey (some (limitsAt 1 ⟨1, tightContent⟩))).write limitsKey
    (some (limitsAt 2 ⟨5, defaultContent⟩))

/-- What a `Revert` to the first revision exchanges after it has listed it. -/
def restoresLimits : KubeTrace :=
  [⟨.get limitsKey, .ok (limitsAt 2 ⟨5, defaultContent⟩)⟩, ⟨.get limitsKey, .ok (limitsAt 2 ⟨5, defaultContent⟩)⟩,
    accepted limitsKey (patchBody limitsKey ⟨6, tightContent⟩ none) (limitsAt 3 ⟨6, tightContent⟩)]

theorem revertLimits_ends : Ends (Call.revert ⟨limitsKey, "1"⟩ none).handle
    ([⟨.list "trading" "limits" "1", .ok [limitsAt 1 ⟨1, tightContent⟩]⟩] ++ restoresLimits)
    (.ok (.reverted ⟨"3", 6⟩)) := by
  refine ends_bind_pure.mpr ⟨.ok ⟨"3", 6⟩, rfl, ?_⟩
  have hparse : parseHistoricalObj (limitsAt 1 ⟨1, tightContent⟩) = .ok ⟨1, tightContent⟩ := rfl
  exact handleRevert_ends_of (by decide) rfl hparse rfl (by decide) (by decide) (limitsAt 3 ⟨6, tightContent⟩)

theorem restoresLimits_answered : Answered Etcd.Answer loosened restoresLimits
    (loosened.write limitsKey (some (limitsAt 3 ⟨6, tightContent⟩))) :=
  .cons (.found rfl) (.cons (.found rfl) (.cons (.patched (limitsAt_applied 3 _)) (.nil _)))

/-- A `Revert` to the first revision. -/
theorem reverted_limits : ∃ tr c,
    Run Etcd.Answer (startedOn loosened [.revert ⟨limitsKey, "1"⟩ none]) tr c ∧
      c.2[0]? = some (.ret (.ok (.reverted ⟨"3", 6⟩))) :=
  ⟨_, _, run_of_steps revertLimits_ends .nil
    (.cons (.listed (n := 1) (by decide) (by decide)) restoresLimits_answered), rfl⟩

/-- It is tight again. -/
theorem revert_restores_limits : ∃ tr c n m old new before after,
    Run Etcd.Answer (startedOn loosened [.revert ⟨limitsKey, "1"⟩ none]) tr c ∧ parseU64 "1" = some n ∧
      "3" = toString m ∧ n < m ∧ c.1.asOf n limitsKey = some old ∧ c.1.asOf m limitsKey = some new ∧
      parseConfigObject 0 old = some before ∧ parseConfigObject 0 new = some after ∧
      after.content = before.content ∧ after.schemaVersion = 6 := by
  obtain ⟨tr, c, hrun, hend⟩ := reverted_limits
  obtain ⟨n, m, old, new, hn, hm, hlt, hold, hnew, hread⟩ := revert_restores hrun rfl hend
  obtain ⟨before, after, hbefore, hafter, hcontent, hversion, -, -⟩ := hread 0
  exact ⟨tr, c, n, m, old, new, before, after, hrun, hn, hm, hlt, hold, hnew, hbefore, hafter, hcontent, hversion⟩

end Limits

end Konfig
