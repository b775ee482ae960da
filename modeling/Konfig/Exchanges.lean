import Konfig.Revert
import Konfig.ApplyRace
import Konfig.Lib.Exchange

/-!
# What a handler exchanges with the API server

One theorem per handler of `grpc/apply.rs` and `grpc/revert.rs`: the requests it makes
until it ends, the answers it got, and its outcome.  What holds of a single call is read
off these exchanges.

`Cluster.Behaves` is an API server on which anything can fail, a write also after it was
carried out.  `Cluster.Serves` is one that answers every request, and nobody else
writes between two of them.
-/

namespace Konfig

open Lib Proc

/-- Requests to the API server with the answers. -/
abbrev KubeTrace := List ((o : KubeOp) × o.Resp)

/-! ### The parts -/

/-- What `fetch_current_schema_version` makes of an answer. -/
def readVersion : Except KubeError DynamicObject → Except Status UInt32
  | .ok obj => .ok (parseSchemaVersionFromObject obj)
  | .error e =>
    if apiStatusCode e = some 404 then .ok 0
    else .error ⟨.unavailable, "kube error: " ++ e.display⟩

theorem fetch_ends {key : Key} {tr : KubeTrace} {r : Except Status UInt32} :
    Ends (fetchCurrentSchemaVersion key) tr r ↔ ∃ a, tr = [⟨.get key, a⟩] ∧ r = readVersion a := by
  unfold fetchCurrentSchemaVersion KubeM.op
  rw [ends_op_bind]
  refine exists_congr fun a => ?_
  cases a with
  | ok obj =>
    constructor
    · rintro ⟨tr', rfl, h⟩
      obtain ⟨rfl, rfl⟩ := ends_pure.mp h
      exact ⟨rfl, rfl⟩
    · rintro ⟨rfl, rfl⟩
      exact ⟨[], rfl, ends_pure.mpr ⟨rfl, rfl⟩⟩
  | error e =>
    by_cases h404 : apiStatusCode e = some 404
    · simp only [h404, if_true, readVersion, ends_pure]
      constructor
      · rintro ⟨tr', rfl, rfl, rfl⟩
        exact ⟨rfl, rfl⟩
      · rintro ⟨rfl, rfl⟩
        exact ⟨[], rfl, rfl, rfl⟩
    · simp only [h404, if_false, readVersion, ends_throw]
      constructor
      · rintro ⟨tr', rfl, rfl, rfl⟩
        exact ⟨rfl, rfl⟩
      · rintro ⟨rfl, rfl⟩
        exact ⟨[], rfl, rfl, rfl⟩

/-- Patches that were refused. -/
def refusals (key : Key) (body : Value) (errs : List KubeError) : KubeTrace :=
  errs.map fun e => ⟨.patch key body, .error e⟩

/-- The accepted patch of a key, with the object it leaves. -/
def accepted (key : Key) (body : Value) (obj : DynamicObject) : (o : KubeOp) × o.Resp :=
  ⟨.patch key body, .ok obj⟩

/-- One attempt of the patch loop. -/
def patchAttempt (key : Key) (body : Value) : KubeM (Except KubeError String) := do
  let r ← KubeM.op (.patch key body)
  pure (r.map fun obj => obj.metadata.resourceVersion.getD "")

theorem patchAttempt_ends {key : Key} {body : Value} {tr : KubeTrace}
    {r : Except Status (Except KubeError String)} :
    Ends (patchAttempt key body) tr r ↔ ∃ a : Except KubeError DynamicObject,
      tr = [⟨.patch key body, a⟩] ∧ r = .ok (a.map fun obj => obj.metadata.resourceVersion.getD "") := by
  unfold patchAttempt KubeM.op
  rw [ends_op_bind]
  refine exists_congr fun a => ?_
  constructor
  · rintro ⟨tr', rfl, h⟩
    obtain ⟨rfl, rfl⟩ := ends_pure.mp h
    exact ⟨rfl, rfl⟩
  · rintro ⟨rfl, rfl⟩
    exact ⟨[], rfl, ends_pure.mpr ⟨rfl, rfl⟩⟩

/-- The patch loop from any attempt on: it was refused some times and then accepted, or
it gives up after at least one refusal. -/
theorem runPatchRetryLoop_ends {key : Key} {body : Value} : ∀ (left attempt : Nat),
    RETRY_DELAYS_MS.length - attempt = left → ∀ {tr : KubeTrace} {r : Except Status String},
      Ends (runPatchRetryLoop (patchAttempt key body) attempt) tr r →
      (∃ errs obj, tr = refusals key body errs ++ [accepted key body obj] ∧
        r = .ok (obj.metadata.resourceVersion.getD "")) ∨
      ∃ errs st, errs ≠ [] ∧ tr = refusals key body errs ∧ r = .error st := by
  intro left
  -- the induction is on the attempts that are left
  induction left using Nat.strongRecOn with
  | ind left ih =>
    intro attempt hleft tr r h
    rw [runPatchRetryLoop, ends_bind] at h
    rcases h with ⟨e, rfl, h⟩ | ⟨tr₁, tr₂, a, rfl, h₁, h₂⟩
    · obtain ⟨a, _, ha⟩ := patchAttempt_ends.mp h
      cases ha
    · obtain ⟨a', rfl, ha⟩ := patchAttempt_ends.mp h₁
      cases ha
      cases a' with
      | ok obj =>
        obtain ⟨rfl, rfl⟩ := ends_pure.mp h₂
        exact .inl ⟨[], obj, rfl, rfl⟩
      | error e =>
        simp only [Except.map] at h₂
        split at h₂
        · rename_i d hd
          have := lt_of_classify_retry hd
          rcases ih (left - 1) (by omega) (attempt + 1) (by omega) h₂ with
            ⟨errs, obj, rfl, rfl⟩ | ⟨errs, st, _, rfl, rfl⟩
          · exact .inl ⟨e :: errs, obj, rfl, rfl⟩
          · exact .inr ⟨e :: errs, st, by simp, rfl, rfl⟩
        · obtain ⟨rfl, rfl⟩ := ends_throw.mp h₂
          exact .inr ⟨[e], _, by simp, rfl, rfl⟩
        · obtain ⟨rfl, rfl⟩ := ends_throw.mp h₂
          exact .inr ⟨[e], _, by simp, rfl, rfl⟩

theorem patchWithRetry_ends {key : Key} {body : Value} {tr : KubeTrace} {r : Except Status String}
    (h : Ends (patchWithRetry key body) tr r) :
    (∃ errs obj, tr = refusals key body errs ++ [accepted key body obj] ∧
      r = .ok (obj.metadata.resourceVersion.getD "")) ∨
    ∃ errs st, errs ≠ [] ∧ tr = refusals key body errs ∧ r = .error st :=
  runPatchRetryLoop_ends _ 0 rfl h

/-! ### One write -/

/-- **What `apply_spec` does**: it reads the stored version, and stops there, or it goes on
to patches of a version above the one it read. -/
theorem applySpec_ends {key : Key} {spec : ConfigSpec} {tp : Option String} {tr : KubeTrace}
    {r : Except Status ApplyResponse} (h : Ends (applySpec key spec tp) tr r) :
    ∃ a tr', tr = ⟨.get key, a⟩ :: tr' ∧
      ((tr' = [] ∧ (∃ st, r = .error st) ∧ ∀ c, readVersion a = .ok c → spec.schemaVersion ≤ c) ∨
        ∃ c, readVersion a = .ok c ∧ c < spec.schemaVersion ∧
          ((∃ errs obj, tr' = refusals key (patchBody key spec tp) errs ++
              [accepted key (patchBody key spec tp) obj] ∧
              r = .ok ⟨obj.metadata.resourceVersion.getD ""⟩) ∨
            ∃ errs st, errs ≠ [] ∧ tr' = refusals key (patchBody key spec tp) errs ∧
              r = .error st)) := by
  unfold applySpec at h
  rw [ends_bind] at h
  rcases h with ⟨e, rfl, h⟩ | ⟨tr₁, tr₂, current, rfl, h₁, h₂⟩
  · obtain ⟨a, rfl, ha⟩ := fetch_ends.mp h
    refine ⟨a, [], rfl, .inl ⟨rfl, ⟨e, rfl⟩, fun c hc => ?_⟩⟩
    rw [hc] at ha
    cases ha
  · obtain ⟨a, rfl, ha⟩ := fetch_ends.mp h₁
    refine ⟨a, tr₂, rfl, ?_⟩
    rw [ends_liftExcept_bind] at h₂
    rcases h₂ with ⟨e, he, rfl, rfl⟩ | ⟨_, hdec, h₂⟩
    · refine .inl ⟨rfl, ⟨e, rfl⟩, fun c hc => ?_⟩
      rw [hc] at ha
      cases ha
      by_contra hlt
      rw [schemaVersionDecision_ok.mpr (UInt32.not_le.mp hlt)] at he
      cases he
    · refine .inr ⟨current, ha.symm, schemaVersionDecision_ok.mp hdec, ?_⟩
      obtain ⟨r', rfl, hpatch⟩ := ends_bind_pure.mp h₂
      rcases patchWithRetry_ends hpatch with ⟨errs, obj, rfl, rfl⟩ | ⟨errs, st, hne, rfl, rfl⟩
      · exact .inl ⟨errs, obj, rfl, rfl⟩
      · exact .inr ⟨errs, st, hne, rfl, rfl⟩

/-- A write that succeeds: one read, refused attempts, an accepted one. -/
theorem applySpec_ends_ok {key : Key} {spec : ConfigSpec} {tp : Option String} {tr : KubeTrace}
    {resp : ApplyResponse} (h : Ends (applySpec key spec tp) tr (.ok resp)) :
    ∃ a c errs obj, readVersion a = .ok c ∧ c < spec.schemaVersion ∧
      tr = ⟨.get key, a⟩ :: (refusals key (patchBody key spec tp) errs ++
        [accepted key (patchBody key spec tp) obj]) ∧
      resp = ⟨obj.metadata.resourceVersion.getD ""⟩ := by
  obtain ⟨a, tr', rfl, ⟨_, ⟨st, hst⟩, _⟩ | ⟨c, hc, hlt, ⟨errs, obj, rfl, hr⟩ | ⟨_, st, _, _, hst⟩⟩⟩ :=
    applySpec_ends h
  · cases hst
  · cases hr
    exact ⟨a, c, errs, obj, hc, hlt, rfl, rfl⟩
  · cases hst

/-! ### The handlers -/

section Handlers

variable [JsonSchema] [SerdeYaml]

omit [JsonSchema] in
theorem spec_of_parsed {yaml : String} {spec : ConfigSpec} {f : String → Status}
    (h : (match SerdeYaml.fromStr yaml with
      | .ok spec => .ok spec
      | .error e => .error (f e) : Except Status ConfigSpec) = .ok spec) :
    SerdeYaml.fromStr yaml = .ok spec := by
  cases hy : SerdeYaml.fromStr yaml with
  | ok spec' =>
    rw [hy] at h
    cases h
    rfl
  | error e =>
    rw [hy] at h
    cases h

/-- **What `Apply` does**: a gate before the reads stops it, or it goes on as `apply_spec`. -/
theorem handleApply_ends {table : SchemaTable} {req : ApplyRequest} {tp : Option String} {tr : KubeTrace}
    {r : Except Status ApplyResponse} (h : Ends (handleApply table req tp) tr r) :
    (tr = [] ∧ (∃ st, r = .error st) ∧ ∀ spec, SerdeYaml.fromStr req.yamlContent = .ok spec →
        validateAgainstSchema table req.key spec ≠ .ok ()) ∨
      ∃ spec, SerdeYaml.fromStr req.yamlContent = .ok spec ∧
        validateAgainstSchema table req.key spec = .ok () ∧ Ends (applySpec req.key spec tp) tr r := by
  unfold handleApply applyInner at h
  rw [ends_liftExcept_bind] at h
  rcases h with ⟨e, he, rfl, rfl⟩ | ⟨spec, hspec, h⟩
  · refine .inl ⟨rfl, ⟨e, rfl⟩, fun spec hspec => ?_⟩
    rw [hspec] at he
    cases he
  · have hparse := spec_of_parsed hspec
    rw [ends_liftExcept_bind] at h
    rcases h with ⟨e, he, rfl, rfl⟩ | ⟨_, hvalid, h⟩
    · refine .inl ⟨rfl, ⟨e, rfl⟩, fun spec' hspec' hok => ?_⟩
      rw [hparse] at hspec'
      cases hspec'
      rw [hok] at he
      cases he
    · exact .inr ⟨spec, hparse, hvalid, h⟩

omit [SerdeYaml] in
theorem validateAgainstSchema_ok {table : SchemaTable} {key : Key} {spec : ConfigSpec} :
    validateAgainstSchema table key spec = .ok () ↔
      table.validate key.ns key.name spec.content = .ok () := by
  unfold validateAgainstSchema
  split
  · rename_i h
    exact ⟨fun _ => h, fun _ => rfl⟩
  · rename_i errors h
    rw [h]
    constructor
    · intro hc
      cases hc
    · intro hc
      cases hc

omit [JsonSchema] in
/-- **What `DryRunApply` does**: it stops before it reads, or it reads once and compares. -/
theorem handleDryRunApply_ends {req : ApplyRequest} {tr : KubeTrace}
    {r : Except Status DryRunApplyResponse} (h : Ends (handleDryRunApply req) tr r) :
    (tr = [] ∧ (∃ st, r = .error st) ∧ ∀ spec, SerdeYaml.fromStr req.yamlContent ≠ .ok spec) ∨
      ∃ spec a, SerdeYaml.fromStr req.yamlContent = .ok spec ∧ tr = [⟨.get req.key, a⟩] ∧
        ((∃ obj, a = .ok obj ∧ r = dryRunResponse (some obj) spec) ∨
          (∃ e, a = .error e ∧ apiStatusCode e = some 404 ∧ r = dryRunResponse none spec) ∨
          ∃ e st, a = .error e ∧ apiStatusCode e ≠ some 404 ∧ r = .error st) := by
  unfold handleDryRunApply KubeM.op at h
  rw [ends_liftExcept_bind] at h
  rcases h with ⟨e, he, rfl, rfl⟩ | ⟨spec, hspec, h⟩
  · refine .inl ⟨rfl, ⟨e, rfl⟩, fun spec hspec => ?_⟩
    rw [hspec] at he
    cases he
  · have hparse := spec_of_parsed hspec
    rw [ends_op_bind] at h
    obtain ⟨a, tr', rfl, h⟩ := h
    refine .inr ⟨spec, a, hparse, ?_⟩
    cases a with
    | ok obj =>
      obtain ⟨rfl, rfl⟩ := ends_liftExcept.mp h
      exact ⟨rfl, .inl ⟨obj, rfl, rfl⟩⟩
    | error e =>
      by_cases h404 : apiStatusCode e = some 404
      · simp only [h404, if_true] at h
        obtain ⟨rfl, rfl⟩ := ends_liftExcept.mp h
        exact ⟨rfl, .inr (.inl ⟨e, rfl, h404, rfl⟩)⟩
      · simp only [h404, if_false] at h
        rw [ends_bind] at h
        rcases h with ⟨st, rfl, h⟩ | ⟨tr₁, tr₂, b, rfl, h₁, _⟩
        · obtain ⟨rfl, _⟩ := ends_throw.mp h
          exact ⟨rfl, .inr (.inr ⟨e, st, rfl, h404, rfl⟩)⟩
        · obtain ⟨_, hb⟩ := ends_throw.mp h₁
          cases hb

end Handlers

/-! ### API servers -/

/-- An API server on which every request can fail, a write before or after it is carried
out. -/
inductive Cluster.Behaves : Cluster → (o : KubeOp) → o.Resp → Cluster → Prop
  | answered {s s' : Cluster} {o : KubeOp} {r : o.Resp} : s.Answer o r s' → Behaves s o r s'
  | patchLost {s : Cluster} {key : Key} {body : Value} {obj : DynamicObject} {e : KubeError} :
      versionField obj.data = versionField body →
      Behaves s (.patch key body) (.error e) (Function.update s key (some obj))

/-- An API server that answers every request. -/
inductive Cluster.Serves : Cluster → (o : KubeOp) → o.Resp → Cluster → Prop
  | found {s : Cluster} {key : Key} {obj : DynamicObject} :
      s key = some obj → Serves s (.get key) (.ok obj) s
  | missing {s : Cluster} {key : Key} {e : KubeError} :
      s key = none → e.code = some 404 → Serves s (.get key) (.error e) s
  | patched {s : Cluster} {key : Key} {body : Value} {obj : DynamicObject} :
      versionField obj.data = versionField body →
      Serves s (.patch key body) (.ok obj) (Function.update s key (some obj))
  | listed {s : Cluster} {ns name rv : String} {r : Except KubeError (List DynamicObject)} :
      Serves s (.list ns name rv) r s

theorem Cluster.Serves.answer {s s' : Cluster} {o : KubeOp} {r : o.Resp} (h : s.Serves o r s') :
    s.Answer o r s' := by
  cases h with
  | found h => exact .getFound h
  | missing h₁ h₂ => exact .getMissing h₁ h₂
  | patched h => exact .patched h
  | listed => exact .listed

theorem Cluster.serves_total (s : Cluster) (o : KubeOp) : ∃ r s', s.Serves o r s' := by
  cases o with
  | get key =>
    cases h : s key with
    | none => exact ⟨.error ⟨some 404, ""⟩, s, .missing h rfl⟩
    | some obj => exact ⟨.ok obj, s, .found h⟩
  | patch key body => exact ⟨.ok ⟨{}, body⟩, _, .patched rfl⟩
  | list ns name rv => exact ⟨.ok [], s, .listed⟩

/-- The stored version as the handlers read it. -/
def Cluster.readVersion (s : Cluster) (key : Key) : UInt32 :=
  ((s key).map parseSchemaVersionFromObject).getD 0

/-- A served read tells the stored version. -/
theorem Cluster.Serves.read {s s' : Cluster} {key : Key} {a : Except KubeError DynamicObject}
    (h : s.Serves (.get key) a s') : s' = s ∧ Konfig.readVersion a = .ok (s.readVersion key) := by
  cases h with
  | found h => simp [Konfig.readVersion, Cluster.readVersion, h]
  | missing h₁ h₂ => simp [Konfig.readVersion, Cluster.readVersion, h₁, apiStatusCode, h₂]

/-- A served patch is accepted. -/
theorem Cluster.Serves.write {s s' : Cluster} {key : Key} {body : Value}
    {a : Except KubeError DynamicObject} (h : s.Serves (.patch key body) a s') :
    ∃ obj, a = .ok obj ∧ versionField obj.data = versionField body ∧
      s' = Function.update s key (some obj) := by
  cases h with
  | patched h => exact ⟨_, rfl, h, rfl⟩

/-- A server that answers every request refuses no patch. -/
theorem refusals_served {key : Key} {body : Value} {errs : List KubeError} {tr : KubeTrace}
    {s s' : Cluster} (h : Answered Cluster.Serves s (refusals key body errs ++ tr) s') : errs = [] := by
  cases errs with
  | nil => rfl
  | cons e errs =>
    obtain ⟨m, hm, _⟩ := answered_cons.mp h
    obtain ⟨_, he, _⟩ := hm.write
    cases he

/-! ### A write from its parts -/

theorem patchWithRetry_accepted (key : Key) (body : Value) (obj : DynamicObject) :
    Ends (patchWithRetry key body) [accepted key body obj] (.ok (obj.metadata.resourceVersion.getD "")) := by
  show Ends (runPatchRetryLoop (patchAttempt key body) 0) _ _
  rw [runPatchRetryLoop, ends_bind]
  exact .inr ⟨[accepted key body obj], [], _, rfl, patchAttempt_ends.mpr ⟨.ok obj, rfl, rfl⟩,
    ends_pure.mpr ⟨rfl, rfl⟩⟩

theorem patchWithRetry_refused (key : Key) (body : Value) {e : KubeError} (he : e.code ≠ some 409) :
    Ends (patchWithRetry key body) (refusals key body [e])
      (.error ⟨.unavailable, "kube patch error: " ++ e.display⟩) := by
  show Ends (runPatchRetryLoop (patchAttempt key body) 0) _ _
  have hclass : classifyPatchError e 0 = .unavailable := if_pos he
  rw [runPatchRetryLoop, ends_bind]
  refine .inr ⟨refusals key body [e], [], _, rfl, patchAttempt_ends.mpr ⟨.error e, rfl, rfl⟩, ?_⟩
  simp only [Except.map]
  split
  · rename_i d hd
    rw [hclass] at hd
    cases hd
  · rename_i hd
    rw [hclass] at hd
    cases hd
  · exact ends_throw.mpr ⟨rfl, rfl⟩

/-- One write from its two parts. -/
theorem applySpec_run {key : Key} {spec : ConfigSpec} {tp : Option String}
    {a : Except KubeError DynamicObject} {c : UInt32} {tr : KubeTrace} {r : Except Status String}
    (ha : readVersion a = .ok c) (hlt : c < spec.schemaVersion)
    (h : Ends (patchWithRetry key (patchBody key spec tp)) tr r) :
    Ends (applySpec key spec tp) (⟨.get key, a⟩ :: tr) (r.map ApplyResponse.mk) := by
  unfold applySpec
  rw [ends_bind]
  refine .inr ⟨[⟨.get key, a⟩], tr, c, rfl, fetch_ends.mpr ⟨a, rfl, ha.symm⟩, ?_⟩
  rw [ends_liftExcept_bind]
  exact .inr ⟨(), schemaVersionDecision_ok.mpr hlt, ends_bind_pure.mpr ⟨r, rfl, h⟩⟩

/-- A write whose patch is accepted. -/
theorem applySpec_accepted_of {key : Key} {spec : ConfigSpec} {a : Except KubeError DynamicObject} {c : UInt32}
    (ha : readVersion a = .ok c) (hlt : c < spec.schemaVersion) (tp : Option String) (obj : DynamicObject) :
    Ends (applySpec key spec tp) [⟨.get key, a⟩, accepted key (patchBody key spec tp) obj]
      (.ok ⟨obj.metadata.resourceVersion.getD ""⟩) :=
  applySpec_run ha hlt (patchWithRetry_accepted key _ obj)

end Konfig
