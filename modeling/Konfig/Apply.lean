import Konfig.Types
import Konfig.Policy.Schema
import Konfig.Lib.Proc

/-!
# Apply, BatchApply and DryRunApply

`grpc/apply.rs`.  A handler is a process over the operations of the Kubernetes
API (`KubeOp`), so that the interleavings of concurrent calls are the runs of a
pool of processes.  The version gate `schemaVersionDecision` decides on a value
that was read by one operation, and the write is another one.

The YAML parser is not in this repository; `SerdeYaml` is its interface.  A
handler takes the trace context of its span (`traceparent`) as an argument;
sleeping between two attempts of a patch is not an operation.
-/

namespace Konfig

open Lib

/-! ### The Kubernetes API -/

/-- The requests konfig makes: a read, a forced server-side apply, and a list of
one object at an exact revision. -/
inductive KubeOp
  | get (key : Key)
  | patch (key : Key) (body : Value)
  | list (ns name resourceVersion : String)

abbrev KubeOp.Resp : KubeOp → Type
  | .get _ => Except KubeError DynamicObject
  | .patch _ _ => Except KubeError DynamicObject
  | .list _ _ _ => Except KubeError (List DynamicObject)

/-- A call in progress. -/
abbrev KubeM := ExceptT Status (Proc KubeOp KubeOp.Resp)

def KubeM.op (o : KubeOp) : KubeM o.Resp := ExceptT.lift (Proc.op o)

/-- `serde_yaml::from_str::<ConfigSpec>`, with the `Display` text of its error. -/
class SerdeYaml where
  fromStr : String → Except String ConfigSpec

/-! ### The version gate -/

/-- `parse_schema_version_from_object`: a missing or non-numeric version is `0`,
a larger one is cut to 32 bits. -/
def parseSchemaVersionFromObject (obj : DynamicObject) : UInt32 :=
  ((((obj.data.get "spec").bind (·.get "schema_version")).bind Value.asU64).getD 0).toUInt32

def fetchCurrentSchemaVersion (key : Key) : KubeM UInt32 := do
  match ← KubeM.op (.get key) with
  | .ok obj => pure (parseSchemaVersionFromObject obj)
  | .error e =>
    if apiStatusCode e = some 404 then pure 0
    else throw ⟨.unavailable, "kube error: " ++ e.display⟩

def schemaVersionDecision (incoming current : UInt32) : Except Status Unit :=
  if incoming ≤ current then
    .error ⟨.failedPrecondition, "schema_version must be > " ++ toString current.toNat ++ "; got " ++
      toString incoming.toNat⟩
  else .ok ()

theorem schemaVersionDecision_ok {incoming current : UInt32} :
    schemaVersionDecision incoming current = .ok () ↔ current < incoming := by
  unfold schemaVersionDecision
  rw [← UInt32.not_le]
  split <;> simp_all

/-! ### The patch loop -/

def RETRY_DELAYS_MS : List Nat := [100, 200]

inductive PatchRetryDecision
  | retryAfter (delayMs : Nat)
  | abortRetriesExhausted
  | unavailable
  deriving DecidableEq, Repr

def classifyPatchError (err : KubeError) (attempt : Nat) : PatchRetryDecision :=
  if apiStatusCode err ≠ some 409 then .unavailable
  else
    match RETRY_DELAYS_MS[attempt]? with
    | some delayMs => .retryAfter delayMs
    | none => .abortRetriesExhausted

theorem lt_of_classify_retry {err : KubeError} {attempt d : Nat}
    (h : classifyPatchError err attempt = .retryAfter d) : attempt < RETRY_DELAYS_MS.length := by
  unfold classifyPatchError at h
  split at h
  · cases h
  · split at h
    · rename_i hd
      exact (List.getElem?_eq_some_iff.mp hd).1
    · cases h

/-- `run_patch_retry_loop` from one attempt on. -/
def runPatchRetryLoop (doPatch : KubeM (Except KubeError String)) (attempt : Nat) : KubeM String := do
  match ← doPatch with
  | .ok rv => pure rv
  | .error e =>
    match h : classifyPatchError e attempt with
    | .retryAfter _ => runPatchRetryLoop doPatch (attempt + 1)
    | .abortRetriesExhausted => throw ⟨.aborted, "409 Conflict — exceeded max retries"⟩
    | .unavailable => throw ⟨.unavailable, "kube patch error: " ++ e.display⟩
termination_by RETRY_DELAYS_MS.length - attempt
decreasing_by
  have := lt_of_classify_retry h
  omega

def patchWithRetry (key : Key) (body : Value) : KubeM String :=
  runPatchRetryLoop (do
    let r ← KubeM.op (.patch key body)
    pure (r.map fun obj => obj.metadata.resourceVersion.getD "")) 0

/-- It starts with an attempt. -/
theorem patchWithRetry_run (key : Key) (body : Value) :
    ∃ k, (patchWithRetry key body).run = .call (.patch key body) k := by
  unfold patchWithRetry
  rw [runPatchRetryLoop]
  exact ⟨_, rfl⟩

/-- The rule of the patch loop: `I` holds at each attempt, if an attempt that fails keeps
it. -/
theorem wpOk_patchWithRetry {G : Type} {upd : G → (o : KubeOp) → o.Resp → G} {pre : G → KubeOp → Prop}
    {key : Key} {body : Value} (I : G → Prop) (hpre : ∀ g, I g → pre g (.patch key body))
    (hkeep : ∀ g e, I g → I (upd g (.patch key body) (.error e))) {g : G} (hg : I g) :
    Proc.wpOk upd pre (patchWithRetry key body) (fun _ _ => True) g := by
  -- the induction is on the attempts that are left
  have hloop : ∀ (left attempt : Nat), RETRY_DELAYS_MS.length - attempt = left → ∀ g, I g →
      Proc.wpOk upd pre (runPatchRetryLoop (do
        let r ← KubeM.op (.patch key body)
        pure (r.map fun obj => obj.metadata.resourceVersion.getD "")) attempt) (fun _ _ => True) g := by
    intro left
    induction left using Nat.strongRecOn with
    | ind left ih =>
      intro attempt hleft g hg
      rw [runPatchRetryLoop]
      refine Proc.wpOk_bind _ _ (Proc.wpOk_bind _ _ (Proc.wpOk_op _ _ (hpre g hg) fun r => ?_))
      refine Proc.wpOk_pure _ _ ?_
      cases r with
      | ok obj => exact Proc.wpOk_pure _ _ trivial
      | error e =>
        simp only [Except.map]
        split
        · rename_i d hd
          have := lt_of_classify_retry hd
          exact ih (left - 1) (by omega) (attempt + 1) (by omega) _ (hkeep g e hg)
        · exact Proc.wpOk_throw _ _
        · exact Proc.wpOk_throw _ _
  exact hloop _ 0 rfl g hg

/-! ### Apply -/

/-- The server-side apply document of a config. -/
def patchBody (key : Key) (spec : ConfigSpec) (traceparent : Option String) : Value :=
  let metadata : List (String × Value) := [("name", .string key.name), ("namespace", .string key.ns)]
  let annotations := match traceparent with
    | some tp => [("annotations", .object [("konfig.io/traceparent", .string tp)])]
    | none => []
  .object [("apiVersion", .string "konfig.io/v1"), ("kind", .string "Config"),
    ("metadata", .object (metadata ++ annotations)), ("spec", spec.toValue)]

structure ApplyResponse where
  resourceVersion : String

def applySpec (key : Key) (spec : ConfigSpec) (traceparent : Option String) :
    KubeM ApplyResponse := do
  let current ← fetchCurrentSchemaVersion key
  liftM (schemaVersionDecision spec.schemaVersion current)
  let resourceVersion ← patchWithRetry key (patchBody key spec traceparent)
  return { resourceVersion }

section Schemas

variable [JsonSchema]

def validateAgainstSchema (table : SchemaTable) (key : Key) (spec : ConfigSpec) :
    Except Status Unit :=
  match table.validate key.ns key.name spec.content with
  | .ok () => .ok ()
  | .error errors => .error ⟨.failedPrecondition,
      "content does not satisfy registered JSON Schema for " ++ key.ns ++ "/" ++ key.name ++ ": " ++
        "; ".intercalate errors⟩

variable [SerdeYaml]

structure ApplyRequest where
  key : Key
  yamlContent : String

def applyInner (table : SchemaTable) (req : ApplyRequest) (traceparent : Option String) :
    KubeM ApplyResponse := do
  let spec ← liftM (match SerdeYaml.fromStr req.yamlContent with
    | .ok spec => .ok spec
    | .error e => .error ⟨.invalidArgument, "invalid YAML: " ++ e⟩ : Except Status ConfigSpec)
  liftM (validateAgainstSchema table req.key spec)
  applySpec req.key spec traceparent

/-- `handle_apply`. -/
def handleApply (table : SchemaTable) (req : ApplyRequest) (traceparent : Option String) :
    KubeM ApplyResponse := applyInner table req traceparent

/-! ### BatchApply -/

structure BatchItem where
  key : Key
  spec : ConfigSpec

/-- The loop of `parse_batch_items`; `seen` are the targets before this one. -/
def parseItems (seen : List Key) : List ApplyRequest → Except Status (List BatchItem)
  | [] => .ok []
  | req :: reqs =>
    if req.key ∈ seen then
      .error ⟨.invalidArgument, "duplicate item " ++ req.key.ns ++ "/" ++ req.key.name ++
        " in batch — two writes to one target is ambiguous"⟩
    else
      match SerdeYaml.fromStr req.yamlContent with
      | .error e => .error ⟨.invalidArgument,
          "invalid YAML for " ++ req.key.ns ++ "/" ++ req.key.name ++ ": " ++ e⟩
      | .ok spec => do
        let items ← parseItems (req.key :: seen) reqs
        return { key := req.key, spec } :: items

def parseBatchItems (reqs : List ApplyRequest) : Except Status (List BatchItem) :=
  if reqs.isEmpty then .error ⟨.invalidArgument, "batch must contain at least one item"⟩
  else parseItems [] reqs

/-- The schema gate of `handle_batch_apply`. -/
def validateItems (table : SchemaTable) : List BatchItem → Except Status Unit
  | [] => .ok ()
  | item :: items => do
    validateAgainstSchema table item.key item.spec
    validateItems table items

/-- The reads of the version gate. -/
def fetchCurrents : List BatchItem → KubeM (List UInt32)
  | [] => pure []
  | item :: items => do
    let current ← fetchCurrentSchemaVersion item.key
    let currents ← fetchCurrents items
    return current :: currents

def gateBatchVersions : List BatchItem → List UInt32 → Except Status Unit
  | item :: items, current :: currents => do
    schemaVersionDecision item.spec.schemaVersion current
    gateBatchVersions items currents
  | _, _ => .ok ()

def sortBatchItems (items : List BatchItem) : List BatchItem :=
  items.mergeSort fun a b =>
    decide (a.key.ns < b.key.ns) || (a.key.ns == b.key.ns && decide (a.key.name ≤ b.key.name))

structure BatchApplyResult where
  key : Key
  resourceVersion : String

/-- The writes of `handle_batch_apply`, one after the other. -/
def applyItems (traceparent : Option String) : List BatchItem → KubeM (List BatchApplyResult)
  | [] => pure []
  | item :: items => do
    let resp ← applySpec item.key item.spec traceparent
    let results ← applyItems traceparent items
    return { key := item.key, resourceVersion := resp.resourceVersion } :: results

def handleBatchApply (table : SchemaTable) (reqs : List ApplyRequest) (traceparent : Option String) :
    KubeM (List BatchApplyResult) := do
  let items ← liftM (parseBatchItems reqs)
  liftM (validateItems table items)
  let currents ← fetchCurrents items
  liftM (gateBatchVersions items currents)
  applyItems traceparent (sortBatchItems items)

/-! ### DryRunApply -/

structure DryRunApplyResponse where
  currentContentJson : String
  proposedContentJson : String
  currentSchemaVersion : UInt32
  proposedSchemaVersion : UInt32

def extractCurrentContentJson (obj : DynamicObject) : String :=
  match (obj.data.get "spec").bind (·.get "content") with
  | some content => content.render
  | none => ""

def dryRunResponse (current : Option DynamicObject) (spec : ConfigSpec) :
    Except Status DryRunApplyResponse := do
  let currentSchemaVersion := (current.map parseSchemaVersionFromObject).getD 0
  schemaVersionDecision spec.schemaVersion currentSchemaVersion
  return {
    currentContentJson := (current.map extractCurrentContentJson).getD ""
    proposedContentJson := spec.content.render
    currentSchemaVersion
    proposedSchemaVersion := spec.schemaVersion }

def handleDryRunApply (req : ApplyRequest) : KubeM DryRunApplyResponse := do
  let spec ← liftM (match SerdeYaml.fromStr req.yamlContent with
    | .ok spec => .ok spec
    | .error e => .error ⟨.invalidArgument, "invalid YAML: " ++ e⟩ : Except Status ConfigSpec)
  let current ← match ← KubeM.op (.get req.key) with
    | .ok obj => pure (some obj)
    | .error e =>
      if apiStatusCode e = some 404 then pure none
      else throw ⟨.unavailable, "kube error: " ++ e.display⟩
  liftM (dryRunResponse current spec)

end Schemas

end Konfig
