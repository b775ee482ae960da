import Konfig.Cache
import Konfig.Revert
import Konfig.Policy.Acl
import Konfig.Policy.Rate
import Konfig.Policy.Subscribers
import Konfig.Secrets.Apply
import Konfig.Secrets.Session

/-!
# The RPCs

`grpc/service.rs`: the eleven methods of `KonfigService`, each with its own sequence of
guards, its handler and its audit records.  A method is a process over what it can do
beyond its own memory (`ServiceOp`): requests to the API server, reads of a cache, response
streams, the two quotas and the audit sinks.  The guards read the server's state as it is
when the call starts.

A stream is one operation: its response is what the stream delivers.  Spans, metrics, log
lines, timestamps and the accounting of cache bytes are left out.
-/

namespace Konfig

open Lib

/-! ### Audit records -/

structure AuditRecord where
  rpc : String
  ns : String
  name : String
  clientIdentity : String
  clientAddr : String
  result : String
  schemaVersion : Option UInt32
  resourceVersion : Option String
  requestId : String
  deriving DecidableEq, Repr

/-- `code_snake`. -/
def codeSnake : Code → String
  | .invalidArgument => "invalid_argument"
  | .notFound => "not_found"
  | .failedPrecondition => "failed_precondition"
  | .aborted => "aborted"
  | .internal => "internal"
  | .unavailable => "unavailable"
  | .dataLoss => "data_loss"
  | .resourceExhausted => "resource_exhausted"
  | .permissionDenied => "permission_denied"

/-- `result_str`. -/
def resultStr {α : Type} : Except Status α → String
  | .ok _ => "success"
  | .error status => "error:" ++ codeSnake status.code

/-- `resource_version_of`: an empty version counts as none. -/
def resourceVersionOf {α : Type} (result : Except Status α) (extract : α → String) : Option String :=
  (result.toOption.map extract).filter fun rv => rv ≠ ""

/-- `parse_config_schema_version`. -/
def parseConfigSchemaVersion [SerdeYaml] (yamlContent : String) : Option UInt32 :=
  (SerdeYaml.fromStr yamlContent).toOption.map (·.schemaVersion)

/-- `parse_secret_schema_version` of `grpc/context.rs`. -/
def parseSecretYamlVersion [SecretYaml] (yamlContent : String) : Option UInt32 :=
  (SecretYaml.fromStr yamlContent).toOption.bind fun m => (m.lookup "schema_version").bind parseU32

/-! ### Operations -/

structure SubscribeRequest where
  ns : String
  names : List String
  labelSelector : String
  resumeResourceVersion : String

/-- What a call does beyond its own memory. -/
inductive ServiceOp
  | kube (o : KubeOp)
  | secretKube (o : SecretOp)
  /-- `ConfigCache::get`, with a reading of the clock. -/
  | getConfig (key : Key)
  /-- `ConfigCache::all_in_namespace`, into a response stream. -/
  | allConfigs (ns : String)
  /-- `SecretCache::get`, with a reading of the clock. -/
  | getSecret (key : Key)
  /-- `SecretCache::all_in_namespace`, into a response stream. -/
  | allSecrets (ns : String)
  /-- `handle_subscribe`: it fails, or its stream delivers events. -/
  | subscribe (req : SubscribeRequest)
  /-- `handle_subscribe_secrets`. -/
  | subscribeSecrets (req : SubscribeSecretsRequest)
  /-- `apply_admission`. -/
  | applyAdmission (identity : String) (cost : UInt32)
  /-- `KonfigServer::admit_subscriber`. -/
  | admitSubscriber (identity : String)
  /-- `audit::emit`. -/
  | audit (record : AuditRecord)
  /-- The `POST` of `maybe_emit_k8s_event`. -/
  | k8sEvent (record : AuditRecord)

abbrev ServiceOp.Resp : ServiceOp → Type
  | .kube o => o.Resp
  | .secretKube o => o.Resp
  | .getConfig _ => Option ConfigSnapshot × Instant
  | .allConfigs _ => List ConfigSnapshot
  | .getSecret _ => Option SecretSnapshot × Instant
  | .allSecrets _ => List SecretSnapshot
  | .subscribe _ => Except Status (List ConfigEvent)
  | .subscribeSecrets _ => Except Status (List SecretEvent)
  | .applyAdmission _ _ => ApplyOutcome
  | .admitSubscriber _ => Except Status (Option Admit)
  | .audit _ => Unit
  | .k8sEvent _ => Unit

/-- A call in progress. -/
abbrev ServiceM := ExceptT Status (Proc ServiceOp ServiceOp.Resp)

namespace ServiceM

variable {α : Type}

def op (o : ServiceOp) : ServiceM o.Resp := ExceptT.lift (Proc.op o)

/-- A handler that talks to the API server. -/
def kube (x : KubeM α) : ServiceM α := ExceptT.mk (x.run.embed .kube fun _ r => r)

def secretKube (x : SecretM α) : ServiceM α := ExceptT.mk (x.run.embed .secretKube fun _ r => r)

/-- The outcome of a handler as a value, to be audited and then returned. -/
def outcome (x : ServiceM α) : ServiceM (Except Status α) := ExceptT.lift x.run

end ServiceM

/-! ### The server and its caller -/

variable [JsonSchema]

/-- What the guards and the handlers read of `KonfigServer`.  `k8sEvents` is the
environment flag `KONFIG_AUDIT_K8S_EVENTS`. -/
structure KonfigServer where
  draining : Bool
  authzMode : Mode
  aclTable : AclTable
  aclSynced : Bool
  schemaTable : SchemaTable
  quotaMode : QuotaMode
  quotaTable : QuotaTable
  quotaSynced : Bool
  defaultMaxSubscribers : UInt32
  defaultMaxAppliesPerSecond : UInt32
  k8sEvents : Bool

/-- What is read of a request beside its message: `extract_identity`, `client_addr`,
`request_id` and the trace context. -/
structure Caller where
  identity : ClientIdentity
  addr : String
  requestId : String
  traceparent : Option String

/-! ### Guards -/

namespace KonfigServer

/-- `check_drain`. -/
def checkDrain (srv : KonfigServer) : Except Status Unit :=
  if srv.draining then .error ⟨.unavailable, "server draining"⟩ else .ok ()

def authorize (srv : KonfigServer) (caller : Caller) (verb : Verb) (ns name : String) :
    Except Status Unit :=
  if srv.authzMode = .disabled then .ok ()
  else check srv.authzMode srv.aclTable srv.aclSynced caller.identity verb ns name

/-- The loop of `batch_apply` over its items. -/
def authorizeAll (srv : KonfigServer) (caller : Caller) : List ApplyRequest → Except Status Unit
  | [] => .ok ()
  | item :: items => do
    srv.authorize caller .write item.key.ns item.key.name
    srv.authorizeAll caller items

end KonfigServer

/-- `rate_limit_apply`. -/
def rateLimitApply (caller : Caller) (cost : UInt32) : ServiceM Unit := do
  match ← ServiceM.op (.applyAdmission caller.identity.id cost) with
  | .allowed => pure ()
  | .overBudget _ _ => pure ()
  | .denied rate burst => throw ⟨.resourceExhausted,
      s!"tenant apply rate exhausted (rate={rate.toNat}/s, burst={burst.toNat}, cost={cost.toNat})"⟩

/-! ### Audits -/

/-- `audit::emit` and `maybe_emit_k8s_event`. -/
def emitMutation (srv : KonfigServer) (record : AuditRecord) : ServiceM Unit := do
  ServiceM.op (.audit record)
  if srv.k8sEvents then ServiceM.op (.k8sEvent record) else pure ()

/-- The record of one target of a call. -/
def auditRecord (caller : Caller) (rpc : String) (key : Key) (result : String)
    (schemaVersion : Option UInt32) (resourceVersion : Option String) : AuditRecord :=
  { rpc, ns := key.ns, name := key.name, clientIdentity := caller.identity.id, clientAddr := caller.addr,
    result, schemaVersion, resourceVersion, requestId := caller.requestId }

/-- A mutating handler, the record of its outcome, and the outcome. -/
def audited {α : Type} (srv : KonfigServer) (x : ServiceM α) (record : Except Status α → AuditRecord) :
    ServiceM α := do
  let result ← x.outcome
  emitMutation srv (record result)
  liftM result

/-- The records of `batch_apply`, one per item. -/
def emitItems [SerdeYaml] (srv : KonfigServer) (caller : Caller)
    (result : Except Status (List BatchApplyResult)) : List ApplyRequest → ServiceM Unit
  | [] => pure ()
  | item :: items => do
    let resourceVersion := (result.toOption.bind fun results =>
      (results.find? fun r => r.key = item.key).map (·.resourceVersion)).filter fun rv => rv ≠ ""
    emitMutation srv (auditRecord caller "BatchApply" item.key (resultStr result)
      (parseConfigSchemaVersion item.yamlContent) resourceVersion)
    emitItems srv caller result items

/-! ### The methods -/

namespace KonfigServer

variable [SerdeYaml] [SerdeJson] [SecretYaml]

def get (srv : KonfigServer) (caller : Caller) (key : Key) : ServiceM Config := do
  liftM srv.checkDrain
  liftM (srv.authorize caller .read key.ns key.name)
  match ← ServiceM.op (.getConfig key) with
  | (some snap, now) => pure (snapshotToProto now snap)
  | (none, _) => throw ⟨.notFound, "config " ++ key.ns ++ "/" ++ key.name ++ " not found"⟩

/-- Each message is built when it is sent. -/
def getAll (srv : KonfigServer) (caller : Caller) (ns : String) : ServiceM (List (Instant → Config)) := do
  liftM srv.checkDrain
  liftM (srv.authorize caller .read ns "*")
  let entries ← ServiceM.op (.allConfigs ns)
  return entries.map fun snap now => snapshotToProto now snap

def apply (srv : KonfigServer) (caller : Caller) (req : ApplyRequest) : ServiceM ApplyResponse := do
  liftM srv.checkDrain
  liftM (srv.authorize caller .write req.key.ns req.key.name)
  rateLimitApply caller 1
  audited srv (ServiceM.kube (handleApply srv.schemaTable req caller.traceparent)) fun result =>
    auditRecord caller "Apply" req.key (resultStr result) (parseConfigSchemaVersion req.yamlContent)
      (resourceVersionOf result (·.resourceVersion))

/-- The handler of `batch_apply`, and one record per item. -/
def applyBatch (srv : KonfigServer) (caller : Caller) (items : List ApplyRequest) :
    ServiceM (List BatchApplyResult) := do
  let result ← (ServiceM.kube (handleBatchApply srv.schemaTable items caller.traceparent)).outcome
  emitItems srv caller result items
  liftM result

/-- The cost is `items.len() as u32`. -/
def batchApply (srv : KonfigServer) (caller : Caller) (items : List ApplyRequest) :
    ServiceM (List BatchApplyResult) := do
  liftM srv.checkDrain
  liftM (srv.authorizeAll caller items)
  rateLimitApply caller (UInt32.ofNat items.length)
  srv.applyBatch caller items

def dryRunApply (srv : KonfigServer) (caller : Caller) (req : ApplyRequest) :
    ServiceM DryRunApplyResponse := do
  liftM srv.checkDrain
  liftM (srv.authorize caller .write req.key.ns req.key.name)
  ServiceM.kube (handleDryRunApply req)

/-- There is no `check_drain` here, and no `rate_limit_apply`. -/
def revert (srv : KonfigServer) (caller : Caller) (req : RevertRequest) : ServiceM RevertResponse := do
  liftM (srv.authorize caller .write req.key.ns req.key.name)
  audited srv (ServiceM.kube (handleRevert req caller.traceparent)) fun result =>
    auditRecord caller "Revert" req.key (resultStr result) none
      (resourceVersionOf result (·.resourceVersion))

def subscribe (srv : KonfigServer) (caller : Caller) (req : SubscribeRequest) :
    ServiceM (List ConfigEvent) := do
  liftM srv.checkDrain
  liftM (srv.authorize caller .read req.ns "*")
  let guarded ← ServiceM.op (.admitSubscriber caller.identity.id)
  let _ ← (liftM guarded : ServiceM (Option Admit))
  let stream ← ServiceM.op (.subscribe req)
  liftM stream

def getSecret (srv : KonfigServer) (caller : Caller) (key : Key) : ServiceM SecretResponse := do
  liftM srv.checkDrain
  liftM (srv.authorize caller .read key.ns key.name)
  let (found, now) ← ServiceM.op (.getSecret key)
  let result : Except Status SecretResponse := match found with
    | some snap => .ok (secretSnapshotToProto now snap)
    | none => .error ⟨.notFound, "secret " ++ key.ns ++ "/" ++ key.name ++ " not found"⟩
  ServiceM.op (.audit (auditRecord caller "GetSecret" key (resultStr result) none
    (resourceVersionOf result (·.resourceVersion))))
  liftM result

def getAllSecrets (srv : KonfigServer) (caller : Caller) (ns : String) :
    ServiceM (List (Instant → SecretResponse)) := do
  liftM srv.checkDrain
  liftM (srv.authorize caller .read ns "*")
  let entries ← ServiceM.op (.allSecrets ns)
  let result : Except Status (List (Instant → SecretResponse)) :=
    .ok (entries.map fun snap now => secretSnapshotToProto now snap)
  ServiceM.op (.audit (auditRecord caller "GetAllSecrets" ⟨ns, "*"⟩ (resultStr result) none none))
  liftM result

def applySecret (srv : KonfigServer) (caller : Caller) (req : ApplySecretRequest) :
    ServiceM ApplySecretResponse := do
  liftM srv.checkDrain
  liftM (srv.authorize caller .write req.key.ns req.key.name)
  rateLimitApply caller 1
  audited srv (ServiceM.secretKube (handleApplySecret req)) fun result =>
    auditRecord caller "ApplySecret" req.key (resultStr result) (parseSecretYamlVersion req.yamlContent)
      (resourceVersionOf result (·.resourceVersion))

def subscribeSecrets (srv : KonfigServer) (caller : Caller) (req : SubscribeSecretsRequest) :
    ServiceM (List SecretEvent) := do
  liftM srv.checkDrain
  liftM (srv.authorize caller .read req.ns "*")
  let guarded ← ServiceM.op (.admitSubscriber caller.identity.id)
  let _ ← (liftM guarded : ServiceM (Option Admit))
  let result ← ServiceM.op (.subscribeSecrets req)
  ServiceM.op (.audit (auditRecord caller "SubscribeSecrets" ⟨req.ns, "*"⟩ (resultStr result) none none))
  liftM result

end KonfigServer

/-! ### Calls -/

/-- A method of `KonfigService` with its message. -/
inductive Rpc
  | get (key : Key)
  | getAll (ns : String)
  | apply (req : ApplyRequest)
  | batchApply (items : List ApplyRequest)
  | dryRunApply (req : ApplyRequest)
  | revert (req : RevertRequest)
  | subscribe (req : SubscribeRequest)
  | getSecret (key : Key)
  | getAllSecrets (ns : String)
  | applySecret (req : ApplySecretRequest)
  | subscribeSecrets (req : SubscribeSecretsRequest)

/-- The verb of the method. -/
def Rpc.verb : Rpc → Verb
  | .get _ | .getAll _ | .subscribe _ | .getSecret _ | .getAllSecrets _ | .subscribeSecrets _ => .read
  | .apply _ | .batchApply _ | .dryRunApply _ | .revert _ | .applySecret _ => .write

def Rpc.isRevert : Rpc → Bool
  | .revert _ => true
  | _ => false

/-- A call, up to the message it answers with. -/
def KonfigServer.call [SerdeYaml] [SerdeJson] [SecretYaml] (srv : KonfigServer)
    (caller : Caller) : Rpc → ServiceM Unit
  | .get key => do let _ ← srv.get caller key
  | .getAll ns => do let _ ← srv.getAll caller ns
  | .apply req => do let _ ← srv.apply caller req
  | .batchApply items => do let _ ← srv.batchApply caller items
  | .dryRunApply req => do let _ ← srv.dryRunApply caller req
  | .revert req => do let _ ← srv.revert caller req
  | .subscribe req => do let _ ← srv.subscribe caller req
  | .getSecret key => do let _ ← srv.getSecret caller key
  | .getAllSecrets ns => do let _ ← srv.getAllSecrets caller ns
  | .applySecret req => do let _ ← srv.applySecret caller req
  | .subscribeSecrets req => do let _ ← srv.subscribeSecrets caller req

/-- The message that a call answers with.  A stream stands for what it carries. -/
def Rpc.Message : Rpc → Type
  | .get _ => Config
  | .getAll _ => List (Instant → Config)
  | .apply _ => ApplyResponse
  | .batchApply _ => List BatchApplyResult
  | .dryRunApply _ => DryRunApplyResponse
  | .revert _ => RevertResponse
  | .subscribe _ => List ConfigEvent
  | .getSecret _ => SecretResponse
  | .getAllSecrets _ => List (Instant → SecretResponse)
  | .applySecret _ => ApplySecretResponse
  | .subscribeSecrets _ => List SecretEvent

/-- A call with the message it answers with. -/
def KonfigServer.message [SerdeYaml] [SerdeJson] [SecretYaml] (srv : KonfigServer) (caller : Caller) :
    (rpc : Rpc) → ServiceM rpc.Message
  | .get key => srv.get caller key
  | .getAll ns => srv.getAll caller ns
  | .apply req => srv.apply caller req
  | .batchApply items => srv.batchApply caller items
  | .dryRunApply req => srv.dryRunApply caller req
  | .revert req => srv.revert caller req
  | .subscribe req => srv.subscribe caller req
  | .getSecret key => srv.getSecret caller key
  | .getAllSecrets ns => srv.getAllSecrets caller ns
  | .applySecret req => srv.applySecret caller req
  | .subscribeSecrets req => srv.subscribeSecrets caller req

theorem KonfigServer.call_eq_message [SerdeYaml] [SerdeJson] [SecretYaml] (srv : KonfigServer) (caller : Caller)
    (rpc : Rpc) : srv.call caller rpc = (do let _ ← srv.message caller rpc) := by
  cases rpc <;> rfl

end Konfig
