import Konfig.Service.BatchAudit

/-!
# The audit log

Every method runs its gates (`check_drain`, `authorize`, the rate limiter or the
subscriber quota) and then its handler, and the audited ones record what the handler came
to.  A call that a gate turns away returns before anything is captured: it is not audited.

* `call_behind_gates`: a call is its gates and then a body.
* `call_audited`: a call that is turned away leaves no record, and any other leaves one
  per target, with the caller and the outcome the caller got.
-/

namespace Konfig

open Lib Proc

/-! ### Targets and gates -/

/-- The name of a method in its records. -/
def Rpc.method : Rpc → String
  | .get _ => "Get"
  | .getAll _ => "GetAll"
  | .apply _ => "Apply"
  | .batchApply _ => "BatchApply"
  | .dryRunApply _ => "DryRunApply"
  | .revert _ => "Revert"
  | .subscribe _ => "Subscribe"
  | .getSecret _ => "GetSecret"
  | .getAllSecrets _ => "GetAllSecrets"
  | .applySecret _ => "ApplySecret"
  | .subscribeSecrets _ => "SubscribeSecrets"

/-- What a call is to be recorded about: writes of configs and everything about secrets. -/
def Rpc.auditTargets : Rpc → List Key
  | .apply req => [req.key]
  | .batchApply items => items.map (·.key)
  | .revert req => [req.key]
  | .getSecret key => [key]
  | .getAllSecrets ns => [⟨ns, "*"⟩]
  | .applySecret req => [req.key]
  | .subscribeSecrets req => [⟨req.ns, "*"⟩]
  | .get _ | .getAll _ | .dryRunApply _ | .subscribe _ => []

/-- One record per target, with the identity of the caller and the outcome the caller got. -/
structure AuditComplete (caller : Caller) (rpc : Rpc) (r : Except Status Unit)
    (records : List AuditRecord) : Prop where
  targets : records.map AuditRecord.key = rpc.auditTargets
  method : ∀ record ∈ records, record.rpc = rpc.method
  caller : ∀ record ∈ records, record.clientIdentity = caller.identity.id
  success : ∀ record ∈ records, record.result = "success" ↔ r = .ok ()
  failure : ∀ record ∈ records, ∀ st, r = .error st → record.result = "error:" ++ codeSnake st.code

/-- Different codes have different names. -/
theorem codeSnake_injective : Function.Injective codeSnake := by
  intro a b h
  cases a <;> cases b <;> first | rfl | exact absurd h (by decide)

theorem resultStr_map {α β : Type} (f : α → β) (r : Except Status α) : resultStr (r.map f) = resultStr r := by
  cases r <;> rfl

theorem resultStr_success {r : Except Status Unit} : resultStr r = "success" ↔ r = .ok () := by
  cases r with
  | ok u => exact ⟨fun _ => rfl, fun _ => rfl⟩
  | error st =>
    refine ⟨fun h => absurd h (resultStr_error st), fun h => ?_⟩
    cases h

/-- Records that all carry the method, the caller and the result string are complete when
their targets are. -/
theorem auditComplete_of {caller : Caller} {rpc : Rpc} {r : Except Status Unit} {records : List AuditRecord}
    (htargets : records.map AuditRecord.key = rpc.auditTargets)
    (hall : ∀ record ∈ records, record.rpc = rpc.method ∧ record.clientIdentity = caller.identity.id ∧
      record.result = resultStr r) : AuditComplete caller rpc r records where
  targets := htargets
  method record hrec := (hall record hrec).1
  caller record hrec := (hall record hrec).2.1
  success record hrec := by rw [(hall record hrec).2.2, resultStr_success]
  failure record hrec st hst := by
    rw [(hall record hrec).2.2, hst]
    rfl

section Service

variable [JsonSchema] [SerdeYaml] [SerdeJson] [SecretYaml]

/-- What a method does before its handler. -/
def KonfigServer.gates (srv : KonfigServer) (caller : Caller) : Rpc → ServiceM Unit
  | .get key | .getSecret key => do
    liftM srv.checkDrain
    liftM (srv.authorize caller .read key.ns key.name)
  | .getAll ns | .getAllSecrets ns => do
    liftM srv.checkDrain
    liftM (srv.authorize caller .read ns "*")
  | .apply req => do
    liftM srv.checkDrain
    liftM (srv.authorize caller .write req.key.ns req.key.name)
    rateLimitApply caller 1
  | .applySecret req => do
    liftM srv.checkDrain
    liftM (srv.authorize caller .write req.key.ns req.key.name)
    rateLimitApply caller 1
  | .batchApply items => do
    liftM srv.checkDrain
    liftM (srv.authorizeAll caller items)
    rateLimitApply caller (UInt32.ofNat items.length)
  | .dryRunApply req => do
    liftM srv.checkDrain
    liftM (srv.authorize caller .write req.key.ns req.key.name)
  | .revert req => liftM (srv.authorize caller .write req.key.ns req.key.name)
  | .subscribe req => do
    liftM srv.checkDrain
    liftM (srv.authorize caller .read req.ns "*")
    let guarded ← ServiceM.op (.admitSubscriber caller.identity.id)
    let _ ← (liftM guarded : ServiceM (Option Admit))
  | .subscribeSecrets req => do
    liftM srv.checkDrain
    liftM (srv.authorize caller .read req.ns "*")
    let guarded ← ServiceM.op (.admitSubscriber caller.identity.id)
    let _ ← (liftM guarded : ServiceM (Option Admit))

/-! ### Behind the gates -/

/-- Wherever the process ends, it has emitted the records of a complete audit. -/
def Audits (caller : Caller) (rpc : Rpc) (x : ServiceM Unit) : Prop :=
  ∀ tr r, Ends x tr r → AuditComplete caller rpc r (ServiceTrace.records tr)

variable {srv : KonfigServer} {caller : Caller} {rpc : Rpc}

omit [JsonSchema] [SerdeYaml] [SerdeJson] [SecretYaml]

/-- A call without targets is audited by not being recorded. -/
theorem auditComplete_nil {r : Except Status Unit} (h : rpc.auditTargets = []) :
    AuditComplete caller rpc r [] :=
  auditComplete_of (by rw [h]; rfl) fun _ hrec => by cases hrec

/-- One record about one target. -/
theorem auditComplete_singleton {α : Type} {key : Key} (htarget : rpc.auditTargets = [key])
    (result : Except Status α) (schemaVersion : Option UInt32) (resourceVersion : Option String) :
    AuditComplete caller rpc (result.map fun _ => ())
      [auditRecord caller rpc.method key (resultStr result) schemaVersion resourceVersion] := by
  refine auditComplete_of (by rw [htarget]; rfl) fun record hrec => ?_
  rw [List.mem_singleton.mp hrec]
  exact ⟨rfl, rfl, (resultStr_map _ result).symm⟩

/-- The process emits no record. -/
def Quiet {α : Type} (x : ServiceM α) : Prop :=
  ∀ tr r, Ends x tr r → ServiceTrace.records tr = []

theorem quiet_liftExcept {α : Type} (x : Except Status α) : Quiet (liftM x : ServiceM α) := by
  intro tr r h
  rw [(ends_liftExcept.mp h).1]
  rfl

theorem quiet_bind {α β : Type} {x : ServiceM α} {f : α → ServiceM β} (hx : Quiet x)
    (hf : ∀ a, Quiet (f a)) : Quiet (x >>= f) := by
  intro tr r h
  rw [ends_bind] at h
  rcases h with ⟨e, _, h⟩ | ⟨tr₁, tr₂, a, rfl, h₁, h₂⟩
  · exact hx tr _ h
  · rw [ServiceTrace.records_append, hx tr₁ _ h₁, hf a tr₂ r h₂]
    rfl

theorem quiet_op {o : ServiceOp} (ho : ∀ record, o ≠ .audit record) : Quiet (ServiceM.op o) := by
  intro tr r h
  unfold ServiceM.op at h
  obtain ⟨a, rfl, _⟩ := ends_op.mp h
  cases o with
  | audit record => exact absurd rfl (ho record)
  | _ => rfl

theorem quiet_rateLimitApply (caller : Caller) (cost : UInt32) : Quiet (rateLimitApply caller cost) := by
  intro tr r h
  obtain ⟨a, rfl, _⟩ := rateLimitApply_ends h
  rfl

theorem quiet_kube {α : Type} (x : KubeM α) : Quiet (ServiceM.kube x) := by
  intro tr r h
  obtain ⟨tr₀, rfl, _⟩ := kube_ends h
  exact records_onKube tr₀

theorem quiet_secretKube {α : Type} (x : SecretM α) : Quiet (ServiceM.secretKube x) := by
  intro tr r h
  obtain ⟨tr₀, rfl, _⟩ : ∃ tr₀ : List ((o : SecretOp) × o.Resp),
      tr = tr₀.map (fun e => (⟨.secretKube e.1, e.2⟩ : (o : ServiceOp) × o.Resp)) ∧ Ends x tr₀ r :=
    @steps_embed _ _ _ _ _ ServiceOp.secretKube (fun _ r => r) (fun _ r => r) (fun _ _ => rfl) _ _ _ h
  unfold ServiceTrace.records
  rw [List.filterMap_map]
  exact List.filterMap_eq_nil_iff.mpr fun _ _ => rfl

/-- A mutating handler emits no record, and its wrapper one about the outcome. -/
theorem audits_audited [JsonSchema] {srv : KonfigServer} {α : Type} {x : ServiceM α} {key : Key}
    {schemaVersion : Option UInt32} {resourceVersion : Except Status α → Option String}
    (htarget : rpc.auditTargets = [key])
    (hquiet : Quiet x) :
    Audits caller rpc (do
      let _ ← audited srv x fun result =>
        auditRecord caller rpc.method key (resultStr result) schemaVersion (resourceVersion result)) := by
  intro tr r h
  obtain ⟨r', rfl, hx⟩ := ends_bind_pure.mp h
  unfold audited at hx
  rw [ends_bind] at hx
  rcases hx with ⟨e, _, h⟩ | ⟨tr₁, tr₂, result, rfl, h₁, h₂⟩
  · obtain ⟨_, hr, _⟩ := outcome_ends h
    cases hr
  obtain ⟨_, hr, h₁⟩ := outcome_ends h₁
  cases hr
  rw [ends_bind] at h₂
  rcases h₂ with ⟨e, _, h₂⟩ | ⟨tr₃, tr₄, _, rfl, h₂, h₃⟩
  · cases (emitMutation_ends h₂).1
  obtain ⟨rfl, rfl⟩ := ends_liftExcept.mp h₃
  rw [List.append_nil, ServiceTrace.records_append, hquiet _ _ h₁, (emitMutation_ends h₂).2.1, List.nil_append]
  exact auditComplete_singleton htarget r' _ _

/-- A read that is over, and its record. -/
theorem audits_read {α : Type} {key : Key} (htarget : rpc.auditTargets = [key]) (result : Except Status α)
    (resourceVersion : Option String) :
    Audits caller rpc (do
      ServiceM.op (.audit (auditRecord caller rpc.method key (resultStr result) none resourceVersion))
      let _ ← (liftM result : ServiceM α)) := by
  intro tr r h
  unfold ServiceM.op at h
  rw [ends_op_bind] at h
  obtain ⟨_, tr', rfl, h⟩ := h
  obtain ⟨r', rfl, hlift⟩ := ends_bind_pure.mp h
  obtain ⟨rfl, rfl⟩ := ends_liftExcept.mp hlift
  exact auditComplete_singleton htarget r' none resourceVersion

/-- A handler that emits no record, of a method without targets. -/
theorem audits_quiet {α : Type} {x : ServiceM α} (htargets : rpc.auditTargets = [])
    (hquiet : Quiet x) :
    Audits caller rpc (do let _ ← x) := by
  intro tr r h
  obtain ⟨r', rfl, hx⟩ := ends_bind_pure.mp h
  rw [hquiet tr r' hx]
  exact auditComplete_nil htargets

/-- An operation that is no record, before the rest. -/
theorem audits_op_bind {o : ServiceOp} {f : o.Resp → ServiceM Unit} (ho : ∀ record, o ≠ .audit record)
    (h : ∀ a, Audits caller rpc (f a)) : Audits caller rpc (ServiceM.op o >>= f) := by
  intro tr r hend
  rw [ends_bind] at hend
  rcases hend with ⟨e, _, hend⟩ | ⟨tr₁, tr₂, a, rfl, h₁, h₂⟩
  · unfold ServiceM.op at hend
    obtain ⟨_, _, hr⟩ := ends_op.mp hend
    cases hr
  · rw [ServiceTrace.records_append, quiet_op ho tr₁ _ h₁, List.nil_append]
    exact h a tr₂ r h₂

/-! ### The methods -/

variable [JsonSchema] [SerdeYaml] [SerdeJson] [SecretYaml]

/-- **A call is its gates and a body that is audited.** -/
theorem call_behind_gates (srv : KonfigServer) (caller : Caller) (rpc : Rpc) :
    ∃ body, srv.call caller rpc = (do srv.gates caller rpc; body) ∧ Audits caller rpc body := by
  cases rpc with
  | apply req =>
    simp only [KonfigServer.call, KonfigServer.gates, KonfigServer.apply, bind_assoc]
    exact ⟨_, rfl, audits_audited rfl (quiet_kube _)⟩
  | revert req =>
    simp only [KonfigServer.call, KonfigServer.gates, KonfigServer.revert, bind_assoc]
    exact ⟨_, rfl, audits_audited rfl (quiet_kube _)⟩
  | applySecret req =>
    simp only [KonfigServer.call, KonfigServer.gates, KonfigServer.applySecret, bind_assoc]
    exact ⟨_, rfl, audits_audited rfl (quiet_secretKube _)⟩
  | batchApply items =>
    simp only [KonfigServer.call, KonfigServer.gates, KonfigServer.batchApply, bind_assoc]
    refine ⟨_, rfl, fun tr r h => ?_⟩
    obtain ⟨r', rfl, happly⟩ := ends_bind_pure.mp h
    obtain ⟨_, _, _, hrec⟩ := applyBatch_ends happly
    rw [hrec]
    refine auditComplete_of (by rw [List.map_map]; rfl) fun record hmem => ?_
    obtain ⟨item, _, rfl⟩ := List.mem_map.mp hmem
    exact ⟨rfl, rfl, (resultStr_map _ r').symm⟩
  | getSecret key =>
    simp only [KonfigServer.call, KonfigServer.gates, KonfigServer.getSecret, bind_assoc]
    refine ⟨_, rfl, audits_op_bind (fun _ haudit => by cases haudit) fun a => ?_⟩
    exact audits_read rfl _ _
  | getAllSecrets ns =>
    simp only [KonfigServer.call, KonfigServer.gates, KonfigServer.getAllSecrets, bind_assoc]
    refine ⟨_, rfl, audits_op_bind (fun _ haudit => by cases haudit) fun a => ?_⟩
    exact audits_read rfl _ _
  | subscribeSecrets req =>
    simp only [KonfigServer.call, KonfigServer.gates, KonfigServer.subscribeSecrets, bind_assoc, pure_bind]
    refine ⟨_, rfl, audits_op_bind (fun _ haudit => by cases haudit) fun a => ?_⟩
    exact audits_read rfl _ _
  | dryRunApply req =>
    simp only [KonfigServer.call, KonfigServer.gates, KonfigServer.dryRunApply, bind_assoc]
    exact ⟨_, rfl, audits_quiet rfl (quiet_kube _)⟩
  | subscribe req =>
    simp only [KonfigServer.call, KonfigServer.gates, KonfigServer.subscribe, bind_assoc, pure_bind]
    refine ⟨_, rfl, audits_op_bind (fun _ haudit => by cases haudit) fun stream => ?_⟩
    exact audits_quiet rfl (quiet_liftExcept _)
  | getAll ns =>
    simp only [KonfigServer.call, KonfigServer.gates, KonfigServer.getAll, bind_assoc]
    refine ⟨_, rfl, audits_op_bind (fun _ haudit => by cases haudit) fun entries => ?_⟩
    exact audits_quiet rfl (quiet_liftExcept (.ok _))
  | get key =>
    simp only [KonfigServer.call, KonfigServer.gates, KonfigServer.get, bind_assoc]
    refine ⟨_, rfl, audits_op_bind (fun _ haudit => by cases haudit) fun found => ?_⟩
    rcases found with ⟨_ | snap, now⟩
    · exact audits_quiet rfl (quiet_liftExcept (.error _))
    · exact audits_quiet rfl (quiet_liftExcept (.ok _))

omit [SerdeYaml] [SerdeJson] [SecretYaml] in
/-- The gates emit no record. -/
theorem quiet_gates (srv : KonfigServer) (caller : Caller) (rpc : Rpc) : Quiet (srv.gates caller rpc) := by
  cases rpc with
  | get _ | getSecret _ | getAll _ | getAllSecrets _ | dryRunApply _ =>
    exact quiet_bind (quiet_liftExcept _) fun _ => quiet_liftExcept _
  | apply _ | applySecret _ | batchApply _ =>
    exact quiet_bind (quiet_liftExcept _) fun _ => quiet_bind (quiet_liftExcept _) fun _ =>
      quiet_rateLimitApply caller _
  | revert _ => exact quiet_liftExcept _
  | subscribe _ | subscribeSecrets _ =>
    refine quiet_bind (quiet_liftExcept _) fun _ => quiet_bind (quiet_liftExcept _) fun _ => ?_
    refine quiet_bind (quiet_op nofun) fun guarded => ?_
    exact quiet_bind (quiet_liftExcept _) fun _ => quiet_liftExcept (.ok ())

/-- **The audit log is complete behind the gates**: a call that a gate turns away leaves no
record, and any other exactly one per target, with the outcome the caller got. -/
theorem call_audited {srv : KonfigServer} {caller : Caller} {tr : ServiceTrace} {r : Except Status Unit}
    (h : Ends (srv.call caller rpc) tr r) :
    (∃ st, Ends (srv.gates caller rpc) tr (.error st) ∧ r = .error st ∧ ServiceTrace.records tr = []) ∨
      ∃ tr₁ tr₂, tr = tr₁ ++ tr₂ ∧ Ends (srv.gates caller rpc) tr₁ (.ok ()) ∧
        AuditComplete caller rpc r (ServiceTrace.records tr) := by
  obtain ⟨body, hcall, hbody⟩ := call_behind_gates srv caller rpc
  rw [hcall, ends_bind] at h
  rcases h with ⟨st, rfl, hgates⟩ | ⟨tr₁, tr₂, _, rfl, hgates, hrest⟩
  · exact .inl ⟨st, hgates, rfl, quiet_gates srv caller rpc tr _ hgates⟩
  · refine .inr ⟨tr₁, tr₂, rfl, hgates, ?_⟩
    rw [ServiceTrace.records_append, quiet_gates srv caller rpc tr₁ _ hgates, List.nil_append]
    exact hbody tr₂ r hrest

end Service

section Calls

local instance auditLogSchemas : JsonSchema := noSchemas

local instance auditLogDocuments : SerdeYaml := twoDocuments

local instance auditLogText : SerdeJson := noText

local instance auditLogYaml : SecretYaml := demoYaml

/-- The read of a secret that is not cached is recorded with its code. -/
theorem missing_secret_audited : ∃ tr, Ends (openServer.call operator (.getSecret limitsKey)) tr
      (.error ⟨.notFound, "secret trading/limits not found"⟩) ∧
    ((∃ st, Ends (openServer.gates operator (.getSecret limitsKey)) tr (.error st) ∧
        (.error ⟨.notFound, "secret trading/limits not found"⟩ : Except Status Unit) = .error st ∧
        ServiceTrace.records tr = []) ∨
      ∃ tr₁ tr₂, tr = tr₁ ++ tr₂ ∧ Ends (openServer.gates operator (.getSecret limitsKey)) tr₁ (.ok ()) ∧
        AuditComplete operator (.getSecret limitsKey)
          (.error ⟨.notFound, "secret trading/limits not found"⟩) (ServiceTrace.records tr)) := by
  have hend : Ends (openServer.call operator (.getSecret limitsKey))
      [⟨.getSecret limitsKey, (none, 0)⟩, ⟨.audit (auditRecord operator "GetSecret" limitsKey
        "error:not_found" none none), ()⟩] (.error ⟨.notFound, "secret trading/limits not found"⟩) :=
    .cons (.cons (.nil _))
  exact ⟨_, hend, call_audited hend⟩

/-- **A call that is turned away leaves no record.** -/
theorem rejected_call_unrecorded : ¬ ∀ (_ : JsonSchema) (_ : SerdeYaml) (_ : SerdeJson) (_ : SecretYaml)
    (srv : KonfigServer) (caller : Caller) (rpc : Rpc) (tr : ServiceTrace) (r : Except Status Unit),
    Ends (srv.call caller rpc) tr r → AuditComplete caller rpc r (ServiceTrace.records tr) := by
  intro hall
  have hend : Ends (drainingServer.call operator (.getSecret limitsKey)) []
      (.error ⟨.unavailable, "server draining"⟩) := .nil _
  have htargets := (hall _ _ _ _ drainingServer operator _ _ _ hend).targets
  cases htargets

end Calls

end Konfig
