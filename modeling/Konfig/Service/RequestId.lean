import Konfig.Service.AuditLog
import Konfig.Lib.Decimal

/-!
# Request ids

`request_id` of `grpc/context.rs` echoes the header `x-request-id` of a request, or mints an
id from the counter of the process.  Each method calls it for its entry log line and root
span, and the audited ones call it again behind their gates, for their records.

* `KonfigServer.traced`: a method with both calls, over the counter all calls share.
* `call_eq_gates_body`: without them it is `KonfigServer.call`.
* `request_ids_correlate_iff`: the runs in which the ids of all calls are what they are for.
-/

namespace Konfig

open Lib Proc

/-! ### Ids -/

/-- `MetadataValue::to_str`: visible ASCII, and the tab. -/
def toStr (value : ByteString) : Option String :=
  if value.all fun b => (32 ≤ b && b < 127) || b == 9 then
    some (String.ofList (value.map fun b => Char.ofNat b.toNat))
  else none

/-- The id that a header is echoed as, if it is usable. -/
def usableId (header : Option ByteString) : Option String :=
  ((header.bind toStr).map trim).filter fun s => s ≠ ""

/-- `{:x}`. -/
def hexText (n : Nat) : String := String.ofList (Nat.toDigits 16 n)

/-- An id of this process: `start` is `process_start_nanos`. -/
def mintedId (start : Nat) (seq : UInt64) : String := hexText start ++ "-" ++ hexText seq.toNat

/-! ### Calls with their ids -/

/-- What a call does, with its ids. -/
inductive TraceOp
  /-- `REQUEST_SEQ.fetch_add`. -/
  | mint
  /-- The entry log line and the fields of the root span. -/
  | entry (rpc : String) (requestId : String)
  | service (o : ServiceOp)

abbrev TraceOp.Resp : TraceOp → Type
  | .mint => UInt64
  | .entry _ _ => Unit
  | .service o => o.Resp

abbrev TracedM := ExceptT Status (Proc TraceOp TraceOp.Resp)

def TracedM.op (o : TraceOp) : TracedM o.Resp := ExceptT.lift (Proc.op o)

def TracedM.service {α : Type} (x : ServiceM α) : TracedM α :=
  ExceptT.mk (x.run.embed .service fun _ r => r)

/-- `request_id`. -/
def requestId (start : Nat) (header : Option ByteString) : TracedM String :=
  match usableId header with
  | some id => pure id
  | none => do
    let seq ← TracedM.op .mint
    return mintedId start seq

/-- `log_rpc_entry`. -/
def logRpcEntry (start : Nat) (header : Option ByteString) (rpc : Rpc) : TracedM Unit := do
  let id ← requestId start header
  TracedM.op (.entry ("konfig." ++ rpc.method) id)

/-- The methods that call `request_id` behind their gates. -/
def Rpc.capturesId : Rpc → Bool
  | .apply _ | .batchApply _ | .revert _ | .getSecret _ | .getAllSecrets _ | .applySecret _
  | .subscribeSecrets _ => true
  | .get _ | .getAll _ | .dryRunApply _ | .subscribe _ => false

section Calls

variable [JsonSchema] [SerdeYaml] [SerdeJson] [SecretYaml]

/-- What a method does behind its gates. -/
def KonfigServer.body (srv : KonfigServer) (caller : Caller) : Rpc → ServiceM Unit
  | .get key => do
    match ← ServiceM.op (.getConfig key) with
    | (some _, _) => pure ()
    | (none, _) => throw ⟨.notFound, "config " ++ key.ns ++ "/" ++ key.name ++ " not found"⟩
  | .getAll ns => do
    let _ ← ServiceM.op (.allConfigs ns)
  | .apply req => do
    let _ ← audited srv (ServiceM.kube (handleApply srv.schemaTable req caller.traceparent)) fun result =>
      auditRecord caller "Apply" req.key (resultStr result) (parseConfigSchemaVersion req.yamlContent)
        (resourceVersionOf result (·.resourceVersion))
  | .batchApply items => do
    let _ ← srv.applyBatch caller items
  | .dryRunApply req => do
    let _ ← ServiceM.kube (handleDryRunApply req)
  | .revert req => do
    let _ ← audited srv (ServiceM.kube (handleRevert req caller.traceparent)) fun result =>
      auditRecord caller "Revert" req.key (resultStr result) none
        (resourceVersionOf result (·.resourceVersion))
  | .subscribe req => do
    let stream ← ServiceM.op (.subscribe req)
    let _ ← (liftM stream : ServiceM (List ConfigEvent))
  | .getSecret key => do
    let (found, now) ← ServiceM.op (.getSecret key)
    let result : Except Status SecretResponse := match found with
      | some snap => .ok (secretSnapshotToProto now snap)
      | none => .error ⟨.notFound, "secret " ++ key.ns ++ "/" ++ key.name ++ " not found"⟩
    ServiceM.op (.audit (auditRecord caller "GetSecret" key (resultStr result) none
      (resourceVersionOf result (·.resourceVersion))))
    let _ ← (liftM result : ServiceM SecretResponse)
  | .getAllSecrets ns => do
    let entries ← ServiceM.op (.allSecrets ns)
    let result : Except Status (List (Instant → SecretResponse)) :=
      .ok (entries.map fun snap now => secretSnapshotToProto now snap)
    ServiceM.op (.audit (auditRecord caller "GetAllSecrets" ⟨ns, "*"⟩ (resultStr result) none none))
    let _ ← (liftM result : ServiceM (List (Instant → SecretResponse)))
  | .applySecret req => do
    let _ ← audited srv (ServiceM.secretKube (handleApplySecret req)) fun result =>
      auditRecord caller "ApplySecret" req.key (resultStr result) (parseSecretYamlVersion req.yamlContent)
        (resourceVersionOf result (·.resourceVersion))
  | .subscribeSecrets req => do
    let result ← ServiceM.op (.subscribeSecrets req)
    ServiceM.op (.audit (auditRecord caller "SubscribeSecrets" ⟨req.ns, "*"⟩ (resultStr result) none none))
    let _ ← (liftM result : ServiceM (List SecretEvent))

/-- A method with its ids: the entry, the gates, the id of the records, the rest. -/
def KonfigServer.traced (srv : KonfigServer) (start : Nat) (header : Option ByteString) (caller : Caller)
    (rpc : Rpc) : TracedM Unit := do
  logRpcEntry start header rpc
  TracedM.service (srv.gates caller rpc)
  if rpc.capturesId then
    let id ← requestId start header
    TracedM.service (srv.body { caller with requestId := id } rpc)
  else TracedM.service (srv.body caller rpc)

/-- **Without its ids a method is the call.** -/
theorem call_eq_gates_body (srv : KonfigServer) (caller : Caller) (rpc : Rpc) :
    srv.call caller rpc = (do srv.gates caller rpc; srv.body caller rpc) := by
  cases rpc with
  | apply req =>
    simp only [KonfigServer.call, KonfigServer.gates, KonfigServer.apply, KonfigServer.body, bind_assoc]
  | revert req =>
    simp only [KonfigServer.call, KonfigServer.gates, KonfigServer.revert, KonfigServer.body, bind_assoc]
  | applySecret req =>
    simp only [KonfigServer.call, KonfigServer.gates, KonfigServer.applySecret, KonfigServer.body, bind_assoc]
  | batchApply items =>
    simp only [KonfigServer.call, KonfigServer.gates, KonfigServer.batchApply, KonfigServer.body, bind_assoc]
  | dryRunApply req =>
    simp only [KonfigServer.call, KonfigServer.gates, KonfigServer.dryRunApply, KonfigServer.body, bind_assoc]
  | get key =>
    simp only [KonfigServer.call, KonfigServer.gates, KonfigServer.get, KonfigServer.body, bind_assoc]
    refine congrArg _ (funext fun _ => congrArg _ (funext fun _ => congrArg _ (funext fun found => ?_)))
    rcases found with ⟨_ | snap, now⟩ <;> rfl
  | getAll ns =>
    simp only [KonfigServer.call, KonfigServer.gates, KonfigServer.getAll, KonfigServer.body, bind_assoc, pure_bind]
  | subscribe req =>
    simp only [KonfigServer.call, KonfigServer.gates, KonfigServer.subscribe, KonfigServer.body, bind_assoc,
      pure_bind]
  | getSecret key =>
    simp only [KonfigServer.call, KonfigServer.gates, KonfigServer.getSecret, bind_assoc]
    rfl
  | getAllSecrets ns =>
    simp only [KonfigServer.call, KonfigServer.gates, KonfigServer.getAllSecrets, KonfigServer.body, bind_assoc]
  | subscribeSecrets req =>
    simp only [KonfigServer.call, KonfigServer.gates, KonfigServer.subscribeSecrets, KonfigServer.body, bind_assoc,
      pure_bind]

/-! ### The ids of a call on its own -/

/-- The id that a record carries. -/
def ServiceOp.recordId : ServiceOp → Option String
  | .audit record | .k8sEvent record => some record.requestId
  | .kube _ | .secretKube _ | .getConfig _ | .allConfigs _ | .getSecret _ | .allSecrets _ | .subscribe _
  | .subscribeSecrets _ | .applyAdmission _ _ | .admitSubscriber _ => none

/-- The operation is no record, or a record with this id. -/
def ServiceOp.Carries (id : Option String) (o : ServiceOp) : Prop := ∀ id' ∈ o.recordId, some id' = id

section Carries

variable {α : Type} {id : Option String} {caller : Caller}

omit [JsonSchema] [SerdeYaml] [SerdeJson] [SecretYaml]

theorem kube_carries (x : KubeM α) : IssuesOk (ServiceOp.Carries id) (ServiceM.kube x) :=
  issues_kube (wp_mono _ _ (fun _ _ _ _ _ => trivial) _ _ (issues_true x.run)) fun _ _ => nofun

theorem secretKube_carries (x : SecretM α) : IssuesOk (ServiceOp.Carries id) (ServiceM.secretKube x) :=
  issues_secretKube (issues_true x.run) fun _ _ => nofun

theorem emitItems_carries [SerdeYaml] [JsonSchema] (srv : KonfigServer)
    (result : Except Status (List BatchApplyResult)) (items : List ApplyRequest) :
    IssuesOk (ServiceOp.Carries (some caller.requestId)) (emitItems srv caller result items) := by
  induction items with
  | nil => exact wpOk_pure _ _ trivial
  | cons item items ih =>
    refine wpOk_seq _ _ (issues_emit ?_ ?_) fun _ _ _ => ih
    · exact fun _ h => h.symm
    · exact fun _ h => h.symm

variable [JsonSchema] [SerdeYaml] [SerdeJson] [SecretYaml]

omit [SerdeYaml] [SerdeJson] [SecretYaml] in
/-- The gates write no record. -/
theorem gates_carry (srv : KonfigServer) (caller : Caller) (rpc : Rpc) :
    IssuesOk (ServiceOp.Carries none) (srv.gates caller rpc) := by
  cases rpc with
  | get _ | getSecret _ | getAll _ | getAllSecrets _ | dryRunApply _ =>
    refine wpOk_bind _ _ (wpOk_liftExcept _ _ fun _ _ => ?_)
    exact wpOk_liftExcept _ _ fun _ _ => trivial
  | apply _ | applySecret _ | batchApply _ => exact issues_gated fun _ => issues_rateLimit nofun
  | revert _ => exact wpOk_liftExcept _ _ fun _ _ => trivial
  | subscribe _ | subscribeSecrets _ =>
    refine issues_gated fun _ => wpOk_bind _ _ (wpOk_op _ _ nofun fun guarded => ?_)
    exact issues_discard (wpOk_liftExcept _ _ fun _ _ => trivial)

/-- A method that does not call `request_id` again writes no record. -/
theorem body_quiet (srv : KonfigServer) (caller : Caller) (id : Option String) {rpc : Rpc}
    (h : rpc.capturesId = false) : IssuesOk (ServiceOp.Carries id) (srv.body caller rpc) := by
  cases rpc with
  | get key =>
    refine wpOk_bind _ _ (wpOk_op _ _ nofun fun found => ?_)
    rcases found with ⟨_ | snap, now⟩
    · exact wpOk_throw _ _
    · exact wpOk_pure _ _ trivial
  | getAll ns => exact issues_discard (wpOk_op _ _ nofun fun _ => trivial)
  | subscribe req =>
    refine wpOk_bind _ _ (wpOk_op _ _ nofun fun stream => ?_)
    exact issues_discard (wpOk_liftExcept _ _ fun _ _ => trivial)
  | dryRunApply req => exact issues_discard (kube_carries _)
  | _ => cases h

/-- All records of a call carry the id of its caller. -/
theorem body_carries (srv : KonfigServer) (caller : Caller) (rpc : Rpc) :
    IssuesOk (ServiceOp.Carries (some caller.requestId)) (srv.body caller rpc) := by
  cases rpc with
  | get _ | getAll _ | subscribe _ | dryRunApply _ => exact body_quiet srv caller _ rfl
  | apply req =>
    exact issues_discard (issues_audited (kube_carries _) (fun _ _ h => h.symm) fun _ _ h => h.symm)
  | revert req =>
    exact issues_discard (issues_audited (kube_carries _) (fun _ _ h => h.symm) fun _ _ h => h.symm)
  | applySecret req =>
    exact issues_discard (issues_audited (secretKube_carries _) (fun _ _ h => h.symm) fun _ _ h => h.symm)
  | batchApply items =>
    refine issues_discard (wpOk_seq _ _ (issues_outcome (kube_carries _)) fun _ result _ => ?_)
    refine wpOk_seq _ _ (emitItems_carries srv result items) fun _ _ _ => ?_
    exact wpOk_liftExcept _ _ fun _ _ => trivial
  | getSecret key =>
    refine wpOk_bind _ _ (wpOk_op _ _ nofun fun found => ?_)
    refine wpOk_bind _ _ (wpOk_op _ _ (fun _ h => h.symm) fun _ => ?_)
    exact issues_discard (wpOk_liftExcept _ _ fun _ _ => trivial)
  | getAllSecrets ns =>
    refine wpOk_bind _ _ (wpOk_op _ _ nofun fun entries => ?_)
    refine wpOk_bind _ _ (wpOk_op _ _ (fun _ h => h.symm) fun _ => ?_)
    exact issues_discard (wpOk_liftExcept _ _ fun _ _ => trivial)
  | subscribeSecrets req =>
    refine wpOk_bind _ _ (wpOk_op _ _ nofun fun result => ?_)
    refine wpOk_bind _ _ (wpOk_op _ _ (fun _ h => h.symm) fun _ => ?_)
    exact issues_discard (wpOk_liftExcept _ _ fun _ _ => trivial)

end Carries

/-- What a call did with its ids so far. -/
structure IdGhost where
  minted : List UInt64 := []
  entry : Option String := none

def IdGhost.upd (g : IdGhost) : (o : TraceOp) → o.Resp → IdGhost
  | .mint, seq => { g with minted := g.minted ++ [seq] }
  | .entry _ id, _ => { g with entry := some id }
  | .service _, _ => g

/-- What is issued by a call whose header is echoed as `id`. -/
def Echoes (id : String) (g : IdGhost) : TraceOp → Prop
  | .mint => False
  | .entry _ id' => id' = id
  | .service o => ∀ id' ∈ o.recordId, g.entry = some id ∧ id' = id

/-- What is issued by a call without a usable header: its entry carries its first id and its
records the second one. -/
def Mints (start : Nat) (g : IdGhost) : TraceOp → Prop
  | .mint => True
  | .entry _ id => ∃ a, g.minted = [a] ∧ id = mintedId start a
  | .service o => ∀ id ∈ o.recordId, ∃ a b, g.minted = [a, b] ∧ g.entry = some (mintedId start a) ∧
      id = mintedId start b

section Traced

variable {α : Type} {start : Nat} {header : Option ByteString}

omit [JsonSchema] [SerdeYaml] [SerdeJson] [SecretYaml]

/-- The operations of a service do nothing with ids. -/
theorem service_ok {pre : IdGhost → TraceOp → Prop} {P : ServiceOp → Prop} {x : ServiceM α}
    (hx : IssuesOk P x) {g : IdGhost} (hpre : ∀ o, P o → pre g (.service o)) :
    wpOk IdGhost.upd pre (TracedM.service x) (fun g' _ => g' = g) g := by
  refine wp_embed _ _ TraceOp.service (fun _ r => r)
    (fun _ _ _ => rfl) (fun _ _ h => h) _ _ ?_
  refine wp_mono _ _ (fun g' _ h _ _ => h) _ _ (Issues.wp _ _ (fun g' => g' = g) ?_ (issues_of_wpOk hx) g rfl)
  rintro g' o rfl ho
  exact ⟨hpre o ho, fun _ => rfl⟩

theorem requestId_of_usable {id : String} (h : usableId header = some id) :
    requestId start header = pure id := by
  rw [requestId, h]

theorem requestId_of_unusable (h : usableId header = none) :
    requestId start header = (do
      let seq ← TracedM.op .mint
      return mintedId start seq) := by
  rw [requestId, h]

variable [JsonSchema] [SerdeYaml] [SerdeJson] [SecretYaml] (srv : KonfigServer) (caller : Caller) (rpc : Rpc)

theorem traced_echoes {id : String} (h : usableId header = some id) :
    wpOk IdGhost.upd (Echoes id) (srv.traced start header caller rpc) (fun _ _ => True) {} := by
  unfold KonfigServer.traced logRpcEntry
  rw [requestId_of_usable h, pure_bind]
  refine wpOk_bind _ _ (wpOk_op _ _ rfl fun _ => ?_)
  refine wpOk_bind _ _ (wpOk_mono _ _ ?_ (service_ok (gates_carry srv caller rpc) fun o ho id' hid' => ?_))
  · rintro g _ rfl
    by_cases hcap : rpc.capturesId = true
    · rw [if_pos hcap, pure_bind]
      refine wpOk_mono _ _ (fun _ _ _ => trivial) (service_ok (body_carries srv _ rpc) fun o ho id' hid' => ?_)
      exact ⟨rfl, Option.some.inj (ho id' hid')⟩
    · rw [if_neg hcap]
      refine wpOk_mono _ _ (fun _ _ _ => trivial)
        (service_ok (body_quiet srv caller none (eq_false_of_ne_true hcap)) fun o ho id' hid' => ?_)
      cases ho id' hid'
  · cases ho id' hid'

theorem traced_mints (h : usableId header = none) :
    wpOk IdGhost.upd (Mints start) (srv.traced start header caller rpc) (fun _ _ => True) {} := by
  unfold KonfigServer.traced logRpcEntry
  rw [requestId_of_unusable h, bind_assoc, bind_assoc]
  refine wpOk_bind _ _ (wpOk_op _ _ trivial fun a => ?_)
  rw [pure_bind]
  refine wpOk_bind _ _ (wpOk_op _ _ ⟨a, rfl, rfl⟩ fun _ => ?_)
  refine wpOk_bind _ _ (wpOk_mono _ _ ?_ (service_ok (gates_carry srv caller rpc) fun o ho id' hid' => ?_))
  · rintro g _ rfl
    by_cases hcap : rpc.capturesId = true
    · rw [if_pos hcap, bind_assoc]
      refine wpOk_bind _ _ (wpOk_op _ _ trivial fun b => ?_)
      rw [pure_bind]
      refine wpOk_mono _ _ (fun _ _ _ => trivial) (service_ok (body_carries srv _ rpc) fun o ho id' hid' => ?_)
      exact ⟨a, b, rfl, rfl, Option.some.inj (ho id' hid')⟩
    · rw [if_neg hcap]
      refine wpOk_mono _ _ (fun _ _ _ => trivial)
        (service_ok (body_quiet srv caller none (eq_false_of_ne_true hcap)) fun o ho id' hid' => ?_)
      cases ho id' hid'
  · cases ho id' hid'

end Traced

/-! ### Runs -/

/-- A call: the state of the server it meets, and its request. -/
structure RpcCall where
  srv : KonfigServer
  header : Option ByteString
  caller : Caller
  rpc : Rpc

/-- The call as a process that shares the counter with the others. -/
def RpcCall.process (start : Nat) (c : RpcCall) : Proc TraceOp TraceOp.Resp (Except Status Unit) :=
  (c.srv.traced start c.header c.caller c.rpc).run

section Counter

omit [JsonSchema] [SerdeYaml] [SerdeJson] [SecretYaml]

/-- The counter of the process.  It says nothing about the other answers. -/
inductive IdEnv : UInt64 → (o : TraceOp) → o.Resp → UInt64 → Prop
  | mint (seq : UInt64) : IdEnv seq .mint seq (seq + 1)
  | entry (seq : UInt64) (rpc id : String) : IdEnv seq (.entry rpc id) () seq
  | service (seq : UInt64) (o : ServiceOp) (r : o.Resp) : IdEnv seq (.service o) r seq

abbrev TraceEvent := Event TraceOp TraceOp.Resp

/-- The id on an entry log line and its root span. -/
def entryId (e : TraceEvent) : Option String :=
  match e.op with
  | .entry _ id => some id
  | .mint | .service _ => none

/-- The id in a record. -/
def auditId (e : TraceEvent) : Option String :=
  match e.op with
  | .service o => o.recordId
  | .mint | .entry _ _ => none

/-- The sequence number that is taken. -/
def takenSeq : TraceEvent → Option UInt64
  | ⟨_, .mint, seq⟩ => some seq
  | ⟨_, .entry _ _, _⟩ => none
  | ⟨_, .service _, _⟩ => none

/-- All sequence numbers that were taken, with the calls that took them. -/
def mints (tr : List TraceEvent) : List (Nat × UInt64) :=
  tr.filterMap fun e => (takenSeq e).map fun seq => (e.pid, seq)

/-- Those of one call. -/
def mintsOf (pid : Nat) (tr : List TraceEvent) : List UInt64 :=
  ((mints tr).filter fun p => p.1 = pid).map (·.2)

theorem mints_snoc (tr : List TraceEvent) (e : TraceEvent) :
    mints (tr ++ [e]) = mints tr ++ ((takenSeq e).map fun seq => (e.pid, seq)).toList := by
  cases h : takenSeq e <;> simp [mints, h]

theorem mem_mintsOf {pid : Nat} {tr : List TraceEvent} {seq : UInt64} :
    seq ∈ mintsOf pid tr ↔ (pid, seq) ∈ mints tr := by
  simp [mintsOf]

/-- **The counter**: the `n`-th number taken is the `n`-th after the first. -/
theorem mints_of_run {seq₀ : UInt64} {ps : List (Proc TraceOp TraceOp.Resp (Except Status Unit))}
    {tr : List TraceEvent} {c : UInt64 × List (Proc TraceOp TraceOp.Resp (Except Status Unit))}
    (h : Run IdEnv (seq₀, ps) tr c) :
    (mints tr).map (·.2) = (List.range (mints tr).length).map (fun n => seq₀ + UInt64.ofNat n) ∧
      c.1 = seq₀ + UInt64.ofNat (mints tr).length := by
  induction h with
  | nil => exact ⟨rfl, (UInt64.add_zero seq₀).symm⟩
  | @snoc tr c c' e _ hs ih =>
    obtain ⟨hall, hnext⟩ := ih
    rw [mints_snoc]
    cases hs with
    | @call s s' ps i o k r hi henv =>
      cases henv with
      | mint =>
        simp only [takenSeq, Option.map_some, Option.toList_some, List.map_append, List.map_singleton,
          List.length_append, List.length_singleton, List.range_succ]
        refine ⟨by rw [hall, ← hnext], ?_⟩
        rw [show s = _ from hnext, UInt64.ofNat_add, UInt64.add_assoc]
        rfl
      | entry rpc id => simpa [takenSeq] using ⟨hall, hnext⟩
      | service o r => simpa [takenSeq] using ⟨hall, hnext⟩

/-- The counter does not come round. -/
theorem mints_nodup {seq₀ : UInt64} {ps : List (Proc TraceOp TraceOp.Resp (Except Status Unit))}
    {tr : List TraceEvent} {c : UInt64 × List (Proc TraceOp TraceOp.Resp (Except Status Unit))}
    (h : Run IdEnv (seq₀, ps) tr c) (hmints : (mints tr).length ≤ 2 ^ 64) :
    ((mints tr).map (·.2)).Nodup := by
  rw [(mints_of_run h).1]
  refine List.Nodup.map_on (fun a ha b hb hab => ?_) List.nodup_range
  rw [List.mem_range] at ha hb
  have heq := congrArg UInt64.toNat ((UInt64.add_right_inj seq₀).mp hab)
  rwa [UInt64.toNat_ofNat_of_lt' (ha.trans_le hmints), UInt64.toNat_ofNat_of_lt' (hb.trans_le hmints)] at heq

theorem hexText_injective {a b : Nat} (h : hexText a = hexText b) : a = b :=
  toDigits_injective (by decide) (by decide) (String.ofList_inj.mp h)

theorem mintedId_injective {start : Nat} {a b : UInt64} (h : mintedId start a = mintedId start b) : a = b := by
  have hlist := congrArg String.toList h
  simp only [mintedId, String.toList_append] at hlist
  exact UInt64.toNat_inj.mp (hexText_injective (String.toList_inj.mp (List.append_cancel_left hlist)))

end Counter

/-! ### What the ids are for -/

section Runs

variable {calls : List RpcCall} {start : Nat}
  {seq₀ : UInt64} {tr : List TraceEvent}
  {c : UInt64 × List (Proc TraceOp TraceOp.Resp (Except Status Unit))}

/-- The id that the header of a call is echoed as. -/
def headerId (calls : List RpcCall) (pid : Nat) : Option String :=
  (calls[pid]?).bind fun call => usableId call.header

/-- Records carry the id of the entry of their call, and calls without a usable header have no
id in common. -/
structure Correlated (calls : List RpcCall) (tr : List TraceEvent) : Prop where
  recorded : ∀ e' ∈ tr, ∀ id' ∈ auditId e', ∃ e ∈ tr, e.pid = e'.pid ∧ entryId e = some id'
  same : ∀ e ∈ tr, ∀ e' ∈ tr, e.pid = e'.pid → ∀ id ∈ entryId e, ∀ id' ∈ auditId e', id' = id
  distinct : ∀ e ∈ tr, ∀ e' ∈ tr, e.pid ≠ e'.pid → headerId calls e.pid = none →
    headerId calls e'.pid = none → ∀ id ∈ (entryId e).or (auditId e), ∀ id' ∈ (entryId e').or (auditId e'),
      id ≠ id'

/-- Only calls with a usable header write records. -/
def AuditsEcho (calls : List RpcCall) (tr : List TraceEvent) : Prop :=
  ∀ e ∈ tr, (auditId e).isSome = true → (headerId calls e.pid).isSome = true

omit [JsonSchema] [SerdeYaml] [SerdeJson] [SecretYaml] in
theorem ghost_spec (pid : Nat) (tr : List TraceEvent) :
    (ghost IdGhost.upd {} pid tr).minted = mintsOf pid tr ∧
      ∀ id ∈ (ghost IdGhost.upd {} pid tr).entry, ∃ e ∈ tr, e.pid = pid ∧ entryId e = some id := by
  induction tr using List.reverseRecOn with
  | nil => exact ⟨rfl, nofun⟩
  | append_singleton tr e ih =>
    obtain ⟨hminted, hentry⟩ := ih
    have hkeep : ∀ id ∈ (ghost IdGhost.upd {} pid tr).entry, ∃ e' ∈ tr ++ [e], e'.pid = pid ∧
        entryId e' = some id := fun id hid =>
      (hentry id hid).imp fun e' h => ⟨List.mem_append_left _ h.1, h.2⟩
    rw [ghost_snoc, mintsOf, mints_snoc, List.filter_append, List.map_append, ← mintsOf]
    obtain ⟨pid', o, r⟩ := e
    by_cases hpid : pid' = pid
    · rw [if_pos hpid]
      cases o with
      | mint =>
        refine ⟨?_, hkeep⟩
        rw [IdGhost.upd, hminted]
        simp [takenSeq, hpid]
      | entry rpc id =>
        refine ⟨by simpa [IdGhost.upd, takenSeq] using hminted, fun id' hid' => ?_⟩
        exact ⟨_, List.mem_append_right _ List.mem_cons_self, hpid, hid'⟩
      | service o => exact ⟨by simpa [IdGhost.upd, takenSeq] using hminted, hkeep⟩
    · rw [if_neg hpid]
      refine ⟨?_, hkeep⟩
      rw [hminted]
      cases o <;> simp [takenSeq, hpid]

/-- An operation of a call was issued under what holds of its own operations before. -/
theorem issued_under (pre : IdGhost → TraceOp → Prop) {e : TraceEvent}
    (h : Run IdEnv (seq₀, calls.map (RpcCall.process start)) tr c) (he : e ∈ tr)
    (hpre : ∀ call, calls[e.pid]? = some call → wpOk IdGhost.upd pre
      (call.srv.traced start call.header call.caller call.rpc) (fun _ _ => True) {}) :
    ∃ tr₁ tr₂, tr = tr₁ ++ e :: tr₂ ∧ pre (ghost IdGhost.upd {} e.pid tr₁) e.op := by
  obtain ⟨tr₁, tr₂, rfl⟩ := List.append_of_mem he
  obtain ⟨c₁, c₂, hrun, hs⟩ := h.split rfl
  refine ⟨tr₁, tr₂, rfl, hrun.pre_at (fun p hp => ?_) hs⟩
  rw [List.getElem?_map, Option.map_eq_some_iff] at hp
  obtain ⟨call, hcall, rfl⟩ := hp
  exact wp_mono _ _ (fun _ _ _ => trivial) _ _ (hpre call hcall)

/-- An operation belongs to a call. -/
theorem call_of_event {e : TraceEvent} (h : Run IdEnv (seq₀, calls.map (RpcCall.process start)) tr c)
    (he : e ∈ tr) : ∃ call, calls[e.pid]? = some call := by
  obtain ⟨tr₁, tr₂, rfl⟩ := List.append_of_mem he
  obtain ⟨c₁, c₂, hrun, hs⟩ := h.split rfl
  have hlt := hs.pid_lt
  rw [hrun.length_eq, List.length_map] at hlt
  exact ⟨_, List.getElem?_eq_getElem hlt⟩

/-- A call with a usable header uses its id only, in its entry first. -/
theorem ids_of_echo {e : TraceEvent} (h : Run IdEnv (seq₀, calls.map (RpcCall.process start)) tr c)
    (he : e ∈ tr) {id : String} (hid : headerId calls e.pid = some id) :
    (∀ id' ∈ entryId e, id' = id) ∧
      ∀ id' ∈ auditId e, id' = id ∧ ∃ e' ∈ tr, e'.pid = e.pid ∧ entryId e' = some id := by
  obtain ⟨call, hcall, husable⟩ := Option.bind_eq_some_iff.mp hid
  obtain ⟨tr₁, tr₂, rfl, hpre⟩ := issued_under (Echoes id) h he fun call' hcall' => by
    rw [hcall] at hcall'
    cases hcall'
    exact traced_echoes call.srv call.caller call.rpc husable
  obtain ⟨pid, o, r⟩ := e
  cases o with
  | mint => exact ⟨nofun, nofun⟩
  | entry rpc id' =>
    refine ⟨fun id'' h'' => ?_, nofun⟩
    cases h''
    exact hpre
  | service o =>
    refine ⟨nofun, fun id' hid' => ?_⟩
    obtain ⟨hentry, rfl⟩ := hpre id' hid'
    obtain ⟨e', he', hpid, hentryId⟩ := (ghost_spec pid tr₁).2 _ hentry
    exact ⟨rfl, e', List.mem_append_left _ he', hpid, hentryId⟩

/-- A call without a usable header uses ids it minted, and another one in its records than in
its entry. -/
theorem ids_of_mint {e : TraceEvent} (h : Run IdEnv (seq₀, calls.map (RpcCall.process start)) tr c)
    (he : e ∈ tr) (hid : headerId calls e.pid = none) (hmints : (mints tr).length ≤ 2 ^ 64) :
    (∀ id ∈ (entryId e).or (auditId e), ∃ a, (e.pid, a) ∈ mints tr ∧ id = mintedId start a) ∧
      ∀ id ∈ auditId e, ∃ e' ∈ tr, e'.pid = e.pid ∧ ∃ id' ∈ entryId e', id ≠ id' := by
  obtain ⟨call, hcall⟩ := call_of_event h he
  have husable : usableId call.header = none := by rwa [headerId, hcall] at hid
  have hnodup := mints_nodup h hmints
  obtain ⟨tr₁, tr₂, rfl, hpre⟩ := issued_under (Mints start) h he fun call' hcall' => by
    rw [hcall] at hcall'
    cases hcall'
    exact traced_mints call.srv call.caller call.rpc husable
  have hsub : ∀ p ∈ mints tr₁, p ∈ mints (tr₁ ++ e :: tr₂) := by
    intro p hp
    rw [mints, List.filterMap_append]
    exact List.mem_append_left _ hp
  have hminted := (ghost_spec e.pid tr₁).1
  obtain ⟨pid, o, r⟩ := e
  cases o with
  | mint => exact ⟨nofun, nofun⟩
  | entry rpc id =>
    refine ⟨fun id' hid' => ?_, nofun⟩
    cases hid'
    obtain ⟨a, ha, rfl⟩ := hpre
    rw [hminted] at ha
    exact ⟨a, hsub _ (mem_mintsOf.mp (by rw [ha]; exact List.mem_singleton_self a)), rfl⟩
  | service o =>
    constructor
    · intro id hid'
      obtain ⟨a, b, hab, hentry, rfl⟩ := hpre id hid'
      rw [hminted] at hab
      exact ⟨b, hsub _ (mem_mintsOf.mp (by rw [hab]; simp)), rfl⟩
    · intro id hid'
      obtain ⟨a, b, hab, hentry, rfl⟩ := hpre id hid'
      obtain ⟨e', he', hpid, hentryId⟩ := (ghost_spec pid tr₁).2 _ hentry
      refine ⟨e', List.mem_append_left _ he', hpid, _, hentryId, fun heq => ?_⟩
      -- the two numbers stand in the list of all numbers taken
      have hsublist : (mintsOf pid tr₁).Sublist ((mints (tr₁ ++ ⟨pid, .service o, r⟩ :: tr₂)).map (·.2)) := by
        refine (List.filter_sublist.map _).trans (List.Sublist.map _ ?_)
        rw [mints, mints, List.filterMap_append]
        exact List.sublist_append_left _ _
      rw [← hminted, hab] at hsublist
      have hne := hsublist.nodup hnodup
      rw [mintedId_injective heq] at hne
      simp at hne

/-- **The runs in which the ids of all calls are what they are for**, while the counter does not
come round: those in which only calls with a usable header write records. -/
theorem request_ids_correlate_iff (h : Run IdEnv (seq₀, calls.map (RpcCall.process start)) tr c)
    (hmints : (mints tr).length ≤ 2 ^ 64) : Correlated calls tr ↔ AuditsEcho calls tr := by
  constructor
  · intro hcor e he haudit
    obtain ⟨id, hid⟩ := Option.isSome_iff_exists.mp haudit
    cases hheader : headerId calls e.pid with
    | some _ => rfl
    | none =>
      obtain ⟨e', he', hpid, id', hid', hne⟩ := (ids_of_mint h he hheader hmints).2 id hid
      exact absurd (hcor.same e' he' e he hpid id' hid' id hid) hne
  · intro hecho
    refine ⟨fun e' he' id' hid' => ?_, fun e he e' he' hpid id hid id' hid' => ?_,
      fun e he e' he' hpid hnone hnone' id hid id' hid' => ?_⟩
    · obtain ⟨id, hheader⟩ := Option.isSome_iff_exists.mp (hecho e' he' (by rw [hid']; rfl))
      obtain ⟨rfl, e, he, hpid, hentry⟩ := (ids_of_echo h he' hheader).2 id' hid'
      exact ⟨e, he, hpid, hentry⟩
    · obtain ⟨id₀, hheader⟩ := Option.isSome_iff_exists.mp (hecho e' he' (by rw [hid']; rfl))
      rw [((ids_of_echo h he' hheader).2 id' hid').1, (ids_of_echo h he (hpid ▸ hheader)).1 id hid]
    · obtain ⟨a, ha, rfl⟩ := (ids_of_mint h he hnone hmints).1 id hid
      obtain ⟨b, hb, rfl⟩ := (ids_of_mint h he' hnone' hmints).1 id' hid'
      intro heq
      have hseq : a = b := mintedId_injective heq
      have hpair := List.inj_on_of_nodup_map (mints_nodup h hmints) ha hb hseq
      exact hpid (congrArg Prod.fst hpair)

end Runs

end Calls

/-! ### Two reads -/

section Reads

local instance tracedSchemas : JsonSchema := noSchemas

local instance tracedDocuments : SerdeYaml := twoDocuments

local instance tracedText : SerdeJson := noText

local instance tracedYaml : SecretYaml := demoYaml

/-- A read of a secret that is not cached. -/
def missingSecret (header : Option ByteString) : RpcCall :=
  ⟨openServer, header, operator, .getSecret limitsKey⟩

/-- The record of the read. -/
def missingRecord (id : String) : AuditRecord :=
  auditRecord { operator with requestId := id } "GetSecret" limitsKey "error:not_found" none none

/-- The same call at a server that turns it away. -/
def drainedSecret : RpcCall := ⟨drainingServer, none, operator, .getSecret limitsKey⟩

/-- What the read does without a header. -/
def mintedRead : List ((o : TraceOp) × o.Resp) :=
  [⟨.mint, 0⟩, ⟨.entry "konfig.GetSecret" "7-0", ()⟩, ⟨.mint, 1⟩,
    ⟨.service (.getSecret limitsKey), (none, 0)⟩, ⟨.service (.audit (missingRecord "7-1")), ()⟩]

/-- A trace of one call. -/
def alone (tr : List ((o : TraceOp) × o.Resp)) : List TraceEvent := tr.map fun e => ⟨0, e.1, e.2⟩

theorem mintedRead_run : ∃ c, Run IdEnv (0, [missingSecret none].map (RpcCall.process 7))
    (alone mintedRead) c :=
  ⟨_, run_of_steps (.cons (.cons (.cons (.cons (.cons (.nil _)))))) .nil
    (.cons (.mint 0) (.cons (.entry _ _ _) (.cons (.mint 1) (.cons (.service _ _ _)
      (.cons (.service _ _ _) (.nil 2))))))⟩

/-- A read with a usable header and two calls without, that interleave. -/
def echoedCalls : List RpcCall := [missingSecret (some (utf8 "abc")), drainedSecret, drainedSecret]

def echoedTrace : List TraceEvent :=
  [⟨1, .mint, (0 : UInt64)⟩, ⟨0, .entry "konfig.GetSecret" "abc", ()⟩, ⟨2, .mint, (1 : UInt64)⟩,
    ⟨2, .entry "konfig.GetSecret" "7-1", ()⟩, ⟨0, .service (.getSecret limitsKey), (none, 0)⟩,
    ⟨1, .entry "konfig.GetSecret" "7-0", ()⟩, ⟨0, .service (.audit (missingRecord "abc")), ()⟩]

theorem echoedTrace_run : ∃ c, Run IdEnv (0, echoedCalls.map (RpcCall.process 7)) echoedTrace c :=
  ⟨_, (((((((Run.nil.snoc (.call rfl (.mint 0))).snoc (.call rfl (.entry _ _ _))).snoc (.call rfl (.mint 1))).snoc
    (.call rfl (.entry _ _ _))).snoc (.call rfl (.service _ _ _))).snoc (.call rfl (.entry _ _ _))).snoc
    (.call rfl (.service _ _ _)))⟩

theorem request_ids_correlate_echoed :
    Correlated echoedCalls echoedTrace ∧ ¬ Correlated [missingSecret none] (alone mintedRead) := by
  obtain ⟨c, hrun⟩ := echoedTrace_run
  obtain ⟨c', hrun'⟩ := mintedRead_run
  rw [request_ids_correlate_iff hrun (by decide), request_ids_correlate_iff hrun' (by decide)]
  unfold AuditsEcho
  exact ⟨by decide +kernel, by decide +kernel⟩

/-- **Without the header the record of a read has another id than its log line.** -/
theorem record_has_another_id : ¬ ∀ (_ : JsonSchema) (_ : SerdeYaml) (_ : SerdeJson) (_ : SecretYaml)
    (calls : List RpcCall) (start : Nat) (seq₀ : UInt64) (tr : List TraceEvent)
    (c : UInt64 × List (Proc TraceOp TraceOp.Resp (Except Status Unit))),
    Run IdEnv (seq₀, calls.map (RpcCall.process start)) tr c → Correlated calls tr := by
  intro hall
  obtain ⟨c, hrun⟩ := mintedRead_run
  have hcor := hall _ _ _ _ _ _ _ _ _ hrun
  have hsame := hcor.same ⟨0, .entry "konfig.GetSecret" "7-0", ()⟩ (by simp [alone, mintedRead])
    ⟨0, .service (.audit (missingRecord "7-1")), ()⟩ (by simp [alone, mintedRead]) rfl "7-0" rfl "7-1" rfl
  exact absurd hsame (by decide)

end Reads

end Konfig
