import Konfig.Gateway.Dispatch
import Konfig.Lib.Exchange
import Konfig.Service.Gates

/-!
# The gateway and the service

A request of the HTTP gateway is at most one call of the service, made in the same process
under the anonymous caller.

* `routed_carries`: it is the call it stands for, or it is answered at once.
* `router_transcodes`: with the same exchanges, and the response is the message of the call.
* `gateway_confined`: whatever else the server is doing, an operation is issued for a
  request only with the credential the process was started with; in enforce mode nothing
  but the admission of an empty batch is.
-/

namespace Konfig.Gateway

open Lib

/-! ### How a call is shown -/

section Shown

variable [ToVec Config] [ToVec ApplyResponse] [ToVec (List BatchApplyResult)] [ToVec DryRunApplyResponse]
  [ToVec RevertResponse] [ToVec SecretResponse] [ToVec ApplySecretResponse]
variable (validValue : String → Bool)

/-- The response to the outcome of a call: a message as JSON, what `GetAll` streams as an array, a
subscription as server-sent events. -/
def shown (cfg : HttpGatewayConfig) : (rpc : Rpc) → Except Status rpc.Message → Response
  | .get _ => fun outcome : Except Status Config => unaryResponse validValue cfg outcome
  | .apply _ => fun outcome : Except Status ApplyResponse => unaryResponse validValue cfg outcome
  | .batchApply _ => fun outcome : Except Status (List BatchApplyResult) => unaryResponse validValue cfg outcome
  | .dryRunApply _ => fun outcome : Except Status DryRunApplyResponse => unaryResponse validValue cfg outcome
  | .revert _ => fun outcome : Except Status RevertResponse => unaryResponse validValue cfg outcome
  | .getSecret _ => fun outcome : Except Status SecretResponse => unaryResponse validValue cfg outcome
  | .applySecret _ => fun outcome : Except Status ApplySecretResponse => unaryResponse validValue cfg outcome
  | .getAll _ => streamResponse validValue cfg fun items => jsonStreamingResponse validValue cfg (.configs items)
  | .getAllSecrets _ =>
    streamResponse validValue cfg fun items => jsonStreamingResponse validValue cfg (.secrets items)
  | .subscribe _ => streamResponse validValue cfg fun events => sseResponse validValue cfg (.configEvents events)
  | .subscribeSecrets _ =>
    streamResponse validValue cfg fun events => sseResponse validValue cfg (.secretEvents events)

variable [JsonSchema] [SerdeYaml] [SerdeJson] [SecretYaml]

/-- The process is the call with its outcome shown, or it turns the request away where there is
none. -/
def Carries (st : GatewayState) (caller : Caller) (call : Option Rpc) (p : GatewayM Response) : Prop :=
  match call with
  | some rpc => p = (do
      let outcome ← (st.server.message caller rpc).run
      return shown validValue st.cfg rpc outcome)
  | none => ∃ resp, p = pure resp ∧ resp.status ≠ 200

end Shown

/-! ### One handler -/

section Carries

variable {validValue : String → Bool} {cfg : HttpGatewayConfig} {method : HttpMethod}

theorem respond_status (status : ℕ) (headers : List (String × String)) (body : Body) :
    (respond validValue cfg status headers body).status = status ∨
      (respond validValue cfg status headers body).status = 500 := by
  unfold respond
  cases withCors validValue cfg headers with
  | some headers => exact .inl rfl
  | none => exact .inr rfl

theorem jsonResponse_status (status : ℕ) (body : List UInt8) :
    (jsonResponse validValue cfg status body).status = status ∨
      (jsonResponse validValue cfg status body).status = 500 := by
  unfold jsonResponse
  cases withCors validValue cfg [("content-type", "application/json")] with
  | some headers => exact .inl rfl
  | none => exact .inr rfl

@[simp] theorem headResponse_status (resp : Response) : (headResponse method resp).status = resp.status := by
  unfold headResponse
  split <;> rfl

theorem ne_ok_of_status {actual status : ℕ} (h : actual = status ∨ actual = 500) (hne : status ≠ 200) :
    actual ≠ 200 := by
  rcases h with rfl | rfl
  · exact hne
  · decide

theorem errorResponse_ne_ok {e : GatewayError} (h : e.status ≠ 200) :
    (errorResponse validValue cfg e).status ≠ 200 := by
  have hstatus : (errorResponse validValue cfg e).status =
      (jsonResponse validValue cfg e.status (errorBody e.code e.message)).status := rfl
  rw [hstatus]
  exact ne_ok_of_status (jsonResponse_status e.status _) h

theorem corsPreflight_ne_ok : (corsPreflight validValue cfg).status ≠ 200 := by
  unfold corsPreflight
  cases withCors validValue cfg [] with
  | some headers => exact fun h => absurd h (by decide : (204 : ℕ) ≠ 200)
  | none => exact fun h => absurd h (by decide : (500 : ℕ) ≠ 200)

theorem denied_ne_ok {headers : HeaderMap} {resp : HttpResponse}
    (h : checkAuth validValue cfg headers = some resp) :
    (Response.ofHttp resp).status ≠ 200 := by
  have hstatus : (Response.ofHttp resp).status = resp.status := rfl
  rw [hstatus]
  rcases (checkAuth_eq_some validValue h).2 with h401 | ⟨h500, -⟩
  · rw [h401]
    decide
  · rw [h500]
    decide

theorem cacheNotReady_ne_ok : (cacheNotReady validValue cfg).status ≠ 200 :=
  ne_ok_of_status (respond_status 503 _ _) (by decide : (503 : ℕ) ≠ 200)

theorem decodeRequest_error {Req : Type} [FromSlice Req] {body : List UInt8} {e : GatewayError}
    (h : (decodeRequest body : Except GatewayError Req) = .error e) : e.status = 400 := by
  unfold decodeRequest at h
  split at h
  · cases h
  · split at h
    · cases h
    · cases h
      rfl

end Carries

section Handlers

variable [JsonSchema] [SerdeYaml] [SerdeJson] [SecretYaml]
variable [ToVec Config] [ToVec ApplyResponse] [ToVec (List BatchApplyResult)] [ToVec DryRunApplyResponse]
  [ToVec RevertResponse] [ToVec SecretResponse] [ToVec ApplySecretResponse]
variable {validValue : String → Bool} {st : GatewayState} {caller : Caller} {method : HttpMethod}
variable {Req Resp Item : Type} [FromSlice Req]

theorem carries_unary [ToVec Resp] (body : List UInt8) {rpc : Req → Rpc} {call : Req → ServiceM Resp}
    (h : ∀ req, Carries validValue st caller (some (rpc req)) (do
      let outcome ← (call req).run
      return unaryResponse validValue st.cfg outcome)) :
    Carries validValue st caller ((decodeRequest body).toOption.map rpc)
      (runUnary validValue st.cfg body call) := by
  unfold runUnary
  cases hdecode : (decodeRequest body : Except GatewayError Req) with
  | error e => exact ⟨_, rfl, errorResponse_ne_ok (by rw [decodeRequest_error hdecode]; decide)⟩
  | ok req => exact h req

theorem carries_streaming (body : List UInt8) {rpc : Req → Rpc}
    {call : Req → ServiceM (List (Instant → Item))} {items : List (Instant → Item) → Body}
    (h : ∀ req, Carries validValue st caller (some (rpc req)) (do
      let outcome ← (call req).run
      return streamResponse validValue st.cfg
        (fun stream => jsonStreamingResponse validValue st.cfg (items stream)) outcome)) :
    Carries validValue st caller ((decodeRequest body).toOption.map rpc)
      (runServerStreaming validValue st.cfg body call items) := by
  unfold runServerStreaming
  cases hdecode : (decodeRequest body : Except GatewayError Req) with
  | error e => exact ⟨_, rfl, errorResponse_ne_ok (by rw [decodeRequest_error hdecode]; decide)⟩
  | ok req => exact h req

/-- The call of a route that takes `GET`. -/
def getCall (method : HttpMethod) (call : Option Rpc) : Option Rpc :=
  if method = .get ∨ method = .head then call else none

theorem getRoute_carries {allow : String} {call : Option Rpc} {handler : GatewayM Response}
    (h : Carries validValue st caller call handler) :
    Carries validValue st caller (getCall method call) (getRoute allow method handler) := by
  cases method with
  | get | head => exact h
  | options | post | other => exact ⟨_, rfl, (by decide : (405 : ℕ) ≠ 200)⟩

theorem getOptionsRoute_carries {call : Option Rpc} {handler : GatewayM Response}
    (h : Carries validValue st caller call handler) :
    Carries validValue st caller (getCall method call) (getOptionsRoute validValue st method handler) := by
  cases method with
  | get | head => exact h
  | options => exact ⟨_, rfl, corsPreflight_ne_ok⟩
  | post | other => exact ⟨_, rfl, (by decide : (405 : ℕ) ≠ 200)⟩

end Handlers

/-! ### The read routes -/

section Reads

variable [JsonSchema] [SerdeYaml] [SerdeJson] [SecretYaml]
variable [ToVec Config] [ToVec ApplyResponse] [ToVec (List BatchApplyResult)] [ToVec DryRunApplyResponse]
  [ToVec RevertResponse] [ToVec SecretResponse] [ToVec ApplySecretResponse]
variable (validValue : String → Bool) (st : GatewayState) (caller : Caller)

/-- The call behind the gate, if the cache it needs is ready. -/
def GatewayState.guarded (headers : HeaderMap) (rpc : Rpc) : Option Rpc :=
  if (checkAuth validValue st.cfg headers).isSome then none
  else if st.ready rpc then some rpc else none

theorem restGetConfig_carries (ns name : String) (headers : HeaderMap) :
    Carries validValue st caller (st.guarded validValue headers (.get ⟨ns, name⟩))
      (restGetConfig validValue st caller ns name headers) := by
  unfold restGetConfig GatewayState.guarded
  cases hauth : checkAuth validValue st.cfg headers with
  | some deny => exact ⟨_, rfl, denied_ne_ok hauth⟩
  | none => exact rfl

theorem restGetAllConfigs_carries (ns : String) (headers : HeaderMap) :
    Carries validValue st caller (st.guarded validValue headers (.getAll ns))
      (restGetAllConfigs validValue st caller ns headers) := by
  unfold restGetAllConfigs GatewayState.guarded
  cases hauth : checkAuth validValue st.cfg headers with
  | some deny => exact ⟨_, rfl, denied_ne_ok hauth⟩
  | none => exact rfl

theorem sseConfigWatch_carries (ns name : String) (headers : HeaderMap) :
    Carries validValue st caller
      (st.guarded validValue headers (.subscribe (configSubscribeRequest ns name headers)))
      (sseConfigWatch validValue st caller ns name headers) := by
  unfold sseConfigWatch GatewayState.guarded GatewayState.ready
  cases hauth : checkAuth validValue st.cfg headers with
  | some deny => exact ⟨_, rfl, denied_ne_ok hauth⟩
  | none =>
    cases st.cacheReady with
    | false => exact ⟨_, rfl, cacheNotReady_ne_ok⟩
    | true => exact rfl

theorem sseSecretWatch_carries (ns name : String) (headers : HeaderMap) :
    Carries validValue st caller
      (st.guarded validValue headers (.subscribeSecrets (secretSubscribeRequest ns name (lastEventId headers))))
      (sseSecretWatch validValue st caller ns name headers) := by
  unfold sseSecretWatch GatewayState.guarded GatewayState.ready
  cases hauth : checkAuth validValue st.cfg headers with
  | some deny => exact ⟨_, rfl, denied_ne_ok hauth⟩
  | none =>
    cases st.secretCacheReady with
    | false => exact ⟨_, rfl, cacheNotReady_ne_ok⟩
    | true => exact rfl

end Reads

/-! ### Admission -/

section Admission

variable [JsonSchema]
variable [FromSlice Key] [FromSlice GetAllRequest] [FromSlice ApplyRequest] [FromSlice BatchApplyRequest]
  [FromSlice RevertRequest] [FromSlice ApplySecretRequest]
variable (validValue : String → Bool) (st : GatewayState)

theorem admits_get {req : HttpRequest} {rpc : Rpc}
    (h : req.rpc = if req.method = .get ∨ req.method = .head then some rpc else none) :
    st.admits validValue req = getCall req.method (st.guarded validValue req.headers rpc) := by
  unfold GatewayState.admits getCall GatewayState.guarded
  rw [h]
  split_ifs <;> simp [*]

/-- What is posted waits for no cache. -/
theorem postedRpc_ready {rpc : String} {body : List UInt8} {call : Rpc} (h : postedRpc rpc body = some call) :
    st.ready call = true := by
  unfold postedRpc at h
  split at h
  case h_10 => cases h
  all_goals
    obtain ⟨req, _, rfl⟩ := Option.map_eq_some_iff.mp h
    rfl

/-- The probe makes no call. -/
theorem admits_healthz {req : HttpRequest} (h : req.route = .healthz) : st.admits validValue req = none := by
  simp [GatewayState.admits, HttpRequest.rpc, h]

theorem admits_eq_some {req : HttpRequest} {rpc : Rpc} (h : st.admits validValue req = some rpc) :
    checkAuth validValue st.cfg req.headers = none ∧ req.rpc = some rpc := by
  unfold GatewayState.admits at h
  split at h
  · cases h
  · next hsome => exact ⟨Option.not_isSome_iff_eq_none.mp hsome, (Option.filter_eq_some_iff.mp h).1⟩

/-- Behind a gate that the arguments opened. -/
theorem credential_of_admits {args : Args} (hcfg : resolveHttpGatewayConfig args = .ok (some st.cfg))
    {req : HttpRequest} {rpc : Rpc} (h : st.admits validValue req = some rpc) :
    args.httpInsecure = true ∨ ∃ token value, args.httpAuthToken = some token ∧ token ≠ "" ∧
      req.headers.lookup AUTHORIZATION = some value ∧ Credential token value := by
  have hauth := (admits_eq_some validValue st h).1
  unfold resolveHttpGatewayConfig at hcfg
  split at hcfg
  · cases hcfg
  · split at hcfg
    · next hinsecure => exact .inl hinsecure
    · split at hcfg
      · cases hcfg
      · next token htoken =>
        obtain ⟨htoken, -⟩ := Option.filter_eq_some_iff.mp htoken
        have hst := Option.some.inj (Except.ok.inj hcfg)
        rcases (checkAuth_eq_none validValue st.cfg req.headers).mp hauth with hinsecure | hcred
        · rw [← hst] at hinsecure
          cases hinsecure
        · obtain ⟨token', value, hst', hne, hvalue, hcred⟩ := hcred
          rw [← hst] at hst'
          cases hst'
          exact .inr ⟨token, value, htoken, hne, hvalue, hcred⟩

end Admission

/-! ### The anonymous caller -/

theorem issues_mono {α : Type} {P Q : ServiceOp → Prop} (h : ∀ o, P o → Q o) {p : GatewayM α}
    (hp : p.Issues P) : p.Issues Q :=
  Proc.Issues.wp _ _ (fun _ => True) (fun _ o _ ho => ⟨h o ho, fun _ => trivial⟩) hp () trivial

/-- The caller of a request made in the process: `Request::new` carries no peer certificate,
no address and no metadata.  The traceparent is that of the current span, if spans are exported. -/
def inProcess (requestId : String) (traceparent : Option String) : Caller :=
  { identity := { id := "anonymous", anonymous := true }, addr := "unknown", requestId, traceparent }

section Anonymous

variable [JsonSchema]

/-- In enforce mode nobody without a certificate passes, but for a batch of nothing. -/
theorem gate_anonymous {srv : KonfigServer} (hmode : srv.authzMode = .enforce) {caller : Caller}
    (hanon : caller.identity.anonymous = true) {rpc : Rpc} (h : srv.gate caller rpc = .ok ()) :
    rpc = .batchApply [] := by
  have hdenied : ∀ verb ns name, srv.authorize caller verb ns name ≠ .ok () := by
    intro verb ns name hok
    rw [authorize_eq, hmode] at hok
    have hnamed := (check_enforce_ok.mp hok).2.1
    rw [hanon] at hnamed
    cases hnamed
  cases rpc with
  | batchApply items =>
    cases items with
    | nil => rfl
    | cons item items =>
      have hall := authorizeAll_ok h item List.mem_cons_self
      rw [KonfigServer.Allows, ← authorize_eq] at hall
      exact absurd hall (hdenied _ _ _)
  | get _ | getAll _ | apply _ | dryRunApply _ | revert _ | subscribe _ | getSecret _ | getAllSecrets _
  | applySecret _ | subscribeSecrets _ => exact absurd h (hdenied _ _ _)

/-- A batch of nothing is admitted and then rejected. -/
theorem batchApply_nil_issues [SerdeYaml] [SerdeJson] [SecretYaml] (srv : KonfigServer) (caller : Caller) :
    IssuesOk (· = .applyAdmission caller.identity.id 0) (srv.call caller (.batchApply [])) := by
  refine issues_discard (issues_gated fun _ => ?_)
  refine Proc.wpOk_seq _ _ (issues_rateLimit rfl) fun _ _ _ => ?_
  -- the handler fails before its first request
  have hhandler : Proc.wpOk (fun (_ : Unit) _ _ => ()) (fun _ _ => False)
      (handleBatchApply srv.schemaTable [] caller.traceparent) (fun _ _ => True) () := by
    refine Proc.wpOk_bind _ _ (Proc.wpOk_liftExcept _ _ fun items hitems => ?_)
    cases hitems
  refine Proc.wpOk_seq _ _ (issues_outcome (issues_kube hhandler fun _ => False.elim)) fun _ result _ => ?_
  have hrecords : IssuesOk (· = .applyAdmission caller.identity.id 0) (emitItems srv caller result []) :=
    Proc.wpOk_pure _ _ trivial
  exact Proc.wpOk_seq _ _ hrecords fun _ _ _ => Proc.wpOk_liftExcept _ _ fun _ _ => trivial

end Anonymous

/-! ### What an operation rests on -/

section Confined

variable [JsonSchema] [SerdeYaml] [SerdeJson] [SecretYaml]
variable [FromSlice Key] [FromSlice GetAllRequest] [FromSlice ApplyRequest] [FromSlice BatchApplyRequest]
  [FromSlice RevertRequest] [FromSlice ApplySecretRequest]
variable (validValue : String → Bool) (st : GatewayState)

/-- What an operation that is issued for a request rests on: the credential the process was
started with, and a call past the check of the anonymous caller, which in enforce mode is
the admission of an empty batch. -/
structure Confined (args : Args) (srv : KonfigServer) (requestId : String) (traceparent : Option String)
    (req : HttpRequest) (o : ServiceOp) : Prop where
  credential : args.httpInsecure = true ∨ ∃ token value, args.httpAuthToken = some token ∧ token ≠ "" ∧
    req.headers.lookup AUTHORIZATION = some value ∧ Credential token value
  call : ∃ rpc, req.rpc = some rpc ∧ srv.gate (inProcess requestId traceparent) rpc = .ok () ∧
    rpc.May (inProcess requestId traceparent) o ∧
    (srv.authzMode = .enforce → rpc = .batchApply [] ∧ o = .applyAdmission "anonymous" 0)

theorem call_confined {args : Args} (hcfg : resolveHttpGatewayConfig args = .ok (some st.cfg))
    {requestId : String} {traceparent : Option String} {req : HttpRequest} {rpc : Rpc}
    (h : st.admits validValue req = some rpc) :
    (st.server.call (inProcess requestId traceparent) rpc).run.Issues
      (Confined args st.server requestId traceparent req) := by
  have hcred := credential_of_admits validValue st hcfg h
  have hrpc := (admits_eq_some validValue st h).2
  by_cases hempty : rpc = .batchApply []
  · subst hempty
    refine issues_mono (fun o ho => ?_)
      (Proc.issues_of_wpOk (batchApply_nil_issues st.server (inProcess requestId traceparent)))
    subst ho
    exact ⟨hcred, _, hrpc, rfl, .inl rfl, fun _ => ⟨rfl, rfl⟩⟩
  · have hmay : IssuesOk (fun o => st.server.gate (inProcess requestId traceparent) rpc = .ok () ∧
        rpc.May (inProcess requestId traceparent) o) (st.server.call (inProcess requestId traceparent) rpc) :=
      call_issues fun hgate o ho => ⟨hgate, ho⟩
    refine issues_mono (fun o ho => ?_) (Proc.issues_of_wpOk hmay)
    exact ⟨hcred, rpc, hrpc, ho.1, ho.2, fun hmode => absurd (gate_anonymous hmode rfl ho.1) hempty⟩

end Confined

/-! ### The router -/

section Requests

variable [JsonSchema] [SerdeYaml] [SerdeJson] [SecretYaml]
variable [FromSlice Key] [FromSlice GetAllRequest] [FromSlice ApplyRequest] [FromSlice BatchApplyRequest]
  [FromSlice RevertRequest] [FromSlice ApplySecretRequest]
variable [ToVec Config] [ToVec ApplyResponse] [ToVec (List BatchApplyResult)] [ToVec DryRunApplyResponse]
  [ToVec RevertResponse] [ToVec SecretResponse] [ToVec ApplySecretResponse]
variable (validValue : String → Bool) (st : GatewayState) (caller : Caller)

/-- What is posted is the call of its method. -/
theorem dispatch_carries {body : List UInt8} {headers : HeaderMap} {rpc : String}
    (hauth : checkAuth validValue st.cfg headers = none) :
    Carries validValue st caller (postedRpc rpc body) (dispatch validValue st caller .post headers rpc body) := by
  have hpost : ¬ HttpMethod.post = .options := by decide
  unfold dispatch
  simp only [hauth, hpost, ne_eq, not_true_eq_false, if_false]
  unfold postedRpc
  split
  · exact carries_unary body fun _ => rfl
  · exact carries_streaming body fun _ => rfl
  · exact carries_unary body fun _ => rfl
  · exact carries_unary body fun _ => rfl
  · exact carries_unary body fun _ => rfl
  · exact carries_unary body fun _ => rfl
  · exact carries_unary body fun _ => rfl
  · exact carries_streaming body fun _ => rfl
  · exact carries_unary body fun _ => rfl
  · -- the two streams, and what is no method
    have hunserved : ∀ code message, (errorResponse validValue st.cfg ⟨501, code, message⟩).status ≠ 200 :=
      fun _ _ => errorResponse_ne_ok (by decide : (501 : ℕ) ≠ 200)
    have hunknown : ∀ code message, (errorResponse validValue st.cfg ⟨404, code, message⟩).status ≠ 200 :=
      fun _ _ => errorResponse_ne_ok (by decide : (404 : ℕ) ≠ 200)
    split <;> first | contradiction | exact ⟨_, rfl, hunserved _ _⟩ | exact ⟨_, rfl, hunknown _ _⟩

theorem dispatch_denied {body : List UInt8} {headers : HeaderMap} {rpc : String} {method : HttpMethod}
    (h : method ≠ .post ∨ (checkAuth validValue st.cfg headers).isSome) :
    ∃ resp, dispatch validValue st caller method headers rpc body = pure resp ∧ resp.status ≠ 200 := by
  unfold dispatch
  by_cases hoptions : method = .options
  · exact ⟨_, if_pos hoptions, corsPreflight_ne_ok⟩
  · by_cases hpost : method = .post
    · obtain ⟨resp, hresp⟩ := Option.isSome_iff_exists.mp (h.resolve_left fun hne => hne hpost)
      refine ⟨.ofHttp resp, ?_, denied_ne_ok hresp⟩
      simp only [hpost, hresp, ne_eq, not_true_eq_false, if_false, reduceCtorEq]
    · exact ⟨_, (if_neg hoptions).trans (if_pos hpost), errorResponse_ne_ok (by decide)⟩

/-- **A request is the call it stands for**, or it is turned away; the probe apart. -/
theorem routed_carries {req : HttpRequest} (h : req.route ≠ .healthz) :
    Carries validValue st caller (st.admits validValue req) (routed validValue st caller req) := by
  obtain ⟨method, route, headers, body⟩ := req
  cases route with
  | rpc rpc =>
    by_cases hlen : MAX_HTTP_BODY_BYTES < body.length
    · have hnone : st.admits validValue ⟨method, .rpc rpc, headers, body⟩ = none := by
        simp [GatewayState.admits, HttpRequest.rpc, Nat.not_le.mpr hlen]
      rw [hnone]
      exact ⟨tooLarge, if_pos hlen, by decide⟩
    · have hrouted : routed validValue st caller ⟨method, .rpc rpc, headers, body⟩ =
          dispatch validValue st caller method headers rpc body := if_neg hlen
      rw [hrouted]
      by_cases hdenied : method ≠ .post ∨ (checkAuth validValue st.cfg headers).isSome
      · have hnone : st.admits validValue ⟨method, .rpc rpc, headers, body⟩ = none := by
          rcases hdenied with hmethod | hauth
          · simp [GatewayState.admits, HttpRequest.rpc, hmethod]
          · simp [GatewayState.admits, hauth]
        rw [hnone]
        exact dispatch_denied validValue st caller hdenied
      · obtain ⟨hpost, hauth⟩ := not_or.mp hdenied
        obtain rfl := not_not.mp hpost
        have hauth := Option.not_isSome_iff_eq_none.mp hauth
        have hposted : st.admits validValue ⟨.post, .rpc rpc, headers, body⟩ = postedRpc rpc body := by
          simp only [GatewayState.admits, HttpRequest.rpc, hauth, Nat.le_of_not_lt hlen, Option.isSome_none,
            Bool.false_eq_true, if_false, and_self, if_true]
          cases hcall : postedRpc rpc body with
          | none => rfl
          | some call => exact if_pos (postedRpc_ready st hcall)
        rw [hposted]
        exact dispatch_carries validValue st caller hauth
  | configWatch ns name =>
    rw [admits_get validValue st rfl]
    exact getRoute_carries (sseConfigWatch_carries validValue st caller ns name headers)
  | secretWatch ns name =>
    rw [admits_get validValue st rfl]
    exact getRoute_carries (sseSecretWatch_carries validValue st caller ns name headers)
  | config ns name =>
    rw [admits_get validValue st rfl]
    exact getOptionsRoute_carries (restGetConfig_carries validValue st caller ns name headers)
  | configs ns =>
    rw [admits_get validValue st rfl]
    exact getOptionsRoute_carries (restGetAllConfigs_carries validValue st caller ns headers)
  | healthz => exact absurd rfl h
  | unknown =>
    have hnone : st.admits validValue ⟨method, .unknown, headers, body⟩ = none := by
      simp [GatewayState.admits, HttpRequest.rpc]
    rw [hnone]
    exact ⟨_, rfl, (by decide : (404 : ℕ) ≠ 200)⟩

theorem routed_healthz {req : HttpRequest} (h : req.route = .healthz) :
    ∃ resp, routed validValue st caller req = pure resp := by
  obtain ⟨method, route, headers, body⟩ := req
  obtain rfl : route = .healthz := h
  cases method <;> exact ⟨_, rfl⟩

/-- Without a call there is no operation, and no success but the probe's. -/
theorem router_turned_away {req : HttpRequest} (h : st.admits validValue req = none) :
    ∃ resp, router validValue st caller req = pure resp ∧ (resp.status = 200 → req.route = .healthz) := by
  by_cases hroute : req.route = .healthz
  · obtain ⟨resp, hresp⟩ := routed_healthz validValue st caller hroute
    exact ⟨headResponse req.method resp, by rw [router, hresp]; rfl, fun _ => hroute⟩
  · have hcarries := routed_carries validValue st caller hroute
    rw [h] at hcarries
    obtain ⟨resp, hresp, hne⟩ := hcarries
    refine ⟨headResponse req.method resp, by rw [router, hresp]; rfl, fun h200 => ?_⟩
    rw [headResponse_status] at h200
    exact absurd h200 hne

/-- An admitted request is its call, with the outcome shown. -/
theorem router_of_admits {req : HttpRequest} {rpc : Rpc} (h : st.admits validValue req = some rpc) :
    router validValue st caller req = (do
      let outcome ← (st.server.message caller rpc).run
      return headResponse req.method (shown validValue st.cfg rpc outcome)) := by
  have hroute : req.route ≠ .healthz := by
    intro hroute
    rw [admits_healthz validValue st hroute] at h
    cases h
  have hcarries := routed_carries validValue st caller hroute
  rw [h] at hcarries
  have hrouted : routed validValue st caller req = (do
      let outcome ← (st.server.message caller rpc).run
      return shown validValue st.cfg rpc outcome) := hcarries
  rw [router, hrouted, bind_assoc]
  rfl

/-- A request of no operation but those of its call. -/
theorem router_issues {req : HttpRequest} {P : ServiceOp → Prop}
    (h : ∀ rpc, st.admits validValue req = some rpc → (st.server.call caller rpc).run.Issues P) :
    (router validValue st caller req).Issues P := by
  cases hadmits : st.admits validValue req with
  | none =>
    obtain ⟨resp, hresp, -⟩ := router_turned_away validValue st caller hadmits
    rw [hresp]
    exact trivial
  | some rpc =>
    have hcall := h rpc hadmits
    rw [KonfigServer.call_eq_message] at hcall
    have hrun := Proc.wp_of_bind _ _ (st.server.message caller rpc).run () hcall
    rw [router_of_admits validValue st caller hadmits]
    refine Proc.wp_bind _ _ _ _ _ (Proc.wp_mono _ _ ?_ _ _ hrun)
    intro _ _ _
    exact trivial

/-- **Whoever reaches the service through the gateway has the credential.**  Whatever else
runs, every operation of a request is confined. -/
theorem gateway_confined {args : Args} (hcfg : resolveHttpGatewayConfig args = .ok (some st.cfg))
    {requestId : String} {traceparent : Option String} {req : HttpRequest} {S : Type}
    {env : S → (o : ServiceOp) → o.Resp → S → Prop} {c₀ c c' : S × List (GatewayM Response)}
    {tr : List (Event ServiceOp ServiceOp.Resp)} {e : Event ServiceOp ServiceOp.Resp}
    (hreq : c₀.2[e.pid]? = some (router validValue st (inProcess requestId traceparent) req))
    (hrun : Run env c₀ tr c) (hstep : Step env c e c') :
    Confined args st.server requestId traceparent req e.op := by
  have hissues : ∀ p, c₀.2[e.pid]? = some p → p.Issues (Confined args st.server requestId traceparent req) := by
    intro p hp
    rw [hreq] at hp
    obtain rfl := Option.some.inj hp
    exact router_issues validValue st (inProcess requestId traceparent) fun rpc hrpc =>
      call_confined validValue st hcfg hrpc
  exact hrun.pre_at hissues hstep

end Requests

/-! ### A request to the alias of `Get` -/

section

local instance gatewaySchemas : JsonSchema := noSchemas

local instance gatewayDocuments : SerdeYaml := twoDocuments

local instance gatewayText : SerdeJson := noText

local instance gatewayYaml : SecretYaml := demoYaml

/-- No body is a message. -/
@[reducible] def notJson {Req : Type} (default : Req) : FromSlice Req where
  fromSlice _ := .error "expected value at line 1 column 1"
  default := default

local instance : FromSlice Key := notJson ⟨"", ""⟩

local instance : FromSlice GetAllRequest := notJson ⟨""⟩

local instance : FromSlice ApplyRequest := notJson ⟨⟨"", ""⟩, ""⟩

local instance : FromSlice BatchApplyRequest := notJson ⟨[]⟩

local instance : FromSlice RevertRequest := notJson ⟨⟨"", ""⟩, ""⟩

local instance : FromSlice ApplySecretRequest := notJson ⟨⟨"", ""⟩, ""⟩

/-- The empty message. -/
local instance emptyObject {Resp : Type} : ToVec Resp := ⟨fun _ => .ok (utf8 "\x7b\x7d")⟩

def gatewayArgs : Args where
  httpAddr := some "0.0.0.0:8080"
  httpAuthToken := some "s3cret"
  httpCorsAllowOrigin := none
  httpInsecure := false

def gatewayState : GatewayState where
  server := { drainingServer with draining := false }
  cfg := { authToken := some "s3cret", corsAllowOrigin := none, insecure := false }
  cacheReady := true
  secretCacheReady := true

def getLimits : HttpRequest where
  method := .get
  route := .config "trading" "limits"
  headers := [("authorization", utf8 "Bearer s3cret")]
  body := []

/-- A request with the token, and the read of the cache it comes to. -/
theorem getLimits_confined :
    Confined gatewayArgs gatewayState.server "17-0" none getLimits (.getConfig ⟨"trading", "limits"⟩) := by
  have hauth : checkAuth (fun _ => true) gatewayState.cfg [("authorization", utf8 "Bearer s3cret")] = none := by
    decide +kernel
  obtain ⟨k, hk⟩ : ∃ k, router (fun _ => true) gatewayState (inProcess "17-0" none) getLimits =
      .call (.getConfig ⟨"trading", "limits"⟩) k := by
    simp only [router, routed, getLimits, getOptionsRoute, getRoute, restGetConfig, hauth]
    exact ⟨_, rfl⟩
  have hstep : Step (fun (_ : Unit) _ _ _ => True)
      ((), [router (fun _ => true) gatewayState (inProcess "17-0" none) getLimits])
      ⟨0, .getConfig ⟨"trading", "limits"⟩, (none, 0)⟩
      ((), [router (fun _ => true) gatewayState (inProcess "17-0" none) getLimits].set 0 (k (none, 0))) :=
    .call (congrArg some hk) trivial
  have hcfg : resolveHttpGatewayConfig gatewayArgs = .ok (some gatewayState.cfg) := rfl
  exact gateway_confined (fun _ => true) gatewayState hcfg rfl .nil hstep

end

end Konfig.Gateway
