import Konfig.ApplyRace
import Konfig.Service.Rpc
import Konfig.Service.Scope
import Konfig.Service.Targets

/-!
# The gates of the RPCs

Every method is meant to start with the same two gates: a draining server answers
`UNAVAILABLE`, and in enforce mode a caller reaches only objects it is granted.  `Gated`
says this of one call: of the operations it issues, of the objects they touch and of its
outcome.

* `permitted_of_may`: an operation is issued only where `check` has passed, for the object
  or for the whole namespace.
* `allows_of_touched`: whatever such an operation touches, `check` passes for.
* `call_draining`: every method but `Revert` starts with `check_drain`.
* `gates_cover_iff`: the calls that are gated.
-/

namespace Konfig

open Lib

/-! ### What an operation does -/

/-- A request to the API server, a response stream, a quota or the record of a success. -/
def ServiceOp.isEffect : ServiceOp → Bool
  | .kube _ | .secretKube _ | .k8sEvent _ => true
  | .allConfigs _ | .allSecrets _ | .subscribe _ | .subscribeSecrets _ => true
  | .applyAdmission _ _ | .admitSubscriber _ => true
  | .audit record => record.result = "success"
  | .getConfig _ | .getSecret _ => false

/-- The object of an event. -/
def ConfigEvent.target (e : ConfigEvent) : Option Key := e.config.map fun c => ⟨c.ns, c.name⟩

def SecretEvent.target (e : SecretEvent) : Option Key := e.secret.map fun r => ⟨r.ns, r.name⟩

/-- The objects that are read, written or streamed.  A Kubernetes event names the object
it reports on. -/
def ServiceOp.touched : (o : ServiceOp) → o.Resp → List Key
  | .kube o, _ => [o.key]
  | .secretKube o, _ => [o.key]
  | .getConfig key, _ => [key]
  | .allConfigs _, snaps => snaps.map (·.key)
  | .getSecret key, _ => [key]
  | .allSecrets _, snaps => snaps.map (·.key)
  | .subscribe _, .ok events => events.filterMap ConfigEvent.target
  | .subscribe _, .error _ => []
  | .subscribeSecrets _, .ok events => events.filterMap SecretEvent.target
  | .subscribeSecrets _, .error _ => []
  | .k8sEvent record, _ => [⟨record.ns, record.name⟩]
  | .applyAdmission _ _, _ => []
  | .admitSubscriber _, _ => []
  | .audit _, _ => []

/-- The response of a cache is its entries in the namespace, and a stream delivers what
some run of its session puts into the channel. -/
def ServiceOp.Faithful : (o : ServiceOp) → o.Resp → Prop
  | .allConfigs ns, snaps => ∃ (c : ConfigCache) (order : List Key),
      order.Perm c.entries.keys ∧ snaps = c.allInNamespace order ns
  | .allSecrets ns, snaps => ∃ (c : SecretCache) (order : List Key),
      c.Keyed SecretSnapshot.key ∧ order.Perm c.keys ∧ snaps = c.allInNamespace order ns
  | .subscribe req, .ok events => ∃ (coalesced : Bool) (filter : SubscribeFilter) (p : Pump)
      (ls : List ConfigSessionLabel) (s : ConfigSession), p.Of req.ns ∧ (∀ l ∈ ls, l.Scoped req.ns) ∧
      run (ConfigSession.step coalesced filter) ⟨p, .new req.resumeResourceVersion⟩ ls = some s ∧
      events = s.sub.out.items
  | .subscribeSecrets req, .ok events => ∃ (served : Bool) (cache : SecretCache) (ls : List SecretLabel)
      (s : SecretSession), cache.Keyed SecretSnapshot.key ∧ (∀ l ∈ ls, l.Scoped req.ns) ∧
      run (SecretSession.step req served) (.start cache) ls = some s ∧ events = s.sub.out.items
  | _, _ => True

section Server

variable [JsonSchema]

/-- `authz::check` passes for the caller on this object. -/
def KonfigServer.Allows (srv : KonfigServer) (caller : Caller) (verb : Verb) (key : Key) : Prop :=
  check srv.authzMode srv.aclTable srv.aclSynced caller.identity verb key.ns key.name = .ok ()

/-! ### Operations behind a passed check -/

/-- What was checked before the operation. -/
def ServiceOp.Permitted (srv : KonfigServer) (caller : Caller) (verb : Verb) : ServiceOp → Prop
  | .kube o => srv.Allows caller verb o.key
  | .secretKube o => srv.Allows caller verb o.key
  | .getConfig key => srv.Allows caller verb key
  | .getSecret key => srv.Allows caller verb key
  | .allConfigs ns => srv.Allows caller verb ⟨ns, "*"⟩
  | .allSecrets ns => srv.Allows caller verb ⟨ns, "*"⟩
  | .subscribe req => srv.Allows caller verb ⟨req.ns, "*"⟩
  | .subscribeSecrets req => srv.Allows caller verb ⟨req.ns, "*"⟩
  | .k8sEvent record => srv.Allows caller verb ⟨record.ns, record.name⟩
  | .applyAdmission _ _ | .admitSubscriber _ | .audit _ => True

/-- **What a permitted operation touches is allowed**, in enforce mode. -/
theorem allows_of_touched {srv : KonfigServer} {caller : Caller} {verb : Verb}
    (hmode : srv.authzMode = .enforce) {o : ServiceOp} {r : o.Resp}
    (hper : o.Permitted srv caller verb) (hfaith : o.Faithful r) :
    ∀ key ∈ o.touched r, srv.Allows caller verb key := by
  -- a grant of the whole namespace covers each object of it
  have hwild : ∀ ns, srv.Allows caller verb ⟨ns, "*"⟩ → ∀ key : Key, key.ns = ns →
      srv.Allows caller verb key := by
    rintro ns h key rfl
    unfold KonfigServer.Allows at h ⊢
    rw [hmode] at h ⊢
    exact check_of_wildcard h key.name
  intro key hkey
  cases o with
  | kube o | secretKube o | getConfig k | getSecret k | k8sEvent record =>
    rw [ServiceOp.touched, List.mem_singleton] at hkey
    rw [hkey]
    exact hper
  | allConfigs ns =>
    obtain ⟨c, order, _, rfl⟩ := hfaith
    obtain ⟨snap, hsnap, rfl⟩ := List.mem_map.mp hkey
    exact hwild ns hper _ (ConfigCache.ns_of_mem_allInNamespace hsnap)
  | allSecrets ns =>
    obtain ⟨c, order, hc, _, rfl⟩ := hfaith
    obtain ⟨snap, hsnap, rfl⟩ := List.mem_map.mp hkey
    exact hwild ns hper _ (SecretCache.ns_of_mem_allInNamespace hc hsnap)
  | subscribe req =>
    cases r with
    | error status => cases hkey
    | ok events =>
      obtain ⟨coalesced, filter, p, ls, s, hp, hls, hrun, rfl⟩ := hfaith
      obtain ⟨e, he, htarget⟩ := List.mem_filterMap.mp hkey
      obtain ⟨c, hc, rfl⟩ := Option.map_eq_some_iff.mp htarget
      exact hwild req.ns hper _ (ConfigSession.scoped_run hp hls hrun e he c hc)
  | subscribeSecrets req =>
    cases r with
    | error status => cases hkey
    | ok events =>
      obtain ⟨served, cache, ls, s, hcache, hls, hrun, rfl⟩ := hfaith
      obtain ⟨e, he, htarget⟩ := List.mem_filterMap.mp hkey
      obtain ⟨c, hc, rfl⟩ := Option.map_eq_some_iff.mp htarget
      exact hwild req.ns hper _ (SecretSession.scoped_run hcache hls hrun e he c hc)
  | applyAdmission identity cost | admitSubscriber identity | audit record => cases hkey

theorem authorize_eq (srv : KonfigServer) (caller : Caller) (verb : Verb) (ns name : String) :
    srv.authorize caller verb ns name =
      check srv.authzMode srv.aclTable srv.aclSynced caller.identity verb ns name := by
  unfold KonfigServer.authorize
  split
  · rename_i hmode
    rw [check, if_pos hmode]
  · rfl

theorem authorizeAll_ok {srv : KonfigServer} {caller : Caller} : ∀ {items : List ApplyRequest},
    srv.authorizeAll caller items = .ok () → ∀ item ∈ items, srv.Allows caller .write item.key := by
  intro items
  induction items with
  | nil => intro _ item hi; cases hi
  | cons item items ih =>
    intro h
    rw [KonfigServer.authorizeAll] at h
    cases hitem : srv.authorize caller .write item.key.ns item.key.name with
    | error status =>
      rw [hitem] at h
      cases h
    | ok u =>
      rw [hitem] at h
      rw [authorize_eq] at hitem
      intro i hi
      rcases List.mem_cons.mp hi with rfl | hi
      · exact hitem
      · exact ih h i hi

/-- Requests about allowed objects are permitted, and so are their records. -/
theorem permitted_of_about {srv : KonfigServer} {caller : Caller} {verb : Verb} {S : Key → Prop}
    (hS : ∀ key, S key → srv.Allows caller verb key) {o : ServiceOp} (ho : o.About S) :
    o.Permitted srv caller verb := by
  cases o with
  | kube o | secretKube o | k8sEvent record => exact hS _ ho
  | audit record => trivial
  | _ => cases ho

/-- **What a method may issue past its check is permitted.** -/
theorem permitted_of_may {srv : KonfigServer} {caller : Caller} {rpc : Rpc}
    (hok : srv.gate caller rpc = .ok ()) {o : ServiceOp} (ho : rpc.May caller o) :
    o.Permitted srv caller rpc.verb := by
  cases rpc with
  | batchApply items =>
    rcases ho with rfl | ho
    · trivial
    · refine permitted_of_about (fun key hkey => ?_) ho
      obtain ⟨item, hi, rfl⟩ := hkey
      exact authorizeAll_ok hok item hi
  | get key | getAll ns | dryRunApply req =>
    rw [KonfigServer.gate, authorize_eq] at hok
    subst ho
    exact hok
  | apply req | applySecret req =>
    rw [KonfigServer.gate, authorize_eq] at hok
    rcases ho with rfl | ho
    · trivial
    · refine permitted_of_about (fun key hkey => ?_) ho
      rw [hkey]
      exact hok
  | revert req =>
    rw [KonfigServer.gate, authorize_eq] at hok
    refine permitted_of_about (S := (· = req.key)) (fun key hkey => ?_) ho
    rw [hkey]
    exact hok
  | subscribe req =>
    rw [KonfigServer.gate, authorize_eq] at hok
    rcases ho with rfl | rfl
    · trivial
    · exact hok
  | getSecret key | getAllSecrets ns =>
    rw [KonfigServer.gate, authorize_eq] at hok
    rcases ho with rfl | ⟨record, rfl⟩
    · exact hok
    · trivial
  | subscribeSecrets req =>
    rw [KonfigServer.gate, authorize_eq] at hok
    rcases ho with rfl | rfl | ⟨record, rfl⟩
    · trivial
    · exact hok
    · trivial

section Calls

variable [SerdeYaml] [SerdeJson] [SecretYaml]

/-! ### The gates -/

/-- The gates cover a call, whatever it is answered and however far it comes. -/
structure Gated (srv : KonfigServer) (caller : Caller) (rpc : Rpc) : Prop where
  drained : srv.draining = true → ∀ tr q, (srv.call caller rpc).run.Steps tr q →
    (∀ e ∈ tr, e.1.isEffect = false) ∧
    ∀ r, q = .ret r → ∃ status, r = .error status ∧ status.code = .unavailable
  authorized : srv.draining = false → srv.authzMode = .enforce → ∀ tr q,
    (srv.call caller rpc).run.Steps tr q → (∀ e ∈ tr, e.1.Faithful e.2) →
    ∀ e ∈ tr, ∀ key ∈ e.1.touched e.2, srv.Allows caller rpc.verb key

/-- **Every method but `Revert` turns a call away while the server drains.** -/
theorem call_draining {srv : KonfigServer} (hdrain : srv.draining = true) (caller : Caller) {rpc : Rpc}
    (hrpc : rpc.isRevert = false) :
    (srv.call caller rpc).run = .ret (.error ⟨.unavailable, "server draining"⟩) := by
  have hcheck : srv.checkDrain = .error ⟨.unavailable, "server draining"⟩ := if_pos hdrain
  cases rpc with
  | revert req => cases hrpc
  | get | getAll | apply | batchApply | dryRunApply | subscribe | getSecret | getAllSecrets | applySecret
  | subscribeSecrets =>
    simp only [KonfigServer.call, KonfigServer.get, KonfigServer.getAll, KonfigServer.apply,
      KonfigServer.batchApply, KonfigServer.dryRunApply, KonfigServer.subscribe, KonfigServer.getSecret,
      KonfigServer.getAllSecrets, KonfigServer.applySecret, KonfigServer.subscribeSecrets, hcheck]
    rfl

/-- A `Revert` that `authorize` turns away. -/
theorem revert_denied {srv : KonfigServer} {caller : Caller} {req : RevertRequest} {status : Status}
    (h : srv.authorize caller .write req.key.ns req.key.name = .error status) :
    (srv.call caller (.revert req)).run = .ret (.error status) := by
  simp only [KonfigServer.call, KonfigServer.revert, h]
  rfl

/-- A `Revert` that passes starts with the list of `fetch_historical_spec`. -/
theorem revert_lists {srv : KonfigServer} {caller : Caller} {req : RevertRequest}
    (h : srv.authorize caller .write req.key.ns req.key.name = .ok ()) (hrv : req.toResourceVersion ≠ "") :
    ∃ k, (srv.call caller (.revert req)).run =
      .call (.kube (.list req.key.ns req.key.name req.toResourceVersion)) k := by
  simp only [KonfigServer.call, KonfigServer.revert, h, handleRevert, if_neg hrv]
  exact ⟨_, rfl⟩

/-- A `Revert` that passes and names no version. -/
theorem revert_invalid {srv : KonfigServer} {caller : Caller} {req : RevertRequest}
    (h : srv.authorize caller .write req.key.ns req.key.name = .ok ()) (hrv : req.toResourceVersion = "") :
    ∃ tr, (srv.call caller (.revert req)).run.Steps tr
      (.ret (.error ⟨.invalidArgument, "to_resource_version must not be empty"⟩)) := by
  simp only [KonfigServer.call, KonfigServer.revert, h, handleRevert, if_pos hrv, audited, emitMutation]
  cases srv.k8sEvents with
  | false => exact ⟨[⟨.audit _, ()⟩], .cons (.nil _)⟩
  | true => exact ⟨[⟨.audit _, ()⟩, ⟨.k8sEvent _, ()⟩], .cons (.cons (.nil _))⟩

/-- A draining server lets every `Revert` past the drain gate: it is turned away with
`UNAVAILABLE` only where the access control table is not synced. -/
theorem revert_ungated {srv : KonfigServer} (hdrain : srv.draining = true)
    (hsync : ¬ (srv.authzMode = .enforce ∧ srv.aclSynced = false)) (caller : Caller) (req : RevertRequest) :
    ¬ Gated srv caller (.revert req) := by
  intro hg
  have hdrained := hg.drained hdrain
  cases hauth : srv.authorize caller .write req.key.ns req.key.name with
  | error status =>
    obtain ⟨status', hr, hcode⟩ :=
      (hdrained [] _ (by rw [revert_denied hauth]; exact .nil _)).2 _ rfl
    cases hr
    rw [authorize_eq] at hauth
    have hdenied := check_error hauth
    rw [if_neg hsync, hcode] at hdenied
    cases hdenied
  | ok u =>
    by_cases hrv : req.toResourceVersion = ""
    · obtain ⟨tr, hsteps⟩ := revert_invalid hauth hrv
      obtain ⟨status, hr, hcode⟩ := (hdrained tr _ hsteps).2 _ rfl
      cases hr
      cases hcode
    · obtain ⟨k, hrun⟩ := revert_lists hauth hrv
      have hsteps : (srv.call caller (.revert req)).run.Steps
          [⟨.kube (.list req.key.ns req.key.name req.toResourceVersion), .error ⟨none, ""⟩⟩]
          (k (.error ⟨none, ""⟩)) := by
        rw [hrun]
        exact .cons (.nil _)
      have heffect := (hdrained _ _ hsteps).1 _ List.mem_cons_self
      cases heffect

/-- A call that the condition lets a draining server turn away ends at once. -/
theorem call_turned_away {srv : KonfigServer} (hdrain : srv.draining = true) (caller : Caller) {rpc : Rpc}
    (h : rpc.isRevert = false ∨ (srv.authzMode = .enforce ∧ srv.aclSynced = false)) :
    ∃ status, (srv.call caller rpc).run = .ret (.error status) ∧ status.code = .unavailable := by
  cases hrpc : rpc.isRevert with
  | false => exact ⟨_, call_draining hdrain caller hrpc, rfl⟩
  | true =>
    have hsync := h.resolve_left (by rw [hrpc]; decide)
    cases rpc with
    | revert req =>
      cases hauth : srv.authorize caller .write req.key.ns req.key.name with
      | error status =>
        refine ⟨status, revert_denied hauth, ?_⟩
        rw [authorize_eq] at hauth
        have hcode := check_error hauth
        rwa [if_pos hsync] at hcode
      | ok u =>
        rw [authorize_eq, hsync.1, check_enforce_ok, hsync.2] at hauth
        cases hauth.1
    | _ => cases hrpc

/-- **The gates cover a call unless it is a `Revert` on a draining server** whose access
control gate does not itself answer `UNAVAILABLE`. -/
theorem gates_cover_iff (srv : KonfigServer) (caller : Caller) (rpc : Rpc) :
    Gated srv caller rpc ↔ srv.draining = false ∨ rpc.isRevert = false ∨
      (srv.authzMode = .enforce ∧ srv.aclSynced = false) := by
  constructor
  · intro hg
    cases hdrain : srv.draining with
    | false => exact Or.inl rfl
    | true =>
      cases rpc with
      | revert req =>
        by_contra hcon
        simp only [Bool.true_eq_false, Rpc.isRevert, false_or] at hcon
        exact revert_ungated hdrain hcon caller req hg
      | _ => exact Or.inr (Or.inl rfl)
  · intro hcond
    refine ⟨fun hdrain tr q hsteps => ?_, fun _ hmode tr q hsteps hfaith e he => ?_⟩
    · obtain ⟨status, hrun, hcode⟩ :=
        call_turned_away hdrain caller (hcond.resolve_left (by rw [hdrain]; decide))
      rw [hrun] at hsteps
      obtain ⟨rfl, rfl⟩ := Proc.steps_ret hsteps
      refine ⟨fun e he => absurd he List.not_mem_nil, fun r hr => ⟨status, ?_, hcode⟩⟩
      cases hr
      rfl
    · have hper := Proc.pre_of_steps hsteps () (Proc.issues_of_wpOk (call_issues fun hok _ =>
        permitted_of_may hok)) e he
      exact allows_of_touched hmode hper (hfaith e he)

end Calls

/-- A server that drains, with the default modes. -/
def drainingServer : KonfigServer where
  draining := true
  authzMode := .disabled
  aclTable := ∅
  aclSynced := true
  schemaTable := ∅
  quotaMode := .disabled
  quotaTable := ∅
  quotaSynced := true
  defaultMaxSubscribers := 0
  defaultMaxAppliesPerSecond := 0
  k8sEvents := false

def operator : Caller where
  identity := ⟨"spiffe://konfig/client/operator", false⟩
  addr := "10.0.0.1:5443"
  requestId := "17"
  traceparent := none

end Server

/-- **A draining server reverts**: the call reaches the API server. -/
theorem revert_while_draining :
    ¬ ∀ (_ : JsonSchema) (_ : SerdeYaml) (_ : SerdeJson) (_ : SecretYaml) (srv : KonfigServer)
      (caller : Caller) (rpc : Rpc), Gated srv caller rpc := by
  intro hall
  let _ := noSchemas
  let _ := twoDocuments
  let _ := noText
  let _ := demoYaml
  have hun : ¬ Gated drainingServer operator (.revert ⟨limitsKey, "41"⟩) :=
    revert_ungated rfl (by decide) operator _
  exact hun (hall _ _ _ _ _ _ _)

end Konfig
