import Konfig.Service.Rpc

/-!
# What a call does

Every request that a handler makes to the API server is about an object that its message
names: reads, writes and the list of `Revert` alike.  `Rpc.May` says this for whole calls,
with the other operations a method may issue.

* `call_issues`: a call that passes its check issues operations of `Rpc.May` only, and one
  that does not issues none.
-/

namespace Konfig

open Lib

/-- The object a request is about. -/
def KubeOp.key : KubeOp → Key
  | .get key => key
  | .patch key _ => key
  | .list ns name _ => ⟨ns, name⟩

def SecretOp.key : SecretOp → Key
  | .get key => key
  | .patch key _ => key

/-- All requests are about objects in `S`. -/
abbrev OnlyOn {α : Type} (S : Key → Prop) (x : KubeM α) : Prop :=
  Proc.wpOk (fun (_ : Unit) _ _ => ()) (fun _ o => S o.key) x (fun _ _ => True) ()

variable {S : Key → Prop}

theorem fetch_on {key : Key} (h : S key) : OnlyOn S (fetchCurrentSchemaVersion key) := by
  refine Proc.wpOk_bind _ _ (Proc.wpOk_op _ _ h fun r => ?_)
  cases r with
  | ok obj => exact Proc.wpOk_pure _ _ trivial
  | error e =>
    simp only
    split
    · exact Proc.wpOk_pure _ _ trivial
    · exact Proc.wpOk_throw _ _

theorem applySpec_on {key : Key} (h : S key) (spec : ConfigSpec) (tp : Option String) :
    OnlyOn S (applySpec key spec tp) := by
  refine Proc.wpOk_seq _ _ (fetch_on h) fun _ _ _ => ?_
  refine Proc.wpOk_bind _ _ (Proc.wpOk_liftExcept _ _ fun _ _ => ?_)
  have hpatch : OnlyOn S (patchWithRetry key (patchBody key spec tp)) :=
    wpOk_patchWithRetry (fun _ => True) (fun _ _ => h) (fun _ _ _ => trivial) trivial
  exact Proc.wpOk_seq _ _ hpatch fun _ _ _ => Proc.wpOk_pure _ _ trivial

theorem fetchCurrents_on : ∀ {items : List BatchItem}, (∀ item ∈ items, S item.key) →
    OnlyOn S (fetchCurrents items) := by
  intro items
  induction items with
  | nil => intro _; exact Proc.wpOk_pure _ _ trivial
  | cons item items ih =>
    intro h
    refine Proc.wpOk_seq _ _ (fetch_on (h item List.mem_cons_self)) fun _ _ _ => ?_
    exact Proc.wpOk_seq _ _ (ih fun i hi => h i (List.mem_cons_of_mem _ hi)) fun _ _ _ =>
      Proc.wpOk_pure _ _ trivial

theorem applyItems_on (tp : Option String) : ∀ {items : List BatchItem}, (∀ item ∈ items, S item.key) →
    OnlyOn S (applyItems tp items) := by
  intro items
  induction items with
  | nil => intro _; exact Proc.wpOk_pure _ _ trivial
  | cons item items ih =>
    intro h
    refine Proc.wpOk_seq _ _ (applySpec_on (h item List.mem_cons_self) item.spec tp) fun _ _ _ => ?_
    exact Proc.wpOk_seq _ _ (ih fun i hi => h i (List.mem_cons_of_mem _ hi)) fun _ _ _ =>
      Proc.wpOk_pure _ _ trivial

/-! ### The handlers -/

section Handlers

variable [SerdeYaml]

/-- A parsed item is one of the batch. -/
theorem key_of_parseItems : ∀ {reqs : List ApplyRequest} {seen : List Key} {items : List BatchItem},
    parseItems seen reqs = .ok items → ∀ item ∈ items, ∃ req ∈ reqs, req.key = item.key := by
  intro reqs
  induction reqs with
  | nil =>
    intro seen items h item hi
    cases h
    cases hi
  | cons req reqs ih =>
    intro seen items h item hi
    rw [parseItems] at h
    split at h
    · cases h
    · split at h
      · cases h
      · rename_i spec _
        cases hrest : parseItems (req.key :: seen) reqs with
        | error e =>
          rw [hrest] at h
          cases h
        | ok rest =>
          rw [hrest] at h
          cases h
          rcases List.mem_cons.mp hi with rfl | hi
          · exact ⟨req, List.mem_cons_self, rfl⟩
          · obtain ⟨r, hr, hk⟩ := ih hrest item hi
            exact ⟨r, List.mem_cons_of_mem _ hr, hk⟩

/-- DryRunApply reads its target and does no more. -/
theorem handleDryRunApply_on {P : KubeOp → Prop} {req : ApplyRequest} (h : P (.get req.key)) :
    Proc.wpOk (fun (_ : Unit) _ _ => ()) (fun _ => P) (handleDryRunApply req) (fun _ _ => True) () := by
  refine Proc.wpOk_bind _ _ (Proc.wpOk_liftExcept _ _ fun spec _ => ?_)
  refine Proc.wpOk_bind _ _ (Proc.wpOk_op _ _ h fun r => ?_)
  cases r with
  | ok obj => exact Proc.wpOk_liftExcept _ _ fun _ _ => trivial
  | error e =>
    simp only
    split
    · exact Proc.wpOk_liftExcept _ _ fun _ _ => trivial
    · exact Proc.wpOk_throw _ _

variable [JsonSchema]

theorem handleApply_on (table : SchemaTable) {req : ApplyRequest} (tp : Option String) (h : S req.key) :
    OnlyOn S (handleApply table req tp) := by
  refine Proc.wpOk_bind _ _ (Proc.wpOk_liftExcept _ _ fun spec _ => ?_)
  refine Proc.wpOk_bind _ _ (Proc.wpOk_liftExcept _ _ fun _ _ => ?_)
  exact applySpec_on h spec tp

theorem handleBatchApply_on (table : SchemaTable) {reqs : List ApplyRequest} (tp : Option String)
    (h : ∀ req ∈ reqs, S req.key) : OnlyOn S (handleBatchApply table reqs tp) := by
  refine Proc.wpOk_bind _ _ (Proc.wpOk_liftExcept _ _ fun items hparse => ?_)
  have hitems : ∀ item ∈ items, S item.key := by
    intro item hi
    unfold parseBatchItems at hparse
    split at hparse
    · cases hparse
    · obtain ⟨req, hreq, hkey⟩ := key_of_parseItems hparse item hi
      rw [← hkey]
      exact h req hreq
  refine Proc.wpOk_bind _ _ (Proc.wpOk_liftExcept _ _ fun _ _ => ?_)
  refine Proc.wpOk_seq _ _ (fetchCurrents_on hitems) fun _ currents _ => ?_
  refine Proc.wpOk_bind _ _ (Proc.wpOk_liftExcept _ _ fun _ _ => ?_)
  refine applyItems_on tp fun item hi => hitems item ?_
  exact List.mem_mergeSort.mp hi

end Handlers

theorem fetchHistoricalSpec_on [SerdeJson] {key : Key} (h : S key) (rv : String) :
    OnlyOn S (fetchHistoricalSpec key rv) := by
  refine Proc.wpOk_bind _ _ (Proc.wpOk_op _ _ h fun r => ?_)
  cases r with
  | error e => exact Proc.wpOk_throw _ _
  | ok items =>
    simp only
    split
    · exact Proc.wpOk_throw _ _
    · exact Proc.wpOk_liftExcept _ _ fun _ _ => trivial

theorem handleRevert_on [SerdeJson] {req : RevertRequest} (tp : Option String) (h : S req.key) :
    OnlyOn S (handleRevert req tp) := by
  unfold handleRevert
  split
  · exact Proc.wpOk_throw _ _
  · refine Proc.wpOk_seq _ _ (fetchHistoricalSpec_on h req.toResourceVersion) fun _ historical _ => ?_
    refine Proc.wpOk_seq _ _ (fetch_on h) fun _ current _ => ?_
    exact Proc.wpOk_seq _ _ (applySpec_on h _ tp) fun _ _ _ => Proc.wpOk_pure _ _ trivial

theorem handleApplySecret_on [SecretYaml] {req : ApplySecretRequest} (h : S req.key) :
    (handleApplySecret req).run.Issues (fun o => S o.key) := by
  refine Proc.wp_mono _ _ (fun _ _ _ => trivial) _ _
    (Proc.Issues.wp _ _ (fun _ => True) (fun _ o _ ho => ⟨?_, fun _ => trivial⟩)
      (Proc.issues_of_wpOk (handleApplySecret_safe req)) () trivial)
  cases o with
  | get key =>
    obtain rfl : key = req.key := ho
    exact h
  | patch key secret =>
    obtain rfl : key = req.key := ho.1
    exact h

/-! ### Whole calls -/

/-- Requests about objects in `S`, and the records of them. -/
def ServiceOp.About (S : Key → Prop) : ServiceOp → Prop
  | .kube o => S o.key
  | .secretKube o => S o.key
  | .audit _ => True
  | .k8sEvent record => S ⟨record.ns, record.name⟩
  | _ => False

/-- What a method may issue once the caller is authorized. -/
def Rpc.May (caller : Caller) (o : ServiceOp) : Rpc → Prop
  | .get key => o = .getConfig key
  | .getAll ns => o = .allConfigs ns
  | .apply req => o = .applyAdmission caller.identity.id 1 ∨ o.About (· = req.key)
  | .batchApply items => o = .applyAdmission caller.identity.id (UInt32.ofNat items.length) ∨
      o.About fun key => ∃ item ∈ items, item.key = key
  | .dryRunApply req => o = .kube (.get req.key)
  | .revert req => o.About (· = req.key)
  | .subscribe req => o = .admitSubscriber caller.identity.id ∨ o = .subscribe req
  | .getSecret key => o = .getSecret key ∨ ∃ record, o = .audit record
  | .getAllSecrets ns => o = .allSecrets ns ∨ ∃ record, o = .audit record
  | .applySecret req => o = .applyAdmission caller.identity.id 1 ∨ o.About (· = req.key)
  | .subscribeSecrets req => o = .admitSubscriber caller.identity.id ∨ o = .subscribeSecrets req ∨
      ∃ record, o = .audit record

section Issues

variable {α : Type} {P : ServiceOp → Prop}

/-- Every operation of the call meets `P`. -/
abbrev IssuesOk (P : ServiceOp → Prop) (x : ServiceM α) : Prop :=
  Proc.wpOk (fun (_ : Unit) _ _ => ()) (fun _ => P) x (fun _ _ => True) ()

theorem issues_outcome {x : ServiceM α} (h : IssuesOk P x) : IssuesOk P x.outcome :=
  Proc.wp_bind _ _ _ x.run () (Proc.wp_mono _ _ (fun _ _ _ _ _ => trivial) _ _ h)

theorem issues_kube {x : KubeM α} {Q : KubeOp → Prop}
    (h : Proc.wpOk (fun (_ : Unit) _ _ => ()) (fun _ => Q) x (fun _ _ => True) ())
    (hP : ∀ o, Q o → P (.kube o)) : IssuesOk P (ServiceM.kube x) :=
  Proc.wp_embed _ _ ServiceOp.kube _ (fun _ _ _ => rfl) (fun _ o ho => hP o ho) _ _ h

theorem issues_secretKube {x : SecretM α} {Q : SecretOp → Prop} (h : x.run.Issues Q)
    (hP : ∀ o, Q o → P (.secretKube o)) : IssuesOk P (ServiceM.secretKube x) :=
  Proc.wp_embed _ _ ServiceOp.secretKube _ (fun _ _ _ => rfl) (fun _ o ho => hP o ho) _ _
    (Proc.wp_mono _ _ (fun _ _ _ _ _ => trivial) _ _ h)

theorem issues_rateLimit {caller : Caller} {cost : UInt32}
    (h : P (.applyAdmission caller.identity.id cost)) : IssuesOk P (rateLimitApply caller cost) := by
  refine Proc.wpOk_bind _ _ (Proc.wpOk_op _ _ h fun r => ?_)
  cases r with
  | allowed => exact Proc.wpOk_pure _ _ trivial
  | overBudget rate burst => exact Proc.wpOk_pure _ _ trivial
  | denied rate burst => exact Proc.wpOk_throw _ _

/-- The message a method answers with is not looked at. -/
theorem issues_discard {x : ServiceM α} (h : IssuesOk P x) : IssuesOk P (do let _ ← x) :=
  Proc.wpOk_seq _ _ h fun _ _ _ => Proc.wpOk_pure _ _ trivial

variable [JsonSchema] {srv : KonfigServer} {caller : Caller}

theorem issues_emit {record : AuditRecord} (haudit : P (.audit record)) (hevent : P (.k8sEvent record)) :
    IssuesOk P (emitMutation srv record) := by
  refine Proc.wpOk_bind _ _ (Proc.wpOk_op _ _ haudit fun _ => ?_)
  split
  · exact Proc.wpOk_op _ _ hevent fun _ => trivial
  · exact Proc.wpOk_pure _ _ trivial

theorem issues_audited {x : ServiceM α} {record : Except Status α → AuditRecord} (hx : IssuesOk P x)
    (haudit : ∀ r, P (.audit (record r))) (hevent : ∀ r, P (.k8sEvent (record r))) :
    IssuesOk P (audited srv x record) := by
  refine Proc.wpOk_seq _ _ (issues_outcome hx) fun _ result _ => ?_
  refine Proc.wpOk_seq _ _ (issues_emit (haudit result) (hevent result)) fun _ _ _ => ?_
  exact Proc.wpOk_liftExcept _ _ fun _ _ => trivial

theorem issues_emitItems [SerdeYaml] (result : Except Status (List BatchApplyResult))
    {S : Key → Prop} (haudit : ∀ record, P (.audit record))
    (hevent : ∀ record, S ⟨record.ns, record.name⟩ → P (.k8sEvent record)) :
    ∀ {items : List ApplyRequest}, (∀ item ∈ items, S item.key) →
      IssuesOk P (emitItems srv caller result items) := by
  intro items
  induction items with
  | nil => intro _; exact Proc.wpOk_pure _ _ trivial
  | cons item items ih =>
    intro hitems
    have hitem : S item.key := hitems item List.mem_cons_self
    refine Proc.wpOk_seq _ _ (issues_emit (haudit _) (hevent _ hitem)) fun _ _ _ => ?_
    exact ih fun i hi => hitems i (List.mem_cons_of_mem _ hi)

theorem issues_applyBatch [SerdeYaml] {items : List ApplyRequest} {S : Key → Prop}
    (hkube : ∀ o : KubeOp, S o.key → P (.kube o)) (haudit : ∀ record, P (.audit record))
    (hevent : ∀ record, S ⟨record.ns, record.name⟩ → P (.k8sEvent record))
    (hitems : ∀ item ∈ items, S item.key) : IssuesOk P (srv.applyBatch caller items) := by
  refine Proc.wpOk_seq _ _ (issues_outcome (issues_kube (handleBatchApply_on _ _ hitems) hkube))
    fun _ result _ => ?_
  refine Proc.wpOk_seq _ _ (issues_emitItems result haudit hevent hitems) fun _ _ _ => ?_
  exact Proc.wpOk_liftExcept _ _ fun _ _ => trivial

/-- The two gates before `f`. -/
theorem issues_gated {check : Except Status Unit} {f : Unit → ServiceM α}
    (h : check = .ok () → IssuesOk P (f ())) :
    IssuesOk P (do
      liftM srv.checkDrain
      let u ← (liftM check : ServiceM Unit)
      f u) := by
  refine Proc.wpOk_bind _ _ (Proc.wpOk_liftExcept _ _ fun _ _ => ?_)
  exact Proc.wpOk_bind _ _ (Proc.wpOk_liftExcept _ _ fun _ hcheck => h hcheck)

end Issues

section Calls

variable [JsonSchema] [SerdeYaml] [SerdeJson] [SecretYaml]

/-- The check of a method. -/
def KonfigServer.gate (srv : KonfigServer) (caller : Caller) : Rpc → Except Status Unit
  | .get key | .getSecret key => srv.authorize caller .read key.ns key.name
  | .getAll ns | .getAllSecrets ns => srv.authorize caller .read ns "*"
  | .subscribe req => srv.authorize caller .read req.ns "*"
  | .subscribeSecrets req => srv.authorize caller .read req.ns "*"
  | .apply req | .dryRunApply req => srv.authorize caller .write req.key.ns req.key.name
  | .applySecret req => srv.authorize caller .write req.key.ns req.key.name
  | .revert req => srv.authorize caller .write req.key.ns req.key.name
  | .batchApply items => srv.authorizeAll caller items

/-- **A call issues what its method may, and only past its check.** -/
theorem call_issues {srv : KonfigServer} {caller : Caller} {rpc : Rpc} {P : ServiceOp → Prop}
    (hP : srv.gate caller rpc = .ok () → ∀ o, rpc.May caller o → P o) :
    IssuesOk P (srv.call caller rpc) := by
  cases rpc with
  | get key =>
    refine issues_discard (issues_gated fun hok => ?_)
    refine Proc.wpOk_bind _ _ (Proc.wpOk_op _ _ (hP hok _ rfl) fun r => ?_)
    obtain ⟨snap, now⟩ := r
    cases snap with
    | some snap => exact Proc.wpOk_pure _ _ trivial
    | none => exact Proc.wpOk_throw _ _
  | getAll ns =>
    refine issues_discard (issues_gated fun hok => ?_)
    exact Proc.wpOk_bind _ _ (Proc.wpOk_op _ _ (hP hok _ rfl) fun r => Proc.wpOk_pure _ _ trivial)
  | apply req =>
    refine issues_discard (issues_gated fun hok => ?_)
    refine Proc.wpOk_seq _ _ (issues_rateLimit (hP hok _ (Or.inl rfl))) fun _ _ _ => ?_
    exact issues_audited
      (issues_kube (handleApply_on (S := (· = req.key)) _ _ rfl) fun o ho => hP hok (.kube o) (Or.inr ho))
      (fun _ => hP hok (.audit _) (Or.inr trivial)) fun _ => hP hok (.k8sEvent _) (Or.inr rfl)
  | batchApply items =>
    refine issues_discard (issues_gated fun hok => ?_)
    refine Proc.wpOk_seq _ _ (issues_rateLimit (hP hok _ (Or.inl rfl))) fun _ _ _ => ?_
    exact issues_applyBatch (S := fun key => ∃ item ∈ items, item.key = key)
      (fun o ho => hP hok (.kube o) (Or.inr ho)) (fun _ => hP hok (.audit _) (Or.inr trivial))
      (fun _ ho => hP hok (.k8sEvent _) (Or.inr ho)) fun item hi => ⟨item, hi, rfl⟩
  | dryRunApply req =>
    refine issues_discard (issues_gated fun hok => ?_)
    refine issues_kube (handleDryRunApply_on (P := fun o => o = .get req.key) rfl) fun o ho => ?_
    exact hP hok _ (congrArg ServiceOp.kube ho)
  | revert req =>
    refine issues_discard (Proc.wpOk_bind _ _ (Proc.wpOk_liftExcept _ _ fun _ hok => ?_))
    exact issues_audited
      (issues_kube (handleRevert_on (S := (· = req.key)) _ rfl) fun o ho => hP hok (.kube o) ho)
      (fun _ => hP hok (.audit _) trivial) fun _ => hP hok (.k8sEvent _) rfl
  | subscribe req =>
    refine issues_discard (issues_gated fun hok => ?_)
    refine Proc.wpOk_bind _ _ (Proc.wpOk_op _ _ (hP hok _ (Or.inl rfl)) fun guarded => ?_)
    refine Proc.wpOk_bind _ _ (Proc.wpOk_liftExcept _ _ fun _ _ => ?_)
    refine Proc.wpOk_bind _ _ (Proc.wpOk_op _ _ (hP hok _ (Or.inr rfl)) fun stream => ?_)
    exact Proc.wpOk_liftExcept _ _ fun _ _ => trivial
  | getSecret _ | getAllSecrets _ =>
    refine issues_discard (issues_gated fun hok => ?_)
    refine Proc.wpOk_bind _ _ (Proc.wpOk_op _ _ (hP hok _ (Or.inl rfl)) fun r => ?_)
    refine Proc.wpOk_bind _ _ (Proc.wpOk_op _ _ (hP hok _ (Or.inr ⟨_, rfl⟩)) fun _ => ?_)
    exact Proc.wpOk_liftExcept _ _ fun _ _ => trivial
  | applySecret req =>
    refine issues_discard (issues_gated fun hok => ?_)
    refine Proc.wpOk_seq _ _ (issues_rateLimit (hP hok _ (Or.inl rfl))) fun _ _ _ => ?_
    exact issues_audited
      (issues_secretKube (handleApplySecret_on (S := (· = req.key)) rfl) fun o ho =>
        hP hok (.secretKube o) (Or.inr ho))
      (fun _ => hP hok (.audit _) (Or.inr trivial)) fun _ => hP hok (.k8sEvent _) (Or.inr rfl)
  | subscribeSecrets req =>
    refine issues_discard (issues_gated fun hok => ?_)
    refine Proc.wpOk_bind _ _ (Proc.wpOk_op _ _ (hP hok _ (Or.inl rfl)) fun guarded => ?_)
    refine Proc.wpOk_bind _ _ (Proc.wpOk_liftExcept _ _ fun _ _ => ?_)
    refine Proc.wpOk_bind _ _ (Proc.wpOk_op _ _ (hP hok _ (Or.inr (Or.inl rfl))) fun stream => ?_)
    refine Proc.wpOk_bind _ _ (Proc.wpOk_op _ _ (hP hok _ (Or.inr (Or.inr ⟨_, rfl⟩))) fun _ => ?_)
    exact Proc.wpOk_liftExcept _ _ fun _ _ => trivial

end Calls

end Konfig
