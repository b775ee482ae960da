import Konfig.Batch
import Konfig.Service.Gates

/-!
# The audit records of a batch

`batch_apply` writes its items one by one and derives the records afterwards, one per item,
from the one result of the call.  `ApiWrites` is an API server that answers as it likes and
remembers what it carried out.

* `batchApply_audit_iff`: the records tell what was written exactly when the call reaches its
  handler and the API server carries out none of its writes or accepts one for every item.
* `audit_misreports`: a batch that fails after its first write is recorded as if nothing had
  been written.
-/

namespace Konfig

open Lib Proc

/-! ### The exchanges of the service -/

abbrev ServiceTrace := List ((o : ServiceOp) × o.Resp)

/-- An exchange with the API server, as part of a call. -/
def onKube (e : (o : KubeOp) × o.Resp) : (o : ServiceOp) × o.Resp := ⟨.kube e.1, e.2⟩

/-- The audit records that are emitted. -/
def ServiceTrace.records (tr : ServiceTrace) : List AuditRecord :=
  tr.filterMap fun e =>
    match e.1 with
    | .audit record => some record
    | _ => none

/-- The exchanges with the API server. -/
def ServiceTrace.onApi (tr : ServiceTrace) : KubeTrace :=
  tr.filterMap fun e =>
    match e with
    | ⟨.kube o, a⟩ => some ⟨o, a⟩
    | _ => none

theorem ServiceTrace.records_append (tr₁ tr₂ : ServiceTrace) :
    ServiceTrace.records (tr₁ ++ tr₂) = ServiceTrace.records tr₁ ++ ServiceTrace.records tr₂ :=
  List.filterMap_append

theorem ServiceTrace.onApi_append (tr₁ tr₂ : ServiceTrace) :
    ServiceTrace.onApi (tr₁ ++ tr₂) = ServiceTrace.onApi tr₁ ++ ServiceTrace.onApi tr₂ :=
  List.filterMap_append

theorem onApi_onKube (tr : KubeTrace) : ServiceTrace.onApi (tr.map onKube) = tr := by
  unfold ServiceTrace.onApi
  rw [List.filterMap_map]
  exact List.filterMap_some

theorem records_onKube (tr : KubeTrace) : ServiceTrace.records (tr.map onKube) = [] := by
  unfold ServiceTrace.records
  rw [List.filterMap_map]
  exact List.filterMap_eq_nil_iff.mpr fun _ _ => rfl

theorem kube_ends {α : Type} {x : KubeM α} {tr : ServiceTrace} {r : Except Status α}
    (h : Ends (ServiceM.kube x) tr r) : ∃ tr₀ : KubeTrace, tr = tr₀.map onKube ∧ Ends x tr₀ r :=
  @steps_embed _ _ _ _ _ ServiceOp.kube (fun _ r => r) (fun _ r => r) (fun _ _ => rfl) _ _ _ h

theorem outcome_ends {α : Type} {x : ServiceM α} {tr : ServiceTrace} {r : Except Status (Except Status α)}
    (h : Ends x.outcome tr r) : ∃ r', r = .ok r' ∧ Ends x tr r' := by
  have h : (x.run >>= fun r' => pure (.ok r') : Proc ServiceOp ServiceOp.Resp _).Steps tr (.ret r) := h
  obtain ⟨tr₁, tr₂, r', rfl, h₁, h₂⟩ := steps_bind.mp h
  obtain ⟨rfl, hr⟩ := steps_ret h₂
  cases hr
  exact ⟨r', rfl, by rwa [List.append_nil]⟩

/-- What `rate_limit_apply` makes of the limiter's answer. -/
theorem rateLimitApply_ends {caller : Caller} {cost : UInt32} {tr : ServiceTrace} {r : Except Status Unit}
    (h : Ends (rateLimitApply caller cost) tr r) :
    ∃ a : ApplyOutcome, tr = [⟨.applyAdmission caller.identity.id cost, a⟩] ∧
      ((r = .ok () ∧ ∀ rate burst, a ≠ .denied rate burst) ∨
        (∃ st, r = .error st) ∧ ∃ rate burst, a = .denied rate burst) := by
  unfold rateLimitApply ServiceM.op at h
  rw [ends_op_bind] at h
  obtain ⟨a, tr', rfl, h⟩ := h
  refine ⟨a, ?_⟩
  cases a with
  | allowed | overBudget =>
    obtain ⟨rfl, rfl⟩ := ends_pure.mp h
    exact ⟨rfl, .inl ⟨rfl, fun _ _ hc => by cases hc⟩⟩
  | denied rate burst =>
    obtain ⟨rfl, rfl⟩ := ends_throw.mp h
    exact ⟨rfl, .inr ⟨⟨_, rfl⟩, rate, burst, rfl⟩⟩

section Service

variable [JsonSchema] [SerdeYaml]

/-- The record of an item after the outcome of the call. -/
def batchRecord (caller : Caller) (result : Except Status (List BatchApplyResult)) (item : ApplyRequest) :
    AuditRecord :=
  auditRecord caller "BatchApply" item.key (resultStr result) (parseConfigSchemaVersion item.yamlContent)
    ((result.toOption.bind fun results =>
      (results.find? fun r => r.key = item.key).map (·.resourceVersion)).filter fun rv => rv ≠ "")

omit [SerdeYaml] in
theorem emitMutation_ends {srv : KonfigServer} {record : AuditRecord} {tr : ServiceTrace}
    {r : Except Status Unit} (h : Ends (emitMutation srv record) tr r) :
    r = .ok () ∧ ServiceTrace.records tr = [record] ∧ ServiceTrace.onApi tr = [] := by
  unfold emitMutation ServiceM.op at h
  rw [ends_op_bind] at h
  obtain ⟨a, tr', rfl, h⟩ := h
  split at h
  · obtain ⟨b, rfl, rfl⟩ := ends_op.mp h
    exact ⟨rfl, rfl, rfl⟩
  · obtain ⟨rfl, rfl⟩ := ends_pure.mp h
    exact ⟨rfl, rfl, rfl⟩

theorem emitItems_ends {srv : KonfigServer} {caller : Caller}
    {result : Except Status (List BatchApplyResult)} : ∀ {items : List ApplyRequest} {tr : ServiceTrace}
    {r : Except Status Unit}, Ends (emitItems srv caller result items) tr r →
      r = .ok () ∧ ServiceTrace.records tr = items.map (batchRecord caller result) ∧
        ServiceTrace.onApi tr = [] := by
  intro items
  induction items with
  | nil =>
    intro tr r h
    obtain ⟨rfl, rfl⟩ := ends_pure.mp h
    exact ⟨rfl, rfl, rfl⟩
  | cons item items ih =>
    intro tr r h
    rw [emitItems, ends_bind] at h
    rcases h with ⟨e, rfl, h⟩ | ⟨tr₁, tr₂, a, rfl, h₁, h₂⟩
    · obtain ⟨hr, _⟩ := emitMutation_ends h
      cases hr
    · obtain ⟨_, hrec₁, hapi₁⟩ := emitMutation_ends h₁
      obtain ⟨hr, hrec₂, hapi₂⟩ := ih h₂
      refine ⟨hr, ?_, ?_⟩
      · rw [ServiceTrace.records_append, hrec₁, hrec₂]
        rfl
      · rw [ServiceTrace.onApi_append, hapi₁, hapi₂]
        rfl

/-- The handler's exchange, and then one record per item. -/
theorem applyBatch_ends {srv : KonfigServer} {caller : Caller} {items : List ApplyRequest}
    {tr : ServiceTrace} {r : Except Status (List BatchApplyResult)}
    (h : Ends (srv.applyBatch caller items) tr r) :
    ∃ tr₀, Ends (handleBatchApply srv.schemaTable items caller.traceparent) tr₀ r ∧
      ServiceTrace.onApi tr = tr₀ ∧ ServiceTrace.records tr = items.map (batchRecord caller r) := by
  unfold KonfigServer.applyBatch at h
  rw [ends_bind] at h
  rcases h with ⟨e, rfl, h⟩ | ⟨tr₁, tr₂, result, rfl, h₁, h₂⟩
  · obtain ⟨_, hr, _⟩ := outcome_ends h
    cases hr
  obtain ⟨r', hr', h₁⟩ := outcome_ends h₁
  cases hr'
  obtain ⟨tr₀, rfl, hhandler⟩ := kube_ends h₁
  rw [ends_bind] at h₂
  rcases h₂ with ⟨e, rfl, h₂⟩ | ⟨tr₃, tr₄, a, rfl, h₂, h₃⟩
  · obtain ⟨hr, _⟩ := emitItems_ends h₂
    cases hr
  obtain ⟨_, hrec, hapi⟩ := emitItems_ends h₂
  obtain ⟨rfl, rfl⟩ := ends_liftExcept.mp h₃
  refine ⟨tr₀, hhandler, ?_, ?_⟩
  · rw [List.append_nil, ServiceTrace.onApi_append, onApi_onKube, hapi, List.append_nil]
  · rw [List.append_nil, ServiceTrace.records_append, records_onKube, hrec, List.nil_append]

/-- The call passes its guards: the server is not draining, every item is authorized, and the
limiter does not deny it. -/
structure KonfigServer.Admits (srv : KonfigServer) (caller : Caller) (items : List ApplyRequest)
    (tr : ServiceTrace) : Prop where
  serving : srv.checkDrain = .ok ()
  authorized : srv.authorizeAll caller items = .ok ()
  granted : ∃ a : ApplyOutcome, tr.head? =
    some ⟨.applyAdmission caller.identity.id (UInt32.ofNat items.length), a⟩ ∧
      ∀ rate burst, a ≠ .denied rate burst

/-- **What `batch_apply` does**: a guard turns it away before the API server and the audit
log see it, or it is the handler's exchange and one record per item. -/
theorem batchApply_ends {srv : KonfigServer} {caller : Caller} {items : List ApplyRequest}
    {tr : ServiceTrace} {r : Except Status (List BatchApplyResult)}
    (h : Ends (srv.batchApply caller items) tr r) :
    (¬ srv.Admits caller items tr ∧ ServiceTrace.onApi tr = [] ∧ ServiceTrace.records tr = []) ∨
      (srv.Admits caller items tr ∧ ServiceTrace.records tr = items.map (batchRecord caller r) ∧
        Ends (handleBatchApply srv.schemaTable items caller.traceparent) (ServiceTrace.onApi tr) r) := by
  unfold KonfigServer.batchApply at h
  rw [ends_liftExcept_bind] at h
  rcases h with ⟨e, he, rfl, rfl⟩ | ⟨_, hserving, h⟩
  · refine .inl ⟨fun hadm => ?_, rfl, rfl⟩
    rw [hadm.serving] at he
    cases he
  rw [ends_liftExcept_bind] at h
  rcases h with ⟨e, he, rfl, rfl⟩ | ⟨_, hauth, h⟩
  · refine .inl ⟨fun hadm => ?_, rfl, rfl⟩
    rw [hadm.authorized] at he
    cases he
  rw [ends_bind] at h
  rcases h with ⟨e, rfl, h⟩ | ⟨tr₁, tr₂, _, rfl, h₁, h₂⟩
  · obtain ⟨a, rfl, ⟨hr, _⟩ | ⟨_, rate, burst, rfl⟩⟩ := rateLimitApply_ends h
    · cases hr
    · refine .inl ⟨fun hadm => ?_, rfl, rfl⟩
      obtain ⟨b, hb, hne⟩ := hadm.granted
      cases hb
      exact hne rate burst rfl
  · obtain ⟨a, rfl, ⟨_, hne⟩ | ⟨⟨_, hr⟩, _⟩⟩ := rateLimitApply_ends h₁
    · obtain ⟨tr₀, hend, hapi, hrec⟩ := applyBatch_ends h₂
      refine .inr ⟨⟨hserving, hauth, a, rfl, hne⟩, hrec, ?_⟩
      have hsame : ServiceTrace.onApi ([⟨.applyAdmission caller.identity.id
          (UInt32.ofNat items.length), a⟩] ++ tr₂) = tr₀ := hapi
      rw [hsame]
      exact hend
    · cases hr

/-! ### What is recorded and what was written -/

/-- The API server answers as it likes and remembers the keys it carried out a write of. -/
inductive ApiWrites : List Key → (o : ServiceOp) → o.Resp → List Key → Prop
  | done {w : List Key} {key : Key} {body : Value} {obj : DynamicObject} :
      ApiWrites w (.kube (.patch key body)) (.ok obj) (key :: w)
  | lost {w : List Key} {key : Key} {body : Value} {e : KubeError} :
      ApiWrites w (.kube (.patch key body)) (.error e) (key :: w)
  | refused {w : List Key} {key : Key} {body : Value} {e : KubeError} :
      ApiWrites w (.kube (.patch key body)) (.error e) w
  | other {w : List Key} {o : ServiceOp} {r : o.Resp} (h : ∀ key body, o ≠ .kube (.patch key body)) :
      ApiWrites w o r w

end Service

theorem ApiWrites.mono {w w' : List Key} {tr : ServiceTrace} (h : Answered ApiWrites w tr w') :
    ∀ key ∈ w, key ∈ w' := by
  induction h with
  | nil => exact fun _ hk => hk
  | cons h₁ _ ih =>
    intro key hk
    refine ih key ?_
    cases h₁ with
    | done => exact List.mem_cons_of_mem _ hk
    | lost => exact List.mem_cons_of_mem _ hk
    | refused => exact hk
    | other => exact hk

/-- A write that was accepted was carried out. -/
theorem ApiWrites.mem_of_accepted {w w' : List Key} {tr : ServiceTrace} {key : Key} {body : Value}
    {obj : DynamicObject} (h : Answered ApiWrites w tr w')
    (hmem : accepted key body obj ∈ ServiceTrace.onApi tr) : key ∈ w' := by
  induction h with
  | nil => exact absurd hmem List.not_mem_nil
  | @cons _ m _ o a tr h₁ h₂ ih =>
    obtain ⟨e, he, hea⟩ := List.mem_filterMap.mp hmem
    rcases List.mem_cons.mp he with rfl | he
    · have hkey : key ∈ m := by
        cases o with
        | kube o =>
          cases hea
          cases h₁ with
          | done => exact List.mem_cons_self
          | other hno => exact absurd rfl (hno key body)
        | _ => cases hea
      exact ApiWrites.mono h₂ key hkey
    · exact ih (List.mem_filterMap.mpr ⟨e, he, hea⟩)

/-- What was carried out had been asked for. -/
theorem ApiWrites.asked {w w' : List Key} {tr : ServiceTrace} (h : Answered ApiWrites w tr w') :
    ∀ key ∈ w', key ∈ w ∨ ∃ body, (key, body) ∈ KubeTrace.writes (ServiceTrace.onApi tr) := by
  induction h with
  | nil => exact fun key hk => .inl hk
  | @cons w m _ o a tr h₁ _ ih =>
    intro key hk
    have hstep : key ∈ m → key ∈ w ∨ ∃ body, (key, body) ∈
        KubeTrace.writes (ServiceTrace.onApi (⟨o, a⟩ :: tr)) := by
      intro hm
      cases h₁ with
      | @done key' body | @lost key' body =>
        rcases List.mem_cons.mp hm with rfl | hm
        · exact .inr ⟨body, List.mem_cons_self⟩
        · exact .inl hm
      | refused => exact .inl hm
      | other => exact .inl hm
    rcases ih key hk with hm | ⟨body, hbody⟩
    · exact hstep hm
    · refine .inr ⟨body, ?_⟩
      show (key, body) ∈ KubeTrace.writes (ServiceTrace.onApi ([⟨o, a⟩] ++ tr))
      rw [ServiceTrace.onApi_append, KubeTrace.writes_append]
      exact List.mem_append_right _ hbody

theorem exists_accepted {tr : KubeTrace} {key : Key} (h : KubeTrace.acceptedVersions tr key ≠ []) :
    ∃ body obj, accepted key body obj ∈ tr := by
  obtain ⟨rv, hrv⟩ := List.exists_mem_of_ne_nil _ h
  obtain ⟨⟨o, a⟩, he, hrv⟩ := List.mem_filterMap.mp hrv
  cases o with
  | get k => cases hrv
  | list ns name rv => cases hrv
  | patch k body =>
    cases a with
    | error e => cases hrv
    | ok obj =>
      have hk : k = key := by
        by_contra hne
        have hnone : (if k = key then some (obj.metadata.resourceVersion.getD "") else none) = some rv := hrv
        rw [if_neg hne] at hnone
        cases hnone
      exact ⟨body, obj, hk ▸ he⟩

/-! ### The truth of the records -/

def AuditRecord.key (record : AuditRecord) : Key := ⟨record.ns, record.name⟩

/-- The version an accepted write of the key left; an empty one counts as none. -/
def writtenVersion (tr : ServiceTrace) (key : Key) : Option String :=
  (KubeTrace.acceptedVersions (ServiceTrace.onApi tr) key).getLast?.filter fun rv => rv ≠ ""

/-- The record reports success and the version of its target if and only if the target was
written. -/
def AuditRecord.Truthful (record : AuditRecord) (tr : ServiceTrace) (w : List Key) : Prop :=
  (record.result = "success" ∧ record.resourceVersion = writtenVersion tr record.key) ↔ record.key ∈ w

/-- One truthful record per item. -/
structure AuditTruth (items : List ApplyRequest) (tr : ServiceTrace) (w : List Key) : Prop where
  onePerItem : (ServiceTrace.records tr).map AuditRecord.key = items.map (·.key)
  truthful : ∀ record ∈ ServiceTrace.records tr, record.Truthful tr w

theorem resultStr_error {α : Type} (st : Status) : resultStr (.error st : Except Status α) ≠ "success" := by
  show "error:" ++ codeSnake st.code ≠ "success"
  cases st.code <;> decide

section Truth

variable [JsonSchema] [SerdeYaml]

omit [JsonSchema] in
/-- The records of a call that succeeds are true. -/
theorem truthful_of_ok {caller : Caller} {results : List BatchApplyResult} {item : ApplyRequest}
    {res : BatchApplyResult} {tr : ServiceTrace} {w : List Key} (hs : Answered ApiWrites [] tr w)
    (hfind : results.find? (fun r => r.key = item.key) = some res)
    (hver : KubeTrace.acceptedVersions (ServiceTrace.onApi tr) item.key = [res.resourceVersion]) :
    (batchRecord caller (.ok results) item).Truthful tr w := by
  obtain ⟨body, obj, hmem⟩ := exists_accepted (by rw [hver]; exact List.cons_ne_nil _ _)
  refine ⟨fun _ => ApiWrites.mem_of_accepted hs hmem, fun _ => ⟨rfl, ?_⟩⟩
  show (((some results).bind fun results => (results.find? fun r => r.key = item.key).map
    (·.resourceVersion)).filter fun rv => rv ≠ "") = writtenVersion tr item.key
  rw [Option.bind_some, hfind, writtenVersion, hver]
  rfl

/-- **When the records tell the truth**: exactly when there is nothing to record, or the call
reaches its handler and the API server carries out none of its writes or accepts one for
every item. -/
theorem batchApply_audit_iff {srv : KonfigServer} {caller : Caller} {items : List ApplyRequest}
    {tr : ServiceTrace} {r : Except Status (List BatchApplyResult)} {w : List Key}
    (h : Ends (srv.batchApply caller items) tr r) (hs : Answered ApiWrites [] tr w) :
    AuditTruth items tr w ↔ items = [] ∨ (srv.Admits caller items tr ∧
      (w = [] ∨ ∀ item ∈ items,
        KubeTrace.acceptedVersions (ServiceTrace.onApi tr) item.key ≠ [])) := by
  rcases batchApply_ends h with ⟨hno, _, hrec⟩ | ⟨hadm, hrec, hend⟩
  · constructor
    · intro htruth
      have hkeys := htruth.onePerItem
      rw [hrec, List.map_nil, eq_comm, List.map_eq_nil_iff] at hkeys
      exact .inl hkeys
    · rintro (rfl | ⟨hadm, _⟩)
      · exact ⟨by rw [hrec]; rfl, fun record hmem => absurd (hrec ▸ hmem) List.not_mem_nil⟩
      · exact absurd hadm hno
  have hone : (ServiceTrace.records tr).map AuditRecord.key = items.map (·.key) := by
    rw [hrec, List.map_map]
    rfl
  obtain ⟨hown, hcase⟩ := handleBatchApply_versions hend
  rcases hcase with ⟨results, rfl, hall⟩ | ⟨st, rfl, hcase⟩
  · -- every item was accepted, and its record says so
    have haccepted : ∀ item ∈ items,
        KubeTrace.acceptedVersions (ServiceTrace.onApi tr) item.key ≠ [] := by
      intro item hitem
      obtain ⟨res, _, hver⟩ := hall item hitem
      rw [hver]
      exact List.cons_ne_nil _ _
    refine ⟨fun _ => .inr ⟨hadm, .inr haccepted⟩, fun _ => ⟨hone, fun record hmem => ?_⟩⟩
    rw [hrec] at hmem
    obtain ⟨item, hitem, rfl⟩ := List.mem_map.mp hmem
    obtain ⟨res, hfind, hver⟩ := hall item hitem
    exact truthful_of_ok hs hfind hver
  · -- every record reports an error, so nothing may have been written
    have herror : ∀ item, (batchRecord caller (.error st) item).Truthful tr w ↔ item.key ∉ w := by
      intro item
      refine ⟨fun htrue hmem => ?_, fun hmem => ?_⟩
      · exact resultStr_error (α := List BatchApplyResult) st (htrue.mpr hmem).1
      · refine ⟨fun hsucc => ?_, fun hmem' => absurd hmem' hmem⟩
        exact absurd hsucc.1 (resultStr_error (α := List BatchApplyResult) st)
    refine ⟨fun htruth => ?_, fun hcond => ?_⟩
    · refine .inr ⟨hadm, .inl (List.eq_nil_iff_forall_not_mem.mpr fun key hkey => ?_)⟩
      rcases ApiWrites.asked hs key hkey with hnil | ⟨body, hbody⟩
      · exact List.not_mem_nil hnil
      obtain ⟨item, hitem, heq⟩ := List.mem_map.mp (hown _ hbody)
      have htrue := htruth.truthful _ (hrec ▸ List.mem_map_of_mem hitem)
      exact (herror item).mp htrue (heq ▸ hkey)
    · refine ⟨hone, fun record hmem => ?_⟩
      rw [hrec] at hmem
      obtain ⟨item, hitem, rfl⟩ := List.mem_map.mp hmem
      refine (herror item).mpr fun hkey => ?_
      rcases hcond with rfl | ⟨_, rfl | hall⟩
      · exact List.not_mem_nil hitem
      · exact List.not_mem_nil hkey
      · rcases hcase with hnone | ⟨req, hreq, hver⟩
        · rcases ApiWrites.asked hs _ hkey with hnil | ⟨body, hbody⟩
          · exact List.not_mem_nil hnil
          · rw [hnone] at hbody
            exact List.not_mem_nil hbody
        · exact hall req hreq hver

end Truth

/-! ### Two batches -/

section Server

variable [JsonSchema] [SerdeYaml]

/-- A batch from its parts. -/
theorem handleBatchApply_run {table : SchemaTable} {reqs : List ApplyRequest} {tp : Option String}
    {items : List BatchItem} {tr₁ tr₂ : KubeTrace} {currents : List UInt32}
    {r : Except Status (List BatchApplyResult)} (hp : BatchParsed table reqs items)
    (hreads : Ends (fetchCurrents items) tr₁ (.ok currents))
    (hgate : gateBatchVersions items currents = .ok ())
    (h : Ends (applyItems tp (sortBatchItems items)) tr₂ r) :
    Ends (handleBatchApply table reqs tp) (tr₁ ++ tr₂) r := by
  unfold handleBatchApply
  rw [ends_liftExcept_bind]
  refine .inr ⟨items, parseBatchItems_ok.mpr ⟨hp.nonempty, hp.parsed, hp.distinct⟩, ?_⟩
  rw [ends_liftExcept_bind]
  refine .inr ⟨(), validateItems_ok.mpr hp.valid, ?_⟩
  rw [ends_bind]
  refine .inr ⟨tr₁, tr₂, currents, rfl, hreads, ?_⟩
  rw [ends_liftExcept_bind]
  exact .inr ⟨(), hgate, h⟩

theorem emitItems_run (srv : KonfigServer) (caller : Caller)
    (result : Except Status (List BatchApplyResult)) (items : List ApplyRequest) :
    ∃ tr, Ends (emitItems srv caller result items) tr (.ok ()) := by
  induction items with
  | nil => exact ⟨[], ends_pure.mpr ⟨rfl, rfl⟩⟩
  | cons item items ih =>
    obtain ⟨tr, htr⟩ := ih
    have hemit : ∀ record, ∃ tr', Ends (emitMutation srv record) tr' (.ok ()) := by
      intro record
      unfold emitMutation ServiceM.op
      split
      · exact ⟨_, ends_op_bind.mpr ⟨(), _, rfl, ends_op.mpr ⟨(), rfl, rfl⟩⟩⟩
      · exact ⟨_, ends_op_bind.mpr ⟨(), _, rfl, ends_pure.mpr ⟨rfl, rfl⟩⟩⟩
    obtain ⟨tr', htr'⟩ := hemit (batchRecord caller result item)
    rw [emitItems]
    exact ⟨tr' ++ tr, ends_bind.mpr (.inr ⟨tr', tr, (), rfl, htr', htr⟩)⟩

/-- A call of an open server from its handler's exchange. -/
theorem batchApply_run {srv : KonfigServer} {caller : Caller} {items : List ApplyRequest} {tr₀ : KubeTrace}
    {r : Except Status (List BatchApplyResult)} (hserving : srv.checkDrain = .ok ())
    (hauth : srv.authorizeAll caller items = .ok ())
    (h : Ends (handleBatchApply srv.schemaTable items caller.traceparent) tr₀ r) :
    ∃ tr₁ : ServiceTrace, ServiceTrace.onApi tr₁ = [] ∧ Ends (srv.batchApply caller items)
      (⟨.applyAdmission caller.identity.id (UInt32.ofNat items.length), ApplyOutcome.allowed⟩ ::
        (tr₀.map onKube ++ tr₁)) r := by
  obtain ⟨tr₁, hemit⟩ := emitItems_run srv caller r items
  refine ⟨tr₁, (emitItems_ends hemit).2.2, ?_⟩
  unfold KonfigServer.batchApply
  rw [ends_liftExcept_bind]
  refine .inr ⟨(), hserving, ?_⟩
  rw [ends_liftExcept_bind]
  refine .inr ⟨(), hauth, ?_⟩
  rw [ends_bind]
  refine .inr ⟨[_], _, (), rfl, ends_op_bind.mpr ⟨.allowed, [], rfl, ends_pure.mpr ⟨rfl, rfl⟩⟩, ?_⟩
  unfold KonfigServer.applyBatch
  rw [ends_bind]
  refine .inr ⟨tr₀.map onKube, tr₁, r, rfl, ?_, ?_⟩
  · have hkube : (ServiceM.kube (handleBatchApply srv.schemaTable items caller.traceparent)).run.Steps
        (tr₀.map onKube) (.ret r) :=
      @steps_embed_of _ _ _ _ _ ServiceOp.kube (fun _ r => r) (fun _ r => r) (fun _ _ => rfl) _ _ _ h
    exact steps_bind.mpr ⟨tr₀.map onKube, [], r, (List.append_nil _).symm, hkube, .nil _⟩
  · rw [ends_bind]
    exact .inr ⟨tr₁, [], (), (List.append_nil _).symm, hemit, ends_liftExcept.mpr ⟨rfl, rfl⟩⟩

end Server

/-- Whatever does not reach the API server writes nothing. -/
theorem answered_quiet {tr : ServiceTrace} (h : ServiceTrace.onApi tr = []) (w : List Key) :
    Answered ApiWrites w tr w := by
  induction tr with
  | nil => exact .nil w
  | cons e tr ih =>
    rcases e with ⟨o, a⟩
    cases o with
    | kube o => cases h
    | _ => exact .cons (.other fun _ _ hc => by cases hc) (ih h)

section TwoItems

local instance auditSchemas : JsonSchema := noSchemas

local instance auditDocuments : SerdeYaml := twoDocuments

/-- A server that turns nobody away. -/
def openServer : KonfigServer := { drainingServer with draining := false }

/-- The object an accepted write leaves. -/
def storedAt (key : Key) (rv : String) : DynamicObject where
  metadata := { name := some key.name, ns := some key.ns, resourceVersion := some rv }
  data := patchBody key ⟨5, defaultContent⟩ none

/-- The write of an item of a config that does not exist, accepted. -/
theorem applySpec_accepted (key : Key) (obj : DynamicObject) :
    Ends (applySpec key ⟨5, defaultContent⟩ none)
      [⟨.get key, .error notFound⟩, accepted key (patchBody key ⟨5, defaultContent⟩ none) obj]
      (.ok ⟨obj.metadata.resourceVersion.getD ""⟩) :=
  applySpec_accepted_of rfl (by decide) none obj

/-- The API server is gone. -/
def serverDown : KubeError := ⟨some 503, "service unavailable"⟩

/-- The same write, refused. -/
theorem applySpec_refused (key : Key) :
    Ends (applySpec key ⟨5, defaultContent⟩ none)
      [⟨.get key, .error notFound⟩, ⟨.patch key (patchBody key ⟨5, defaultContent⟩ none), .error serverDown⟩]
      (.error ⟨.unavailable, "kube patch error: " ++ serverDown.display⟩) :=
  applySpec_run rfl (by decide) (patchWithRetry_refused key _ (by decide))

/-- The read of the version gate for such an item. -/
theorem fetch_missing (key : Key) :
    Ends (fetchCurrentSchemaVersion key) [⟨.get key, .error notFound⟩] (.ok 0) :=
  fetch_ends.mpr ⟨.error notFound, rfl, rfl⟩

/-- Two items for configs that do not exist, from the exchange of their writes. -/
theorem handleBatchApply_two {tr : KubeTrace} {r : Except Status (List BatchApplyResult)}
    (h : Ends (applyItems none twoItems.reverse) tr r) :
    Ends (handleBatchApply ∅ twoRequests none)
      ([⟨.get rulesKey, .error notFound⟩, ⟨.get limitsKey, .error notFound⟩] ++ tr) r := by
  have hp : BatchParsed ∅ twoRequests twoItems := ⟨by simp [twoRequests], rfl, by decide, fun _ _ => rfl⟩
  have hreads : Ends (fetchCurrents twoItems)
      [⟨.get rulesKey, .error notFound⟩, ⟨.get limitsKey, .error notFound⟩] (.ok [0, 0]) :=
    ends_bind.mpr (.inr ⟨_, _, 0, rfl, fetch_missing rulesKey, ends_bind_pure.mpr ⟨.ok [0], rfl,
      ends_bind.mpr (.inr ⟨_, [], 0, rfl, fetch_missing limitsKey,
        ends_bind_pure.mpr ⟨.ok [], rfl, ends_pure.mpr ⟨rfl, rfl⟩⟩⟩)⟩⟩)
  refine handleBatchApply_run hp hreads rfl ?_
  rw [sortBatchItems_twoItems]
  exact h

/-- Both writes are accepted. -/
theorem applyItems_accepted : Ends (applyItems none twoItems.reverse)
    [⟨.get limitsKey, .error notFound⟩,
      accepted limitsKey (patchBody limitsKey ⟨5, defaultContent⟩ none) (storedAt limitsKey "101"),
      ⟨.get rulesKey, .error notFound⟩,
      accepted rulesKey (patchBody rulesKey ⟨5, defaultContent⟩ none) (storedAt rulesKey "102")]
    (.ok [⟨limitsKey, "101"⟩, ⟨rulesKey, "102"⟩]) :=
  ends_bind.mpr (.inr ⟨_, _, _, rfl, applySpec_accepted limitsKey (storedAt limitsKey "101"),
    ends_bind_pure.mpr ⟨.ok [⟨rulesKey, "102"⟩], rfl, ends_bind.mpr (.inr ⟨_, [], _, rfl,
      applySpec_accepted rulesKey (storedAt rulesKey "102"),
      ends_bind_pure.mpr ⟨.ok [], rfl, ends_pure.mpr ⟨rfl, rfl⟩⟩⟩)⟩⟩)

/-- The first write is refused. -/
theorem applyItems_refused : ∃ st, Ends (applyItems none twoItems.reverse)
    [⟨.get limitsKey, .error notFound⟩,
      ⟨.patch limitsKey (patchBody limitsKey ⟨5, defaultContent⟩ none), .error serverDown⟩]
    (.error st) :=
  ⟨_, ends_bind.mpr (.inl ⟨_, rfl, applySpec_refused limitsKey⟩)⟩

/-- The first write is accepted, the second one is not. -/
theorem applyItems_interrupted : ∃ st, Ends (applyItems none twoItems.reverse)
    [⟨.get limitsKey, .error notFound⟩,
      accepted limitsKey (patchBody limitsKey ⟨5, defaultContent⟩ none) (storedAt limitsKey "101"),
      ⟨.get rulesKey, .error notFound⟩,
      ⟨.patch rulesKey (patchBody rulesKey ⟨5, defaultContent⟩ none), .error serverDown⟩]
    (.error st) :=
  ⟨_, ends_bind.mpr (.inr ⟨_, _, _, rfl, applySpec_accepted limitsKey (storedAt limitsKey "101"),
    ends_bind_pure.mpr ⟨.error _, rfl, ends_bind.mpr (.inl ⟨_, rfl, applySpec_refused rulesKey⟩)⟩⟩)⟩

/-- The read of a config does not write. -/
theorem answered_get {key : Key} {a : Except KubeError DynamicObject} {w w' : List Key} {tr : ServiceTrace}
    (h : Answered ApiWrites w tr w') : Answered ApiWrites w (onKube ⟨.get key, a⟩ :: tr) w' :=
  .cons (.other fun _ _ hc => by cases hc) h

/-- Neither does the rate limiter. -/
theorem answered_admission {id : String} {n : UInt32} {a : ApplyOutcome} {w w' : List Key}
    {tr : ServiceTrace} (h : Answered ApiWrites w tr w') :
    Answered ApiWrites w (⟨.applyAdmission id n, a⟩ :: tr) w' :=
  .cons (.other fun _ _ hc => by cases hc) h

/-- The server admits a batch that its rate limiter allows. -/
theorem openServer_admits {items : List ApplyRequest} {tr : ServiceTrace}
    (hauth : openServer.authorizeAll operator items = .ok ()) : openServer.Admits operator items
      (⟨.applyAdmission operator.identity.id (UInt32.ofNat items.length), ApplyOutcome.allowed⟩ :: tr) :=
  ⟨rfl, hauth, .allowed, rfl, fun _ _ hc => by cases hc⟩

/-- A call with these two items, from the exchange of their writes and what the API server carries
out of it. -/
theorem openServer_batch {tr : KubeTrace} {r : Except Status (List BatchApplyResult)} {w : List Key}
    (h : Ends (applyItems none twoItems.reverse) tr r) (hw : Answered ApiWrites [] (tr.map onKube) w) :
    ∃ tr', Ends (openServer.batchApply operator twoRequests) tr' r ∧ Answered ApiWrites [] tr' w ∧
      openServer.Admits operator twoRequests tr' ∧ ∀ key,
        KubeTrace.acceptedVersions (ServiceTrace.onApi tr') key = KubeTrace.acceptedVersions tr key := by
  have hhandler : Ends (handleBatchApply openServer.schemaTable twoRequests operator.traceparent) _ _ :=
    handleBatchApply_two h
  obtain ⟨tr₁, hquiet, hrun⟩ := batchApply_run rfl rfl hhandler
  refine ⟨_, hrun, ?_, openServer_admits rfl, fun key => ?_⟩
  · rw [List.map_append]
    exact answered_admission (answered_get (answered_get (answered_append.mpr ⟨w, hw, answered_quiet hquiet w⟩)))
  · show KubeTrace.acceptedVersions (ServiceTrace.onApi (_ ++ _)) key = _
    rw [ServiceTrace.onApi_append, hquiet, onApi_onKube, List.append_nil, KubeTrace.acceptedVersions_append]
    rfl

/-- A batch of two items is recorded as it was written when both writes are accepted or the first one
is refused, and not when the second one is. -/
theorem audit_reports_two :
    (∃ tr, Ends (openServer.batchApply operator twoRequests) tr (.ok [⟨limitsKey, "101"⟩, ⟨rulesKey, "102"⟩]) ∧
      Answered ApiWrites [] tr [rulesKey, limitsKey] ∧ AuditTruth twoRequests tr [rulesKey, limitsKey]) ∧
    (∃ tr st, Ends (openServer.batchApply operator twoRequests) tr (.error st) ∧
      Answered ApiWrites [] tr [] ∧ AuditTruth twoRequests tr []) ∧
    ∃ tr st, Ends (openServer.batchApply operator twoRequests) tr (.error st) ∧
      Answered ApiWrites [] tr [limitsKey] ∧ ¬ AuditTruth twoRequests tr [limitsKey] := by
  refine ⟨?_, ?_, ?_⟩
  · obtain ⟨tr, hend, hw, hadmits, hversions⟩ := openServer_batch applyItems_accepted
      (answered_get (.cons .done (answered_get (.cons .done (.nil _)))))
    refine ⟨tr, hend, hw, (batchApply_audit_iff hend hw).mpr (.inr ⟨hadmits, .inr fun item hitem => ?_⟩)⟩
    rw [hversions]
    rcases List.mem_pair.mp hitem with rfl | rfl
    · exact List.cons_ne_nil "102" []
    · exact List.cons_ne_nil "101" []
  · obtain ⟨st, hrefused⟩ := applyItems_refused
    obtain ⟨tr, hend, hw, hadmits, _⟩ := openServer_batch hrefused (answered_get (.cons .refused (.nil _)))
    exact ⟨tr, st, hend, hw, (batchApply_audit_iff hend hw).mpr (.inr ⟨hadmits, .inl rfl⟩)⟩
  · obtain ⟨st, hinterrupted⟩ := applyItems_interrupted
    obtain ⟨tr, hend, hw, _, hversions⟩ := openServer_batch hinterrupted
      (answered_get (.cons .done (answered_get (.cons .refused (.nil _)))))
    refine ⟨tr, st, hend, hw, fun htruth => ?_⟩
    rcases (batchApply_audit_iff hend hw).mp htruth with hnil | ⟨_, hnone | hall⟩
    · cases hnil
    · cases hnone
    · refine hall ⟨rulesKey, "schema_version: 5"⟩ List.mem_cons_self ?_
      rw [hversions]
      rfl

/-- **A batch that stops half-way is recorded as if nothing had been written.** -/
theorem audit_misreports : ¬ ∀ (srv : KonfigServer) (caller : Caller) (items : List ApplyRequest)
    (tr : ServiceTrace) (r : Except Status (List BatchApplyResult)) (w : List Key),
    srv.Admits caller items tr → Ends (srv.batchApply caller items) tr r →
      Answered ApiWrites [] tr w → AuditTruth items tr w := by
  intro hall
  obtain ⟨st, hinterrupted⟩ := applyItems_interrupted
  obtain ⟨tr, hend, hw, hadmits, _⟩ := openServer_batch hinterrupted
    (answered_get (.cons .done (answered_get (.cons .refused (.nil _)))))
  have htruth := hall openServer operator twoRequests tr (.error st) [limitsKey] hadmits hend hw
  rcases batchApply_ends hend with ⟨hno, _⟩ | ⟨_, hrec, _⟩
  · exact hno hadmits
  · have hmem := htruth.truthful (batchRecord operator (.error st) ⟨limitsKey, "schema_version: 5"⟩)
      (by rw [hrec]; exact List.mem_cons_of_mem _ List.mem_cons_self)
    exact resultStr_error (α := List BatchApplyResult) st (hmem.mpr List.mem_cons_self).1

end TwoItems

end Konfig
