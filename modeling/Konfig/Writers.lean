import Konfig.Batch
import Konfig.Import

/-!
# The four writers, one after the other

`Apply`, `BatchApply` and `Revert` go through `apply_spec`, which reads the stored version and
compares; the import writes without reading.  A run is a sequence of calls of which none
overlaps another, on an API server that can fail at any request (`Cluster.Behaves`).

* `writers_raise`: every call that reports success raises the stored version of all its
  targets, and every call leaves alone what it has not tried to write, as long as the
  versions stored at the start fit in 32 bits and every import brings a version above the
  stored one.
* `import_lowers`: an import without a version writes `1` over whatever is stored.
-/

namespace Konfig

open Lib Proc

/-! ### What one exchange does to the store -/

/-- A config that no patch is for is left alone. -/
theorem Cluster.Behaves.frame {s s' : Cluster} {tr : KubeTrace} (h : Answered Cluster.Behaves s tr s')
    {key : Key} (hk : ∀ w ∈ KubeTrace.writes tr, w.1 ≠ key) : s' key = s key := by
  induction h with
  | nil => rfl
  | @cons s m s' o a tr h₁ _ ih =>
    have hrest : ∀ w ∈ KubeTrace.writes tr, w.1 ≠ key := by
      intro w hw
      refine hk w ?_
      show w ∈ KubeTrace.writes ([⟨o, a⟩] ++ tr)
      rw [KubeTrace.writes_append]
      exact List.mem_append_right _ hw
    rw [ih hrest]
    cases h₁ with
    | answered h =>
      cases h with
      | getFound => rfl
      | getMissing => rfl
      | getFailed => rfl
      | @patched key' body obj _ =>
        exact Function.update_of_ne (Ne.symm (hk (key', body) List.mem_cons_self)) _ _
      | patchFailed => rfl
      | listed => rfl
    | @patchLost key' body obj e _ =>
      exact Function.update_of_ne (Ne.symm (hk (key', body) List.mem_cons_self)) _ _

theorem Cluster.Behaves.unchanged {s s' : Cluster} {tr : KubeTrace}
    (h : Answered Cluster.Behaves s tr s') (hk : KubeTrace.writes tr = []) : s' = s := by
  funext key
  refine Cluster.Behaves.frame h fun w hw => ?_
  rw [hk] at hw
  exact absurd hw List.not_mem_nil

/-- A read that succeeds tells the stored version, where it fits. -/
theorem Cluster.Behaves.read {s s' : Cluster} {key : Key} {a : Except KubeError DynamicObject} {c : UInt32}
    (h : s.Behaves (.get key) a s') (hc : Konfig.readVersion a = .ok c)
    (hfit : s.version key < 2 ^ 32) : s' = s ∧ s.version key = c.toNat := by
  cases h with
  | answered h =>
    cases h with
    | getFound hobj =>
      cases hc
      exact ⟨rfl, Cluster.version_read hobj hfit⟩
    | getMissing hnone hcode =>
      refine ⟨rfl, ?_⟩
      simp only [Konfig.readVersion, apiStatusCode, hcode, if_true, Except.ok.injEq] at hc
      rw [← hc]
      simp [Cluster.version, hnone]
    | getFailed hcode => simp [Konfig.readVersion, apiStatusCode, hcode] at hc

/-- After an accepted patch, the version is the one of its document. -/
theorem Cluster.Behaves.version_accepted {s s' : Cluster} {key : Key} {body : Value} {obj : DynamicObject}
    {v : UInt32} (h : s.Behaves (.patch key body) (.ok obj) s')
    (hv : versionField body = some (.ofU32 v)) : s'.version key = v.toNat := by
  cases h with
  | answered h =>
    cases h with
    | patched hbody => exact Cluster.version_patched (hbody.trans hv)

/-- The documents that are written have a 32-bit version. -/
def KubeTrace.Versioned (tr : KubeTrace) : Prop :=
  ∀ w ∈ KubeTrace.writes tr, ∃ v : UInt32, versionField w.2 = some (.ofU32 v)

/-- The stored versions fit in 32 bits. -/
def Cluster.Fits (s : Cluster) : Prop := ∀ key, s.version key < 2 ^ 32

theorem Cluster.Fits.step {s s' : Cluster} {o : KubeOp} {a : o.Resp} (hs : s.Fits)
    (hv : KubeTrace.Versioned [⟨o, a⟩]) (h : s.Behaves o a s') : s'.Fits := by
  have hput : ∀ {key : Key} {body : Value} {obj : DynamicObject}, o = .patch key body →
      versionField obj.data = versionField body → Cluster.Fits (Function.update s key (some obj)) := by
    intro key body obj ho hbody k
    subst ho
    obtain ⟨v, hv⟩ := hv (key, body) List.mem_cons_self
    by_cases hk : k = key
    · rw [hk, Cluster.version_patched (hbody.trans hv)]
      exact v.toNat_lt
    · rw [Cluster.version_update_ne hk]
      exact hs k
  cases h with
  | answered h =>
    cases h with
    | getFound => exact hs
    | getMissing => exact hs
    | getFailed => exact hs
    | patched hbody => exact hput rfl hbody
    | patchFailed => exact hs
    | listed => exact hs
  | patchLost hbody => exact hput rfl hbody

theorem Cluster.Fits.answered {s s' : Cluster} {tr : KubeTrace} (h : Answered Cluster.Behaves s tr s')
    (hv : KubeTrace.Versioned tr) (hs : s.Fits) : s'.Fits := by
  refine h.invariant (I := Cluster.Fits) (P := fun e => KubeTrace.Versioned [e]) ?_ ?_ hs
  · exact fun _ _ _ _ hs hv h => Cluster.Fits.step hs hv h
  · intro e he w hw
    refine hv w ?_
    obtain ⟨e', he', hw⟩ := List.mem_filterMap.mp hw
    rw [List.mem_singleton.mp he'] at hw
    exact List.mem_filterMap.mpr ⟨e, he, hw⟩

/-! ### A successful write -/

/-- **A write that succeeds raises the stored version**, whatever failed on the way. -/
theorem applySpec_raises {key : Key} {spec : ConfigSpec} {tp : Option String} {tr : KubeTrace}
    {resp : ApplyResponse} {s s' : Cluster} (hfit : s.version key < 2 ^ 32)
    (h : Ends (applySpec key spec tp) tr (.ok resp)) (hs : Answered Cluster.Behaves s tr s') :
    s.version key < s'.version key := by
  obtain ⟨a, c, errs, obj, hc, hlt, rfl, _⟩ := applySpec_ends_ok h
  obtain ⟨m, hread, hpatches⟩ := answered_cons.mp hs
  obtain ⟨rfl, hversion⟩ := hread.read hc hfit
  obtain ⟨m', _, hlast⟩ := answered_append.mp hpatches
  obtain ⟨m'', hpatch, hnil⟩ := answered_cons.mp hlast
  rw [answered_nil.mp hnil, hpatch.version_accepted (versionField_patchBody key spec tp), hversion]
  exact hlt

/-- The writes of a batch that succeeds raise the version of every item. -/
theorem applyItems_raise {tp : Option String} : ∀ {items : List BatchItem} {tr : KubeTrace}
    {results : List BatchApplyResult} {s s' : Cluster}, (items.map (·.key)).Nodup →
      (∀ item ∈ items, s.version item.key < 2 ^ 32) → Ends (applyItems tp items) tr (.ok results) →
      Answered Cluster.Behaves s tr s' → ∀ item ∈ items, s.version item.key < s'.version item.key := by
  intro items
  induction items with
  | nil => intro tr results s s' _ _ _ _ item hitem; exact absurd hitem List.not_mem_nil
  | cons item items ih =>
    intro tr results s s' hnodup hfit h hs
    rw [List.map_cons, List.nodup_cons] at hnodup
    rw [applyItems, ends_bind] at h
    rcases h with ⟨e, he, _⟩ | ⟨tr₁, tr₂, resp, rfl, h₁, h₂⟩
    · cases he
    obtain ⟨m, hs₁, hs₂⟩ := answered_append.mp hs
    obtain ⟨r', hr', hitems⟩ := ends_bind_pure.mp h₂
    have hrest : ∃ results', r' = .ok results' := by
      cases r' with
      | ok results' => exact ⟨results', rfl⟩
      | error e => cases hr'
    obtain ⟨results', rfl⟩ := hrest
    have hhead := applySpec_raises (hfit item List.mem_cons_self) h₁ hs₁
    -- the first write leaves the other items alone, and their writes leave it alone
    have hbefore : ∀ item' ∈ items, m.version item'.key = s.version item'.key := by
      intro item' hitem'
      unfold Cluster.version
      rw [Cluster.Behaves.frame hs₁ fun w hw heq => ?_]
      rw [(applySpec_versions h₁).1 w hw] at heq
      exact hnodup.1 (heq ▸ List.mem_map_of_mem hitem')
    have hafter : s'.version item.key = m.version item.key := by
      unfold Cluster.version
      rw [Cluster.Behaves.frame hs₂ fun w hw heq => ?_]
      exact hnodup.1 (heq ▸ (applyItems_versions hnodup.2 hitems).1 w hw)
    intro item' hitem'
    rcases List.mem_cons.mp hitem' with rfl | hitem'
    · rw [hafter]
      exact hhead
    · rw [← hbefore item' hitem']
      refine ih hnodup.2 (fun item'' hitem'' => ?_) hitems hs₂ item' hitem'
      rw [hbefore item'' hitem'']
      exact hfit item'' (List.mem_cons_of_mem _ hitem'')

section Calls

variable [JsonSchema] [SerdeYaml] [SerdeJson]

omit [JsonSchema] [SerdeYaml] in
/-- **What `Revert` does**: it reads, and then writes through `apply_spec`. -/
theorem handleRevert_ends {req : RevertRequest} {tp : Option String} {tr : KubeTrace}
    {r : Except Status RevertResponse} (h : Ends (handleRevert req tp) tr r) :
    (KubeTrace.writes tr = [] ∧ ∃ st, r = .error st) ∨
      ∃ tr₁ tr₂ spec r', tr = tr₁ ++ tr₂ ∧ KubeTrace.writes tr₁ = [] ∧
        Ends (applySpec req.key spec tp) tr₂ r' ∧
        r = r'.map fun resp => ⟨resp.resourceVersion, spec.schemaVersion⟩ := by
  have hlist : ∀ {tr : KubeTrace} {r : Except Status ConfigSpec},
      Ends (fetchHistoricalSpec req.key req.toResourceVersion) tr r → KubeTrace.writes tr = [] := by
    intro tr r h
    unfold fetchHistoricalSpec KubeM.op at h
    rw [ends_op_bind] at h
    obtain ⟨a, tr', rfl, h⟩ := h
    cases a with
    | error e =>
      obtain ⟨rfl, _⟩ := ends_throw.mp h
      rfl
    | ok items =>
      simp only at h
      split at h
      · obtain ⟨rfl, _⟩ := ends_throw.mp h
        rfl
      · obtain ⟨rfl, _⟩ := ends_liftExcept.mp h
        rfl
  unfold handleRevert at h
  split at h
  · obtain ⟨rfl, rfl⟩ := ends_throw.mp h
    exact .inl ⟨rfl, _, rfl⟩
  rw [ends_bind] at h
  rcases h with ⟨e, rfl, h⟩ | ⟨tr₁, tr₂, historical, rfl, h₁, h₂⟩
  · exact .inl ⟨hlist h, e, rfl⟩
  rw [ends_bind] at h₂
  rcases h₂ with ⟨e, rfl, h₂⟩ | ⟨tr₂, tr₃, current, rfl, h₂, h₃⟩
  · obtain ⟨a, rfl, _⟩ := fetch_ends.mp h₂
    exact .inl ⟨by rw [KubeTrace.writes_append, hlist h₁]; rfl, e, rfl⟩
  obtain ⟨a, rfl, _⟩ := fetch_ends.mp h₂
  obtain ⟨r', rfl, hspec⟩ := ends_bind_pure.mp h₃
  refine .inr ⟨tr₁ ++ [⟨.get req.key, a⟩], tr₃, _, r', ?_, ?_, hspec, rfl⟩
  · rw [List.append_assoc]
  · rw [KubeTrace.writes_append, hlist h₁]
    rfl

/-- The configs a call is to write. -/
def Call.targets : Call → List Key
  | .apply _ req _ => [req.key]
  | .batchApply _ reqs _ => reqs.map (·.key)
  | .revert req _ => [req.key]

/-- Whatever a call writes has a version. -/
theorem Call.versioned {c : Call} {tr : KubeTrace} {r : Except Status Reply} (h : Ends c.handle tr r) :
    KubeTrace.Versioned tr := by
  intro w hw
  obtain ⟨⟨o, a⟩, he, hw⟩ := List.mem_filterMap.mp hw
  obtain ⟨g, hpre⟩ := exists_pre_of_steps h (fun _ => none) (c.safe _) ⟨o, a⟩ he
  cases o with
  | get key => cases hw
  | list ns name rv => cases hw
  | patch key body =>
    cases hw
    obtain ⟨_, v, _, hv, _⟩ := hpre
    exact ⟨v, hv⟩

/-- **A call that succeeds raises the version of every target.** -/
theorem Call.raises {c : Call} {tr : KubeTrace} {reply : Reply} {s s' : Cluster} (hfit : s.Fits)
    (h : Ends c.handle tr (.ok reply)) (hs : Answered Cluster.Behaves s tr s') :
    ∀ key ∈ c.targets, s.version key < s'.version key := by
  have hok : ∀ {α : Type} {f : α → Reply} {r : Except Status α}, .ok reply = r.map f → ∃ a, r = .ok a := by
    intro α f r hr
    cases r with
    | ok a => exact ⟨a, rfl⟩
    | error e => cases hr
  cases c with
  | apply table req tp =>
    obtain ⟨r', hr', h⟩ := ends_bind_pure.mp h
    obtain ⟨resp, rfl⟩ := hok hr'
    intro key hkey
    rw [List.mem_singleton.mp hkey]
    rcases handleApply_ends h with ⟨_, ⟨st, hst⟩, _⟩ | ⟨spec, _, _, h⟩
    · cases hst
    · exact applySpec_raises (hfit _) h hs
  | batchApply table reqs tp =>
    obtain ⟨r', hr', h⟩ := ends_bind_pure.mp h
    obtain ⟨results, rfl⟩ := hok hr'
    rcases handleBatchApply_ends h with ⟨_, ⟨st, hst⟩, _⟩ | ⟨items, hp, h⟩
    · cases hst
    rcases h with ⟨st, hst, _⟩ | ⟨tr₁, tr₂, currents, rfl, hreads, h⟩
    · cases hst
    rcases h with ⟨st, _, _, hst⟩ | ⟨_, h⟩
    · cases hst
    obtain ⟨m, hs₁, hs₂⟩ := answered_append.mp hs
    obtain rfl := Cluster.Behaves.unchanged hs₁ (writes_fetchCurrents hreads)
    have hperm := perm_sortBatchItems items
    have hkeys : items.map (·.key) = reqs.map (·.key) := parsed_keys hp.parsed
    intro key hkey
    have hmem : key ∈ (sortBatchItems items).map (·.key) :=
      (hperm.map _).mem_iff.mpr (hkeys ▸ hkey)
    obtain ⟨item, hitem, rfl⟩ := List.mem_map.mp hmem
    exact applyItems_raise ((hperm.map _).nodup_iff.mpr (hkeys ▸ hp.distinct)) (fun item _ => hfit item.key)
      h hs₂ item hitem
  | revert req tp =>
    obtain ⟨r', hr', h⟩ := ends_bind_pure.mp h
    obtain ⟨resp, rfl⟩ := hok hr'
    intro key hkey
    rw [List.mem_singleton.mp hkey]
    rcases handleRevert_ends h with ⟨_, st, hst⟩ | ⟨tr₁, tr₂, spec, r', rfl, hreads, h, hr'⟩
    · cases hst
    obtain ⟨m, hs₁, hs₂⟩ := answered_append.mp hs
    obtain rfl := Cluster.Behaves.unchanged hs₁ hreads
    cases r' with
    | ok resp' => exact applySpec_raises (hfit _) h hs₂
    | error e => cases hr'

/-! ### Calls one after the other -/

variable [FloatText]

/-- The patches of an import. -/
def ImportTrace.writes (tr : ImportTrace) : List (Key × Value) :=
  tr.filterMap fun e =>
    match e.1 with
    | .kube (.patch key body) => some (key, body)
    | _ => none

/-- The ConfigMap is as it is found; the rest is the API server's. -/
inductive ImportAnswers (found : Except KubeError ConfigMap) :
    Cluster → (o : ImportOp) → o.Resp → Cluster → Prop
  | configMap {s : Cluster} {key : Key} : ImportAnswers found s (.getConfigMap key) found s
  | kube {s s' : Cluster} {o : KubeOp} {r : o.Resp} : s.Behaves o r s' →
      ImportAnswers found s (.kube o) r s'

/-- A call that writes configs.  What an import finds in the ConfigMap is part of it. -/
inductive Writer
  | rpc (c : Call)
  | importConfigmap (ns configmapName targetName : String) (found : Except KubeError ConfigMap)

def Writer.targets : Writer → List Key
  | .rpc c => c.targets
  | .importConfigmap ns _ targetName _ => [⟨ns, targetName⟩]

/-- A call that has ended: whether it reports success, and the patches it tried. -/
structure Finished where
  writer : Writer
  succeeded : Bool
  writes : List (Key × Value)

/-- One call from its start to its end, with nobody else writing in between. -/
inductive Finishes : Cluster → Finished → Cluster → Prop
  | rpc {s s' : Cluster} {c : Call} {tr : KubeTrace} {r : Except Status Reply} :
      Ends c.handle tr r → Answered Cluster.Behaves s tr s' →
      Finishes s ⟨.rpc c, r.isOk, KubeTrace.writes tr⟩ s'
  | imported {s s' : Cluster} {ns configmapName targetName : String} {found : Except KubeError ConfigMap}
      {tr : ImportTrace} {r : Except KubeError ImportResult} :
      Ends (importConfigmap ns configmapName targetName) tr r →
      Answered (ImportAnswers found) s tr s' →
      Finishes s ⟨.importConfigmap ns configmapName targetName found, r.isOk, ImportTrace.writes tr⟩ s'

/-- A sequence of calls, where `P` holds of each. -/
inductive CallRun (P : Cluster → Finished → Cluster → Prop) (s₀ : Cluster) : List Finished → Cluster → Prop
  | nil : CallRun P s₀ [] s₀
  | snoc {fs : List Finished} {f : Finished} {s s' : Cluster} :
      CallRun P s₀ fs s → Finishes s f s' → P s f s' → CallRun P s₀ (fs ++ [f]) s'

omit [SerdeYaml] [SerdeJson] [FloatText] in
theorem snoc_inj {fs fs' : List Finished} {f f' : Finished} (h : fs ++ [f] = fs' ++ [f']) :
    fs = fs' ∧ f = f' := by
  obtain ⟨hfs, hf⟩ := List.append_inj' h rfl
  exact ⟨hfs, (List.cons.inj hf).1⟩

theorem CallRun.last {P : Cluster → Finished → Cluster → Prop} {s₀ s' : Cluster} {fs : List Finished}
    {f : Finished} (h : CallRun P s₀ (fs ++ [f]) s') :
    ∃ s, CallRun P s₀ fs s ∧ Finishes s f s' ∧ P s f s' := by
  generalize hfs : fs ++ [f] = fs' at h
  cases h with
  | nil => simp at hfs
  | snoc hrun hcall hp =>
    obtain ⟨rfl, rfl⟩ := snoc_inj hfs
    exact ⟨_, hrun, hcall, hp⟩

theorem CallRun.of_nil {P : Cluster → Finished → Cluster → Prop} {s₀ s : Cluster}
    (h : CallRun P s₀ [] s) : s = s₀ := by
  generalize hfs : ([] : List Finished) = fs at h
  cases h with
  | nil => rfl
  | snoc => simp at hfs

/-- **No write path lowers the version**: success raises it on every target, and what the call
has not tried to write is as it was. -/
structure Raises (s : Cluster) (f : Finished) (s' : Cluster) : Prop where
  raised : f.succeeded = true → ∀ key ∈ f.writer.targets, s.version key < s'.version key
  untouched : ∀ key, (∀ w ∈ f.writes, w.1 ≠ key) → s' key = s key

/-- An import brings a version above the stored one. -/
def Finished.Above (f : Finished) (s : Cluster) : Prop :=
  match f.writer with
  | .importConfigmap ns _ targetName (.ok cm) =>
    s.version ⟨ns, targetName⟩ < (parseSchemaVersionFromData (cm.data.getD [])).toNat
  | _ => True

omit [JsonSchema] [SerdeYaml] [SerdeJson] in
/-- What an import leaves behind. -/
theorem import_outcome {ns configmapName targetName : String} {found : Except KubeError ConfigMap}
    {tr : ImportTrace} {r : Except KubeError ImportResult} {s s' : Cluster}
    (h : Ends (importConfigmap ns configmapName targetName) tr r)
    (hs : Answered (ImportAnswers found) s tr s') :
    (r.isOk = false ∧ ImportTrace.writes tr = [] ∧ s' = s) ∨
      ∃ (cm : ConfigMap) (a : Except KubeError DynamicObject), found = .ok cm ∧
        ImportTrace.writes tr = [(⟨ns, targetName⟩, cm.document ns targetName)] ∧
        r.isOk = a.isOk ∧ s.Behaves (.patch ⟨ns, targetName⟩ (cm.document ns targetName)) a s' := by
  rcases importConfigmap_ends h with ⟨e, rfl, rfl⟩ | ⟨cm, a, rfl, rfl⟩
  · obtain ⟨m, hget, hnil⟩ := answered_cons.mp hs
    cases hget
    exact .inl ⟨rfl, rfl, answered_nil.mp hnil⟩
  · obtain ⟨m, hget, hpatch⟩ := answered_cons.mp hs
    obtain ⟨m', hpatch, hnil⟩ := answered_cons.mp hpatch
    cases hget
    obtain rfl := answered_nil.mp hnil
    cases hpatch with
    | kube hpatch =>
      refine .inr ⟨cm, a, rfl, rfl, ?_, hpatch⟩
      cases a <;> rfl

/-- Whatever a call does, the versions still fit in 32 bits. -/
theorem Finishes.fits {s s' : Cluster} {f : Finished} (h : Finishes s f s') (hs : s.Fits) : s'.Fits := by
  cases h with
  | rpc h ha => exact hs.answered ha (Call.versioned h)
  | imported h ha =>
    rcases import_outcome h ha with ⟨_, _, rfl⟩ | ⟨cm, a, _, _, _, hpatch⟩
    · exact hs
    · refine Cluster.Fits.step hs (fun w hw => ?_) hpatch
      rw [List.mem_singleton.mp hw]
      exact ⟨_, cm.versionField_document _ _⟩

/-- **One call**: an RPC raises the version by its own gate, an import if it brings a version
above the stored one. -/
theorem Finishes.raises {s s' : Cluster} {f : Finished} (h : Finishes s f s') (hs : s.Fits)
    (hf : f.Above s) : Raises s f s' := by
  cases h with
  | @rpc _ c tr r h ha =>
    refine ⟨fun hok => ?_, fun key hk => Cluster.Behaves.frame ha hk⟩
    cases r with
    | error e => cases hok
    | ok reply => exact Call.raises hs h ha
  | imported h ha =>
    rcases import_outcome h ha with ⟨hfail, _, rfl⟩ | ⟨cm, a, rfl, hwrites, hok, hpatch⟩
    · refine ⟨fun hok => ?_, fun _ _ => rfl⟩
      rw [show _ = false from hfail] at hok
      cases hok
    · refine ⟨fun hsucc key hkey => ?_, fun key hk => ?_⟩
      · rw [List.mem_singleton.mp hkey]
        cases a with
        | error e =>
          rw [show _ = false from hok] at hsucc
          cases hsucc
        | ok obj =>
          rw [hpatch.version_accepted (cm.versionField_document _ _)]
          exact hf
      · have hpatched : Answered Cluster.Behaves s [⟨.patch _ _, a⟩] s' := .cons hpatch (.nil _)
        refine Cluster.Behaves.frame hpatched fun w hw => hk w ?_
        rw [hwrites]
        exact hw

/-- **In a sequence of calls every success raises the stored version**, where the versions fit
at the start and imports bring a version above the stored one. -/
theorem writers_raise {s₀ s : Cluster} {fs : List Finished} (h₀ : s₀.Fits)
    (hrun : CallRun (fun s f _ => f.Above s) s₀ fs s) : CallRun Raises s₀ fs s := by
  suffices h : CallRun Raises s₀ fs s ∧ s.Fits from h.1
  induction hrun with
  | nil => exact ⟨.nil, h₀⟩
  | snoc _ hcall habove ih => exact ⟨.snoc ih.1 hcall (hcall.raises ih.2 habove), hcall.fits ih.2⟩

end Calls

/-! ### Two imports -/

section TwoImports

local instance importSchemas : JsonSchema := noSchemas

local instance importDocuments : SerdeYaml := twoDocuments

local instance importText : SerdeJson := noText

/-- No value of these ConfigMaps is a float. -/
local instance noFloats : FloatText where
  parseF64 _ := none

/-- The store with version `5` of `trading/limits`. -/
def versionFive : Cluster := Function.update (fun _ => none) limitsKey (some (stored ⟨5, defaultContent⟩))

theorem versionFive_limits : versionFive.version limitsKey = 5 := Cluster.version_patched (v := 5) rfl

theorem versionFive_fits : versionFive.Fits := by
  intro key
  by_cases hk : key = limitsKey
  · rw [hk, versionFive_limits]
    decide
  · rw [versionFive, Cluster.version_update_ne hk]
    exact version_empty key

/-- An import of a ConfigMap into `trading/limits` that succeeds. -/
theorem import_finishes (cm : ConfigMap) (obj : DynamicObject)
    (hobj : versionField obj.data = versionField (cm.document "trading" "limits")) (s : Cluster) :
    Finishes s ⟨.importConfigmap "trading" "limits-cm" "limits" (.ok cm), true,
      [(limitsKey, cm.document "trading" "limits")]⟩ (Function.update s limitsKey (some obj)) := by
  have hend : Ends (importConfigmap "trading" "limits-cm" "limits")
      [⟨.getConfigMap ⟨"trading", "limits-cm"⟩, .ok cm⟩,
        ⟨.kube (.patch limitsKey (cm.document "trading" "limits")), .ok obj⟩]
      (.ok ⟨obj.metadata.resourceVersion.getD ""⟩) := by
    unfold importConfigmap ImportM.op
    rw [ends_op_bind]
    refine ⟨.ok cm, _, rfl, ?_⟩
    rw [ends_liftExcept_bind]
    refine .inr ⟨cm, rfl, ?_⟩
    rw [ends_op_bind]
    refine ⟨.ok obj, _, rfl, ?_⟩
    rw [ends_liftExcept_bind]
    exact .inr ⟨obj, rfl, ends_pure.mpr ⟨rfl, rfl⟩⟩
  exact .imported hend (.cons .configMap (.cons (.kube (.answered (.patched hobj))) (.nil _)))

/-- An `Apply` of version `5` over version `3` that succeeds. -/
theorem apply_finishes : Finishes versionThree ⟨.rpc (applyLimits "schema_version: 5"), true,
    [(limitsKey, patchBody limitsKey ⟨5, defaultContent⟩ none)]⟩
    (Function.update versionThree limitsKey (some (stored ⟨5, defaultContent⟩))) := by
  have hread : readVersion (.ok (stored ⟨3, defaultContent⟩)) = .ok 3 := rfl
  have hend : Ends (applyLimits "schema_version: 5").handle
      [⟨.get limitsKey, .ok (stored ⟨3, defaultContent⟩)⟩,
        accepted limitsKey (patchBody limitsKey ⟨5, defaultContent⟩ none) (stored ⟨5, defaultContent⟩)]
      (.ok (.applied ⟨""⟩)) :=
    ends_bind_pure.mpr ⟨.ok ⟨""⟩, rfl, applySpec_accepted_of hread (by decide) none _⟩
  exact .rpc hend (.cons (.answered (.getFound (Function.update_self ..)))
    (.cons (.answered (.patched rfl)) (.nil _)))

/-- Two writers in turn: version `5` is applied over version `3`, and version `6` imported over it. -/
theorem writers_raise_twice : ∃ s, CallRun Raises versionThree
    [⟨.rpc (applyLimits "schema_version: 5"), true, [(limitsKey, patchBody limitsKey ⟨5, defaultContent⟩ none)]⟩,
      ⟨.importConfigmap "trading" "limits-cm" "limits" (.ok ⟨some [("schema_version", "6")]⟩), true,
        [(limitsKey, (ConfigMap.mk (some [("schema_version", "6")])).document "trading" "limits")]⟩] s := by
  have himport := import_finishes ⟨some [("schema_version", "6")]⟩ (stored ⟨6, defaultContent⟩) rfl
    (Function.update versionThree limitsKey (some (stored ⟨5, defaultContent⟩)))
  refine ⟨_, writers_raise versionThree_fits ((CallRun.nil.snoc apply_finishes trivial).snoc himport ?_)⟩
  show Cluster.version _ limitsKey < 6
  rw [Cluster.version_patched (v := 5) rfl]
  decide

/-- **An import lowers the version**: data without a version is written as version `1` over
version `5`, and the import reports success. -/
theorem import_lowers : ¬ ∀ (s₀ s : Cluster) (fs : List Finished), s₀.Fits →
    CallRun (fun _ _ _ => True) s₀ fs s → CallRun Raises s₀ fs s := by
  intro h
  have hcall := import_finishes ⟨none⟩ (stored ⟨1, defaultContent⟩) rfl versionFive
  obtain ⟨s, hrun, _, hraises⟩ := (h versionFive _ _ versionFive_fits (.snoc .nil hcall trivial)).last
  obtain rfl := hrun.of_nil
  have hlt := hraises.raised rfl limitsKey List.mem_cons_self
  rw [versionFive_limits, Cluster.version_patched (v := 1) rfl] at hlt
  revert hlt
  decide

end TwoImports

end Konfig
