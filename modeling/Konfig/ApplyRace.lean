import Konfig.Revert

/-!
# Concurrent writers

Any number of `Apply`, `BatchApply` and `Revert` calls run against one API
server (`Cluster.answer`): it executes single gets and single patches
atomically, and the last forced patch wins.  Does every write that is reported
as successful increase the stored `schema_version`?

Each call on its own patches a version above the last one it read
(`Call.safe`).  Between that read and the patch another call may write, and the
patch carries no precondition, so the write can go backwards
(`writes_can_go_back`).  `write_increases` says when it does not: no other call's
successful patch of the same config lands between a call's last read of it and
its own patch, and the versions stored at the start fit in 32 bits.
-/

namespace Konfig

open Lib

/-! ### The API server -/

/-- The stored configs. -/
abbrev Cluster := Key → Option DynamicObject

/-- `spec.schema_version` of a document, if it has one. -/
def versionField (data : Value) : Option Value := (data.get "spec").bind (·.get "schema_version")

/-- The stored version of a config as an integer; `0` where there is none. -/
def Cluster.version (s : Cluster) (key : Key) : Nat :=
  match s key with
  | none => 0
  | some obj => (((versionField obj.data).bind Value.asU64).getD 0).toNat

/-- The answers the API server can give, and the state each leaves behind. -/
inductive Cluster.Answer : Cluster → (o : KubeOp) → o.Resp → Cluster → Prop
  | getFound {s : Cluster} {key : Key} {obj : DynamicObject} :
      s key = some obj → Answer s (.get key) (.ok obj) s
  | getMissing {s : Cluster} {key : Key} {e : KubeError} :
      s key = none → e.code = some 404 → Answer s (.get key) (.error e) s
  | getFailed {s : Cluster} {key : Key} {e : KubeError} :
      e.code ≠ some 404 → Answer s (.get key) (.error e) s
  | patched {s : Cluster} {key : Key} {body : Value} {obj : DynamicObject} :
      versionField obj.data = versionField body →
      Answer s (.patch key body) (.ok obj) (Function.update s key (some obj))
  | patchFailed {s : Cluster} {key : Key} {body : Value} {e : KubeError} :
      Answer s (.patch key body) (.error e) s
  | listed {s : Cluster} {ns name rv : String} {r : Except KubeError (List DynamicObject)} :
      Answer s (.list ns name rv) r s

/-! ### What one call knows -/

/-- What a call knows: the version it last read of each config. -/
abbrev Known := Key → Option UInt32

/-- A read is remembered, a successful patch is forgotten. -/
def Known.upd (g : Known) : (o : KubeOp) → o.Resp → Known
  | .get key, .ok obj => Function.update g key (some (parseSchemaVersionFromObject obj))
  | .get key, .error e =>
    Function.update g key (if apiStatusCode e = some 404 then some 0 else none)
  | .patch key _, .ok _ => Function.update g key none
  | .patch _ _, .error _ => g
  | .list _ _ _, _ => g

/-- A patch carries a version above the one last read. -/
def Known.pre (g : Known) : KubeOp → Prop
  | .patch key body => ∃ c v : UInt32, g key = some c ∧ versionField body = some (.ofU32 v) ∧ c < v
  | _ => True

theorem versionField_patchBody (key : Key) (spec : ConfigSpec) (tp : Option String) :
    versionField (patchBody key spec tp) = some (.ofU32 spec.schemaVersion) := rfl

theorem fetch_safe (key : Key) (g : Known) :
    Proc.wpOk Known.upd Known.pre (fetchCurrentSchemaVersion key) (fun g' c => g' key = some c) g := by
  refine Proc.wpOk_bind _ _ (Proc.wpOk_op _ _ trivial fun r => ?_)
  cases r with
  | ok obj =>
    refine Proc.wpOk_pure _ _ ?_
    simp [Known.upd]
  | error e =>
    by_cases h : apiStatusCode e = some 404
    · simp only [h, if_true]
      refine Proc.wpOk_pure _ _ ?_
      simp [Known.upd, h]
    · simp only [h, if_false]
      exact Proc.wpOk_throw _ _

/-- From any knowledge on, `apply_spec` patches only above what it read. -/
theorem applySpec_safe (key : Key) (spec : ConfigSpec) (tp : Option String) (g : Known) :
    Proc.wpOk Known.upd Known.pre (applySpec key spec tp) (fun _ _ => True) g := by
  refine Proc.wpOk_seq _ _ (fetch_safe key g) fun g' c hc => ?_
  refine Proc.wpOk_bind _ _ (Proc.wpOk_liftExcept _ _ fun _ hdec => ?_)
  have hlt : c < spec.schemaVersion := schemaVersionDecision_ok.mp hdec
  have hpatch : Proc.wpOk Known.upd Known.pre (patchWithRetry key (patchBody key spec tp))
      (fun _ _ => True) g' :=
    wpOk_patchWithRetry (fun g : Known => g key = some c)
      (fun g hg => ⟨c, spec.schemaVersion, hg, versionField_patchBody key spec tp, hlt⟩) (fun _ _ hg => hg) hc
  exact Proc.wpOk_seq _ _ hpatch fun _ _ _ => Proc.wpOk_pure _ _ trivial

theorem fetchCurrents_safe : ∀ (items : List BatchItem) (g : Known),
    Proc.wpOk Known.upd Known.pre (fetchCurrents items) (fun _ _ => True) g := by
  intro items
  induction items with
  | nil => intro g; exact Proc.wpOk_pure _ _ trivial
  | cons item items ih =>
    intro g
    refine Proc.wpOk_seq _ _ (fetch_safe item.key g) fun g' _ _ => ?_
    exact Proc.wpOk_seq _ _ (ih g') fun _ _ _ => Proc.wpOk_pure _ _ trivial

theorem applyItems_safe (tp : Option String) : ∀ (items : List BatchItem) (g : Known),
    Proc.wpOk Known.upd Known.pre (applyItems tp items) (fun _ _ => True) g := by
  intro items
  induction items with
  | nil => intro g; exact Proc.wpOk_pure _ _ trivial
  | cons item items ih =>
    intro g
    refine Proc.wpOk_seq _ _ (applySpec_safe item.key item.spec tp g) fun g' _ _ => ?_
    exact Proc.wpOk_seq _ _ (ih g') fun _ _ _ => Proc.wpOk_pure _ _ trivial

theorem handleApply_safe [JsonSchema] [SerdeYaml] (table : SchemaTable) (req : ApplyRequest)
    (tp : Option String) (g : Known) :
    Proc.wpOk Known.upd Known.pre (handleApply table req tp) (fun _ _ => True) g := by
  refine Proc.wpOk_bind _ _ (Proc.wpOk_liftExcept _ _ fun spec _ => ?_)
  refine Proc.wpOk_bind _ _ (Proc.wpOk_liftExcept _ _ fun _ _ => ?_)
  exact applySpec_safe req.key spec tp g

theorem handleBatchApply_safe [JsonSchema] [SerdeYaml] (table : SchemaTable)
    (reqs : List ApplyRequest) (tp : Option String) (g : Known) :
    Proc.wpOk Known.upd Known.pre (handleBatchApply table reqs tp) (fun _ _ => True) g := by
  refine Proc.wpOk_bind _ _ (Proc.wpOk_liftExcept _ _ fun items _ => ?_)
  refine Proc.wpOk_bind _ _ (Proc.wpOk_liftExcept _ _ fun _ _ => ?_)
  refine Proc.wpOk_seq _ _ (fetchCurrents_safe items g) fun g' currents _ => ?_
  refine Proc.wpOk_bind _ _ (Proc.wpOk_liftExcept _ _ fun _ _ => ?_)
  exact applyItems_safe tp (sortBatchItems items) g'

theorem fetchHistoricalSpec_safe [SerdeJson] (key : Key) (rv : String) (g : Known) :
    Proc.wpOk Known.upd Known.pre (fetchHistoricalSpec key rv) (fun _ _ => True) g := by
  refine Proc.wpOk_bind _ _ (Proc.wpOk_op _ _ trivial fun r => ?_)
  cases r with
  | error e => exact Proc.wpOk_throw _ _
  | ok items =>
    simp only
    split
    · exact Proc.wpOk_throw _ _
    · exact Proc.wpOk_liftExcept _ _ fun _ _ => trivial

theorem handleRevert_safe [SerdeJson] (req : RevertRequest) (tp : Option String) (g : Known) :
    Proc.wpOk Known.upd Known.pre (handleRevert req tp) (fun _ _ => True) g := by
  unfold handleRevert
  split
  · exact Proc.wpOk_throw _ _
  · refine Proc.wpOk_seq _ _ (fetchHistoricalSpec_safe req.key req.toResourceVersion g) ?_
    intro g₁ historical _
    refine Proc.wpOk_seq _ _ (fetch_safe req.key g₁) fun g₂ current _ => ?_
    exact Proc.wpOk_seq _ _ (applySpec_safe _ _ tp g₂) fun _ _ _ => Proc.wpOk_pure _ _ trivial

/-! ### Interleavings -/

/-- After call `i` last read `key`, another call's patch of it succeeded. -/
def overtaken (i : Nat) (key : Key) (tr : List (Event KubeOp KubeOp.Resp)) : Bool :=
  tr.foldl (fun b e =>
    match e with
    | ⟨j, .get k, _⟩ => if j = i ∧ k = key then false else b
    | ⟨j, .patch k _, .ok _⟩ => if j ≠ i ∧ k = key then true else b
    | _ => b) false

@[simp] theorem overtaken_snoc (i : Nat) (key : Key) (tr : List (Event KubeOp KubeOp.Resp))
    (e : Event KubeOp KubeOp.Resp) :
    overtaken i key (tr ++ [e]) =
      match e with
      | ⟨j, .get k, _⟩ => if j = i ∧ k = key then false else overtaken i key tr
      | ⟨j, .patch k _, .ok _⟩ => if j ≠ i ∧ k = key then true else overtaken i key tr
      | _ => overtaken i key tr := by
  rw [overtaken, List.foldl_append]
  rfl

/-- The stored versions fit in 32 bits, and what a call knows and was not
overtaken on is what is stored. -/
structure RaceInv (tr : List (Event KubeOp KubeOp.Resp)) (s : Cluster) : Prop where
  small : ∀ key, s.version key < 2 ^ 32
  known : ∀ i key c, ghost Known.upd (fun _ => none) i tr key = some c → overtaken i key tr = false →
    s.version key = c.toNat

theorem Cluster.version_patched {s : Cluster} {key : Key} {obj : DynamicObject} {v : UInt32}
    (h : versionField obj.data = some (.ofU32 v)) :
    (Cluster.version (Function.update s key (some obj)) key) = v.toNat := by
  unfold Cluster.version
  rw [Function.update_self]
  simp [h]

theorem Cluster.version_update_ne {s : Cluster} {key k : Key} {obj : DynamicObject} (h : k ≠ key) :
    Cluster.version (Function.update s key (some obj)) k = s.version k := by
  unfold Cluster.version
  rw [Function.update_of_ne h]

/-- What a read returns is what is stored, as long as it fits. -/
theorem Cluster.version_read {s : Cluster} {key : Key} {obj : DynamicObject} (h : s key = some obj)
    (hsmall : s.version key < 2 ^ 32) :
    s.version key = (parseSchemaVersionFromObject obj).toNat := by
  have hv : s.version key = (((versionField obj.data).bind Value.asU64).getD 0).toNat := by
    unfold Cluster.version
    rw [h]
  rw [hv] at hsmall ⊢
  unfold parseSchemaVersionFromObject
  rw [UInt64.toNat_toUInt32]
  exact (Nat.mod_eq_of_lt hsmall).symm

/-- A read by call `i`: its knowledge of `key` is new, the rest is as before. -/
theorem RaceInv.get {tr : List (Event KubeOp KubeOp.Resp)} {s : Cluster} {i : Nat} {key : Key}
    {r : Except KubeError DynamicObject} (h : RaceInv tr s)
    (hread : ∀ (g : Known) c, Known.upd g (.get key) r key = some c → s.version key = c.toNat) :
    RaceInv (tr ++ [⟨i, .get key, r⟩]) s := by
  refine ⟨h.small, fun j k c hg ho => ?_⟩
  rw [ghost_snoc] at hg
  rw [overtaken_snoc] at ho
  by_cases hij : i = j
  · subst hij
    by_cases hk : key = k
    · subst hk
      simp only [if_true] at hg
      exact hread _ c hg
    · simp only [if_true] at hg
      simp only [hk, and_false, if_false] at ho
      refine h.known i k c ?_ ho
      cases r <;> simpa [Known.upd, Function.update_of_ne (Ne.symm hk)] using hg
  · simp only [hij, if_false, false_and] at hg ho
    exact h.known j k c hg ho

theorem RaceInv.patched {tr : List (Event KubeOp KubeOp.Resp)} {s : Cluster} {i : Nat} {key : Key}
    {body : Value} {obj : DynamicObject} {v : UInt32} (h : RaceInv tr s)
    (hv : versionField obj.data = some (.ofU32 v)) :
    RaceInv (tr ++ [⟨i, .patch key body, .ok obj⟩]) (Function.update s key (some obj)) := by
  refine ⟨fun k => ?_, fun j k c hg ho => ?_⟩
  · by_cases hk : k = key
    · rw [hk, Cluster.version_patched hv]
      exact v.toNat_lt
    · rw [Cluster.version_update_ne hk]
      exact h.small k
  · rw [ghost_snoc] at hg
    rw [overtaken_snoc] at ho
    by_cases hij : i = j
    · -- the writer forgets what it knew of the key it wrote
      subst hij
      simp only [if_true, ne_eq, not_true_eq_false, false_and, if_false] at hg ho
      by_cases hk : k = key
      · subst hk
        simp [Known.upd] at hg
      · rw [Cluster.version_update_ne hk]
        refine h.known i k c ?_ ho
        simpa [Known.upd, Function.update_of_ne hk] using hg
    · -- another call is overtaken, unless the write was to another key
      by_cases hk : key = k
      · simp [hij, hk] at ho
      · simp only [hij, hk, if_false, and_false] at hg ho
        rw [Cluster.version_update_ne (Ne.symm hk)]
        exact h.known j k c hg ho

/-- An operation that changes nothing and teaches nothing. -/
theorem RaceInv.silent {tr : List (Event KubeOp KubeOp.Resp)} {s : Cluster}
    {e : Event KubeOp KubeOp.Resp} (h : RaceInv tr s) (hupd : ∀ g, Known.upd g e.op e.resp = g)
    (hover : ∀ j k, overtaken j k (tr ++ [e]) = overtaken j k tr) : RaceInv (tr ++ [e]) s := by
  refine ⟨h.small, fun j k c hg ho => ?_⟩
  rw [hover] at ho
  rw [ghost_snoc, hupd, ite_self] at hg
  exact h.known j k c hg ho

/-! ### The calls -/

section Calls

variable [JsonSchema] [SerdeYaml] [SerdeJson]

/-- A write RPC with its arguments and the schema registry it finds. -/
inductive Call
  | apply (table : SchemaTable) (req : ApplyRequest) (traceparent : Option String)
  | batchApply (table : SchemaTable) (reqs : List ApplyRequest) (traceparent : Option String)
  | revert (req : RevertRequest) (traceparent : Option String)

inductive Reply
  | applied (resp : ApplyResponse)
  | batchApplied (results : List BatchApplyResult)
  | reverted (resp : RevertResponse)

def Call.handle : Call → KubeM Reply
  | .apply table req tp => do return .applied (← handleApply table req tp)
  | .batchApply table reqs tp => do return .batchApplied (← handleBatchApply table reqs tp)
  | .revert req tp => do return .reverted (← handleRevert req tp)

def Call.start (c : Call) : Proc KubeOp KubeOp.Resp (Except Status Reply) := c.handle.run

/-- **Every call patches only above the version it last read.** -/
theorem Call.safe (c : Call) (g : Known) : c.start.wp Known.upd Known.pre (fun _ _ => True) g := by
  have hok : Proc.wpOk Known.upd Known.pre c.handle (fun _ _ => True) g := by
    cases c with
    | apply table req tp =>
      exact Proc.wpOk_seq _ _ (handleApply_safe table req tp g) fun _ _ _ =>
        Proc.wpOk_pure _ _ trivial
    | batchApply table reqs tp =>
      exact Proc.wpOk_seq _ _ (handleBatchApply_safe table reqs tp g) fun _ _ _ =>
        Proc.wpOk_pure _ _ trivial
    | revert req tp =>
      exact Proc.wpOk_seq _ _ (handleRevert_safe req tp g) fun _ _ _ => Proc.wpOk_pure _ _ trivial
  exact Proc.wp_mono _ _ (fun _ _ _ => trivial) _ g hok

/-- Calls that have just started on a cluster. -/
abbrev started (s : Cluster) (calls : List Call) :
    Cluster × List (Proc KubeOp KubeOp.Resp (Except Status Reply)) := (s, calls.map Call.start)

theorem started_safe (s : Cluster) (calls : List Call) (i : Nat)
    (p : Proc KubeOp KubeOp.Resp (Except Status Reply)) (hp : (started s calls).2[i]? = some p) :
    p.wp Known.upd Known.pre (fun _ _ => True) (fun _ => none) := by
  rw [List.getElem?_map] at hp
  obtain ⟨call, _, rfl⟩ := Option.map_eq_some_iff.mp hp
  exact call.safe _

/-- **Where no call is overtaken, it knows what is stored**, in every
interleaving. -/
theorem RaceInv.of_run {s₀ : Cluster} {calls : List Call} {tr : List (Event KubeOp KubeOp.Resp)}
    {c : Cluster × List (Proc KubeOp KubeOp.Resp (Except Status Reply))}
    (hsmall : ∀ key, s₀.version key < 2 ^ 32) (hrun : Run Cluster.Answer (started s₀ calls) tr c) :
    RaceInv tr c.1 := by
  induction hrun with
  | nil => exact ⟨hsmall, fun i key c hg => by simp at hg⟩
  | snoc hr hs ih =>
    have hpre := hr.pre_of_step (started_safe s₀ calls) hs
    cases hs with
    | call _ hans =>
      cases hans with
      | getFound hobj =>
        refine ih.get fun g c hg => ?_
        simp only [Known.upd, Function.update_self, Option.some.injEq] at hg
        rw [← hg]
        exact Cluster.version_read hobj (ih.small _)
      | getMissing hnone hcode =>
        refine ih.get fun g c hg => ?_
        simp only [Known.upd, Function.update_self, apiStatusCode, hcode, if_true,
          Option.some.injEq] at hg
        rw [← hg]
        simp [Cluster.version, hnone]
      | getFailed hcode =>
        refine ih.get fun g c hg => ?_
        simp [Known.upd, apiStatusCode, hcode] at hg
      | patched hbody =>
        -- the body has a version, because the call checked one before it patched
        obtain ⟨_, v, _, hv, _⟩ := hpre
        exact ih.patched (hbody.trans hv)
      | patchFailed => exact ih.silent (fun _ => rfl) fun j k => overtaken_snoc j k _ _
      | listed => exact ih.silent (fun _ => rfl) fun j k => overtaken_snoc j k _ _

/-- **A successful patch increases the stored version** unless another call's
patch of the same config succeeded since this call last read it. -/
theorem write_increases {s₀ : Cluster} {calls : List Call} {tr : List (Event KubeOp KubeOp.Resp)}
    {c c' : Cluster × List (Proc KubeOp KubeOp.Resp (Except Status Reply))} {i : Nat} {key : Key}
    {body : Value} {obj : DynamicObject} (hsmall : ∀ key, s₀.version key < 2 ^ 32)
    (hrun : Run Cluster.Answer (started s₀ calls) tr c)
    (hstep : Step Cluster.Answer c ⟨i, .patch key body, .ok obj⟩ c')
    (hnot : overtaken i key tr = false) : c.1.version key < c'.1.version key := by
  have hinv := RaceInv.of_run hsmall hrun
  obtain ⟨cur, v, hknown, hv, hlt⟩ := hrun.pre_of_step (started_safe s₀ calls) hstep
  cases hstep with
  | call _ hans =>
    cases hans with
    | patched hbody =>
      rw [hinv.known i key cur hknown hnot, Cluster.version_patched (hbody.trans hv)]
      exact hlt

end Calls

/-! ### Two calls -/

def notFound : KubeError := ⟨some 404, "not found"⟩

/-- An apply reads the config, and patches it when the new version is above the one it read. -/
theorem handleApply_reads [JsonSchema] [SerdeYaml] {yaml : String} {spec : ConfigSpec}
    (hyaml : SerdeYaml.fromStr yaml = .ok spec) (key : Key) :
    ∃ k, (handleApply ∅ ⟨key, yaml⟩ none).run = .call (.get key) k ∧
      (0 < spec.schemaVersion →
        ∃ k', k (.error notFound) = .call (.patch key (patchBody key spec none)) k') ∧
      ∀ obj, parseSchemaVersionFromObject obj < spec.schemaVersion →
        ∃ k', k (.ok obj) = .call (.patch key (patchBody key spec none)) k' := by
  have happly : handleApply ∅ ⟨key, yaml⟩ none = applySpec key spec none := by
    unfold handleApply applyInner
    rw [hyaml]
    rfl
  have hgate : ∀ c, c < spec.schemaVersion → ∃ k', (do
      liftM (schemaVersionDecision spec.schemaVersion c)
      let resourceVersion ← patchWithRetry key (patchBody key spec none)
      return { resourceVersion } : KubeM ApplyResponse).run =
        .call (.patch key (patchBody key spec none)) k' := by
    intro c hlt
    obtain ⟨k', hk'⟩ := patchWithRetry_run key (patchBody key spec none)
    rw [schemaVersionDecision_ok.mpr hlt]
    show ∃ k', (patchWithRetry key (patchBody key spec none)).run.bind _ = .call _ k'
    rw [hk']
    exact ⟨_, rfl⟩
  rw [happly]
  exact ⟨_, rfl, fun hpos => hgate 0 hpos, fun obj hlt => hgate _ hlt⟩

/-- An apply of a config that does not exist reads it, and then patches it. -/
theorem handleApply_new [JsonSchema] [SerdeYaml] {yaml : String} {spec : ConfigSpec}
    (hyaml : SerdeYaml.fromStr yaml = .ok spec) (hpos : 0 < spec.schemaVersion) (key : Key) :
    ∃ k, (handleApply ∅ ⟨key, yaml⟩ none).run = .call (.get key) k ∧
      ∃ k', k (.error notFound) = .call (.patch key (patchBody key spec none)) k' := by
  obtain ⟨k, hk, hnew, _⟩ := handleApply_reads hyaml key
  exact ⟨k, hk, hnew hpos⟩

section TwoCalls

local instance noSchemas : JsonSchema where
  Validator := Unit
  draft7New _ := .error "not used"
  iterErrors _ _ := []

/-- Two documents with a version and no content. -/
local instance twoDocuments : SerdeYaml where
  fromStr
    | "schema_version: 5" => .ok { schemaVersion := 5, content := defaultContent }
    | "schema_version: 3" => .ok { schemaVersion := 3, content := defaultContent }
    | _ => .error "not used"

local instance noText : SerdeJson where
  fromStr _ := .error "not used"
  fromValueError _ := "not used"

def limitsKey : Key := ⟨"trading", "limits"⟩

/-- An `Apply` of a version of `trading/limits`. -/
def applyLimits (yaml : String) : Call := .apply ∅ ⟨limitsKey, yaml⟩ none

/-- The object a forced patch leaves behind. -/
def stored (spec : ConfigSpec) : DynamicObject :=
  { metadata := { name := some "limits", ns := some "trading" }, data := patchBody limitsKey spec none }

theorem version_empty (key : Key) : Cluster.version (fun _ => none) key < 2 ^ 32 := by
  show 0 < 2 ^ 32
  decide

/-- An `Apply` to a config with a lower version or none reads, and then patches. -/
theorem apply_start (yaml : String) {spec : ConfigSpec} (hyaml : SerdeYaml.fromStr yaml = .ok spec) (key : Key) :
    ∃ k, (Call.apply ∅ ⟨key, yaml⟩ none).start = .call (.get key) k ∧
      (0 < spec.schemaVersion →
        ∃ k', k (.error notFound) = .call (.patch key (patchBody key spec none)) k') ∧
      ∀ obj, parseSchemaVersionFromObject obj < spec.schemaVersion →
        ∃ k', k (.ok obj) = .call (.patch key (patchBody key spec none)) k' := by
  obtain ⟨l, hl, hnew, hnewer⟩ := handleApply_reads hyaml key
  show ∃ k, (handleApply ∅ ⟨key, yaml⟩ none).run.bind _ = .call _ k ∧ _
  rw [hl]
  refine ⟨_, rfl, fun hpos => ?_, fun obj hlt => ?_⟩
  · obtain ⟨l', hl'⟩ := hnew hpos
    show ∃ k', (l (.error notFound)).bind _ = .call _ k'
    rw [hl']
    exact ⟨_, rfl⟩
  · obtain ⟨l', hl'⟩ := hnewer obj hlt
    show ∃ k', (l (.ok obj)).bind _ = .call _ k'
    rw [hl']
    exact ⟨_, rfl⟩

theorem applyLimits_start (yaml : String) {spec : ConfigSpec}
    (hyaml : SerdeYaml.fromStr yaml = .ok spec) (hpos : 0 < spec.schemaVersion) :
    ∃ k, (applyLimits yaml).start = .call (.get limitsKey) k ∧
      ∃ k', k (.error notFound) = .call (.patch limitsKey (patchBody limitsKey spec none)) k' := by
  obtain ⟨k, hk, hnew, _⟩ := apply_start yaml hyaml limitsKey
  exact ⟨k, hk, hnew hpos⟩

def rulesKey : Key := ⟨"trading", "rules"⟩

def storedRules (spec : ConfigSpec) : DynamicObject :=
  { metadata := { name := some "rules", ns := some "trading" }, data := patchBody rulesKey spec none }

/-- Version `3` of `trading/limits`. -/
def versionThree : Cluster := Function.update (fun _ => none) limitsKey (some (stored ⟨3, defaultContent⟩))

theorem versionThree_fits (key : Key) : versionThree.version key < 2 ^ 32 := by
  by_cases hk : key = limitsKey
  · rw [hk]
    exact lt_of_eq_of_lt (Cluster.version_patched (v := 3) rfl) (by decide)
  · exact lt_of_eq_of_lt (Cluster.version_update_ne hk) (version_empty key)

/-- Two calls that interleave: both read, then `trading/rules` goes from version `0` to `5` and
`trading/limits` from `3` to `5`. -/
theorem write_increases_two : ∃ tr c c' c'', Run Cluster.Answer (started versionThree
      [applyLimits "schema_version: 5", .apply ∅ ⟨rulesKey, "schema_version: 5"⟩ none]) tr c ∧
    Step Cluster.Answer c ⟨1, .patch rulesKey (patchBody rulesKey ⟨5, defaultContent⟩ none),
      .ok (storedRules ⟨5, defaultContent⟩)⟩ c' ∧
    Step Cluster.Answer c' ⟨0, .patch limitsKey (patchBody limitsKey ⟨5, defaultContent⟩ none),
      .ok (stored ⟨5, defaultContent⟩)⟩ c'' ∧
    c.1.version rulesKey < c'.1.version rulesKey ∧ c'.1.version limitsKey < c''.1.version limitsKey := by
  let obj := stored ⟨3, defaultContent⟩
  let obj' := stored ⟨5, defaultContent⟩
  let rules := storedRules ⟨5, defaultContent⟩
  obtain ⟨k, hk, _, hk'⟩ := apply_start "schema_version: 5" rfl limitsKey
  obtain ⟨k', hk'⟩ := hk' obj (by decide +kernel)
  obtain ⟨l, hl, hl', _⟩ := apply_start "schema_version: 5" rfl rulesKey
  obtain ⟨l', hl'⟩ := hl' (by decide)
  have h1 : Step Cluster.Answer (started versionThree
      [applyLimits "schema_version: 5", .apply ∅ ⟨rulesKey, "schema_version: 5"⟩ none])
      ⟨0, .get limitsKey, .ok obj⟩
      (versionThree, [k (.ok obj), (Call.apply ∅ ⟨rulesKey, "schema_version: 5"⟩ none).start]) :=
    .call (k := k) (by simp [applyLimits, hk]) (.getFound (Function.update_self ..))
  have h2 : Step Cluster.Answer
      (versionThree, [k (.ok obj), (Call.apply ∅ ⟨rulesKey, "schema_version: 5"⟩ none).start])
      ⟨1, .get rulesKey, .error notFound⟩ (versionThree, [k (.ok obj), l (.error notFound)]) :=
    .call (k := l) (by simp [hl]) (.getMissing (Function.update_of_ne (by decide) ..) rfl)
  have h3 : Step Cluster.Answer (versionThree, [k (.ok obj), l (.error notFound)])
      ⟨1, .patch rulesKey (patchBody rulesKey ⟨5, defaultContent⟩ none), .ok rules⟩
      (Function.update versionThree rulesKey (some rules), [k (.ok obj), l' (.ok rules)]) :=
    .call (k := l') (by simp [hl']) (.patched rfl)
  have h4 : Step Cluster.Answer
      (Function.update versionThree rulesKey (some rules), [k (.ok obj), l' (.ok rules)])
      ⟨0, .patch limitsKey (patchBody limitsKey ⟨5, defaultContent⟩ none), .ok obj'⟩
      (Function.update _ limitsKey (some obj'), _) :=
    .call (k := k') (by simp [hk']) (.patched rfl)
  have hrun := (Run.nil.snoc h1).snoc h2
  exact ⟨_, _, _, _, hrun, h3, h4, write_increases versionThree_fits hrun h3 (by decide +kernel),
    write_increases versionThree_fits (hrun.snoc h3) h4 (by decide +kernel)⟩

/-- **A write can go back**: both calls read that the config does not exist, the
one with version `5` patches first and the one with version `3` second. -/
theorem writes_can_go_back :
    ¬ ∀ (s₀ : Cluster) (calls : List Call) tr c c' i key body obj,
      (∀ key, s₀.version key < 2 ^ 32) → Run Cluster.Answer (started s₀ calls) tr c →
      Step Cluster.Answer c ⟨i, .patch key body, .ok obj⟩ c' →
      c.1.version key < c'.1.version key := by
  intro h
  obtain ⟨k, hk, k', hk'⟩ := applyLimits_start "schema_version: 5" rfl (by decide)
  obtain ⟨l, hl, l', hl'⟩ := applyLimits_start "schema_version: 3" rfl (by decide)
  have h1 : Step Cluster.Answer (started (fun _ => none)
      [applyLimits "schema_version: 5", applyLimits "schema_version: 3"])
      ⟨0, .get limitsKey, .error notFound⟩
      ((fun _ => none), [k (.error notFound), (applyLimits "schema_version: 3").start]) :=
    .call (k := k) (by simp [hk]) (.getMissing rfl rfl)
  have h2 : Step Cluster.Answer
      ((fun _ => none), [k (.error notFound), (applyLimits "schema_version: 3").start])
      ⟨1, .get limitsKey, .error notFound⟩
      ((fun _ => none), [k (.error notFound), l (.error notFound)]) :=
    .call (k := l) (by simp [hl]) (.getMissing rfl rfl)
  have h3 : Step Cluster.Answer ((fun _ => none), [k (.error notFound), l (.error notFound)])
      ⟨0, .patch limitsKey (patchBody limitsKey ⟨5, defaultContent⟩ none),
        .ok (stored ⟨5, defaultContent⟩)⟩
      (Function.update (fun _ => none) limitsKey (some (stored ⟨5, defaultContent⟩)),
        [k' (.ok (stored ⟨5, defaultContent⟩)), l (.error notFound)]) :=
    .call (k := k') (by simp [hk']) (.patched rfl)
  have h4 : Step Cluster.Answer
      (Function.update (fun _ => none) limitsKey (some (stored ⟨5, defaultContent⟩)),
        [k' (.ok (stored ⟨5, defaultContent⟩)), l (.error notFound)])
      ⟨1, .patch limitsKey (patchBody limitsKey ⟨3, defaultContent⟩ none),
        .ok (stored ⟨3, defaultContent⟩)⟩
      (Function.update _ limitsKey (some (stored ⟨3, defaultContent⟩)), _) :=
    .call (k := l') (by simp [hl']) (.patched rfl)
  have hbad := h _ _ _ _ _ _ _ _ _ version_empty
    (Run.snoc (Run.snoc (Run.snoc Run.nil h1) h2) h3) h4
  rw [Cluster.version_patched rfl, Cluster.version_patched rfl] at hbad
  revert hbad
  decide

end TwoCalls

end Konfig
