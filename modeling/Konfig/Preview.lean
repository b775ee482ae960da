import Konfig.Exchanges

/-!
# DryRunApply as a prediction of Apply

Both handlers parse the document, read the stored object once and compare versions.
`Apply` also checks the content against the registered schema; `DryRunApply` is not given
the registry.  `dryRun_predicts_iff` says exactly when the preview is right all the same:
the document does not parse, or its version does not increase, or no registered schema
rejects its content.
-/

namespace Konfig

open Lib Proc

/-- `spec.content` of a document. -/
def contentField (data : Value) : Option Value := (data.get "spec").bind (·.get "content")

theorem contentField_patchBody (key : Key) (spec : ConfigSpec) (tp : Option String) :
    contentField (patchBody key spec tp) = some spec.content := rfl

section Predictions

variable [JsonSchema] [SerdeYaml]

/-- `DryRunApply` against the stored configs succeeds with this answer. -/
def Cluster.Previews (s : Cluster) (req : ApplyRequest) (resp : DryRunApplyResponse) : Prop :=
  ∃ tr s', Ends (handleDryRunApply req) tr (.ok resp) ∧ Answered Cluster.Serves s tr s'

/-- `Apply` of the same request passes its gates: it goes on to write `body`. -/
def Cluster.WouldWrite (s : Cluster) (table : SchemaTable) (req : ApplyRequest) (tp : Option String)
    (body : Value) : Prop :=
  ∃ tr r s', Ends (handleApply table req tp) tr r ∧ Answered Cluster.Serves s tr s' ∧
    ∃ a, ⟨.patch req.key body, a⟩ ∈ tr

/-- The answer names the content and the version of the document. -/
def DryRunApplyResponse.Proposes (resp : DryRunApplyResponse) (body : Value) : Prop :=
  (contentField body).map Value.render = some resp.proposedContentJson ∧
    versionField body = some (.ofU32 resp.proposedSchemaVersion)

/-- **The preview is right**: it succeeds if and only if `Apply` writes, and what it proposes
is what `Apply` writes. -/
structure Cluster.Predicts (s : Cluster) (table : SchemaTable) (req : ApplyRequest)
    (tp : Option String) : Prop where
  agree : (∃ resp, s.Previews req resp) ↔ ∃ body, s.WouldWrite table req tp body
  proposes : ∀ resp body, s.Previews req resp → s.WouldWrite table req tp body → resp.Proposes body

/-! ### What each handler decides -/

omit [JsonSchema] [SerdeYaml] in
theorem dryRunResponse_ok {current : Option DynamicObject} {spec : ConfigSpec}
    {resp : DryRunApplyResponse} (h : dryRunResponse current spec = .ok resp) :
    (current.map parseSchemaVersionFromObject).getD 0 < spec.schemaVersion ∧
      resp.proposedContentJson = spec.content.render ∧
      resp.proposedSchemaVersion = spec.schemaVersion := by
  unfold dryRunResponse at h
  dsimp only at h
  cases hdec : schemaVersionDecision spec.schemaVersion
      ((current.map parseSchemaVersionFromObject).getD 0) with
  | error e =>
    rw [hdec] at h
    cases h
  | ok u =>
    rw [hdec] at h
    cases h
    exact ⟨schemaVersionDecision_ok.mp hdec, rfl, rfl⟩

omit [JsonSchema] [SerdeYaml] in
theorem dryRunResponse_of_lt {current : Option DynamicObject} {spec : ConfigSpec}
    (h : (current.map parseSchemaVersionFromObject).getD 0 < spec.schemaVersion) :
    ∃ resp, dryRunResponse current spec = .ok resp := by
  unfold dryRunResponse
  dsimp only
  rw [schemaVersionDecision_ok.mpr h]
  exact ⟨_, rfl⟩

omit [JsonSchema] in
/-- Against a server that answers, the outcome of a dry run is that of the comparison with
the stored object. -/
theorem dryRun_outcome {s s' : Cluster} {req : ApplyRequest} {tr : KubeTrace}
    {r : Except Status DryRunApplyResponse} {spec : ConfigSpec}
    (hspec : SerdeYaml.fromStr req.yamlContent = .ok spec) (h : Ends (handleDryRunApply req) tr r)
    (hs : Answered Cluster.Serves s tr s') : r = dryRunResponse (s req.key) spec := by
  rcases handleDryRunApply_ends h with ⟨_, _, hno⟩ | ⟨spec', a, hspec', rfl, hr⟩
  · exact absurd hspec (hno spec)
  · rw [hspec] at hspec'
    cases hspec'
    obtain ⟨m, hread, _⟩ := answered_cons.mp hs
    cases hread with
    | found hobj =>
      rcases hr with ⟨obj, ha, rfl⟩ | ⟨e, ha, _⟩ | ⟨e, _, ha, _⟩
      · cases ha
        rw [hobj]
      · cases ha
      · cases ha
    | missing hnone hcode =>
      rcases hr with ⟨obj, ha, _⟩ | ⟨e, ha, _, rfl⟩ | ⟨e, _, ha, hne, _⟩
      · cases ha
      · rw [hnone]
      · cases ha
        exact absurd hcode hne

omit [JsonSchema] in
theorem Cluster.previews_iff {s : Cluster} {req : ApplyRequest} {resp : DryRunApplyResponse} :
    s.Previews req resp ↔ ∃ spec, SerdeYaml.fromStr req.yamlContent = .ok spec ∧
      dryRunResponse (s req.key) spec = .ok resp := by
  constructor
  · rintro ⟨tr, s', h, hs⟩
    rcases handleDryRunApply_ends h with ⟨_, ⟨st, hst⟩, _⟩ | ⟨spec, a, hspec, _, _⟩
    · cases hst
    · exact ⟨spec, hspec, (dryRun_outcome hspec h hs).symm⟩
  · rintro ⟨spec, hspec, hresp⟩
    obtain ⟨tr, r, s', h, hs⟩ := ends_total Cluster.serves_total (handleDryRunApply req).run s
    refine ⟨tr, s', ?_, hs⟩
    rwa [dryRun_outcome hspec h hs, hresp] at h

/-- A served write passes every gate, and writes the document. -/
theorem Cluster.wouldWrite_iff {s : Cluster} {table : SchemaTable} {req : ApplyRequest}
    {tp : Option String} {body : Value} :
    s.WouldWrite table req tp body ↔ ∃ spec, SerdeYaml.fromStr req.yamlContent = .ok spec ∧
      table.validate req.key.ns req.key.name spec.content = .ok () ∧
      s.readVersion req.key < spec.schemaVersion ∧ body = patchBody req.key spec tp := by
  constructor
  · rintro ⟨tr, r, s', h, hs, a, ha⟩
    rcases handleApply_ends h with ⟨rfl, _⟩ | ⟨spec, hspec, hvalid, h⟩
    · cases ha
    obtain ⟨b, tr', rfl, hcase⟩ := applySpec_ends h
    obtain ⟨m, hread, hs⟩ := answered_cons.mp hs
    obtain ⟨rfl, hb⟩ := hread.read
    rcases hcase with ⟨rfl, _, _⟩ | ⟨c, hc, hlt, hpatch⟩
    · simp at ha
    rw [hb] at hc
    cases hc
    refine ⟨spec, hspec, validateAgainstSchema_ok.mp hvalid, hlt, ?_⟩
    rcases hpatch with ⟨errs, obj, rfl, _⟩ | ⟨errs, _, _, rfl, _⟩
    · rcases List.mem_cons.mp ha with ha | ha
      · cases ha
      rcases List.mem_append.mp ha with ha | ha
      · obtain ⟨_, _, he⟩ := List.mem_map.mp ha
        cases he
        rfl
      · cases List.mem_singleton.mp ha
        rfl
    · rcases List.mem_cons.mp ha with ha | ha
      · cases ha
      obtain ⟨_, _, he⟩ := List.mem_map.mp ha
      cases he
      rfl
  · rintro ⟨spec, hspec, hvalid, hlt, rfl⟩
    obtain ⟨tr, r, s', h, hs⟩ := ends_total Cluster.serves_total (handleApply table req tp).run s
    refine ⟨tr, r, s', h, hs, ?_⟩
    rcases handleApply_ends h with ⟨_, _, hno⟩ | ⟨spec', hspec', _, h⟩
    · exact absurd (validateAgainstSchema_ok.mpr hvalid) (hno spec hspec)
    rw [hspec] at hspec'
    cases hspec'
    obtain ⟨b, tr', rfl, hcase⟩ := applySpec_ends h
    obtain ⟨m, hread, hrest⟩ := answered_cons.mp hs
    obtain ⟨rfl, hb⟩ := hread.read
    rcases hcase with ⟨_, _, hle⟩ | ⟨c, _, _, ⟨errs, obj, rfl, _⟩ | ⟨errs, _, hne, rfl, _⟩⟩
    · exact absurd hlt (UInt32.not_lt.mpr (hle _ hb))
    · exact ⟨.ok obj, by simp [accepted]⟩
    · rw [← List.append_nil (refusals _ _ _)] at hrest
      exact absurd (refusals_served hrest) hne

/-! ### The prediction -/

/-- **When the preview is right**: exactly when no registered schema rejects content that
the two other gates let through. -/
theorem dryRun_predicts_iff (s : Cluster) (table : SchemaTable) (req : ApplyRequest)
    (tp : Option String) :
    s.Predicts table req tp ↔ ∀ spec, SerdeYaml.fromStr req.yamlContent = .ok spec →
      s.readVersion req.key < spec.schemaVersion →
      table.validate req.key.ns req.key.name spec.content = .ok () := by
  refine ⟨fun h spec hspec hlt => ?_, fun h => ?_⟩
  · obtain ⟨resp, hresp⟩ := dryRunResponse_of_lt hlt
    obtain ⟨body, hbody⟩ := h.agree.mp ⟨resp, Cluster.previews_iff.mpr ⟨spec, hspec, hresp⟩⟩
    obtain ⟨spec', hspec', hvalid, _, _⟩ := Cluster.wouldWrite_iff.mp hbody
    rw [hspec] at hspec'
    cases hspec'
    exact hvalid
  · refine ⟨⟨?_, ?_⟩, ?_⟩
    · rintro ⟨resp, hresp⟩
      obtain ⟨spec, hspec, hdry⟩ := Cluster.previews_iff.mp hresp
      have hlt : s.readVersion req.key < spec.schemaVersion := (dryRunResponse_ok hdry).1
      exact ⟨_, Cluster.wouldWrite_iff.mpr ⟨spec, hspec, h spec hspec hlt, hlt, rfl⟩⟩
    · rintro ⟨body, hbody⟩
      obtain ⟨spec, hspec, _, hlt, _⟩ := Cluster.wouldWrite_iff.mp hbody
      obtain ⟨resp, hresp⟩ := dryRunResponse_of_lt hlt
      exact ⟨resp, Cluster.previews_iff.mpr ⟨spec, hspec, hresp⟩⟩
    · intro resp body hresp hbody
      obtain ⟨spec, hspec, hdry⟩ := Cluster.previews_iff.mp hresp
      obtain ⟨spec', hspec', _, _, rfl⟩ := Cluster.wouldWrite_iff.mp hbody
      rw [hspec] at hspec'
      cases hspec'
      obtain ⟨_, hcontent, hversion⟩ := dryRunResponse_ok hdry
      constructor
      · rw [contentField_patchBody, hcontent]
        rfl
      · rw [versionField_patchBody, hversion]

end Predictions

/-! ### A schema that rejects -/

section Rejected

local instance rejectingSchemas : JsonSchema := boolSchemas

local instance previewDocuments : SerdeYaml := twoDocuments

/-- The schema `false` is registered for `trading/limits`. -/
def closedTable : SchemaTable :=
  SchemaTable.publish [{ key := (limitsKey.ns, limitsKey.name), schema := ⟨false⟩ }]

theorem closedTable_rejects (content : Value) :
    closedTable.validate limitsKey.ns limitsKey.name content ≠ .ok () := by
  have hlookup : closedTable.lookup (limitsKey.ns, limitsKey.name) = some ⟨false⟩ :=
    AList.lookup_insert _
  unfold SchemaTable.validate
  rw [hlookup]
  intro h
  cases h

/-- **A preview that is wrong**: `Apply` rejects the content, `DryRunApply` does not. -/
theorem dryRun_mispredicts :
    ¬ ∀ (s : Cluster) (table : SchemaTable) (req : ApplyRequest) (tp : Option String),
      s.Predicts table req tp := by
  intro h
  have hlt : ((none : Option DynamicObject).map parseSchemaVersionFromObject).getD 0 <
      (ConfigSpec.mk 5 defaultContent).schemaVersion := by decide
  obtain ⟨resp, hresp⟩ := dryRunResponse_of_lt hlt
  obtain ⟨body, hbody⟩ := (h (fun _ => none) closedTable ⟨limitsKey, "schema_version: 5"⟩ none).agree.mp
    ⟨resp, Cluster.previews_iff.mpr ⟨⟨5, defaultContent⟩, rfl, hresp⟩⟩
  obtain ⟨spec, _, hvalid, _, _⟩ := Cluster.wouldWrite_iff.mp hbody
  exact closedTable_rejects _ hvalid

end Rejected

end Konfig
