import Konfig.Import

/-!
# The ConfigMap watcher

`configmap_watcher.rs` serves a ConfigMap without importing it: `parse_configmap` is the
snapshot it caches.  The import of `import.rs` writes a `Config`, and what is served then is
that object read by `parse_config_object`.

* `import_reads_as_watched`: where the two agree.
-/

namespace Konfig

open Lib Proc

/-- `serde_yaml::from_str::<Value>`, with the `Display` text of its error. -/
class YamlValue where
  fromStr : String → Except String Value

/-- A ConfigMap as the watcher gets it. -/
structure WatchedConfigMap extends ConfigMap where
  metadata : ObjectMeta

section

variable [FloatText]

/-- The flat branch of `parse_configmap`: all keys but the version. -/
def flatContent : StringMap → List (String × Value)
  | [] => []
  | (k, v) :: data => if k = "schema_version" then flatContent data else (k, scalarValue v) :: flatContent data

/-- The flat branch reads a data map as the import does. -/
theorem flatContent_eq (data : StringMap) : flatContent data = contentFromData data := by
  induction data with
  | nil => rfl
  | cons e data ih =>
    obtain ⟨k, v⟩ := e
    rw [flatContent, ih]
    by_cases hk : k = "schema_version"
    · simp [contentFromData, hk]
    · simp [contentFromData, hk]

/-- `parse_configmap`. -/
def parseConfigmap [YamlValue] (now : Instant) (cm : WatchedConfigMap) (ns : String) :
    Option ConfigSnapshot := do
  let resourceVersion := cm.metadata.resourceVersion.getD ""
  let name := cm.metadata.name.getD ""
  let data ← cm.data
  let schemaVersion := ((data.lookup "schema_version").bind parseU32).getD 0
  let content := match data.lookup "content" with
    | some text =>
      match YamlValue.fromStr text with
      | .ok v => v
      | .error _ => .object []
    | none => .object (flatContent data)
  return { name, ns, schemaVersion, content, resourceVersion, loadedAt := now }

/-- What it makes of a data map. -/
theorem parseConfigmap_of_data [YamlValue] (now : Instant) (ns : String) {cm : WatchedConfigMap} {data : StringMap}
    (hdata : cm.data = some data) : ∃ watched, parseConfigmap now cm ns = some watched ∧
      watched.schemaVersion = ((data.lookup "schema_version").bind parseU32).getD 0 ∧
      (data.lookup "content" = none → watched.content = .object (flatContent data)) := by
  refine ⟨_, by rw [parseConfigmap, hdata]; rfl, rfl, fun hflat => ?_⟩
  rw [hflat]

/-! ### The object an import writes -/

omit [FloatText] in
@[simp] theorem decodeU32_ofU32 (n : UInt32) : (Value.ofU32 n).decodeU32 = some n := by
  have hlt : n.toNat < 2 ^ 32 := n.toNat_lt
  simpa [Value.decodeU32, Value.ofU32] using hlt

omit [FloatText] in
/-- The written document is read back as what was written. -/
theorem parseConfigObject_import (now : Instant) (md : ObjectMeta) (ns targetName : String)
    (schemaVersion : UInt32) (content : List (String × Value)) :
    ∃ snap, parseConfigObject now ⟨md, buildImportPatchBody ns targetName schemaVersion content⟩ = some snap ∧
      snap.schemaVersion = schemaVersion ∧ snap.content = .object content := by
  have hspec : ConfigSpec.fromValue
      (.object [("schema_version", .ofU32 schemaVersion), ("content", .object content)]) =
        some ⟨schemaVersion, .object content⟩ := by
    have hversion : (Value.object [("schema_version", .ofU32 schemaVersion), ("content", .object content)]).field 0
        "schema_version" = some (.ofU32 schemaVersion) := rfl
    have hcontent : (Value.object [("schema_version", .ofU32 schemaVersion), ("content", .object content)]).field 1
        "content" = some (.object content) := rfl
    rw [ConfigSpec.fromValue, hversion, Value.fieldOr, hcontent, Option.bind_some, decodeU32_ofU32]
    rfl
  refine ⟨{ ConfigSnapshot.fromSpec (md.name.getD "") (md.ns.getD "") ⟨schemaVersion, .object content⟩
    (md.resourceVersion.getD "") now with labels := md.labels.getD [] }, ?_, rfl, rfl⟩
  have hget : (buildImportPatchBody ns targetName schemaVersion content).get "spec" =
    some (.object [("schema_version", .ofU32 schemaVersion), ("content", .object content)]) := rfl
  simp [parseConfigObject, hget, hspec]

/-! ### Both -/

/-- What an import does that reads the ConfigMap. -/
theorem importConfigmap_ends_of (ns configmapName targetName : String) (cm : ConfigMap)
    (a : Except KubeError DynamicObject) : Ends (importConfigmap ns configmapName targetName)
      [⟨.getConfigMap ⟨ns, configmapName⟩, .ok cm⟩,
        ⟨.kube (.patch ⟨ns, targetName⟩ (cm.document ns targetName)), a⟩]
      (a.map fun obj => ⟨obj.metadata.resourceVersion.getD ""⟩) := by
  unfold importConfigmap ImportM.op
  refine ends_op_bind.mpr ⟨.ok cm, _, rfl, ends_liftExcept_bind.mpr (.inr ⟨cm, rfl, ?_⟩)⟩
  refine ends_op_bind.mpr ⟨a, _, rfl, ends_liftExcept_bind.mpr ?_⟩
  cases a with
  | error e => exact .inl ⟨e, rfl, rfl, rfl⟩
  | ok obj => exact .inr ⟨obj, rfl, ends_pure.mpr ⟨rfl, rfl⟩⟩

/-- What an import wrote is the document of what it read. -/
theorem body_of_import {ns configmapName targetName : String} {tr : ImportTrace}
    {r : Except KubeError ImportResult} (h : Ends (importConfigmap ns configmapName targetName) tr r)
    {cm : ConfigMap} (hread : ⟨.getConfigMap ⟨ns, configmapName⟩, .ok cm⟩ ∈ tr) {key : Key} {body : Value}
    {a : Except KubeError DynamicObject} (hwrite : ⟨.kube (.patch key body), a⟩ ∈ tr) :
    body = cm.document ns targetName := by
  rcases importConfigmap_ends h with ⟨e, rfl, -⟩ | ⟨cm', a', rfl, -⟩
  · simp at hwrite
  · simp only [List.mem_cons, Sigma.mk.injEq, List.not_mem_nil, or_false, reduceCtorEq, false_and,
      ImportOp.kube.injEq, KubeOp.patch.injEq, false_or] at hwrite hread
    obtain ⟨-, hcm⟩ := hread
    cases Except.ok.inj (eq_of_heq hcm)
    exact hwrite.1.2

/-- **What an import makes of a ConfigMap that the watcher serves.**  A version that parses stays; where
there is none, the watcher serves `0` and the import writes `1`.  Without a `content` key the content
stays as well. -/
theorem import_reads_as_watched [YamlValue] {ns configmapName targetName : String} {tr : ImportTrace}
    {r : Except KubeError ImportResult} (h : Ends (importConfigmap ns configmapName targetName) tr r)
    {cm : WatchedConfigMap} {data : StringMap} (hdata : cm.data = some data)
    (hread : ⟨.getConfigMap ⟨ns, configmapName⟩, .ok cm.toConfigMap⟩ ∈ tr) {key : Key} {body : Value}
    {a : Except KubeError DynamicObject} (hwrite : ⟨.kube (.patch key body), a⟩ ∈ tr)
    (now now' : Instant) (md : ObjectMeta) :
    ∃ watched imported, parseConfigmap now cm ns = some watched ∧
      parseConfigObject now' ⟨md, body⟩ = some imported ∧
      (data.lookup "content" = none → imported.content = watched.content) ∧
      (∀ v, (data.lookup "schema_version").bind parseU32 = some v →
        imported.schemaVersion = v ∧ watched.schemaVersion = v) ∧
      ((data.lookup "schema_version").bind parseU32 = none →
        imported.schemaVersion = 1 ∧ watched.schemaVersion = 0) := by
  have hbody := body_of_import h hread hwrite
  rw [ConfigMap.document, hdata, Option.getD_some] at hbody
  obtain ⟨imported, himported, hversion, hcontent⟩ := parseConfigObject_import now' md ns targetName
    (parseSchemaVersionFromData data) (contentFromData data)
  rw [← hbody] at himported
  obtain ⟨watched, hwatched, hserved, hflat⟩ := parseConfigmap_of_data now ns hdata
  refine ⟨watched, imported, hwatched, himported, fun hnone => ?_, fun v hv => ?_, fun hnone => ?_⟩
  · rw [hcontent, hflat hnone, flatContent_eq]
  · rw [hversion, hserved, parseSchemaVersionFromData, hv]
    exact ⟨rfl, rfl⟩
  · rw [hversion, hserved, parseSchemaVersionFromData, hnone]
    exact ⟨rfl, rfl⟩

end

/-! ### A ConfigMap -/

local instance noDecimals : FloatText where
  parseF64 _ := none

local instance noYaml : YamlValue where
  fromStr _ := .error "invalid type"

/-- A ConfigMap with a version or without. -/
def limitsConfigMap (version : Option String) : WatchedConfigMap where
  metadata := { name := some "limits" }
  data := some ((version.toList.map fun v => ("schema_version", v)) ++ [("rate_limit", "100")])

theorem import_reads_as_watched_limits :
    ∃ watched imported, parseConfigmap 0 (limitsConfigMap (some "2")) "trading" = some watched ∧
      parseConfigObject 0 ⟨{}, (limitsConfigMap (some "2")).document "trading" "limits"⟩ = some imported ∧
      ((([("schema_version", "2"), ("rate_limit", "100")] : StringMap).lookup "content") = none →
        imported.content = watched.content) ∧
      (∀ v, (([("schema_version", "2"), ("rate_limit", "100")] : StringMap).lookup "schema_version").bind
          parseU32 = some v → imported.schemaVersion = v ∧ watched.schemaVersion = v) ∧
      ((([("schema_version", "2"), ("rate_limit", "100")] : StringMap).lookup "schema_version").bind
          parseU32 = none → imported.schemaVersion = 1 ∧ watched.schemaVersion = 0) :=
  import_reads_as_watched
    (importConfigmap_ends_of "trading" "limits" "limits" (limitsConfigMap (some "2")).toConfigMap
      (.ok ⟨{}, .null⟩)) rfl (by simp) (List.mem_cons_of_mem _ List.mem_cons_self) 0 0 {}

/-- Without a version the import does not keep what the watcher served. -/
theorem import_changes_version : ¬ ∀ (_ : FloatText) (_ : YamlValue) (ns targetName : String) (md : ObjectMeta)
    (now : Instant) (cm : WatchedConfigMap) (watched imported : ConfigSnapshot),
    parseConfigmap now cm ns = some watched →
    parseConfigObject now ⟨md, cm.toConfigMap.document ns targetName⟩ = some imported →
    imported.schemaVersion = watched.schemaVersion ∧ imported.content = watched.content := by
  intro h
  obtain ⟨imported, himported, hversion, -⟩ := parseConfigObject_import 0 {} "trading" "limits" 1
    [("rate_limit", scalarValue "100")]
  have hsame := (h noDecimals noYaml "trading" "limits" {} 0 (limitsConfigMap none) _ imported rfl himported).1
  rw [hversion] at hsame
  exact absurd hsame (by decide)

end Konfig
