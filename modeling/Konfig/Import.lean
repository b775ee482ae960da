import Konfig.Exchanges

/-!
# Importing a ConfigMap

`import.rs` and the coercion of `value_parse.rs`: `konfig-cli` reads a ConfigMap and writes
its data as a `Config` with one forced server-side apply.  The version is taken from the
data, or is `1`; the stored `Config` is not read.

Parsing and printing a floating-point number is the standard library's work; `FloatText` is
its interface.
-/

namespace Konfig

open Lib Proc

/-- `s.parse::<f64>()`, and `json!` of the number: `null` where it is not finite. -/
class FloatText where
  parseF64 : String → Option Value

/-- `str::parse::<i64>`: an optional sign, then at least one digit, in range. -/
def parseI64 (s : String) : Option Int :=
  match s.toList with
  | [] => none
  | ['+'] => none
  | ['-'] => none
  | '-' :: cs => ((parseDigits cs 0).filter (· ≤ 2 ^ 63)).map fun n => -(n : Int)
  | '+' :: cs => ((parseDigits cs 0).filter (· < 2 ^ 63)).map fun n => (n : Int)
  | cs => ((parseDigits cs 0).filter (· < 2 ^ 63)).map fun n => (n : Int)

/-- `Value::from` an `i64`. -/
def Value.ofI64 (n : Int) : Value :=
  if n < 0 then .number (.negInt n) else .number (.posInt (UInt64.ofNat n.toNat))

/-- `str::parse::<bool>`. -/
def parseBool : String → Option Bool
  | "true" => some true
  | "false" => some false
  | _ => none

/-- `scalar_value`: the first of integer, float and boolean that parses, or the string. -/
def scalarValue [FloatText] (s : String) : Value :=
  ((((parseI64 s).map Value.ofI64).or (FloatText.parseF64 s)).or ((parseBool s).map Value.bool)).getD
    (.string s)

/-! ### The import -/

/-- What the import reads of a ConfigMap. -/
structure ConfigMap where
  data : Option StringMap

structure ImportResult where
  resourceVersion : String

def DEFAULT_SCHEMA_VERSION : UInt32 := 1

def parseSchemaVersionFromData (data : StringMap) : UInt32 :=
  ((data.lookup "schema_version").bind parseU32).getD DEFAULT_SCHEMA_VERSION

def contentFromData [FloatText] (data : StringMap) : List (String × Value) :=
  (data.filter fun e => e.1 != "schema_version").map fun e => (e.1, scalarValue e.2)

def buildImportPatchBody (ns targetName : String) (schemaVersion : UInt32)
    (content : List (String × Value)) : Value :=
  .object [("apiVersion", .string "konfig.io/v1"), ("kind", .string "Config"),
    ("metadata", .object [("name", .string targetName), ("namespace", .string ns)]),
    ("spec", .object [("schema_version", .ofU32 schemaVersion), ("content", .object content)])]

/-- The document is that of an `Apply` without a trace context. -/
theorem buildImportPatchBody_eq (ns targetName : String) (schemaVersion : UInt32)
    (content : List (String × Value)) : buildImportPatchBody ns targetName schemaVersion content =
      patchBody ⟨ns, targetName⟩ ⟨schemaVersion, .object content⟩ none := rfl

/-- The requests of the import. -/
inductive ImportOp
  | getConfigMap (key : Key)
  | kube (o : KubeOp)

abbrev ImportOp.Resp : ImportOp → Type
  | .getConfigMap _ => Except KubeError ConfigMap
  | .kube o => o.Resp

/-- An import in progress: its errors are those of the API client. -/
abbrev ImportM := ExceptT KubeError (Proc ImportOp ImportOp.Resp)

def ImportM.op (o : ImportOp) : ImportM o.Resp := ExceptT.lift (Proc.op o)

abbrev ImportTrace := List ((o : ImportOp) × o.Resp)

def importConfigmap [FloatText] (ns configmapName targetName : String) : ImportM ImportResult := do
  let found ← ImportM.op (.getConfigMap ⟨ns, configmapName⟩)
  let cm ← (liftM found : ImportM ConfigMap)
  let data := cm.data.getD []
  let schemaVersion := parseSchemaVersionFromData data
  let content := contentFromData data
  let patched ← ImportM.op (.kube (.patch ⟨ns, targetName⟩
    (buildImportPatchBody ns targetName schemaVersion content)))
  let obj ← (liftM (patched : Except KubeError DynamicObject) : ImportM DynamicObject)
  return { resourceVersion := obj.metadata.resourceVersion.getD "" }

/-- The document an import of this ConfigMap writes. -/
def ConfigMap.document [FloatText] (cm : ConfigMap) (ns targetName : String) : Value :=
  buildImportPatchBody ns targetName (parseSchemaVersionFromData (cm.data.getD []))
    (contentFromData (cm.data.getD []))

theorem ConfigMap.versionField_document [FloatText] (cm : ConfigMap) (ns targetName : String) :
    versionField (cm.document ns targetName) =
      some (.ofU32 (parseSchemaVersionFromData (cm.data.getD []))) := rfl

/-- **What an import does**: it reads the ConfigMap, and writes its document once. -/
theorem importConfigmap_ends [FloatText] {ns configmapName targetName : String} {tr : ImportTrace}
    {r : Except KubeError ImportResult} (h : Ends (importConfigmap ns configmapName targetName) tr r) :
    (∃ e, tr = [⟨.getConfigMap ⟨ns, configmapName⟩, .error e⟩] ∧ r = .error e) ∨
      ∃ (cm : ConfigMap) (a : Except KubeError DynamicObject),
        tr = [⟨.getConfigMap ⟨ns, configmapName⟩, .ok cm⟩,
          ⟨.kube (.patch ⟨ns, targetName⟩ (cm.document ns targetName)), a⟩] ∧
        r = a.map fun obj => ⟨obj.metadata.resourceVersion.getD ""⟩ := by
  unfold importConfigmap ImportM.op at h
  rw [ends_op_bind] at h
  obtain ⟨found, tr', rfl, h⟩ := h
  rw [ends_liftExcept_bind] at h
  rcases h with ⟨e, rfl, rfl, rfl⟩ | ⟨cm, rfl, h⟩
  · exact .inl ⟨e, rfl, rfl⟩
  · rw [ends_op_bind] at h
    obtain ⟨a, tr'', rfl, h⟩ := h
    refine .inr ⟨cm, a, ?_⟩
    rw [ends_liftExcept_bind] at h
    rcases h with ⟨e, he, rfl, rfl⟩ | ⟨obj, hobj, h⟩
    · have ha : a = .error e := he
      subst ha
      exact ⟨rfl, rfl⟩
    · obtain ⟨rfl, rfl⟩ := ends_pure.mp h
      have ha : a = .ok obj := hobj
      subst ha
      exact ⟨rfl, rfl⟩

end Konfig
