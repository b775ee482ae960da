import Konfig.Apply

/-!
# Revert

`grpc/revert.rs`: a list at an exact revision, a read of the current version,
and the shared `applySpec` with a version above both.
-/

namespace Konfig

open Lib

variable [SerdeJson]

def parseHistoricalObj (obj : DynamicObject) : Except Status ConfigSpec :=
  match obj.data.get "spec" with
  | none => .error ⟨.dataLoss, "historical object missing spec"⟩
  | some specValue =>
    match ConfigSpec.fromValue specValue with
    | some spec => .ok spec
    | none => .error ⟨.dataLoss, "invalid historical spec: " ++ SerdeJson.fromValueError specValue⟩

def mapListError (err : KubeError) (name resourceVersion : String) : Status :=
  match apiStatusCode err with
  | some 410 => ⟨.failedPrecondition, "resource_version " ++ resourceVersion ++
      " is no longer available (etcd compaction); K8s only retains history within the compaction window"⟩
  | some 404 => ⟨.notFound, "Config " ++ name ++ " not found at resource_version=" ++ resourceVersion⟩
  | _ => ⟨.unavailable, "kube list error: " ++ err.display⟩

def fetchHistoricalSpec (key : Key) (resourceVersion : String) : KubeM ConfigSpec := do
  match ← KubeM.op (.list key.ns key.name resourceVersion) with
  | .error e => throw (mapListError e key.name resourceVersion)
  | .ok items =>
    match items.find? fun o => o.metadata.name == some key.name with
    | none => throw ⟨.notFound, "Config " ++ key.name ++ " not found at resource_version=" ++
        resourceVersion⟩
    | some obj => liftM (parseHistoricalObj obj)

/-- `u32::saturating_add(1)`. -/
def saturatingSucc (n : UInt32) : UInt32 := if n.toNat + 1 < 2 ^ 32 then n + 1 else n

structure RevertRequest where
  key : Key
  toResourceVersion : String

structure RevertResponse where
  resourceVersion : String
  schemaVersion : UInt32

def handleRevert (req : RevertRequest) (traceparent : Option String) : KubeM RevertResponse := do
  if req.toResourceVersion = "" then
    throw ⟨.invalidArgument, "to_resource_version must not be empty"⟩
  else
    let historical ← fetchHistoricalSpec req.key req.toResourceVersion
    let current ← fetchCurrentSchemaVersion req.key
    let newVersion := saturatingSucc (max current historical.schemaVersion)
    let resp ← applySpec req.key { schemaVersion := newVersion, content := historical.content } traceparent
    return { resourceVersion := resp.resourceVersion, schemaVersion := newVersion }

end Konfig
