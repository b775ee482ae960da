import Konfig.Kube

/-!
# Configs

`types.rs`, the proto `Config` and `ConfigEvent`, and the two conversions every
read path shares: `parseConfigObject` (`watcher.rs`), from a CRD object to the
snapshot that is cached, and `snapshotToProto` (`grpc/mod.rs`), from a snapshot
to the message that is served.

Instants are milliseconds on one monotonic clock; a function that reads the
clock takes the reading `now` as an argument.  `content_json_cache` only
memoises `contentJson` and is left out.
-/

namespace Konfig

/-- A reading of the monotonic clock, in milliseconds. -/
abbrev Instant := Nat

/-- The `spec` of a `Config` CRD. -/
structure ConfigSpec where
  schemaVersion : UInt32
  content : Value

/-- `default_content`. -/
def defaultContent : Value := .object []

/-- `serde_json::from_value::<ConfigSpec>`. -/
def ConfigSpec.fromValue (v : Value) : Option ConfigSpec := do
  guard (v.isStruct 2)
  let schemaVersion ← (v.field 0 "schema_version").bind Value.decodeU32
  let content ← v.fieldOr 1 "content" defaultContent some
  return { schemaVersion, content }

/-- `serde_json::to_value(&spec)`. -/
def ConfigSpec.toValue (spec : ConfigSpec) : Value :=
  .object [("schema_version", .ofU32 spec.schemaVersion), ("content", spec.content)]

/-- `ConfigSnapshot`, the entry of the config cache. -/
structure ConfigSnapshot where
  name : String
  ns : String
  schemaVersion : UInt32
  content : Value
  resourceVersion : String
  loadedAt : Instant
  staleSince : Option Instant := none
  labels : StringMap := []

/-- `ConfigSnapshot::from_spec`. -/
def ConfigSnapshot.fromSpec (name ns : String) (spec : ConfigSpec) (resourceVersion : String)
    (now : Instant) : ConfigSnapshot :=
  { name, ns, schemaVersion := spec.schemaVersion, content := spec.content, resourceVersion,
    loadedAt := now }

/-- `ConfigSnapshot::content_json`. -/
def ConfigSnapshot.contentJson (snap : ConfigSnapshot) : String := snap.content.render

/-- `CacheEntry::set_stale`. -/
def ConfigSnapshot.setStale (snap : ConfigSnapshot) (now : Instant) : ConfigSnapshot :=
  { snap with staleSince := some now }

/-- The proto message `Config`. -/
structure Config where
  ns : String
  name : String
  schemaVersion : UInt32
  contentJson : String
  resourceVersion : String
  ageMs : Int
  staleSinceMs : Int

/-- `ConfigEvent.EventType`. -/
inductive EventType
  | added
  | modified
  | deleted
  | snapshot
  deriving DecidableEq, Repr

/-- The proto message `ConfigEvent`. -/
structure ConfigEvent where
  eventType : EventType
  config : Option Config

/-- `snapshot_to_proto`. -/
def snapshotToProto (now : Instant) (snap : ConfigSnapshot) : Config :=
  { ns := snap.ns
    name := snap.name
    schemaVersion := snap.schemaVersion
    contentJson := snap.contentJson
    resourceVersion := snap.resourceVersion
    ageMs := ((now - snap.loadedAt : Nat) : Int)
    staleSinceMs := (snap.staleSince.map fun t => ((now - t : Nat) : Int)).getD (-1) }

/-- `parse_config_object`. -/
def parseConfigObject (now : Instant) (obj : DynamicObject) : Option ConfigSnapshot := do
  let resourceVersion := obj.metadata.resourceVersion.getD ""
  let name := obj.metadata.name.getD ""
  let ns := obj.metadata.ns.getD ""
  let specValue ← obj.data.get "spec"
  let spec ← ConfigSpec.fromValue specValue
  let snap := ConfigSnapshot.fromSpec name ns spec resourceVersion now
  return { snap with labels := obj.metadata.labels.getD [] }

@[simp] theorem snapshotToProto_name (now : Instant) (snap : ConfigSnapshot) :
    (snapshotToProto now snap).name = snap.name := rfl

@[simp] theorem snapshotToProto_resourceVersion (now : Instant) (snap : ConfigSnapshot) :
    (snapshotToProto now snap).resourceVersion = snap.resourceVersion := rfl

end Konfig
