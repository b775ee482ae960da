import Konfig.Types
import Konfig.Lib.Base64

/-!
# Secrets

The managed Kubernetes `Secret`, the snapshot konfig caches of it, and the
messages it serves: `parseSecret` (`secret_watcher.rs`) and `parseSecretObject`
(`grpc/subscribe_secrets.rs`) on the way in, `secretSnapshotToProto`
(`grpc/secret_get.rs`) on the way out.

A `HashMap` is the list of its entries in the order it is iterated.
`data_json_cache` only memoises `dataJson` and is left out.
-/

namespace Konfig

open Lib

def MANAGED_LABEL : String := "konfig.io/managed"

def SCHEMA_VERSION_ANNOTATION : String := "konfig.io/schema-version"

/-- `k8s_openapi::ByteString`. -/
abbrev ByteString := List UInt8

/-- How `ByteString` is written in JSON. -/
def ByteString.toWire (bytes : ByteString) : String := Base64.encode bytes

/-- How `ByteString` is read from JSON. -/
def ByteString.ofWire (text : String) : Option ByteString := Base64.decode text

/-- `k8s_openapi::api::core::v1::Secret`. -/
structure Secret where
  metadata : ObjectMeta
  data : Option (List (String × ByteString))

/-- `SecretSnapshot`, the entry of the secret cache.  The values of `data` are the
bytes of base64 text. -/
structure SecretSnapshot where
  name : String
  ns : String
  schemaVersion : UInt32
  data : List (String × List UInt8)
  resourceVersion : String
  loadedAt : Instant
  staleSince : Option Instant := none

/-- The text of one value: `std::str::from_utf8`, and `""` where it fails. -/
def secretText (bytes : List UInt8) : String := (fromUtf8 bytes).getD ""

/-- `SecretSnapshot::data_json`. -/
def SecretSnapshot.dataJson (snap : SecretSnapshot) : String :=
  (Value.object (snap.data.map fun e => (e.1, .string (secretText e.2)))).render

/-- `CacheEntry::set_stale`. -/
def SecretSnapshot.setStale (snap : SecretSnapshot) (now : Instant) : SecretSnapshot :=
  { snap with staleSince := some now }

/-- The proto message `SecretResponse`. -/
structure SecretResponse where
  ns : String
  name : String
  schemaVersion : UInt32
  dataJson : String
  resourceVersion : String
  ageMs : Int
  staleSinceMs : Int
  deriving DecidableEq

/-- The proto message `SecretEvent`; its `EventType` is that of `ConfigEvent`. -/
structure SecretEvent where
  eventType : EventType
  secret : Option SecretResponse
  deriving DecidableEq

/-- `secret_snapshot_to_proto`. -/
def secretSnapshotToProto (now : Instant) (snap : SecretSnapshot) : SecretResponse :=
  { ns := snap.ns
    name := snap.name
    schemaVersion := snap.schemaVersion
    dataJson := snap.dataJson
    resourceVersion := snap.resourceVersion
    ageMs := ((now - snap.loadedAt : Nat) : Int)
    staleSinceMs := (snap.staleSince.map fun t => ((now - t : Nat) : Int)).getD (-1) }

/-- The annotation `konfig.io/schema-version`, `0` when missing or not a number. -/
def parseSecretSchemaVersion (secret : Secret) : UInt32 :=
  ((secret.metadata.annotations.bind (·.lookup SCHEMA_VERSION_ANNOTATION)).bind parseU32).getD 0

/-- The values of a watched secret, encoded again. -/
def reencode (data : Option (List (String × ByteString))) : List (String × List UInt8) :=
  (data.map fun d => d.map fun e => (e.1, utf8 (Base64.encode e.2))).getD []

/-- `parse_secret`. -/
def parseSecret (now : Instant) (secret : Secret) (ns : String) : Option SecretSnapshot :=
  some {
    name := secret.metadata.name.getD ""
    ns
    schemaVersion := parseSecretSchemaVersion secret
    data := reencode secret.data
    resourceVersion := secret.metadata.resourceVersion.getD ""
    loadedAt := now }

/-- The label `konfig.io/managed` is `true`. -/
def isManaged (secret : Secret) : Bool :=
  (secret.metadata.labels.bind (·.lookup MANAGED_LABEL)).any (· == "true")

/-- `parse_secret_object`. -/
def parseSecretObject (now : Instant) (secret : Secret) (ns : String) : Option SecretSnapshot :=
  if isManaged secret then parseSecret now secret ns else none

theorem parseSecret_of_object {now : Instant} {secret : Secret} {ns : String} {snap : SecretSnapshot}
    (h : parseSecretObject now secret ns = some snap) : parseSecret now secret ns = some snap := by
  unfold parseSecretObject at h
  split at h
  · exact h
  · cases h

/-! ### What is served for a key -/

/-- The value a client finds under a key of `data_json`. -/
def SecretResponse.value [SerdeJson] (resp : SecretResponse) (key : String) : Option String :=
  match SerdeJson.fromStr resp.dataJson with
  | .ok v => (v.get key).bind Value.decodeString
  | .error _ => none

/-- `serde_json` reads back the `data_json` it wrote for `snap`. -/
def ReadsBack [SerdeJson] (snap : SecretSnapshot) : Prop :=
  SerdeJson.fromStr snap.dataJson =
    .ok (.object (snap.data.map fun e => (e.1, .string (secretText e.2))))

theorem lookup_map_snd {α β γ : Type} [BEq α] (f : β → γ) (l : List (α × β)) (k : α) :
    (l.map fun e => (e.1, f e.2)).lookup k = (l.lookup k).map f := by
  induction l with
  | nil => rfl
  | cons e l ih =>
    obtain ⟨a, b⟩ := e
    simp only [List.map_cons, List.lookup_cons]
    cases k == a with
    | true => rfl
    | false => exact ih

theorem secretText_utf8 (s : String) : secretText (utf8 s) = s := by
  rw [secretText, fromUtf8_utf8, Option.getD_some]

/-- **A served value is the base64 text of the stored bytes.** -/
theorem value_of_parse [SerdeJson] {loaded : Instant} {secret : Secret} {ns : String}
    {snap : SecretSnapshot} (hp : parseSecret loaded secret ns = some snap) (hr : ReadsBack snap)
    (now : Instant) (key : String) :
    (secretSnapshotToProto now snap).value key =
      ((secret.data.getD []).lookup key).map Base64.encode := by
  have hdata : snap.data = (secret.data.getD []).map fun e => (e.1, utf8 (Base64.encode e.2)) := by
    rw [parseSecret, Option.some.injEq] at hp
    rw [← hp]
    cases secret.data <;> rfl
  have hjson : SerdeJson.fromStr (secretSnapshotToProto now snap).dataJson = _ := hr
  rw [SecretResponse.value, hjson]
  simp only [Value.get]
  rw [lookup_map_snd (fun b => Value.string (secretText b)), hdata,
    lookup_map_snd (fun b => utf8 (Base64.encode b))]
  cases (secret.data.getD []).lookup key with
  | none => rfl
  | some bytes => simp [Value.decodeString, secretText_utf8]

end Konfig
