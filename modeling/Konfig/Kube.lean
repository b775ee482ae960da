import Konfig.Json
import Konfig.Text

/-!
# Kubernetes objects and gRPC status

The parts of `kube` and `tonic` that konfig's handlers and watchers exchange:
dynamic objects, API errors, and the status an RPC fails with.
-/

namespace Konfig

/-- Labels and annotations: a `BTreeMap<String, String>`. -/
abbrev StringMap := List (String × String)

/-- The fields of `ObjectMeta` that konfig reads. -/
structure ObjectMeta where
  name : Option String := none
  ns : Option String := none
  resourceVersion : Option String := none
  labels : Option StringMap := none
  annotations : Option StringMap := none

/-- `kube::core::DynamicObject`: typed metadata, untyped rest. -/
structure DynamicObject where
  metadata : ObjectMeta
  data : Value

/-- `kube::Error`: an API error carries its HTTP code; `display` is its
`Display` text. -/
structure KubeError where
  code : Option Nat
  display : String

/-- `api_status_code`. -/
def apiStatusCode (err : KubeError) : Option Nat := err.code

/-- The gRPC codes konfig answers with. -/
inductive Code
  | invalidArgument
  | notFound
  | failedPrecondition
  | aborted
  | internal
  | unavailable
  | dataLoss
  | resourceExhausted
  | permissionDenied
  deriving DecidableEq, Repr

/-- `tonic::Status`. -/
structure Status where
  code : Code
  message : String
  deriving DecidableEq, Repr

/-- How a stream ends whose channel was full. -/
def subscriberTooSlow : Status := ⟨.resourceExhausted, "subscriber too slow"⟩

/-- How a stream ends whose receiver lagged behind the broadcast. -/
def subscriberLagged : Status := ⟨.resourceExhausted, "subscriber lagged"⟩

/-- The `(namespace, name)` of a namespaced object. -/
structure Key where
  ns : String
  name : String
  deriving DecidableEq, Repr

end Konfig
