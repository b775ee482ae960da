import Mathlib.Algebra.Ring.Nat
import Mathlib.Data.List.Basic

/-!
# JSON values

`serde_json::Value` and what konfig uses of it: field access (`get`), the
integer view (`asU64`), the compact printer behind `serde_json::to_string`
(`render`), and the decoding steps that serde's derived `Deserialize` performs
(`field`, `decodeU32`, `decodeList`, ...).

A derived struct is decoded from an object by field name or from an array by
field position; unknown fields are ignored; a field marked `default` may be
missing, but a field that is present must decode.  The parser from text is not
in this repository: `SerdeJson` is its interface.
-/

namespace Konfig

/-- `serde_json::Number`: a `u64`, a negative `i64`, or a float (kept as text). -/
inductive Number
  | posInt (n : UInt64)
  | negInt (n : Int)
  | float (text : String)
  deriving DecidableEq, Repr

/-- `serde_json::Value`.  An object's keys are unique. -/
inductive Value
  | null
  | bool (b : Bool)
  | number (n : Number)
  | string (s : String)
  | array (xs : List Value)
  | object (fields : List (String × Value))
  deriving Repr, Inhabited

namespace Value

/-- `Value::get` with a string index. -/
def get (v : Value) (key : String) : Option Value :=
  match v with
  | .object fields => fields.lookup key
  | _ => none

/-- `Value::as_u64`. -/
def asU64 : Value → Option UInt64
  | .number (.posInt n) => some n
  | _ => none

/-- `json!(n)` for an unsigned integer. -/
def ofU32 (n : UInt32) : Value := .number (.posInt n.toUInt64)

@[simp] theorem asU64_ofU32 (n : UInt32) : (ofU32 n).asU64 = some n.toUInt64 := rfl

/-! ### Printing -/

/-- The two hexadecimal digits of a control character. -/
def hexByte (n : Nat) : String := String.ofList [Nat.digitChar (n / 16), Nat.digitChar (n % 16)]

/-- How `serde_json` writes one character of a string. -/
def escapeChar (c : Char) : String :=
  match c with
  | '"' => "\\\""
  | '\\' => "\\\\"
  | '\n' => "\\n"
  | '\r' => "\\r"
  | '\t' => "\\t"
  | c =>
    if c.toNat = 8 then "\\b"
    else if c.toNat = 12 then "\\f"
    else if c.toNat < 32 then "\\u00" ++ hexByte c.toNat
    else String.ofList [c]

/-- A quoted JSON string. -/
def renderString (s : String) : String :=
  "\"" ++ String.join (s.toList.map escapeChar) ++ "\""

def renderNumber : Number → String
  | .posInt n => toString n.toNat
  | .negInt n => toString n
  | .float text => text

mutual

/-- `serde_json::to_string`. -/
def render : Value → String
  | .null => "null"
  | .bool true => "true"
  | .bool false => "false"
  | .number n => renderNumber n
  | .string s => renderString s
  | .array xs => "[" ++ ",".intercalate (renderItems xs) ++ "]"
  | .object fields => "\x7b" ++ ",".intercalate (renderFields fields) ++ "\x7d"

def renderItems : List Value → List String
  | [] => []
  | v :: vs => render v :: renderItems vs

def renderFields : List (String × Value) → List String
  | [] => []
  | (k, v) :: fs => (renderString k ++ ":" ++ render v) :: renderFields fs

end

/-! ### Decoding -/

/-- The shapes a derived struct with `n` fields is decoded from. -/
def isStruct (n : Nat) : Value → Bool
  | .object _ => true
  | .array xs => xs.length ≤ n
  | _ => false

/-- Field `name`, the `i`-th of a derived struct. -/
def field (v : Value) (i : Nat) (name : String) : Option Value :=
  match v with
  | .object fields => fields.lookup name
  | .array xs => xs[i]?
  | _ => none

/-- A field marked `#[serde(default)]`: the default when missing, an error when
present and wrong. -/
def fieldOr {α : Type} (v : Value) (i : Nat) (name : String) (dflt : α)
    (decode : Value → Option α) : Option α :=
  match v.field i name with
  | none => some dflt
  | some x => decode x

def decodeString : Value → Option String
  | .string s => some s
  | _ => none

def decodeU32 : Value → Option UInt32
  | .number (.posInt n) => if n.toNat < 2 ^ 32 then some n.toUInt32 else none
  | _ => none

def decodeU64 : Value → Option UInt64
  | .number (.posInt n) => some n
  | _ => none

def decodeList {α : Type} (decode : Value → Option α) : Value → Option (List α)
  | .array xs => xs.mapM decode
  | _ => none

end Value

/-- `serde_json`'s text side: `from_str`, and the message of a failed
`from_value`. -/
class SerdeJson where
  fromStr : String → Except String Value
  fromValueError : Value → String

end Konfig
