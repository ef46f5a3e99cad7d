import PtySpec.Lib.Deferred
import PtySpec.Metadata.Json

/-!
# Undecoded JSON

The grammar of a JSON text with its tokens not yet decoded, as a borrowed `RawValue` has it,
and what `serde_json` reads from it as a `Value`: the last value of each key, every string
and number decoded, at most 127 containers inside each other.
-/

namespace PtySpec.Metadata

open Lib

/-- A decoded token: `null`, a Boolean, a number or a string. -/
inductive Scalar where
  | null
  | bool (b : Bool)
  | integer (n : Int)
  | float (bits : UInt64)
  | string (s : String)
  deriving DecidableEq, Repr

/-- The value that a token stands for. -/
def Scalar.json : Scalar → Json
  | .null => .null
  | .bool b => .bool b
  | .integer n => .integer n
  | .float bits => .float bits
  | .string s => .string s

/-- `serde_json::value::RawValue`: a value of the grammar. A token decodes to nothing when it
is a number out of range or a string with a lone surrogate; so does such a key. -/
inductive Raw where
  | scalar (token : Option Scalar)
  | array (elements : List Raw)
  | object (entries : List (Option String × Raw))

namespace Raw

/-- One container further in; `serde_json` stops before its recursion limit of 128. -/
def deeper (depth : Nat) : Option Nat := if depth + 1 < 128 then some (depth + 1) else none

mutual
/-- `Value` from a text, inside as many containers. -/
def value (depth : Nat) : Raw → Option Json
  | .scalar token => token.map Scalar.json
  | .array elements =>
    match deeper depth with
    | none => none
    | some depth => (values depth elements).map .array
  | .object entries =>
    match deeper depth with
    | none => none
    | some depth => (members depth [] entries).map .object
/-- The values of an array. -/
def values (depth : Nat) : List Raw → Option (List Json)
  | [] => some []
  | raw :: elements => (raw.value depth).bind fun v ↦ (values depth elements).map (v :: ·)
/-- The values of an object, each inserted as it is read. -/
def members (depth : Nat) (map : JsonMap) : List (Option String × Raw) → Option JsonMap
  | [] => some map
  | (key, raw) :: entries =>
    match key with
    | none => none
    | some key => (raw.value depth).bind fun v ↦ members depth (map.insert key v) entries
end

end Raw
end PtySpec.Metadata
