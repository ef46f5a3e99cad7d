import PtySpec.Operation.Record
import PtySpec.Metadata.Json

/-!
# The envelope of a launch operation

Model of `crates/pty-core/src/operation/envelope.rs`: strict JSON, and the owner's declaration
read from one line. What serde reads from a text comes as a tree of what is written there, its
strings unescaped and the keys of an object as they are repeated; the tree says where the text
is not JSON.
-/

namespace PtySpec.Operation

open Lib
open Metadata (Json JsonMap)

/-- `ENVELOPE_MAX_BYTES`, `envelope.rs:13`. -/
def ENVELOPE_MAX_BYTES : Nat := 32 * 1024

/-- `STRING_MAX_BYTES`, `envelope.rs:15`. -/
def STRING_MAX_BYTES : Nat := 256

/-- `BINDING_STRING_MAX_BYTES`, `envelope.rs:17`. -/
def BINDING_STRING_MAX_BYTES : Nat := 1024

/-- `BINDINGS_MAX`, `envelope.rs:19`. -/
def BINDINGS_MAX : Nat := 64

/-- `FIELDS`, `envelope.rs:22`. -/
def FIELDS : List String :=
  ["type", "version", "operationId", "owner", "origin", "subject", "runtimeId",
    "expectedIncarnation", "bindings"]

/-- `EnvelopeError`, `envelope.rs:63`. -/
structure EnvelopeError where
  path : String
  reason : String
  deriving DecidableEq, Repr

/-! ### Strict JSON -/

/-- The bits of a finite `f64`. -/
abbrev Finite : Type := { bits : UInt64 // bits &&& 0x7ff0000000000000 ≠ 0x7ff0000000000000 }

/-- What is written in a text, as a `serde_json::Deserializer` drives its visitor: the items of
an array or an object and whether it is ended, or that no value is written here. -/
inductive Node where
  | null
  | bool (b : Bool)
  | integer (n : Int)
  | float (f : Finite)
  | string (s : String)
  | array (items : List Node) (ended : Bool)
  | object (entries : List (String × Node)) (ended : Bool)
  | malformed

/-- A text as it is read: a value, and whether nothing follows it. -/
structure Reading where
  node : Node
  ended : Bool

/-- `StrictVisitor::child`, `envelope.rs:263`. -/
def child (path key : String) : String := if path = "" then key else path ++ "." ++ key

/-- `strict_error` for text that is not JSON, `envelope.rs:244`. -/
def malformedJson : EnvelopeError := ⟨"", "malformed-json"⟩

/-- `strict_error` for a key that is repeated: its path, up to the mark behind it. -/
def duplicateKey (path : String) : EnvelopeError :=
  ⟨String.ofList (path.toList.takeWhile (· ≠ '\x00')), "duplicate-key"⟩

mutual
/-- The visitor, `envelope.rs:272-350`. -/
def Node.visit (path : String) : Node → Except EnvelopeError Json
  | .null => .ok .null
  | .bool b => .ok (.bool b)
  | .integer n => .ok (.integer n)
  | .float f => .ok (.float f.val)
  | .string s => .ok (.string s)
  | .array items ended => (visitSeq path ended 0 items).map .array
  | .object entries ended => (visitMap path ended [] entries).map .object
  | .malformed => .error malformedJson
/-- `visit_seq`, `envelope.rs:321`. -/
def visitSeq (path : String) (ended : Bool) (index : Nat) :
    List Node → Except EnvelopeError (List Json)
  | [] => if ended then .ok [] else .error malformedJson
  | item :: items =>
    match item.visit (child path (toString index)) with
    | .error error => .error error
    | .ok v => (visitSeq path ended (index + 1) items).map (v :: ·)
/-- `visit_map`, `envelope.rs:333`. -/
def visitMap (path : String) (ended : Bool) (object : JsonMap) :
    List (String × Node) → Except EnvelopeError JsonMap
  | [] => if ended then .ok object else .error malformedJson
  | (key, node) :: entries =>
    if (object.get key).isSome then .error (duplicateKey (child path key))
    else
      match node.visit (child path key) with
      | .error error => .error error
      | .ok v => visitMap path ended (object.insert key v) entries
end

/-- `parse_strict_json`, `envelope.rs:227`. -/
def parseStrictJson (serde : String → Reading) (text : String) : Except EnvelopeError Json :=
  match (serde text).node.visit "" with
  | .error error => .error error
  | .ok value => if (serde text).ended then .ok value else .error malformedJson

namespace Node

mutual
/-- A tree that is JSON to its end. -/
def Whole : Node → Prop
  | .array items ended => ended = true ∧ WholeItems items
  | .object entries ended => ended = true ∧ WholeEntries entries
  | .malformed => False
  | _ => True
/-- Each item is. -/
def WholeItems : List Node → Prop
  | [] => True
  | item :: items => item.Whole ∧ WholeItems items
/-- The value of each entry is. -/
def WholeEntries : List (String × Node) → Prop
  | [] => True
  | (_, node) :: entries => node.Whole ∧ WholeEntries entries
end

mutual
/-- No object in a tree repeats a key. -/
def Distinct : Node → Prop
  | .array items _ => DistinctItems items
  | .object entries _ => (entries.map Prod.fst).Nodup ∧ DistinctEntries entries
  | _ => True
/-- In no item. -/
def DistinctItems : List Node → Prop
  | [] => True
  | item :: items => item.Distinct ∧ DistinctItems items
/-- In no value of an entry. -/
def DistinctEntries : List (String × Node) → Prop
  | [] => True
  | (_, node) :: entries => node.Distinct ∧ DistinctEntries entries
end

mutual
/-- The value that is written. -/
def value : Node → Json
  | .null => .null
  | .bool b => .bool b
  | .integer n => .integer n
  | .float f => .float f.val
  | .string s => .string s
  | .array items _ => .array (valueItems items)
  | .object entries _ => .object (valueEntries entries)
  | .malformed => .null
/-- The values of an array. -/
def valueItems : List Node → List Json
  | [] => []
  | item :: items => item.value :: valueItems items
/-- The fields of an object. -/
def valueEntries : List (String × Node) → JsonMap
  | [] => []
  | (key, node) :: entries => (key, node.value) :: valueEntries entries
end

private theorem insert_of_get_eq_none {m : JsonMap} {key : String} (h : m.get key = none)
    (v : Json) : m.insert key v = m ++ [(key, v)] := by
  induction m with
  | nil => rfl
  | cons p m ih =>
    rw [IndexMap.get_cons] at h
    by_cases hk : p.1 = key
    · rw [if_pos hk] at h
      cases h
    · rw [if_neg hk] at h
      rw [IndexMap.insert, if_neg hk, ih h]
      rfl

mutual
/-- The visitor accepts a tree exactly when it is JSON to its end and no object repeats a key,
and gives the value that is written. -/
theorem visit_eq_ok : (node : Node) → ∀ (path : String) (v : Json),
    node.visit path = .ok v ↔ node.Whole ∧ node.Distinct ∧ v = node.value
  | .null, _, _ | .bool _, _, _ | .integer _, _, _ | .float _, _, _ | .string _, _, _ => by
    simp [visit, Whole, Distinct, value, eq_comm]
  | .array items ended, path, v => by
    have h := visitSeq_eq_ok items path ended 0
    rw [visit, Whole, Distinct, value]
    constructor
    · intro hv
      cases hs : visitSeq path ended 0 items with
      | error e => rw [hs] at hv; cases hv
      | ok vs =>
        rw [hs] at hv
        obtain ⟨he, hw, hd, rfl⟩ := (h vs).mp hs
        exact ⟨⟨he, hw⟩, hd, (Except.ok.inj hv).symm⟩
    · rintro ⟨⟨he, hw⟩, hd, rfl⟩
      rw [(h _).mpr ⟨he, hw, hd, rfl⟩]
      rfl
  | .object entries ended, path, v => by
    have h := visitMap_eq_ok entries path ended []
    rw [visit, Whole, Distinct, value]
    constructor
    · intro hv
      cases hs : visitMap path ended [] entries with
      | error e => rw [hs] at hv; cases hv
      | ok m =>
        rw [hs] at hv
        obtain ⟨he, hw, hd, hn, -, rfl⟩ := (h m).mp hs
        exact ⟨⟨he, hw⟩, ⟨hn, hd⟩, (Except.ok.inj hv).symm⟩
    · rintro ⟨⟨he, hw⟩, ⟨hn, hd⟩, rfl⟩
      rw [(h _).mpr ⟨he, hw, hd, hn, fun _ _ ↦ rfl, rfl⟩]
      rfl
  | .malformed, _, _ => by simp [visit, Whole]
theorem visitSeq_eq_ok : (items : List Node) → ∀ (path : String) (ended : Bool) (index : Nat)
    (vs : List Json), visitSeq path ended index items = .ok vs ↔
      ended = true ∧ WholeItems items ∧ DistinctItems items ∧ vs = valueItems items
  | [], _, ended, _, _ => by
    rw [visitSeq]
    cases ended <;> simp [WholeItems, DistinctItems, valueItems, eq_comm]
  | item :: items, path, ended, index, vs => by
    have hi := visit_eq_ok item (child path (toString index))
    have hr := visitSeq_eq_ok items path ended (index + 1)
    rw [visitSeq, WholeItems, DistinctItems, valueItems]
    constructor
    · intro h
      split at h
      · cases h
      · next v hv =>
        obtain ⟨hw, hd, rfl⟩ := (hi v).mp hv
        cases hs : visitSeq path ended (index + 1) items with
        | error e => rw [hs] at h; cases h
        | ok vs' =>
          rw [hs] at h
          obtain ⟨he, hw', hd', rfl⟩ := (hr vs').mp hs
          exact ⟨he, ⟨hw, hw'⟩, ⟨hd, hd'⟩, (Except.ok.inj h).symm⟩
    · rintro ⟨he, ⟨hw, hw'⟩, ⟨hd, hd'⟩, rfl⟩
      rw [(hi _).mpr ⟨hw, hd, rfl⟩, (hr _).mpr ⟨he, hw', hd', rfl⟩]
      rfl
theorem visitMap_eq_ok : (entries : List (String × Node)) → ∀ (path : String) (ended : Bool)
    (m m' : JsonMap), visitMap path ended m entries = .ok m' ↔
      ended = true ∧ WholeEntries entries ∧ DistinctEntries entries ∧
        (entries.map Prod.fst).Nodup ∧ (∀ key ∈ entries.map Prod.fst, m.get key = none) ∧
        m' = m ++ valueEntries entries
  | [], _, ended, _, _ => by
    rw [visitMap]
    cases ended <;> simp [WholeEntries, DistinctEntries, valueEntries, eq_comm]
  | (key, node) :: entries, path, ended, m, m' => by
    have hi := visit_eq_ok node (child path key)
    have hr := fun v ↦ visitMap_eq_ok entries path ended (m.insert key v)
    have hget : ∀ v, m.get key = none → key ∉ entries.map Prod.fst →
        ((∀ k ∈ entries.map Prod.fst, (m.insert key v).get k = none) ↔
          ∀ k ∈ entries.map Prod.fst, m.get k = none) := by
      intro v _ hk
      refine forall₂_congr fun k hm ↦ ?_
      rw [IndexMap.get_insert, if_neg fun he : key = k ↦ hk (he ▸ hm)]
    rw [visitMap, WholeEntries, DistinctEntries, valueEntries, List.map_cons, List.nodup_cons,
      List.forall_mem_cons]
    constructor
    · intro h
      split at h
      · cases h
      next hk =>
      have hnone : m.get key = none := by simpa using hk
      split at h
      · cases h
      next v hv =>
      obtain ⟨hw, hd, rfl⟩ := (hi v).mp hv
      obtain ⟨he, hw', hd', hn, hall, rfl⟩ := (hr _ m').mp h
      have hfresh : key ∉ entries.map Prod.fst := by
        intro hm
        have := hall key hm
        rw [IndexMap.get_insert, if_pos rfl] at this
        cases this
      refine ⟨he, ⟨hw, hw'⟩, ⟨hd, hd'⟩, ⟨hfresh, hn⟩, ⟨hnone, (hget _ hnone hfresh).mp hall⟩, ?_⟩
      rw [insert_of_get_eq_none hnone, List.append_assoc]
      rfl
    · rintro ⟨he, ⟨hw, hw'⟩, ⟨hd, hd'⟩, ⟨hfresh, hn⟩, ⟨hnone, hall⟩, rfl⟩
      rw [hnone, (hi _).mpr ⟨hw, hd, rfl⟩]
      refine (hr _ _).mpr ⟨he, hw', hd', hn, (hget _ hnone hfresh).mpr hall, ?_⟩
      rw [insert_of_get_eq_none hnone, List.append_assoc]
      rfl
end

end Node

/-! ### The declaration -/

/-- A code point below 0x20, or DEL. -/
def isControl (c : Char) : Bool := c.val < 0x20 || c = '\x7f'

/-- `identifying_string`, `envelope.rs:176`. -/
def identifyingString (value : Json) : Except String String :=
  match value with
  | .string text =>
    if text = "" then .error "empty"
    else if STRING_MAX_BYTES < text.utf8ByteSize then .error "too-long"
    else if text.toList.any isControl then .error "control-character"
    else .ok text
  | _ => .error "not-string"

/-- `is_incarnation_id`, `envelope.rs:196`. -/
def isIncarnationId (text : String) : Bool :=
  let pid := text.toList.takeWhile (· ≠ ':')
  let createdAt := (text.toList.dropWhile (· ≠ ':')).drop 1
  text.toList.contains ':' && !pid.isEmpty && pid.all Char.isDigit && !createdAt.isEmpty

/-- `is_binding_key`, `envelope.rs:230`. -/
def isBindingKey (key : String) : Bool :=
  match key.toList with
  | [] => false
  | first :: rest =>
    key.utf8ByteSize ≤ 64 && first.isAlpha &&
      rest.all fun c ↦ c.isAlphanum || c = '_' || c = '.' || c = '-'

/-- `Value::as_u64`. -/
def asU64 (value : Json) : Option Nat :=
  match value with
  | .integer n => if 0 ≤ n ∧ n < 2 ^ 64 then some n.toNat else none
  | _ => none

/-- `Value::is_u64`. -/
def isU64 (value : Json) : Bool :=
  match value with
  | .integer n => 0 ≤ n && n < 2 ^ 64
  | _ => false

/-- The loop of `validate_bindings`, `envelope.rs:211-226`. -/
def validateBinding (key : String) (value : Json) : Except EnvelopeError Unit :=
  if !isBindingKey key then .error ⟨"bindings." ++ key, "invalid-key"⟩
  else
    match value with
    | .null => .ok ()
    | .string text =>
      if text.utf8ByteSize ≤ BINDING_STRING_MAX_BYTES then .ok ()
      else .error ⟨"bindings." ++ key, "too-long"⟩
    | value => if isU64 value then .ok () else .error ⟨"bindings." ++ key, "unsupported-value"⟩

/-- `validate_bindings`, `envelope.rs:203`. -/
def validateBindings (value : Json) : Except EnvelopeError Unit :=
  match value with
  | .object bindings =>
    if BINDINGS_MAX < bindings.length then .error ⟨"bindings", "too-many"⟩
    else bindings.forM fun b ↦ validateBinding b.1 b.2
  | _ => .error ⟨"bindings", "not-object"⟩

/-- `Envelope`, `envelope.rs:36`, as it is parsed. -/
structure ParsedEnvelope where
  line : List UInt8
  sha256 : String
  value : Json
  operationId : String
  owner : String
  origin : String
  subject : String
  runtimeId : String
  expectedIncarnation : Option String

/-- The closure `string` of `parse_envelope`, `envelope.rs:140`. -/
def stringField (object : JsonMap) (field : String) : Except EnvelopeError String :=
  match object.get field with
  | some value => (identifyingString value).mapError (⟨field, ·⟩)
  | none => .error ⟨field, "missing"⟩

/-- The prior target, `envelope.rs:149-164`. -/
def expectedField (object : JsonMap) : Except EnvelopeError (Option String) :=
  match object.get "expectedIncarnation" with
  | some .null => .ok none
  | some value =>
    match identifyingString value with
    | .error reason => .error ⟨"expectedIncarnation", reason⟩
    | .ok text =>
      if isIncarnationId text then .ok (some text)
      else .error ⟨"expectedIncarnation", "not-pid-colon-created-at"⟩
  | none => .error ⟨"expectedIncarnation", "missing"⟩

/-- The keys of the line, `envelope.rs:119-128`: none unknown, then none missing. -/
def checkKeys (object : JsonMap) : Except EnvelopeError Unit :=
  match object.keys.find? (· ∉ FIELDS) with
  | some key => .error ⟨key, "unknown-field"⟩
  | none =>
    match FIELDS.find? fun field ↦ (object.get field).isNone with
    | some field => .error ⟨field, "missing"⟩
    | none => .ok ()

/-- `type` and `version`, `envelope.rs:129-136`. -/
def checkKind (object : JsonMap) : Except EnvelopeError Unit :=
  if object.get "type" ≠ some (.string "envelope") then .error ⟨"type", "must-be-envelope"⟩
  else if (object.get "version").bind asU64 ≠ some 1 ∨ !(object.get "version").any isU64 then
    .error ⟨"version", "unsupported"⟩
  else .ok ()

/-- `bindings`, `envelope.rs:165`. -/
def bindingsField (object : JsonMap) : Except EnvelopeError Unit :=
  match object.get "bindings" with
  | some bindings => validateBindings bindings
  | none => .error ⟨"bindings", "missing"⟩

/-- `parse_envelope` after the line is known to be an object. -/
def readEnvelope (sha256Hex : List UInt8 → String) (line : List UInt8) (object : JsonMap) :
    Except EnvelopeError ParsedEnvelope := do
  checkKeys object
  checkKind object
  let operationId ← stringField object "operationId"
  let owner ← stringField object "owner"
  let origin ← stringField object "origin"
  let subject ← stringField object "subject"
  let runtimeId ← stringField object "runtimeId"
  let expectedIncarnation ← expectedField object
  bindingsField object
  return { line, sha256 := sha256Hex line, value := .object object, operationId, owner, origin,
           subject, runtimeId, expectedIncarnation }

/-- `parse_envelope`, `envelope.rs:111`. -/
def parseEnvelope (serde : String → Reading) (sha256Hex : List UInt8 → String)
    (line : List UInt8) : Except EnvelopeError ParsedEnvelope :=
  if ENVELOPE_MAX_BYTES < line.length then .error ⟨"", "too-large"⟩
  else
    match String.fromUTF8? line.toByteArray with
    | none => .error ⟨"", "not-utf8"⟩
    | some text =>
      match parseStrictJson serde text with
      | .error error => .error error
      | .ok (.object object) => readEnvelope sha256Hex line object
      | .ok _ => .error ⟨"", "not-object"⟩

/-! ### What is declared -/

/-- An `S`: not empty, short, without control characters. -/
structure Identifying (text : String) : Prop where
  nonempty : text ≠ ""
  short : text.utf8ByteSize ≤ STRING_MAX_BYTES
  printed : ∀ c ∈ text.toList, isControl c = false

/-- What a binding may be bound to. -/
def Node.Bindable : Node → Prop
  | .null => True
  | .string text => text.utf8ByteSize ≤ BINDING_STRING_MAX_BYTES
  | .integer n => 0 ≤ n ∧ n < 2 ^ 64
  | _ => False

/-- The fields of an object, in any order, are those of an envelope. -/
structure Declares (entries : List (String × Node)) (e : ParsedEnvelope) : Prop where
  fields : ∀ key, key ∈ entries.map Prod.fst ↔ key ∈ FIELDS
  type : ("type", .string "envelope") ∈ entries
  version : ("version", .integer 1) ∈ entries
  operationId : ("operationId", .string e.operationId) ∈ entries ∧ Identifying e.operationId
  owner : ("owner", .string e.owner) ∈ entries ∧ Identifying e.owner
  origin : ("origin", .string e.origin) ∈ entries ∧ Identifying e.origin
  subject : ("subject", .string e.subject) ∈ entries ∧ Identifying e.subject
  runtimeId : ("runtimeId", .string e.runtimeId) ∈ entries ∧ Identifying e.runtimeId
  expectedNone : e.expectedIncarnation = none → ("expectedIncarnation", .null) ∈ entries
  expectedSome : ∀ text, e.expectedIncarnation = some text →
    ("expectedIncarnation", .string text) ∈ entries ∧ Identifying text ∧
      isIncarnationId text = true
  bindings : ∃ bindings, ("bindings", .object bindings true) ∈ entries ∧
    bindings.length ≤ BINDINGS_MAX ∧
    ∀ b ∈ bindings, isBindingKey b.1 = true ∧ b.2.Bindable

namespace Node

theorem value_eq_string {node : Node} {s : String} :
    node.value = .string s ↔ node = .string s := by
  cases node <;> simp [value]

theorem value_eq_integer {node : Node} {n : Int} :
    node.value = .integer n ↔ node = .integer n := by
  cases node <;> simp [value]

theorem value_eq_object {node : Node} (h : node.Whole) {m : JsonMap} :
    node.value = .object m ↔ ∃ entries, node = .object entries true ∧ m = valueEntries entries := by
  cases node <;> simp_all [value, Whole, eq_comm]

theorem wholeEntries_iff {entries : List (String × Node)} :
    WholeEntries entries ↔ ∀ e ∈ entries, e.2.Whole := by
  induction entries with
  | nil => simp [WholeEntries]
  | cons e entries ih => rw [WholeEntries, ih, List.forall_mem_cons]

theorem valueEntries_eq_map (entries : List (String × Node)) :
    valueEntries entries = entries.map fun e ↦ (e.1, e.2.value) := by
  induction entries with
  | nil => rfl
  | cons e entries ih => rw [valueEntries, ih, List.map_cons]

theorem keys_valueEntries (entries : List (String × Node)) :
    (valueEntries entries).keys = entries.map Prod.fst := by
  rw [valueEntries_eq_map, IndexMap.keys, List.map_map]
  rfl

/-- The field of a key is what is written behind it. -/
theorem get_valueEntries {entries : List (String × Node)} (hn : (entries.map Prod.fst).Nodup)
    {key : String} {v : Json} :
    (valueEntries entries).get key = some v ↔ ∃ node, (key, node) ∈ entries ∧ node.value = v := by
  constructor
  · intro h
    have hm := IndexMap.mem_of_get h
    rw [valueEntries_eq_map, List.mem_map] at hm
    obtain ⟨⟨k, node⟩, he, hk⟩ := hm
    obtain ⟨rfl, rfl⟩ := Prod.mk.inj hk
    exact ⟨node, he, rfl⟩
  · rintro ⟨node, he, rfl⟩
    refine IndexMap.get_of_mem (p := (key, node.value)) (keys_valueEntries entries ▸ hn) ?_
    rw [valueEntries_eq_map]
    exact List.mem_map_of_mem (f := fun e : String × Node ↦ (e.1, e.2.value)) he

end Node

private theorem bind_eq_ok {ε α β : Type} {x : Except ε α} {f : α → Except ε β} {b : β} :
    (x >>= f) = .ok b ↔ ∃ a, x = .ok a ∧ f a = .ok b := by
  cases x with
  | error e => exact ⟨fun h ↦ (nomatch h), fun ⟨_, h, _⟩ ↦ (nomatch h)⟩
  | ok a => exact ⟨fun h ↦ ⟨a, rfl, h⟩, fun ⟨_, ha, h⟩ ↦ Except.ok.inj ha ▸ h⟩

theorem identifyingString_eq_ok {v : Json} {text : String} :
    identifyingString v = .ok text ↔ v = .string text ∧ Identifying text := by
  unfold identifyingString
  split
  · next s =>
    by_cases h₁ : s = ""
    · rw [if_pos h₁]
      refine ⟨fun h ↦ (by cases h), ?_⟩
      rintro ⟨hs, hi⟩
      exact absurd (Json.string.inj hs ▸ h₁) hi.nonempty
    rw [if_neg h₁]
    by_cases h₂ : STRING_MAX_BYTES < s.utf8ByteSize
    · rw [if_pos h₂]
      refine ⟨fun h ↦ (by cases h), ?_⟩
      rintro ⟨hs, hi⟩
      cases hs
      exact absurd hi.short (not_le.mpr h₂)
    rw [if_neg h₂]
    by_cases h₃ : s.toList.any isControl = true
    · rw [if_pos h₃]
      refine ⟨fun h ↦ (by cases h), ?_⟩
      rintro ⟨hs, hi⟩
      cases hs
      obtain ⟨c, hc, hx⟩ := List.any_eq_true.mp h₃
      exact absurd hx (by rw [hi.printed c hc]; decide)
    · rw [if_neg h₃]
      constructor
      · intro h
        cases h
        refine ⟨rfl, h₁, not_lt.mp h₂, fun c hc ↦ ?_⟩
        exact Bool.not_eq_true _ ▸ fun hx ↦ h₃ (List.any_eq_true.mpr ⟨c, hc, hx⟩)
      · rintro ⟨hs, -⟩
        cases hs
        rfl
  · next h => exact ⟨fun hn ↦ (by cases hn), fun hs ↦ absurd hs.1 (h text)⟩

theorem validateBinding_eq_ok {key : String} {node : Node} (hw : node.Whole) :
    validateBinding key node.value = .ok () ↔ isBindingKey key = true ∧ node.Bindable := by
  unfold validateBinding
  by_cases hk : isBindingKey key = true
  · rw [hk]
    cases node with
    | integer n => simp [Node.value, Node.Bindable, isU64]
    | string s => simp [Node.value, Node.Bindable]
    | malformed => exact absurd hw (by simp [Node.Whole])
    | _ => simp [Node.value, Node.Bindable, isU64]
  · simp [hk]

private theorem forM_eq_ok {ε α : Type} {f : α → Except ε Unit} {l : List α} :
    l.forM f = .ok () ↔ ∀ a ∈ l, f a = .ok () := by
  induction l with
  | nil => exact ⟨fun _ _ h ↦ (nomatch h), fun _ ↦ rfl⟩
  | cons a l ih =>
    change (f a >>= fun _ ↦ l.forM f) = .ok () ↔ _
    rw [bind_eq_ok, List.forall_mem_cons, ← ih]
    exact ⟨fun ⟨_, ha, hl⟩ ↦ ⟨ha, hl⟩, fun ⟨ha, hl⟩ ↦ ⟨(), ha, hl⟩⟩

theorem validateBindings_eq_ok {node : Node} (hw : node.Whole) :
    validateBindings node.value = .ok () ↔ ∃ bindings, node = .object bindings true ∧
      bindings.length ≤ BINDINGS_MAX ∧
      ∀ b ∈ bindings, isBindingKey b.1 = true ∧ b.2.Bindable := by
  unfold validateBindings
  split
  · next m hm =>
    obtain ⟨bindings, rfl, rfl⟩ := (Node.value_eq_object hw).mp hm
    have hall : ∀ b ∈ bindings, b.2.Whole := Node.wholeEntries_iff.mp hw.2
    have hloop : (Node.valueEntries bindings).forM (fun b ↦ validateBinding b.1 b.2) = .ok () ↔
        ∀ b ∈ bindings, isBindingKey b.1 = true ∧ b.2.Bindable := by
      rw [forM_eq_ok, Node.valueEntries_eq_map, List.forall_mem_map]
      exact forall₂_congr fun b hb ↦ validateBinding_eq_ok (hall b hb)
    have hlen : (Node.valueEntries bindings).length = bindings.length := by
      rw [Node.valueEntries_eq_map, List.length_map]
    rw [hlen]
    by_cases hmany : BINDINGS_MAX < bindings.length
    · rw [if_pos hmany]
      refine ⟨fun h ↦ (nomatch h), ?_⟩
      rintro ⟨other, hs, hl, -⟩
      cases hs
      exact absurd hl (not_le.mpr hmany)
    · rw [if_neg hmany, hloop]
      refine ⟨fun h ↦ ⟨bindings, rfl, not_lt.mp hmany, h⟩, ?_⟩
      rintro ⟨other, hs, -, h⟩
      cases hs
      exact h
  · next h =>
    refine ⟨fun hn ↦ (nomatch hn), ?_⟩
    rintro ⟨bindings, rfl, -⟩
    exact absurd rfl (h _)

section Fields

variable {entries : List (String × Node)}

/-- Behind a key that is not repeated one thing is written. -/
private theorem mem_iff_eq (hn : (entries.map Prod.fst).Nodup) {key : String} {node : Node}
    (h : (key, node) ∈ entries) (other : Node) : (key, other) ∈ entries ↔ other = node := by
  have hg := IndexMap.get_of_mem (m := entries) hn h
  refine ⟨fun ho ↦ ?_, fun he ↦ he ▸ h⟩
  have ho' := IndexMap.get_of_mem (m := entries) hn ho
  exact Option.some.inj (ho'.symm.trans hg)

private theorem not_mem_of_get_eq_none (hn : (entries.map Prod.fst).Nodup) {key : String}
    (h : (Node.valueEntries entries).get key = none) (node : Node) : (key, node) ∉ entries := by
  intro hm
  rw [(Node.get_valueEntries hn).mpr ⟨node, hm, rfl⟩] at h
  cases h

theorem stringField_eq_ok (hn : (entries.map Prod.fst).Nodup) {field text : String} :
    stringField (Node.valueEntries entries) field = .ok text ↔
      (field, .string text) ∈ entries ∧ Identifying text := by
  unfold stringField
  split
  · next v hv =>
    obtain ⟨node, hm, rfl⟩ := (Node.get_valueEntries hn).mp hv
    have hstring : (identifyingString node.value).mapError (⟨field, ·⟩ : String → EnvelopeError) =
        .ok text ↔ identifyingString node.value = .ok text := by
      cases identifyingString node.value <;> simp [Except.mapError]
    rw [hstring, identifyingString_eq_ok, Node.value_eq_string, mem_iff_eq hn hm, eq_comm]
  · next hv =>
    exact ⟨fun h ↦ (nomatch h), fun ⟨h, _⟩ ↦ absurd h (not_mem_of_get_eq_none hn hv _)⟩

theorem expectedField_eq_ok (hn : (entries.map Prod.fst).Nodup) (hw : Node.WholeEntries entries)
    {expected : Option String} :
    expectedField (Node.valueEntries entries) = .ok expected ↔
      (expected = none → ("expectedIncarnation", .null) ∈ entries) ∧
      ∀ text, expected = some text → ("expectedIncarnation", .string text) ∈ entries ∧
        Identifying text ∧ isIncarnationId text = true := by
  unfold expectedField
  cases hv : (Node.valueEntries entries).get "expectedIncarnation" with
  | none =>
    have hno := not_mem_of_get_eq_none hn hv
    refine ⟨fun h ↦ (nomatch h), fun ⟨hnone, hsome⟩ ↦ ?_⟩
    cases expected with
    | none => exact absurd (hnone rfl) (hno _)
    | some text => exact absurd (hsome text rfl).1 (hno _)
  | some v =>
    obtain ⟨node, hm, rfl⟩ := (Node.get_valueEntries hn).mp hv
    have hwn : node.Whole := Node.wholeEntries_iff.mp hw _ hm
    simp only [mem_iff_eq hn hm]
    cases node with
    | null => cases expected <;> simp [Node.value]
    | string s =>
      simp only [Node.value]
      cases hid : identifyingString (.string s) with
      | error reason =>
        refine ⟨fun h ↦ (nomatch h), fun ⟨hnone, hsome⟩ ↦ ?_⟩
        cases expected with
        | none => cases hnone rfl
        | some text =>
          obtain ⟨hs, hi, -⟩ := hsome text rfl
          rw [identifyingString_eq_ok.mpr ⟨(Node.string.inj hs).symm ▸ rfl, hi⟩] at hid
          cases hid
      | ok text =>
        obtain ⟨hs, hi⟩ := identifyingString_eq_ok.mp hid
        cases hs
        by_cases hinc : isIncarnationId s = true
        · cases expected with
          | none => simp [hinc]
          | some text =>
            simp only [hinc, ↓reduceIte, Except.ok.injEq, Option.some.injEq, reduceCtorEq,
              false_implies, true_and, Node.string.injEq]
            exact ⟨fun h t ht ↦ ⟨ht.symm.trans h.symm, ht ▸ h ▸ hi, ht ▸ h ▸ hinc⟩,
              fun h ↦ ((h text rfl).1).symm⟩
        · cases expected with
          | none => simp [hinc]
          | some text =>
            simp only [hinc, Bool.false_eq_true, ↓reduceIte, reduceCtorEq, false_implies, true_and,
              Option.some.injEq, Node.string.injEq, false_iff]
            intro h
            obtain ⟨rfl, -, h⟩ := h text rfl
            exact hinc h
    | malformed => exact absurd hwn (by simp [Node.Whole])
    | _ => cases expected <;> simp [Node.value, identifyingString]

theorem checkKeys_eq_ok :
    checkKeys (Node.valueEntries entries) = .ok () ↔
      ∀ key, key ∈ entries.map Prod.fst ↔ key ∈ FIELDS := by
  have hkeys := Node.keys_valueEntries entries
  have hmissing : ∀ key, ((Node.valueEntries entries).get key).isNone = false ↔
      key ∈ entries.map Prod.fst := by
    intro key
    rw [← hkeys, IndexMap.mem_keys_iff]
    cases (Node.valueEntries entries).get key <;> simp
  unfold checkKeys
  rw [hkeys]
  cases hunknown : (entries.map Prod.fst).find? (· ∉ FIELDS) with
  | some key =>
    refine ⟨fun h ↦ (nomatch h), fun h ↦ ?_⟩
    have hk := List.find?_some hunknown
    exact absurd ((h key).mp (List.mem_of_find?_eq_some hunknown)) (of_decide_eq_true hk)
  | none =>
    have hknown : ∀ key ∈ entries.map Prod.fst, key ∈ FIELDS := by
      simpa using List.find?_eq_none.mp hunknown
    cases hfind : FIELDS.find? fun field ↦ ((Node.valueEntries entries).get field).isNone with
    | some field =>
      refine ⟨fun h ↦ (nomatch h), fun h ↦ ?_⟩
      have hf := List.find?_some hfind
      rw [(hmissing field).mpr ((h field).mpr (List.mem_of_find?_eq_some hfind))] at hf
      cases hf
    | none =>
      refine ⟨fun _ key ↦ ⟨hknown key, fun hk ↦ ?_⟩, fun _ ↦ rfl⟩
      have hf := List.find?_eq_none.mp hfind key hk
      exact (hmissing key).mp (Bool.not_eq_true _ ▸ hf)

theorem checkKind_eq_ok (hn : (entries.map Prod.fst).Nodup) :
    checkKind (Node.valueEntries entries) = .ok () ↔
      ("type", .string "envelope") ∈ entries ∧ ("version", .integer 1) ∈ entries := by
  have htype : (Node.valueEntries entries).get "type" = some (.string "envelope") ↔
      ("type", .string "envelope") ∈ entries := by
    rw [Node.get_valueEntries hn]
    simp only [Node.value_eq_string, exists_eq_right]
  have hversion : ((Node.valueEntries entries).get "version").bind asU64 = some 1 ↔
      ("version", .integer 1) ∈ entries := by
    rw [Option.bind_eq_some_iff]
    constructor
    · rintro ⟨v, hv, hone⟩
      obtain ⟨node, hm, rfl⟩ := (Node.get_valueEntries hn).mp hv
      cases hnode : node.value with
      | integer n =>
        rw [hnode, asU64] at hone
        split at hone
        · have hn1 : n = 1 := by
            have := Option.some.inj hone
            omega
          rw [← Node.value_eq_integer.mp (hn1 ▸ hnode)]
          exact hm
        · cases hone
      | _ => rw [hnode] at hone; cases hone
    · intro hm
      exact ⟨.integer 1, (Node.get_valueEntries hn).mpr ⟨_, hm, rfl⟩, rfl⟩
  have hu64 : ((Node.valueEntries entries).get "version").bind asU64 = some 1 →
      ((Node.valueEntries entries).get "version").any isU64 = true := by
    intro h
    rw [(Node.get_valueEntries hn).mpr ⟨_, hversion.mp h, rfl⟩]
    rfl
  unfold checkKind
  rw [← htype, ← hversion]
  by_cases ht : (Node.valueEntries entries).get "type" = some (.string "envelope")
  · by_cases hv : ((Node.valueEntries entries).get "version").bind asU64 = some 1
    · simp [ht, hv, hu64 hv]
    · simp [ht, hv]
  · simp [ht]

theorem bindingsField_eq_ok (hn : (entries.map Prod.fst).Nodup) (hw : Node.WholeEntries entries) :
    bindingsField (Node.valueEntries entries) = .ok () ↔
      ∃ bindings, ("bindings", .object bindings true) ∈ entries ∧
        bindings.length ≤ BINDINGS_MAX ∧
        ∀ b ∈ bindings, isBindingKey b.1 = true ∧ b.2.Bindable := by
  unfold bindingsField
  cases hv : (Node.valueEntries entries).get "bindings" with
  | none =>
    refine ⟨fun h ↦ (nomatch h), fun ⟨_, h, _⟩ ↦ ?_⟩
    exact absurd h (not_mem_of_get_eq_none hn hv _)
  | some v =>
    obtain ⟨node, hm, rfl⟩ := (Node.get_valueEntries hn).mp hv
    have hb := validateBindings_eq_ok (Node.wholeEntries_iff.mp hw _ hm)
    simp only [mem_iff_eq hn hm]
    rw [hb]
    exact exists_congr fun _ ↦ and_congr_left' eq_comm

/-- An object is read as an envelope exactly when its fields declare one. -/
theorem readEnvelope_eq_ok {sha256Hex : List UInt8 → String} {line : List UInt8}
    {e : ParsedEnvelope} (hn : (entries.map Prod.fst).Nodup) (hw : Node.WholeEntries entries) :
    readEnvelope sha256Hex line (Node.valueEntries entries) = .ok e ↔
      Declares entries e ∧ e.line = line ∧ e.sha256 = sha256Hex line ∧
        e.value = .object (Node.valueEntries entries) := by
  have hkeys : ∀ u, checkKeys (Node.valueEntries entries) = .ok u ↔ _ := fun _ ↦ checkKeys_eq_ok
  have hkind : ∀ u, checkKind (Node.valueEntries entries) = .ok u ↔ _ :=
    fun _ ↦ checkKind_eq_ok hn
  have hbindings : ∀ u, bindingsField (Node.valueEntries entries) = .ok u ↔ _ :=
    fun _ ↦ bindingsField_eq_ok hn hw
  unfold readEnvelope
  simp only [bind_eq_ok, hkeys, hkind, stringField_eq_ok hn, expectedField_eq_ok hn hw, hbindings]
  constructor
  · rintro ⟨-, hfields, -, ⟨htype, hversion⟩, operationId, ho, owner, how, origin, hor, subject,
      hsu, runtimeId, hru, expected, hex, -, hbi, he⟩
    cases he
    exact ⟨⟨hfields, htype, hversion, ho, how, hor, hsu, hru, hex.1, hex.2, hbi⟩, rfl, rfl, rfl⟩
  · rintro ⟨h, rfl, hsha, hvalue⟩
    refine ⟨(), h.fields, (), ⟨h.type, h.version⟩, _, h.operationId, _, h.owner, _, h.origin, _,
      h.subject, _, h.runtimeId, _, ⟨h.expectedNone, h.expectedSome⟩, (), h.bindings, ?_⟩
    rw [← hvalue, ← hsha]
    rfl

end Fields

/-- A text is strict JSON exactly when nothing follows a whole tree without a repeated key. -/
theorem parseStrictJson_eq_ok {serde : String → Reading} {text : String} {v : Json} :
    parseStrictJson serde text = .ok v ↔ (serde text).ended = true ∧ (serde text).node.Whole ∧
      (serde text).node.Distinct ∧ v = (serde text).node.value := by
  have h := (serde text).node.visit_eq_ok ""
  unfold parseStrictJson
  cases hv : (serde text).node.visit "" with
  | error error =>
    refine ⟨fun h ↦ (nomatch h), fun ⟨_, hw, hd, _⟩ ↦ ?_⟩
    rw [(h _).mpr ⟨hw, hd, rfl⟩] at hv
    cases hv
  | ok value =>
    obtain ⟨hw, hd, rfl⟩ := (h value).mp hv
    cases (serde text).ended <;> simp [hw, hd, eq_comm]

/-- A line is an envelope exactly when it is short enough and the text of one JSON object in
which no key is repeated at any depth, with the fields of an envelope, and the envelope has what
is written in them. -/
theorem parseEnvelope_eq_ok (serde : String → Reading) (sha256Hex : List UInt8 → String)
    (line : List UInt8) (e : ParsedEnvelope) :
    parseEnvelope serde sha256Hex line = .ok e ↔ line.length ≤ ENVELOPE_MAX_BYTES ∧
      ∃ text entries, String.fromUTF8? line.toByteArray = some text ∧
        serde text = ⟨.object entries true, true⟩ ∧ (Node.object entries true).Whole ∧
        (Node.object entries true).Distinct ∧ Declares entries e ∧ e.line = line ∧
        e.sha256 = sha256Hex line ∧ e.value = (Node.object entries true).value := by
  unfold parseEnvelope
  by_cases hlen : ENVELOPE_MAX_BYTES < line.length
  · rw [if_pos hlen]
    exact ⟨fun h ↦ (nomatch h), fun h ↦ absurd h.1 (not_le.mpr hlen)⟩
  rw [if_neg hlen]
  cases htext : String.fromUTF8? line.toByteArray with
  | none => exact ⟨fun h ↦ (nomatch h), fun ⟨_, _, _, h, _⟩ ↦ (nomatch h)⟩
  | some text =>
    have hjson := fun v ↦ @parseStrictJson_eq_ok serde text v
    constructor
    · intro h
      simp only at h
      split at h
      · cases h
      · next object hp =>
        obtain ⟨hend, hw, hd, hv⟩ := (hjson _).mp hp
        obtain ⟨entries, hnode, rfl⟩ := (Node.value_eq_object hw).mp hv.symm
        rw [hnode] at hw hd
        have hread : serde text = ⟨.object entries true, true⟩ := by rw [← hnode, ← hend]
        refine ⟨not_lt.mp hlen, text, entries, rfl, hread, hw, hd, ?_⟩
        exact (readEnvelope_eq_ok hd.1 hw.2).mp h
      · cases h
    · rintro ⟨-, text', entries, ht, hread, hw, hd, h⟩
      cases ht
      have hp := (hjson (.object (Node.valueEntries entries))).mpr
        ⟨by rw [hread], by rw [hread]; exact hw, by rw [hread]; exact hd, by rw [hread]; rfl⟩
      simp only [hp]
      exact (readEnvelope_eq_ok hd.1 hw.2).mpr h

end PtySpec.Operation
