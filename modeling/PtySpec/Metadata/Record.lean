import PtySpec.Metadata.Json

/-!
# The metadata record

Model of `SessionMetadata`, `crates/pty-core/src/registry/metadata.rs:32-169`, and of
`apply_metadata_diff`. A field is written and read by the codec of its type, which carries
the law that what it writes it reads back; a record has a value for each field and the map
of the keys it does not know.
-/

namespace PtySpec.Metadata

open Lib

/-! ### Codecs -/

/-- How values of a type are written as JSON and read from it. -/
structure Kind (α : Type) where
  toJson : α → Json
  ofJson : Json → Option α
  ofJson_toJson : ∀ x, ofJson (toJson x) = some x

namespace Kind

/-- `String`. -/
def string : Kind String where
  toJson := .string
  ofJson := Json.asStr
  ofJson_toJson _ := rfl

/-- `bool`. -/
def bool : Kind Bool where
  toJson := .bool
  ofJson
    | .bool b => some b
    | _ => none
  ofJson_toJson _ := rfl

/-- `i32`: an integer in range. -/
def int32 : Kind Int32 where
  toJson n := .integer n.toInt
  ofJson
    | .integer n => if (Int32.ofInt n).toInt = n then some (Int32.ofInt n) else none
    | _ => none
  ofJson_toJson n := by simp

/-- `i64`: an integer in range. -/
def int64 : Kind Int64 where
  toJson n := .integer n.toInt
  ofJson
    | .integer n => if (Int64.ofInt n).toInt = n then some (Int64.ofInt n) else none
    | _ => none
  ofJson_toJson n := by simp

/-- `u16`: an integer in range. -/
def uint16 : Kind UInt16 where
  toJson n := .integer n.toNat
  ofJson
    | .integer n => if 0 ≤ n ∧ n < 2 ^ 16 then some (UInt16.ofNat n.toNat) else none
    | _ => none
  ofJson_toJson n := by
    have h := n.toNat_lt
    simp [show (n.toNat : Int) < 65536 by omega]

/-- `u32`: an integer in range. -/
def uint32 : Kind UInt32 where
  toJson n := .integer n.toNat
  ofJson
    | .integer n => if 0 ≤ n ∧ n < 2 ^ 32 then some (UInt32.ofNat n.toNat) else none
    | _ => none
  ofJson_toJson n := by
    have h := n.toNat_lt
    simp [show (n.toNat : Int) < 4294967296 by omega]

/-- `u64`: an integer in range. -/
def uint64 : Kind UInt64 where
  toJson n := .integer n.toNat
  ofJson
    | .integer n => if 0 ≤ n ∧ n < 2 ^ 64 then some (UInt64.ofNat n.toNat) else none
    | _ => none
  ofJson_toJson n := by
    have h := n.toNat_lt
    simp [show (n.toNat : Int) < 18446744073709551616 by omega]

/-- `Value`. -/
def value : Kind Json where
  toJson := id
  ofJson := some
  ofJson_toJson _ := rfl

/-- `Vec<String>`. -/
def strings : Kind (List String) where
  toJson xs := .array (xs.map .string)
  ofJson
    | .array xs => xs.mapM Json.asStr
    | _ => none
  ofJson_toJson xs := by
    induction xs with
    | nil => rfl
    | cons x xs ih => simp_all [List.mapM_cons, Json.asStr]

/-- The entries of a `TagMap` from those of an object. -/
def tagEntries : List (String × Json) → Option (List (String × String))
  | [] => some []
  | (k, v) :: fields => v.asStr.bind fun s ↦ (tagEntries fields).map ((k, s) :: ·)

/-- `TagMap` and `EnvMap`. -/
def tagMap : Kind (IndexMap String String) where
  toJson m := .object (m.map fun e ↦ (e.1, .string e.2))
  ofJson
    | .object fields => tagEntries fields
    | _ => none
  ofJson_toJson m := by
    induction m with
    | nil => rfl
    | cons e m ih => simp_all [tagEntries, Json.asStr]

end Kind

/-- `PublicationBinding`, `revocation.rs:24`. -/
structure PublicationBinding where
  operation : String
  digest : String
  deriving DecidableEq, Repr

/-- `PublicationBinding`, with no other fields; serde also takes the fields in an array. -/
def Kind.binding : Kind PublicationBinding where
  toJson b := .object [("operation", .string b.operation), ("digest", .string b.digest)]
  ofJson
    | .object fields =>
      if fields.all fun e ↦ e.1 = "operation" ∨ e.1 = "digest" then
        match (IndexMap.get fields "operation").bind Json.asStr,
          (IndexMap.get fields "digest").bind Json.asStr with
        | some operation, some digest => some ⟨operation, digest⟩
        | _, _ => none
      else none
    | .array [.string operation, .string digest] => some ⟨operation, digest⟩
    | _ => none
  ofJson_toJson b := by
    simp [IndexMap.get_cons, Json.asStr]

/-- How a field of a record is written, if at all, and read from what its key has. -/
structure Codec (α : Type) where
  write : α → Option Json
  read : Option Json → Option α
  read_write : ∀ x, write x ≠ some .null → read (write x) = some x

namespace Codec

/-- `#[serde(default)]`. -/
def default {α : Type} (k : Kind α) (d : α) : Codec α where
  write x := some (k.toJson x)
  read
    | none => some d
    | some v => k.ofJson v
  read_write x _ := k.ofJson_toJson x

/-- `#[serde(default, skip_serializing_if = "Option::is_none")]`. -/
def optional {α : Type} (k : Kind α) : Codec (Option α) where
  write x := x.map k.toJson
  read
    | none | some .null => some none
    | some v => (k.ofJson v).map some
  read_write x h := by
    cases x with
    | none => rfl
    | some x =>
      rw [Option.map_some] at h ⊢
      have hr := k.ofJson_toJson x
      generalize k.toJson x = v at h hr
      cases v with
      | null => exact absurd rfl h
      | _ => simp [hr]

end Codec

/-! ### Fields -/

/-- The fields of `SessionMetadata` in their order, without `extra`. -/
inductive Field where
  | generation
  | daemonPid
  | daemonStartToken
  | daemonBootId
  | recovery
  | command
  | args
  | displayCommand
  | cwd
  | rows
  | cols
  | ephemeral
  | createdAt
  | displayName
  | tags
  | publicationBinding
  | publicationRootId
  | publicationCapability
  | isolateEnv
  | extraEnv
  | sessionEnv
  | unsetEnv
  | env
  | exitCode
  | exitedAt
  | lastLines
  | lastAttachAt
  | lastOutputAtMs
  | clientGeneration
  deriving DecidableEq, Repr

namespace Field

/-- The fields in their order. -/
def all : List Field :=
  [generation, daemonPid, daemonStartToken, daemonBootId, recovery, command, args,
    displayCommand, cwd, rows, cols, ephemeral, createdAt, displayName, tags,
    publicationBinding, publicationRootId, publicationCapability, isolateEnv, extraEnv,
    sessionEnv, unsetEnv, env, exitCode, exitedAt, lastLines, lastAttachAt, lastOutputAtMs,
    clientGeneration]

/-- The key of a field, in camel case. -/
def key : Field → String
  | generation => "generation"
  | daemonPid => "daemonPid"
  | daemonStartToken => "daemonStartToken"
  | daemonBootId => "daemonBootId"
  | recovery => "recovery"
  | command => "command"
  | args => "args"
  | displayCommand => "displayCommand"
  | cwd => "cwd"
  | rows => "rows"
  | cols => "cols"
  | ephemeral => "ephemeral"
  | createdAt => "createdAt"
  | displayName => "displayName"
  | tags => "tags"
  | publicationBinding => "publicationBinding"
  | publicationRootId => "publicationRootId"
  | publicationCapability => "publicationCapability"
  | isolateEnv => "isolateEnv"
  | extraEnv => "extraEnv"
  | sessionEnv => "sessionEnv"
  | unsetEnv => "unsetEnv"
  | env => "env"
  | exitCode => "exitCode"
  | exitedAt => "exitedAt"
  | lastLines => "lastLines"
  | lastAttachAt => "lastAttachAt"
  | lastOutputAtMs => "lastOutputAtMs"
  | clientGeneration => "clientGeneration"

/-- The type of a field. -/
abbrev Ty : Field → Type
  | command | displayCommand | cwd | createdAt => String
  | args => List String
  | generation | daemonStartToken | daemonBootId | displayName | publicationRootId | exitedAt
  | lastAttachAt => Option String
  | daemonPid | exitCode => Option Int32
  | recovery => Option Json
  | rows | cols => Option UInt16
  | ephemeral | isolateEnv => Option Bool
  | tags | extraEnv | sessionEnv | env => Option (IndexMap String String)
  | publicationBinding => Option PublicationBinding
  | publicationCapability => Option UInt32
  | unsetEnv | lastLines => Option (List String)
  | lastOutputAtMs => Option Int64
  | clientGeneration => Option UInt64

/-- The codec of a field. -/
def codec : (f : Field) → Codec f.Ty
  | command | displayCommand | cwd | createdAt => .default .string ""
  | args => .default .strings []
  | generation | daemonStartToken | daemonBootId | displayName | publicationRootId | exitedAt
  | lastAttachAt => .optional .string
  | daemonPid | exitCode => .optional .int32
  | recovery => .optional .value
  | rows | cols => .optional .uint16
  | ephemeral | isolateEnv => .optional .bool
  | tags | extraEnv | sessionEnv | env => .optional .tagMap
  | publicationBinding => .optional .binding
  | publicationCapability => .optional .uint32
  | unsetEnv | lastLines => .optional .strings
  | lastOutputAtMs => .optional .int64
  | clientGeneration => .optional .uint64

/-- The field that a key names. -/
def ofKey (key : String) : Option Field := all.find? (·.key = key)

theorem mem_all (f : Field) : f ∈ all := by
  cases f <;> decide

theorem nodup_keys : (all.map key).Nodup := by
  decide

theorem key_injective {f g : Field} (h : f.key = g.key) : f = g :=
  List.inj_on_of_nodup_map nodup_keys (mem_all f) (mem_all g) h

end Field

namespace Field

theorem ofKey_key (f : Field) : ofKey f.key = some f := by
  cases f <;> decide

theorem key_of_ofKey {key : String} {f : Field} (h : ofKey key = some f) : f.key = key := by
  unfold ofKey at h
  simpa using List.find?_some h

end Field

/-- `SessionMetadata`, `metadata.rs:34`: a value for each field, and the map of the keys
that are none of them. -/
@[ext] structure SessionMetadata where
  field : (f : Field) → f.Ty
  extra : JsonMap
  nodup : extra.keys.Nodup

/-- The entry of a field among those that are written. -/
theorem Field.get_filterMap (write : Field → Option Json) (fs : List Field) (f : Field) :
    IndexMap.get (fs.filterMap fun f ↦ (write f).map fun v ↦ (f.key, v)) f.key =
      if f ∈ fs then write f else none := by
  induction fs with
  | nil => rfl
  | cons g fs ih =>
    rw [List.filterMap_cons]
    by_cases hg : f = g
    · subst hg
      rw [if_pos List.mem_cons_self]
      cases hw : write f with
      | none => rw [Option.map_none, ih, hw, ite_self]
      | some v => rw [Option.map_some, IndexMap.get_cons, if_pos rfl]
    · have hm : f ∈ g :: fs ↔ f ∈ fs := by simp [hg]
      simp only [hm]
      cases hw : write g with
      | none => exact ih
      | some v =>
        rw [Option.map_some, IndexMap.get_cons, if_neg (fun hk ↦ hg (Field.key_injective hk).symm)]
        exact ih

/-- Fields are written under keys of their own. -/
theorem Field.nodup_filterMap (write : Field → Option Json) {fs : List Field}
    (hn : (fs.map Field.key).Nodup) :
    (IndexMap.keys (fs.filterMap fun f ↦ (write f).map fun v ↦ (f.key, v))).Nodup := by
  refine hn.sublist ?_
  clear hn
  induction fs with
  | nil => exact .slnil
  | cons f fs ih =>
    rw [List.filterMap_cons]
    cases write f with
    | none => exact ih.cons _
    | some v => exact ih.cons_cons _

namespace SessionMetadata

/-- What a field is written as. -/
def written (m : SessionMetadata) (f : Field) : Option Json := f.codec.write (m.field f)

/-- The fields that are written, in their order. -/
def fields (m : SessionMetadata) : JsonMap :=
  Field.all.filterMap fun f ↦ (m.written f).map fun v ↦ (f.key, v)

/-- `SessionMetadata::to_map`, `metadata.rs:163`: the fields, then `extra`, whose keys
override them. -/
def toMap (m : SessionMetadata) : JsonMap := m.fields.insertAll m.extra

/-- The entries of the keys that no field has. -/
def unknown (map : JsonMap) : JsonMap := map.filter fun e ↦ (Field.ofKey e.1).isNone

theorem nodup_unknown {map : JsonMap} (hn : map.keys.Nodup) : (unknown map).keys.Nodup :=
  hn.sublist (List.filter_sublist.map _)

theorem get_unknown (map : JsonMap) (key : String) :
    (unknown map).get key = if (Field.ofKey key).isNone then map.get key else none :=
  IndexMap.get_filter (fun key ↦ (Field.ofKey key).isNone) map key

/-- `SessionMetadata::from_map`, `metadata.rs:171`; a `Map` repeats no key. -/
def fromMap (map : JsonMap) : Option SessionMetadata :=
  if h : map.keys.Nodup ∧ ∀ f ∈ Field.all, (f.codec.read (map.get f.key)).isSome then
    some
      { field := fun f ↦ (f.codec.read (map.get f.key)).get (h.2 f f.mem_all)
        extra := unknown map
        nodup := nodup_unknown h.1 }
  else none

/-- Two values that serde takes for equal, or none twice. -/
def same (a b : Option Json) : Bool := a.map Json.normal = b.map Json.normal

/-- `PartialEq` of one field. -/
def agree (m n : SessionMetadata) (f : Field) : Bool := same (m.written f) (n.written f)

/-- `PartialEq` of records: of each field, and of the other keys in any order. -/
def Equal (m n : SessionMetadata) : Prop :=
  (∀ f, m.agree n f = true) ∧ ∀ key, same (m.extra.get key) (n.extra.get key) = true

theorem fromMap_eq_some {map : JsonMap} {m : SessionMetadata} :
    fromMap map = some m ↔
      map.keys.Nodup ∧ (∀ f : Field, f.codec.read (map.get f.key) = some (m.field f)) ∧
        m.extra = unknown map := by
  unfold fromMap
  constructor
  · intro h
    split at h
    · next hr =>
      cases h
      exact ⟨hr.1, fun f ↦ (Option.some_get _).symm, rfl⟩
    · cases h
  · rintro ⟨hn, hf, he⟩
    rw [dif_pos ⟨hn, fun f _ ↦ by rw [hf]; rfl⟩]
    congr 1
    ext1
    · funext f
      simp only [hf, Option.get_some]
    · exact he.symm

theorem get_fields (m : SessionMetadata) (f : Field) : m.fields.get f.key = m.written f := by
  exact (Field.get_filterMap m.written Field.all f).trans (if_pos f.mem_all)

theorem mem_fields {m : SessionMetadata} {e : String × Json} (he : e ∈ m.fields) :
    ∃ f : Field, e.1 = f.key ∧ m.written f = some e.2 := by
  obtain ⟨f, -, hf⟩ := List.mem_filterMap.mp he
  obtain ⟨v, hv, rfl⟩ := Option.map_eq_some_iff.mp hf
  exact ⟨f, rfl, hv⟩

theorem get_fields_of_ofKey_none (m : SessionMetadata) {key : String}
    (h : Field.ofKey key = none) : m.fields.get key = none := by
  cases hg : m.fields.get key with
  | none => rfl
  | some v =>
    obtain ⟨f, rfl, -⟩ := mem_fields (IndexMap.mem_of_get hg)
    rw [Field.ofKey_key] at h
    cases h

theorem nodup_fields (m : SessionMetadata) : m.fields.keys.Nodup :=
  Field.nodup_filterMap m.written Field.nodup_keys

theorem nodup_toMap (m : SessionMetadata) : m.toMap.keys.Nodup :=
  IndexMap.nodup_insertAll m.nodup_fields m.extra

/-- A key of `extra` is written as it is there, a field as its codec writes it. -/
theorem get_toMap (m : SessionMetadata) (key : String) :
    m.toMap.get key = (m.extra.get key).or (m.fields.get key) :=
  IndexMap.get_insertAll m.nodup m.fields key

theorem get_toMap_key (m : SessionMetadata) (f : Field) (h : m.extra.get f.key = none) :
    m.toMap.get f.key = m.written f := by
  rw [get_toMap, h, get_fields]
  rfl

@[simp] theorem same_refl (a : Option Json) : same a a = true := by
  simp [same]

end SessionMetadata

namespace SessionMetadata

/-- The entries of the second record whose value is not that of the first. -/
def changes (before after : SessionMetadata) : JsonMap :=
  after.toMap.filter fun e ↦ !same (before.toMap.get e.1) (some e.2)

/-- The keys of the first record that the second does not have. -/
def removals (before after : SessionMetadata) : List String :=
  before.toMap.keys.filter fun key ↦ (after.toMap.get key).isNone

end SessionMetadata

/-- `apply_metadata_diff`, `metadata.rs:346`. -/
def applyMetadataDiff (before after : SessionMetadata) (map : JsonMap) : JsonMap :=
  (map.insertAll (before.changes after)).removeAll (before.removals after)

end PtySpec.Metadata
