import PtySpec.Metadata.Raw
import PtySpec.Metadata.Record

/-!
# Effective values

Model of `crates/pty-core/src/registry/list_metadata.rs:32-250`. The undecoded values of an
object are kept until the last value of each key is known, and only then handed to the
visitors of the types to read. A visitor here is what it does with a token, with the elements
of an array and with the effective fields of an object; those that serde derives carry the
law that they read what is read from the decoded value.
-/

namespace PtySpec.Metadata

open Lib

variable {α : Type}

/-! ### Effective values -/

/-- `descend`, `list_metadata.rs:36`. -/
def descend (depth : Nat) : Option Nat := if depth ≥ 127 then none else some (depth + 1)

mutual
/-- `JsonSyntax`, `list_metadata.rs:34`: a walk that decodes every token of a value. -/
def jsonSyntax (depth : Nat) : Raw → Bool
  | .scalar token => token.isSome
  | .array elements =>
    match descend depth with
    | none => false
    | some depth => jsonSyntaxSeq depth elements
  | .object entries =>
    match descend depth with
    | none => false
    | some depth => jsonSyntaxMap depth entries
/-- `SyntaxVisitor::visit_seq`, `list_metadata.rs:59`. -/
def jsonSyntaxSeq (depth : Nat) : List Raw → Bool
  | [] => true
  | raw :: elements => jsonSyntax depth raw && jsonSyntaxSeq depth elements
/-- `SyntaxVisitor::visit_map`, `list_metadata.rs:64`. -/
def jsonSyntaxMap (depth : Nat) : List (Option String × Raw) → Bool
  | [] => true
  | (key, raw) :: entries => key.isSome && jsonSyntax depth raw && jsonSyntaxMap depth entries
end

/-- `last_fields`, `list_metadata.rs:131`: the last value of each key, in the place of the
first; an overwritten value is only walked. -/
def lastFields (depth : Nat) (fields : IndexMap String Raw) :
    List (Option String × Raw) → Option (IndexMap String Raw)
  | [] => some fields
  | (none, _) :: _ => none
  | (some key, value) :: entries =>
    if (fields.get key).all (jsonSyntax depth) then
      lastFields depth (fields.insert key value) entries
    else none

/-- `serde::de::Visitor`: what is read from a token, from the elements of an array and from
the fields of an object, the last two inside as many containers. -/
structure Visitor (α : Type) where
  visitScalar : Scalar → Option α
  visitSeq : Nat → List Raw → Option α
  visitMap : Nat → IndexMap String Raw → Option α

/-- `Effective::deserialize_any`, `list_metadata.rs:181`. -/
def effective (v : Visitor α) (depth : Nat) : Raw → Option α
  | .scalar token => token.bind v.visitScalar
  | .array elements => (descend depth).bind fun depth ↦ v.visitSeq depth elements
  | .object entries =>
    (descend depth).bind fun depth ↦ (lastFields depth [] entries).bind (v.visitMap depth)

/-- `Effective::deserialize_option`, `list_metadata.rs:189`. -/
def effectiveOption (read : Nat → Raw → Option α) (depth : Nat) : Raw → Option (Option α)
  | .scalar (some .null) => some none
  | raw => (read depth raw).map some

private theorem descend_eq_deeper (depth : Nat) : descend depth = Raw.deeper depth := by
  unfold descend Raw.deeper
  split <;> split <;> first | rfl | omega

mutual
/-- The walk stops where decoding the value would. -/
private theorem jsonSyntax_eq (depth : Nat) (raw : Raw) :
    jsonSyntax depth raw = (raw.value depth).isSome := by
  match raw with
  | .scalar token => rw [jsonSyntax, Raw.value, Option.isSome_map]
  | .array elements =>
    rw [jsonSyntax, Raw.value, descend_eq_deeper]
    cases Raw.deeper depth with
    | none => rfl
    | some d =>
      change jsonSyntaxSeq d elements = ((Raw.values d elements).map Json.array).isSome
      rw [jsonSyntaxSeq_eq, Option.isSome_map]
  | .object entries =>
    rw [jsonSyntax, Raw.value, descend_eq_deeper]
    cases Raw.deeper depth with
    | none => rfl
    | some d =>
      change jsonSyntaxMap d entries = ((Raw.members d [] entries).map Json.object).isSome
      rw [jsonSyntaxMap_eq d entries [], Option.isSome_map]
private theorem jsonSyntaxSeq_eq (depth : Nat) (elements : List Raw) :
    jsonSyntaxSeq depth elements = (Raw.values depth elements).isSome := by
  match elements with
  | [] => rw [jsonSyntaxSeq, Raw.values]; rfl
  | raw :: elements =>
    rw [jsonSyntaxSeq, Raw.values, jsonSyntax_eq, jsonSyntaxSeq_eq]
    cases raw.value depth <;> simp
private theorem jsonSyntaxMap_eq (depth : Nat) (entries : List (Option String × Raw))
    (map : JsonMap) :
    jsonSyntaxMap depth entries = (Raw.members depth map entries).isSome := by
  match entries with
  | [] => rw [jsonSyntaxMap, Raw.members]; rfl
  | (none, raw) :: entries => rw [jsonSyntaxMap, Raw.members]; rfl
  | (some key, raw) :: entries =>
    rw [jsonSyntaxMap, Raw.members, jsonSyntax_eq]
    cases raw.value depth with
    | none => rfl
    | some v =>
      rw [jsonSyntaxMap_eq depth entries (map.insert key v)]
      rfl
end

/-- Reading the effective fields is reading every entry as it comes. -/
theorem lastFields_readAll (depth : Nat) (entries : List (Option String × Raw))
    (fields : IndexMap String Raw) :
    (lastFields depth fields entries).bind (·.readAll (Raw.value depth)) =
      (fields.readAll (Raw.value depth)).bind fun map ↦ Raw.members depth map entries := by
  induction entries generalizing fields with
  | nil =>
    simp only [lastFields, Raw.members, Option.bind_some]
    cases fields.readAll (Raw.value depth) <;> rfl
  | cons e entries ih =>
    obtain ⟨key, raw⟩ := e
    cases key with
    | none => simp [lastFields, Raw.members]
    | some key =>
      have hi := IndexMap.readAll_insert (Raw.value depth) fields key raw
      simp only [← jsonSyntax_eq] at hi
      simp only [lastFields, Raw.members]
      split
      · next hc =>
        rw [if_pos hc] at hi
        rw [ih, hi, Option.bind_assoc]
        congr 1
        funext map
        cases raw.value depth <;> rfl
      · next hc =>
        rw [if_neg hc] at hi
        cases hm : fields.readAll (Raw.value depth) with
        | none => rfl
        | some map =>
          rw [hm, Option.bind_some] at hi
          rw [Option.map_eq_none_iff.mp hi.symm]
          rfl

theorem nodup_lastFields {depth : Nat} {entries : List (Option String × Raw)}
    {fields r : IndexMap String Raw} (hn : fields.keys.Nodup)
    (h : lastFields depth fields entries = some r) : r.keys.Nodup := by
  induction entries generalizing fields with
  | nil =>
    cases h
    exact hn
  | cons e entries ih =>
    obtain ⟨key, raw⟩ := e
    cases key with
    | none => cases h
    | some key =>
      unfold lastFields at h
      split at h
      · exact ih (IndexMap.nodup_insert hn key raw) h
      · cases h

theorem nodup_keys_nil : (IndexMap.keys ([] : IndexMap String Raw)).Nodup := List.nodup_nil

/-- What a visitor has to do for its reading to be that of the decoded value. -/
private theorem effective_eq {v : Visitor α} {read : Json → Option α} {depth : Nat}
    (hs : ∀ s, v.visitScalar s = read s.json)
    (hq : ∀ d, descend depth = some d → ∀ elements,
      v.visitSeq d elements = (Raw.values d elements).bind fun vs ↦ read (.array vs))
    (hm : ∀ d, descend depth = some d → ∀ fields : IndexMap String Raw, fields.keys.Nodup →
      v.visitMap d fields = (fields.readAll (Raw.value d)).bind fun m ↦ read (.object m))
    (raw : Raw) : effective v depth raw = (raw.value depth).bind read := by
  cases raw with
  | scalar token =>
    rw [effective, Raw.value]
    cases token with
    | none => rfl
    | some s => exact hs s
  | array elements =>
    rw [effective, Raw.value, ← descend_eq_deeper]
    cases hd : descend depth with
    | none => rfl
    | some d =>
      rw [Option.bind_some, hq d hd]
      exact Option.bind_map.symm
  | object entries =>
    rw [effective, Raw.value, ← descend_eq_deeper]
    cases hd : descend depth with
    | none => rfl
    | some d =>
      have hl := lastFields_readAll d entries []
      rw [IndexMap.readAll, Option.bind_some] at hl
      change (lastFields d [] entries).bind (v.visitMap d) =
        ((Raw.members d [] entries).map Json.object).bind read
      rw [← hl, Option.bind_map, Option.bind_assoc]
      refine Option.bind_congr fun fields hf ↦ ?_
      exact hm d hd fields (nodup_lastFields nodup_keys_nil hf)

theorem effective_array_eq_none {v : Visitor α}
    (h : ∀ depth elements, v.visitSeq depth elements = none) (depth : Nat)
    (elements : List Raw) : effective v depth (.array elements) = none := by
  rw [effective]
  cases descend depth <;> simp [h]

theorem effective_object_eq_none {v : Visitor α}
    (h : ∀ depth fields, v.visitMap depth fields = none) (depth : Nat)
    (entries : List (Option String × Raw)) : effective v depth (.object entries) = none := by
  rw [effective]
  cases descend depth with
  | none => rfl
  | some d => cases lastFields d [] entries <;> simp [h]

/-! ### The visitors of a record's fields -/

/-- A derived visitor of a type, which reads what its kind reads from the decoded value. -/
structure TypeReader (k : Kind α) extends Visitor α where
  scalar_eq : ∀ s, visitScalar s = k.ofJson s.json
  seq_eq : ∀ depth elements,
    visitSeq depth elements = (Raw.values depth elements).bind fun vs ↦ k.ofJson (.array vs)
  map_eq : ∀ (depth : Nat) (fields : IndexMap String Raw), fields.keys.Nodup →
    visitMap depth fields =
      (fields.readAll (Raw.value depth)).bind fun map ↦ k.ofJson (.object map)

theorem TypeReader.effective_eq {k : Kind α} (r : TypeReader k) (depth : Nat) (raw : Raw) :
    effective r.toVisitor depth raw = (raw.value depth).bind k.ofJson :=
  Metadata.effective_eq r.scalar_eq (fun d _ ↦ r.seq_eq d) (fun d _ ↦ r.map_eq d) raw

namespace TypeReader

/-- The visitor of a type whose values are tokens; it refuses an array or an object. -/
def token (k : Kind α) (ha : ∀ vs, k.ofJson (.array vs) = none)
    (ho : ∀ map, k.ofJson (.object map) = none) : TypeReader k where
  visitScalar s := k.ofJson s.json
  visitSeq _ _ := none
  visitMap _ _ := none
  scalar_eq _ := rfl
  seq_eq depth elements := by cases Raw.values depth elements <;> simp [ha]
  map_eq depth fields _ := by cases fields.readAll (Raw.value depth) <;> simp [ho]

/-- The visitor of `String`. -/
def string : TypeReader Kind.string := .token .string (fun _ ↦ rfl) (fun _ ↦ rfl)

/-- The visitor of `Vec<String>`. -/
def strings : TypeReader Kind.strings where
  visitScalar _ := none
  visitSeq depth elements := elements.mapM (effective string.toVisitor depth)
  visitMap _ _ := none
  scalar_eq s := by cases s <;> rfl
  seq_eq depth elements := by
    change _ = (Raw.values depth elements).bind fun vs ↦ vs.mapM Json.asStr
    induction elements with
    | nil => rw [Raw.values]; rfl
    | cons raw elements ih =>
      rw [List.mapM_cons, ih, Raw.values, string.effective_eq]
      cases raw.value depth with
      | none => rfl
      | some v =>
        change ((Json.asStr v).bind fun _ ↦ _) = _
        cases hv : Json.asStr v <;> cases Raw.values depth elements <;>
          simp [List.mapM_cons, hv]
  map_eq depth fields _ := by cases fields.readAll (Raw.value depth) <;> rfl

/-- The visitor of `TagMap`. -/
def tagMap : TypeReader Kind.tagMap where
  visitScalar _ := none
  visitSeq _ _ := none
  visitMap depth fields := IndexMap.readInto (effective string.toVisitor depth) [] fields
  scalar_eq s := by cases s <;> rfl
  seq_eq depth elements := by cases Raw.values depth elements <;> rfl
  map_eq depth fields hn := by
    rw [IndexMap.readInto_eq _ hn (fun _ _ ↦ List.not_mem_nil)]
    change (IndexMap.readAll _ fields).map _ =
      (fields.readAll (Raw.value depth)).bind Kind.tagEntries
    simp only [List.nil_append, Option.map_id']
    clear hn
    induction fields with
    | nil => rfl
    | cons e fields ih =>
      rw [IndexMap.readAll, IndexMap.readAll, ih, string.effective_eq]
      cases e.2.value depth with
      | none => rfl
      | some v =>
        change ((Json.asStr v).bind fun _ ↦ _) = _
        cases hv : Json.asStr v <;> cases IndexMap.readAll (Raw.value depth) fields <;>
          simp [Kind.tagEntries, hv]

/-- The fields of a `PublicationBinding` as they come: each once, and no others. -/
def bindingFields (depth : Nat) (operation digest : Option String) :
    IndexMap String Raw → Option PublicationBinding
  | [] =>
    match operation, digest with
    | some operation, some digest => some ⟨operation, digest⟩
    | _, _ => none
  | (key, raw) :: fields =>
    if key = "operation" then
      if operation.isSome then none
      else
        (effective string.toVisitor depth raw).bind fun operation ↦
          bindingFields depth (some operation) digest fields
    else if key = "digest" then
      if digest.isSome then none
      else
        (effective string.toVisitor depth raw).bind fun digest ↦
          bindingFields depth operation (some digest) fields
    else none

/-- What the fields come to when some were read before. -/
private def bound (operation digest : Option String) (map : JsonMap) :
    Option PublicationBinding :=
  if map.all fun e ↦ e.1 = "operation" ∨ e.1 = "digest" then
    match operation.or ((map.get "operation").bind Json.asStr),
      digest.or ((map.get "digest").bind Json.asStr) with
    | some operation, some digest => some ⟨operation, digest⟩
    | _, _ => none
  else none

private theorem bound_operation (digest : Option String) (v : Json) (map : JsonMap) :
    bound none digest (("operation", v) :: map) =
      v.asStr.bind fun operation ↦ bound (some operation) digest map := by
  have ho : IndexMap.get (("operation", v) :: map) "operation" = some v :=
    (IndexMap.get_cons _ _ _).trans (if_pos rfl)
  have hd : IndexMap.get (("operation", v) :: map) "digest" = map.get "digest" :=
    (IndexMap.get_cons _ _ _).trans (if_neg (show "operation" ≠ "digest" by decide))
  unfold bound
  rw [List.all_cons, decide_eq_true (.inl rfl), Bool.true_and, ho, hd, Option.bind_some,
    Option.none_or]
  cases v.asStr with
  | none => exact ite_self _
  | some operation => rfl

private theorem bound_digest (operation : Option String) (v : Json) (map : JsonMap) :
    bound operation none (("digest", v) :: map) =
      v.asStr.bind fun digest ↦ bound operation (some digest) map := by
  have ho : IndexMap.get (("digest", v) :: map) "operation" = map.get "operation" :=
    (IndexMap.get_cons _ _ _).trans (if_neg (show "digest" ≠ "operation" by decide))
  have hd : IndexMap.get (("digest", v) :: map) "digest" = some v :=
    (IndexMap.get_cons _ _ _).trans (if_pos rfl)
  unfold bound
  rw [List.all_cons, decide_eq_true (.inr rfl), Bool.true_and, ho, hd, Option.bind_some,
    Option.none_or]
  cases v.asStr with
  | none =>
    cases operation.or ((map.get "operation").bind Json.asStr) <;> exact ite_self _
  | some digest => rfl

private theorem bindingFields_eq (depth : Nat) {operation digest : Option String}
    {fields : IndexMap String Raw} (hn : fields.keys.Nodup)
    (ho : "operation" ∈ fields.keys → operation = none)
    (hd : "digest" ∈ fields.keys → digest = none) :
    bindingFields depth operation digest fields =
      (fields.readAll (Raw.value depth)).bind (bound operation digest) := by
  induction fields generalizing operation digest with
  | nil => cases operation <;> cases digest <;> rfl
  | cons e fields ih =>
    obtain ⟨key, raw⟩ := e
    obtain ⟨hk, hn'⟩ : key ∉ IndexMap.keys fields ∧ (IndexMap.keys fields).Nodup :=
      List.nodup_cons.mp hn
    have ht : ∀ {name : String}, name ∈ IndexMap.keys fields →
        name ∈ IndexMap.keys ((key, raw) :: fields) := List.mem_cons_of_mem _
    rw [bindingFields, IndexMap.readAll]
    split
    · next hkey =>
      subst hkey
      rw [ho List.mem_cons_self, string.effective_eq]
      cases raw.value depth with
      | none => rfl
      | some v =>
        change (v.asStr.bind fun operation ↦ bindingFields depth (some operation) digest fields) =
          ((IndexMap.readAll (Raw.value depth) fields).map (("operation", v) :: ·)).bind _
        have hi : ∀ operation, bindingFields depth (some operation) digest fields = _ :=
          fun operation ↦ ih hn' (fun hm ↦ absurd hm hk) (hd ∘ ht)
        simp only [hi, Option.bind_map, Function.comp_def, bound_operation]
        exact Option.bind_comm _ _
    · next ho' =>
      split
      · next hkey =>
        subst hkey
        rw [hd List.mem_cons_self, string.effective_eq]
        cases raw.value depth with
        | none => rfl
        | some v =>
          change (v.asStr.bind fun digest ↦ bindingFields depth operation (some digest) fields) =
            ((IndexMap.readAll (Raw.value depth) fields).map (("digest", v) :: ·)).bind _
          have hi : ∀ digest, bindingFields depth operation (some digest) fields = _ :=
            fun digest ↦ ih hn' (ho ∘ ht) (fun hm ↦ absurd hm hk)
          simp only [hi, Option.bind_map, Function.comp_def, bound_digest]
          exact Option.bind_comm _ _
      · next hd' =>
        have hb : ∀ v map, bound operation digest ((key, v) :: map) = none := by
          intro v map
          simp [bound, ho', hd']
        cases raw.value depth with
        | none => rfl
        | some v =>
          cases IndexMap.readAll (Raw.value depth) fields with
          | none => rfl
          | some map => exact (hb v map).symm

/-- The two elements that `PublicationBinding` takes from an array. -/
def bindingElements (depth : Nat) : List Raw → Option PublicationBinding
  | [operation, digest] =>
    (effective string.toVisitor depth operation).bind fun operation ↦
      (effective string.toVisitor depth digest).map fun digest ↦ ⟨operation, digest⟩
  | _ => none

/-- The visitor of `PublicationBinding`, which denies unknown fields. -/
def binding : TypeReader Kind.binding where
  visitScalar _ := none
  visitSeq := bindingElements
  visitMap depth fields := bindingFields depth none none fields
  scalar_eq s := by cases s <;> rfl
  seq_eq depth elements := by
    match elements with
    | [] => rw [Raw.values]; rfl
    | [raw] =>
      rw [Raw.values, Raw.values]
      cases raw.value depth with
      | none => rfl
      | some v => cases v <;> rfl
    | [operation, digest] =>
      rw [bindingElements, string.effective_eq, string.effective_eq, Raw.values, Raw.values,
        Raw.values]
      cases operation.value depth with
      | none => rfl
      | some v =>
        cases digest.value depth with
        | none => cases v <;> rfl
        | some w => cases v <;> cases w <;> rfl
    | a :: b :: c :: elements =>
      have hl : ∀ u v w vs, Kind.binding.ofJson (.array (u :: v :: w :: vs)) = none := by
        intro u v w vs
        cases u <;> cases v <;> rfl
      rw [Raw.values, Raw.values, Raw.values]
      cases a.value depth <;> cases b.value depth <;> cases c.value depth <;>
        cases Raw.values depth elements <;> first | rfl | exact (hl _ _ _ _).symm
  map_eq depth fields hn := bindingFields_eq depth hn (fun _ ↦ rfl) (fun _ ↦ rfl)

end TypeReader

/-- The visitor of `Value`, which goes into as many containers more. -/
def valueVisitor : Nat → Visitor Json
  | 0 =>
    { visitScalar s := some s.json
      visitSeq _ _ := none
      visitMap _ _ := none }
  | room + 1 =>
    { visitScalar s := some s.json
      visitSeq depth elements :=
        (elements.mapM (effective (valueVisitor room) depth)).map .array
      visitMap depth fields :=
        (IndexMap.readInto (effective (valueVisitor room) depth) [] fields).map .object }

/-- `Value::deserialize` of an effective value. -/
def readValue (depth : Nat) (raw : Raw) : Option Json :=
  effective (valueVisitor (127 - depth)) depth raw

private theorem values_eq_mapM (depth : Nat) (elements : List Raw) :
    Raw.values depth elements = elements.mapM (Raw.value depth) := by
  induction elements with
  | nil => rw [Raw.values]; rfl
  | cons raw elements ih =>
    rw [Raw.values, ih, List.mapM_cons]
    cases raw.value depth with
    | none => rfl
    | some v => cases elements.mapM (Raw.value depth) <;> rfl

private theorem effective_valueVisitor {room depth : Nat} (h : 127 ≤ room + depth) (raw : Raw) :
    effective (valueVisitor room) depth raw = raw.value depth := by
  induction room generalizing depth raw with
  | zero =>
    have hd : descend depth = none := if_pos (by omega)
    rw [effective_eq (fun _ ↦ rfl) (by simp [hd]) (by simp [hd])]
    exact Option.bind_fun_some _
  | succ room ih =>
    have hi : ∀ d, descend depth = some d →
        effective (valueVisitor room) d = Raw.value d := by
      intro d hd
      unfold descend at hd
      split at hd
      · cases hd
      · cases hd
        exact funext fun raw ↦ ih (by omega) raw
    refine (@effective_eq Json (valueVisitor (room + 1)) some depth (fun _ ↦ rfl) ?_ ?_
      raw).trans (Option.bind_fun_some _)
    · intro d hd elements
      change (elements.mapM (effective (valueVisitor room) d)).map Json.array = _
      rw [hi d hd, values_eq_mapM]
      exact Option.map_eq_bind
    · intro d hd fields hn
      change (IndexMap.readInto (effective (valueVisitor room) d) [] fields).map Json.object = _
      rw [hi d hd, IndexMap.readInto_eq _ hn (fun _ _ ↦ List.not_mem_nil)]
      simp only [List.nil_append, Option.map_id']
      exact Option.map_eq_bind

theorem readValue_eq (depth : Nat) (raw : Raw) :
    readValue depth raw = raw.value depth :=
  effective_valueVisitor (by omega) raw

/-- A field of the record read from an effective value, as its codec reads the decoded one. -/
structure FieldReader (c : Codec α) where
  read : Nat → Raw → Option α
  read_eq : ∀ depth raw, read depth raw = (raw.value depth).bind fun v ↦ c.read (some v)

namespace FieldReader

/-- `#[serde(default)]`. -/
def default {k : Kind α} (r : TypeReader k) (d : α) : FieldReader (.default k d) where
  read := effective r.toVisitor
  read_eq depth raw := r.effective_eq depth raw

private theorem eq_null {depth : Nat} {raw : Raw} (h : raw.value depth = some .null) :
    raw = .scalar (some .null) := by
  cases raw with
  | scalar token =>
    rw [Raw.value] at h
    obtain ⟨s, rfl, hs⟩ := Option.map_eq_some_iff.mp h
    cases s with
    | null => rfl
    | _ => cases hs
  | array elements =>
    rw [Raw.value] at h
    split at h
    · cases h
    · obtain ⟨vs, -, hv⟩ := Option.map_eq_some_iff.mp h
      cases hv
  | object entries =>
    rw [Raw.value] at h
    split at h
    · cases h
    · obtain ⟨map, -, hm⟩ := Option.map_eq_some_iff.mp h
      cases hm

theorem effectiveOption_eq {k : Kind α} {read : Nat → Raw → Option α}
    (h : ∀ depth raw, read depth raw = (raw.value depth).bind k.ofJson) (depth : Nat)
    (raw : Raw) :
    effectiveOption read depth raw =
      (raw.value depth).bind fun v ↦ (Codec.optional k).read (some v) := by
  have hv : ∀ v, v ≠ .null → (Codec.optional k).read (some v) = (k.ofJson v).map some := by
    intro v hv
    cases v <;> first | rfl | exact absurd rfl hv
  unfold effectiveOption
  split
  · rw [Raw.value]; rfl
  · next hn =>
    rw [h]
    cases hr : raw.value depth with
    | none => rfl
    | some v =>
      have hne : v ≠ .null := fun he ↦ hn (eq_null (he ▸ hr))
      exact (hv v hne).symm

/-- `Option` of a derived type. -/
def optional {k : Kind α} (r : TypeReader k) : FieldReader (.optional k) where
  read := effectiveOption (effective r.toVisitor)
  read_eq := effectiveOption_eq r.effective_eq

/-- `Option<Value>`. -/
def optionalValue : FieldReader (.optional .value) where
  read := effectiveOption readValue
  read_eq := effectiveOption_eq fun depth raw ↦ by
    rw [readValue_eq]
    exact (Option.bind_fun_some _).symm

end FieldReader

end PtySpec.Metadata
