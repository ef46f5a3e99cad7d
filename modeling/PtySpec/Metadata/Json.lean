import PtySpec.Lib.IndexMap

/-!
# JSON values of the registry

`serde_json::Value` with its fields in order. Two values are equal for serde when they are
the same up to the order of fields and the sign of a zero: `normal` forgets both.
-/

namespace PtySpec.Metadata

open Lib

/-- `serde_json::Value`; a number is an integer or the bits of a finite `f64`. -/
inductive Json where
  | null
  | bool (b : Bool)
  | integer (n : Int)
  | float (bits : UInt64)
  | string (s : String)
  | array (xs : List Json)
  | object (fields : List (String × Json))
  deriving Repr

/-- `serde_json::Map`. -/
abbrev JsonMap := IndexMap String Json

namespace Json

mutual
private def decEq : (a b : Json) → Decidable (a = b)
  | .null, .null => isTrue rfl
  | .bool a, .bool b => decidable_of_iff (a = b) (by simp)
  | .integer a, .integer b => decidable_of_iff (a = b) (by simp)
  | .float a, .float b => decidable_of_iff (a = b) (by simp)
  | .string a, .string b => decidable_of_iff (a = b) (by simp)
  | .array a, .array b =>
    have := decEqList a b
    decidable_of_iff (a = b) (by simp)
  | .object a, .object b =>
    have := decEqFields a b
    decidable_of_iff (a = b) (by simp)
  | .null, .bool _ | .null, .integer _ | .null, .float _ | .null, .string _ | .null, .array _
  | .null, .object _ | .bool _, .null | .bool _, .integer _ | .bool _, .float _
  | .bool _, .string _ | .bool _, .array _ | .bool _, .object _ | .integer _, .null
  | .integer _, .bool _ | .integer _, .float _ | .integer _, .string _ | .integer _, .array _
  | .integer _, .object _ | .float _, .null | .float _, .bool _ | .float _, .integer _
  | .float _, .string _ | .float _, .array _ | .float _, .object _ | .string _, .null
  | .string _, .bool _ | .string _, .integer _ | .string _, .float _ | .string _, .array _
  | .string _, .object _ | .array _, .null | .array _, .bool _ | .array _, .integer _
  | .array _, .float _ | .array _, .string _ | .array _, .object _ | .object _, .null
  | .object _, .bool _ | .object _, .integer _ | .object _, .float _ | .object _, .string _
  | .object _, .array _ => isFalse (by simp)
private def decEqList : (a b : List Json) → Decidable (a = b)
  | [], [] => isTrue rfl
  | a :: as, b :: bs =>
    have := decEq a b
    have := decEqList as bs
    decidable_of_iff (a = b ∧ as = bs) (by simp)
  | [], _ :: _ | _ :: _, [] => isFalse (by simp)
private def decEqFields : (a b : List (String × Json)) → Decidable (a = b)
  | [], [] => isTrue rfl
  | (k, a) :: as, (l, b) :: bs =>
    have := decEq a b
    have := decEqFields as bs
    decidable_of_iff ((k = l ∧ a = b) ∧ as = bs) (by simp)
  | [], _ :: _ | _ :: _, [] => isFalse (by simp)
end

/-- Values are compared structurally; serde's equality is that of normal forms. -/
instance : DecidableEq Json := decEq

mutual
/-- A value with the fields of its objects sorted, and no negative zero. -/
def normal : Json → Json
  | .float bits => .float (if bits = 0x8000000000000000 then 0 else bits)
  | .array xs => .array (normalList xs)
  | .object fields => .object ((normalFields fields).mergeSort fun a b ↦ a.1 ≤ b.1)
  | v => v
/-- The values of an array in normal form. -/
def normalList : List Json → List Json
  | [] => []
  | v :: vs => v.normal :: normalList vs
/-- The values of an object in normal form. -/
def normalFields : List (String × Json) → List (String × Json)
  | [] => []
  | (k, v) :: fields => (k, v.normal) :: normalFields fields
end

/-- `Value::as_str`. -/
def asStr : Json → Option String
  | .string s => some s
  | _ => none

/-- `Value::get` with a key. -/
def get (v : Json) (key : String) : Option Json :=
  match v with
  | .object fields => IndexMap.get fields key
  | _ => none

private theorem get_normalFields (fields : JsonMap) (key : String) :
    IndexMap.get (normalFields fields) key = (fields.get key).map normal := by
  induction fields with
  | nil => rfl
  | cons e fields ih =>
    obtain ⟨k, v⟩ := e
    rw [normalFields, IndexMap.get_cons, IndexMap.get_cons, ih]
    split <;> rfl

/-- A stable sort leaves the first entry of a key first. -/
private theorem get_mergeSort (fields : JsonMap) (key : String) :
    IndexMap.get (fields.mergeSort fun a b ↦ a.1 ≤ b.1) key = fields.get key := by
  have hg : ∀ m : JsonMap, m.get key = (m.filter (·.1 = key)).head?.map (·.2) := by
    intro m
    rw [List.head?_filter]
    rfl
  have hs : (fields.filter (·.1 = key)).Sublist (fields.mergeSort fun a b ↦ a.1 ≤ b.1) := by
    refine List.sublist_mergeSort (fun a b c ↦ by simpa using le_trans)
      (fun a b ↦ by simpa using le_total a.1 b.1) ?_ List.filter_sublist
    refine List.pairwise_of_forall_mem_list fun a ha b hb ↦ ?_
    have ha := (List.mem_filter.mp ha).2
    have hb := (List.mem_filter.mp hb).2
    simp only [decide_eq_true_eq] at ha hb ⊢
    rw [ha, hb]
  have hf := hs.filter (·.1 = key)
  simp only [List.filter_filter, Bool.and_self] at hf
  have he := hf.eq_of_length ((List.mergeSort_perm fields _).filter _).length_eq.symm
  rw [hg, hg fields, he]

/-- A key of a value in normal form has its value in normal form. -/
theorem get_normal (v : Json) (key : String) : v.normal.get key = (v.get key).map normal := by
  cases v with
  | object fields =>
    rw [normal]
    exact (get_mergeSort _ key).trans (get_normalFields fields key)
  | _ => rfl

end Json
end PtySpec.Metadata
