import PtySpec.Lib.Utf8
import PtySpec.Lib.Words
import PtySpec.Vt.Base64

/-!
# The grammar of read requests

What `ReadRequest::parse`, `crates/pty-terminal/src/enhanced_paste.rs:89-149`, accepts, as a
grammar: fields in any order, and the types that are asked for.
-/

namespace PtySpec.Vt

open Lib

/-! ### One field -/

private theorem splitOnce_cons (sep x : UInt8) (bytes : List UInt8) :
    splitOnce sep (x :: bytes) = if x = sep then some ([], bytes)
      else (splitOnce sep bytes).map fun p ↦ (x :: p.1, p.2) := by
  unfold splitOnce
  by_cases hx : x = sep
  · subst hx
    rw [if_pos List.mem_cons_self, if_pos rfl, List.takeWhile_cons_of_neg (by simp),
      List.dropWhile_cons_of_neg (by simp)]
    rfl
  · rw [if_neg hx, List.takeWhile_cons_of_pos (by simpa using hx),
      List.dropWhile_cons_of_pos (by simpa using hx)]
    by_cases hm : sep ∈ bytes
    · rw [if_pos hm, if_pos (List.mem_cons_of_mem x hm)]
      rfl
    · rw [if_neg hm, if_neg (by simpa [hm] using Ne.symm hx)]
      rfl

/-- Text is cut at the first separator. -/
theorem splitOnce_eq_some {sep : UInt8} {bytes a b : List UInt8} :
    splitOnce sep bytes = some (a, b) ↔ bytes = a ++ sep :: b ∧ sep ∉ a := by
  induction bytes generalizing a with
  | nil => simp [splitOnce]
  | cons x bytes ih =>
    rw [splitOnce_cons]
    by_cases hx : x = sep
    · subst hx
      rw [if_pos rfl]
      cases a with
      | nil => simp
      | cons y a =>
        simp only [Option.some.injEq, Prod.mk.injEq, List.nil_eq, List.cons_append,
          List.cons.injEq, List.mem_cons, not_or, reduceCtorEq, false_and, false_iff]
        exact fun h ↦ h.2.1 h.1.1
    · rw [if_neg hx]
      cases a with
      | nil => simp [hx]
      | cons y a =>
        have hi := ih (a := a)
        simp only [Option.map_eq_some_iff, Prod.exists, Prod.mk.injEq, List.cons.injEq,
          List.cons_append, List.mem_cons, not_or]
        constructor
        · rintro ⟨c, d, hs, ⟨rfl, rfl⟩, rfl⟩
          obtain ⟨rfl, hn⟩ := hi.mp hs
          exact ⟨⟨rfl, rfl⟩, Ne.symm hx, hn⟩
        · rintro ⟨⟨rfl, hb⟩, -, hn⟩
          exact ⟨a, b, hi.mpr ⟨hb, hn⟩, ⟨rfl, rfl⟩, rfl⟩

/-- What a field may be. -/
structure Admitted (key value : List UInt8) : Prop where
  loc : key = ascii "loc" → value = ascii "primary"
  id : key = ascii "id" → validId value = true
  pw : key = ascii "pw" → ∃ data, value = base64 data
  name : key = ascii "name" → ∃ data, value = base64 data ∧ Utf8 data
  answer : key ≠ ascii "status" ∧ key ≠ ascii "mime"

/-- An id that an answer can echo. -/
def pasteId (value : List UInt8) : Option PasteId :=
  if h : validId value = true then some ⟨value, h⟩ else none

/-- The keys with one more field. -/
def Keys.put (k : Keys) (key value : List UInt8) : Keys where
  kind := if key = ascii "type" then some value else k.kind
  location := if key = ascii "loc" then .primary else k.location
  id := if key = ascii "id" then pasteId value else k.id
  password := if key = ascii "pw" then some value else k.password
  name := if key = ascii "name" then decode value else k.name
  seen := if KEYS.contains key then key :: k.seen else k.seen

private theorem isUtf8_iff (bytes : List UInt8) : isUtf8 bytes = true ↔ Utf8 bytes :=
  validateUTF8_iff bytes

private theorem admitted_iff {key value : List UInt8} :
    Admitted key value ↔ (key = ascii "loc" → value = ascii "primary") ∧
      (key = ascii "id" → validId value = true) ∧
      (key = ascii "pw" → ∃ data, value = base64 data) ∧
      (key = ascii "name" → ∃ data, value = base64 data ∧ Utf8 data) ∧
      key ≠ ascii "status" ∧ key ≠ ascii "mime" :=
  ⟨fun h ↦ ⟨h.loc, h.id, h.pw, h.name, h.answer⟩, fun ⟨hl, hi, hp, hn, ha⟩ ↦ ⟨hl, hi, hp, hn, ha⟩⟩

/-- A field is read when it may be there and its key is not known already. -/
theorem Keys.read_eq_some {k k' : Keys} {pair : List UInt8} :
    k.read pair = some k' ↔ ∃ key value, splitOnce 0x3d pair = some (key, value) ∧
      key ∉ k.seen ∧ Admitted key value ∧ k.put key value = k' := by
  unfold Keys.read
  cases hs : splitOnce 0x3d pair with
  | none => simp
  | some kv =>
    obtain ⟨key, value⟩ := kv
    simp only [Option.bind_eq_bind, Option.bind_some, Option.some.injEq, Prod.mk.injEq,
      ↓existsAndEq, true_and]
    by_cases hseen : key ∈ k.seen
    · simp [hseen]
    rw [if_neg hseen]
    by_cases ht : key = ascii "type"
    · subst ht
      simp +decide [admitted_iff, Keys.put, hseen]
    by_cases hl : key = ascii "loc"
    · subst hl
      simp +decide [admitted_iff, Keys.put, hseen]
    by_cases hi : key = ascii "id"
    · subst hi
      simp +decide [admitted_iff, Keys.put, hseen]
      by_cases hv : validId value = true <;> simp [pasteId, hv]
    by_cases hp : key = ascii "pw"
    · subst hp
      simp +decide [admitted_iff, Keys.put, hseen]
      simp only [← decode_eq_some_iff]
      cases decode value <;> simp
    by_cases hn : key = ascii "name"
    · subst hn
      simp +decide [admitted_iff, Keys.put, hseen]
      simp only [← decode_eq_some_iff, ← isUtf8_iff]
      cases decode value with
      | none => simp
      | some data => by_cases hd : isUtf8 data = true <;> simp [hd]
    have hput : key ∉ KEYS → k.put key value = k := by
      intro hk
      simp [Keys.put, ht, hl, hi, hp, hn, hk]
    by_cases ha : key = ascii "status" ∨ key = ascii "mime"
    · rw [if_neg ht, if_neg hl, if_neg hi, if_neg hp, if_neg hn, if_pos ha]
      refine ⟨fun h ↦ (nomatch h), fun ⟨_, hadm, _⟩ ↦ ?_⟩
      exact absurd ha (not_or.mpr hadm.answer)
    · have hk : key ∉ KEYS := by
        simpa [KEYS, ht, hl, hi, hp, hn] using ha
      rw [if_neg ht, if_neg hl, if_neg hi, if_neg hp, if_neg hn, if_neg ha, if_neg hk, hput hk]
      have hadm : Admitted key value :=
        ⟨fun h ↦ absurd h hl, fun h ↦ absurd h hi, fun h ↦ absurd h hp, fun h ↦ absurd h hn,
          not_or.mp ha⟩
      exact ⟨fun h ↦ ⟨hseen, hadm, Option.some.inj h⟩, fun h ↦ congrArg some h.2.2⟩

/-! ### All fields -/

/-- A key and its value. -/
abbrev RequestField : Type := List UInt8 × List UInt8

/-- `key=value`. -/
def fieldText (f : RequestField) : List UInt8 := f.1 ++ 0x3d :: f.2

/-- The keys that fields give, starting from some. -/
def Keys.putAll (k : Keys) (fields : List RequestField) : Keys :=
  fields.foldl (fun k f ↦ k.put f.1 f.2) k

/-- Each key that the protocol defines is there once at most. -/
def Single (fields : List RequestField) : Prop :=
  ((fields.map Prod.fst).filter KEYS.contains).Nodup

private theorem not_seen_put {k : Keys} {key value other : List UInt8} :
    other ∉ (k.put key value).seen ↔ other ∉ k.seen ∧ (key ∈ KEYS → other ≠ key) := by
  change other ∉ (if KEYS.contains key then key :: k.seen else k.seen) ↔ _
  simp only [List.contains_iff_mem]
  split
  · next h => simp [h, and_comm]
  · next h => simp [h]

private theorem single_cons {f : RequestField} {fields : List RequestField} :
    Single (f :: fields) ↔ (f.1 ∈ KEYS → ∀ g ∈ fields, g.1 ≠ f.1) ∧ Single fields := by
  unfold Single
  rw [List.map_cons]
  by_cases h : f.1 ∈ KEYS
  · rw [List.filter_cons_of_pos (by simpa using h), List.nodup_cons]
    simp only [List.mem_filter, List.mem_map, List.contains_iff_mem, h, and_true, not_exists,
      not_and, forall_const]
  · rw [List.filter_cons_of_neg (by simpa using h)]
    simp [h]

/-- The fields are read, one after the other. -/
theorem foldlM_read {pairs : List (List UInt8)} {k k' : Keys} :
    pairs.foldlM Keys.read k = some k' ↔ ∃ fields : List RequestField,
      pairs = fields.map fieldText ∧ (∀ f ∈ fields, 0x3d ∉ f.1 ∧ Admitted f.1 f.2) ∧
        (∀ f ∈ fields, f.1 ∉ k.seen) ∧ Single fields ∧ k.putAll fields = k' := by
  induction pairs generalizing k with
  | nil =>
    refine ⟨fun h ↦ ⟨[], rfl, by simp, by simp, .nil, Option.some.inj h⟩, ?_⟩
    rintro ⟨fields, hp, -, -, -, rfl⟩
    rw [List.map_eq_nil_iff.mp hp.symm]
    rfl
  | cons pair pairs ih =>
    rw [List.foldlM_cons]
    constructor
    · intro h
      obtain ⟨k₁, h₁, h₂⟩ := Option.bind_eq_some_iff.mp h
      obtain ⟨key, value, hs, hseen, hadm, rfl⟩ := Keys.read_eq_some.mp h₁
      obtain ⟨fields, rfl, hall, hnew, hone, rfl⟩ := ih.mp h₂
      obtain ⟨rfl, hkey⟩ := splitOnce_eq_some.mp hs
      refine ⟨(key, value) :: fields, rfl, ?_, ?_, ?_, rfl⟩
      · exact List.forall_mem_cons.mpr ⟨⟨hkey, hadm⟩, hall⟩
      · exact List.forall_mem_cons.mpr ⟨hseen, fun f hf ↦ (not_seen_put.mp (hnew f hf)).1⟩
      · exact single_cons.mpr ⟨fun hk f hf ↦ (not_seen_put.mp (hnew f hf)).2 hk, hone⟩
    · rintro ⟨fields, hp, hall, hnew, hone, rfl⟩
      cases fields with
      | nil => cases hp
      | cons f fields =>
        obtain ⟨rfl, rfl⟩ := List.cons_eq_cons.mp hp
        rw [List.forall_mem_cons] at hall hnew
        obtain ⟨hne, hone⟩ := single_cons.mp hone
        have hread : k.read (fieldText f) = some (k.put f.1 f.2) :=
          Keys.read_eq_some.mpr ⟨f.1, f.2, splitOnce_eq_some.mpr ⟨rfl, hall.1.1⟩, hnew.1,
            hall.1.2, rfl⟩
        rw [hread, Option.bind_eq_bind, Option.bind_some]
        exact ih.mpr ⟨fields, rfl, hall.2,
          fun g hg ↦ not_seen_put.mpr ⟨hnew.2 g hg, fun hk ↦ hne hk g hg⟩, hone, rfl⟩

/-! ### The values of the keys -/

section Values

variable {β : Type} {p : Keys → β} {g : List UInt8 → β} {key : List UInt8}
variable {fields : List RequestField} {k : Keys}

/-- A value that only the fields of one key set. -/
private theorem putAll_of_not_mem
    (hp : ∀ (k : Keys) (other value : List UInt8),
      p (k.put other value) = if other = key then g value else p k)
    (hn : ∀ f ∈ fields, f.1 ≠ key) : p (k.putAll fields) = p k := by
  induction fields generalizing k with
  | nil => rfl
  | cons f fields ih =>
    rw [List.forall_mem_cons] at hn
    exact (ih hn.2).trans ((hp k f.1 f.2).trans (if_neg hn.1))

private theorem putAll_of_mem
    (hp : ∀ (k : Keys) (other value : List UInt8),
      p (k.put other value) = if other = key then g value else p k)
    (hk : key ∈ KEYS) (hs : Single fields) {value : List UInt8} (hm : (key, value) ∈ fields) :
    p (k.putAll fields) = g value := by
  induction fields generalizing k with
  | nil => cases hm
  | cons f fields ih =>
    obtain ⟨hone, hs⟩ := single_cons.mp hs
    obtain rfl | hm := List.mem_cons.mp hm
    · exact (putAll_of_not_mem hp (hone hk)).trans ((hp k key value).trans (if_pos rfl))
    · exact ih hs hm

/-- A key that is optional has the value of its field. -/
private theorem putAll_eq_some {γ : Type} {p : Keys → Option γ} {g : List UInt8 → Option γ}
    (hp : ∀ (k : Keys) (other value : List UInt8),
      p (k.put other value) = if other = key then g value else p k)
    (hk : key ∈ KEYS) (hs : Single fields) (h0 : p k = none) {c : γ} :
    p (k.putAll fields) = some c ↔ ∃ value, (key, value) ∈ fields ∧ g value = some c := by
  by_cases hm : ∃ value, (key, value) ∈ fields
  · obtain ⟨value, hm⟩ := hm
    rw [putAll_of_mem hp hk hs hm]
    refine ⟨fun h ↦ ⟨value, hm, h⟩, ?_⟩
    rintro ⟨other, ho, hg⟩
    rw [← hg, ← putAll_of_mem (k := k) hp hk hs hm, putAll_of_mem hp hk hs ho]
  · rw [putAll_of_not_mem hp fun f hf he ↦ hm ⟨f.2, he ▸ hf⟩, h0]
    refine ⟨fun h ↦ (nomatch h), ?_⟩
    rintro ⟨value, ho, -⟩
    exact absurd ⟨value, ho⟩ hm

end Values

/-! ### The grammar -/

/-- The types of a list: its words. -/
def words (list : List UInt8) : List (List UInt8) :=
  (list.splitOnP isAsciiWhitespace).filter (!·.isEmpty)

/-- A read request of fields, in any order, and a list of types. -/
structure Request (fields : List RequestField) (list : List UInt8) (r : ReadRequest) :
    Prop where
  plain : ∀ f ∈ fields, 0x3d ∉ f.1 ∧ 0x3a ∉ fieldText f ∧ 0x3b ∉ fieldText f
  text : ∀ f ∈ fields, Utf8 (fieldText f)
  admitted : ∀ f ∈ fields, Admitted f.1 f.2
  single : Single fields
  read : (ascii "type", ascii "read") ∈ fields
  location : r.location = .primary ↔ ∃ value, (ascii "loc", value) ∈ fields
  id : ∀ id, r.id = some id ↔ (ascii "id", id.val) ∈ fields
  password : ∀ value, r.password = some value ↔ (ascii "pw", value) ∈ fields
  name : ∀ name, r.name = some name ↔ (ascii "name", base64 name) ∈ fields
  utf8 : Utf8 list
  mimes : r.mimes = words list ∧ words list ≠ [] ∧ ∀ mime ∈ words list, validMime mime = true

/-- The text of a request. -/
def requestText (fields : List RequestField) (list : List UInt8) : List UInt8 :=
  ascii "5522;" ++ [0x3a].intercalate (fields.map fieldText) ++ 0x3b :: base64 list

/-- What parsing does, step by step. -/
private theorem parse_steps {text : List UInt8} {r : ReadRequest} :
    ReadRequest.parse text = some r ↔ text.length ≤ MAX_METADATA ∧
      ∃ rest, text = ascii "5522;" ++ rest ∧
      ∃ metadata payload, (splitOnce 0x3b rest).getD (rest, []) = (metadata, payload) ∧
      Utf8 metadata ∧ ∃ k, (metadata.splitOn 0x3a).foldlM Keys.read {} = some k ∧
      k.kind = some (ascii "read") ∧ ∃ list, decode payload = some list ∧ Utf8 list ∧
      words list ≠ [] ∧ (∀ mime ∈ words list, validMime mime = true) ∧
      ⟨words list, k.location, k.id, k.password, k.name⟩ = r := by
  unfold ReadRequest.parse
  by_cases hlen : MAX_METADATA < text.length
  · simp [hlen]
  by_cases hpre : (ascii "5522;").isPrefixOf text = true
  · obtain ⟨rest, rfl⟩ := List.isPrefixOf_iff_prefix.mp hpre
    have hdrop : (ascii "5522;" ++ rest).drop 5 = rest := rfl
    rw [hdrop, List.isPrefixOf_iff_prefix.mpr ⟨rest, rfl⟩]
    have hrest : ∀ other, ascii "5522;" ++ rest = ascii "5522;" ++ other ↔ other = rest :=
      fun other ↦ by rw [List.append_cancel_left_eq, eq_comm]
    simp only [hlen, hrest, not_lt.mp hlen, true_and, exists_eq_left]
    generalize (splitOnce 0x3b rest).getD (rest, []) = cut
    obtain ⟨metadata, payload⟩ := cut
    simp only [Prod.mk.injEq, ↓existsAndEq, true_and, ← isUtf8_iff]
    by_cases hm : isUtf8 metadata = true
    · cases (metadata.splitOn 0x3a).foldlM Keys.read {} with
      | none => simp [hm]
      | some k =>
        by_cases hkind : k.kind = some (ascii "read")
        · cases decode payload with
          | none => simp [hm]
          | some list =>
            by_cases hl : isUtf8 list = true
            · simp [hm, hkind, hl, words]
              rw [and_assoc]
              exact and_congr_right fun _ ↦ and_congr_left' <|
                forall₂_congr fun _ _ ↦ or_iff_not_imp_left
            · simp [hm, hl]
        · simp [hm, hkind]
    · simp [hm]
  · have hno : ∀ rest, text ≠ ascii "5522;" ++ rest := by
      rintro rest rfl
      exact hpre (List.isPrefixOf_iff_prefix.mpr ⟨rest, rfl⟩)
    simp [hlen, hpre, hno]

/-- The keys of a request. -/
private theorem request_iff {fields : List RequestField} {list : List UInt8} {r : ReadRequest}
    (hplain : ∀ f ∈ fields, 0x3d ∉ f.1 ∧ 0x3a ∉ fieldText f ∧ 0x3b ∉ fieldText f)
    (htext : ∀ f ∈ fields, Utf8 (fieldText f)) (hadm : ∀ f ∈ fields, Admitted f.1 f.2)
    (hs : Single fields) (hl : Utf8 list) (hw : words list ≠ [])
    (hv : ∀ mime ∈ words list, validMime mime = true) :
    Request fields list r ↔ (Keys.putAll {} fields).kind = some (ascii "read") ∧
      ⟨words list, (Keys.putAll {} fields).location, (Keys.putAll {} fields).id,
        (Keys.putAll {} fields).password, (Keys.putAll {} fields).name⟩ = r := by
  have hkind : ∀ v, (Keys.putAll {} fields).kind = some v ↔ (ascii "type", v) ∈ fields := by
    intro v
    rw [putAll_eq_some (p := Keys.kind) (g := some) (fun _ _ _ ↦ rfl) (by decide) hs rfl]
    simp
  have hlocation : (Keys.putAll {} fields).location = .primary ↔
      ∃ value, (ascii "loc", value) ∈ fields := by
    by_cases hm : ∃ value, (ascii "loc", value) ∈ fields
    · obtain ⟨value, hm⟩ := hm
      have := putAll_of_mem (p := Keys.location) (g := fun _ ↦ .primary) (k := {})
        (fun _ _ _ ↦ rfl) (by decide) hs hm
      exact ⟨fun _ ↦ ⟨value, hm⟩, fun _ ↦ this⟩
    · have := putAll_of_not_mem (p := Keys.location) (g := fun _ ↦ .primary) (k := {})
        (fun _ _ _ ↦ rfl) fun f hf he ↦ hm ⟨f.2, he ▸ hf⟩
      rw [this]
      exact ⟨fun h ↦ (nomatch h), fun h ↦ absurd h hm⟩
  have hid : ∀ i, (Keys.putAll {} fields).id = some i ↔ (ascii "id", i.val) ∈ fields := by
    intro i
    rw [putAll_eq_some (p := Keys.id) (g := pasteId) (fun _ _ _ ↦ rfl) (by decide) hs rfl]
    constructor
    · rintro ⟨value, hm, hg⟩
      unfold pasteId at hg
      split at hg
      · cases hg
        exact hm
      · cases hg
    · exact fun hm ↦ ⟨i.val, hm, dif_pos i.property⟩
  have hpw : ∀ v, (Keys.putAll {} fields).password = some v ↔ (ascii "pw", v) ∈ fields := by
    intro v
    rw [putAll_eq_some (p := Keys.password) (g := some) (fun _ _ _ ↦ rfl) (by decide) hs rfl]
    simp
  have hname : ∀ n, (Keys.putAll {} fields).name = some n ↔
      (ascii "name", base64 n) ∈ fields := by
    intro n
    rw [putAll_eq_some (p := Keys.name) (g := decode) (fun _ _ _ ↦ rfl) (by decide) hs rfl]
    simp [decode_eq_some_iff]
  constructor
  · intro h
    refine ⟨(hkind _).mpr h.read, ?_⟩
    obtain ⟨mimes, location, id, password, name⟩ := r
    have hmimes : mimes = words list := h.mimes.1
    have hloc : location = (Keys.putAll {} fields).location := by
      have := h.location.trans hlocation.symm
      cases location <;> cases hk : (Keys.putAll {} fields).location <;> simp_all
    rw [hmimes, hloc]
    congr 1
    · exact Option.ext fun i ↦ (hid i).trans (h.id i).symm
    · exact Option.ext fun i ↦ (hpw i).trans (h.password i).symm
    · exact Option.ext fun i ↦ (hname i).trans (h.name i).symm
  · rintro ⟨hk, rfl⟩
    exact ⟨hplain, htext, hadm, hs, (hkind _).mp hk, hlocation, hid, hpw, hname, hl, rfl, hw, hv⟩

/-- A text is parsed as a request exactly when it is the text of one. -/
theorem parse_eq_some {text : List UInt8} {r : ReadRequest} :
    ReadRequest.parse text = some r ↔ text.length ≤ MAX_METADATA ∧
      ∃ fields list, text = requestText fields list ∧ Request fields list r := by
  rw [parse_steps]
  refine and_congr_right fun _ ↦ ?_
  constructor
  · rintro ⟨rest, rfl, metadata, payload, hcut, hm, k, hk, hkind, list, hd, hl, hw, hv, rfl⟩
    obtain ⟨fields, hp, hall, -, hs, rfl⟩ := foldlM_read.mp hk
    obtain rfl := decode_eq_some_iff.mp hd
    have hmeta : metadata = [0x3a].intercalate (fields.map fieldText) := by
      rw [← hp, List.intercalate_splitOn]
    cases hsplit : splitOnce 0x3b rest with
    | none =>
      -- without a payload no type is asked for
      rw [hsplit] at hcut
      obtain ⟨-, hnil⟩ := Prod.mk.inj hcut
      rw [base64_eq_nil.mp hnil.symm] at hw
      exact absurd rfl hw
    | some cut =>
      rw [hsplit] at hcut
      obtain rfl : cut = (metadata, base64 list) := hcut
      obtain ⟨rfl, hsemi⟩ := splitOnce_eq_some.mp hsplit
      have hmem : ∀ f ∈ fields, fieldText f ∈ metadata.splitOn 0x3a := fun f hf ↦
        hp ▸ List.mem_map_of_mem hf
      have hplain : ∀ f ∈ fields, 0x3d ∉ f.1 ∧ 0x3a ∉ fieldText f ∧ 0x3b ∉ fieldText f := by
        refine fun f hf ↦ ⟨(hall f hf).1, not_mem_of_mem_splitOn _ (hmem f hf), fun hx ↦ ?_⟩
        exact hsemi (hmeta ▸ mem_intercalate (List.mem_map_of_mem hf) hx)
      have htext : ∀ f ∈ fields, Utf8 (fieldText f) := by
        rw [hmeta, utf8_intercalate (by decide)] at hm
        exact fun f hf ↦ hm _ (List.mem_map_of_mem hf)
      refine ⟨fields, list, ?_, (request_iff hplain htext (fun f hf ↦ (hall f hf).2) hs hl hw
        hv).mpr ⟨hkind, rfl⟩⟩
      rw [requestText, ← hmeta, List.append_assoc]
  · rintro ⟨fields, list, rfl, hr⟩
    obtain ⟨-, hw, hv⟩ := hr.mimes
    obtain ⟨hkind, hr'⟩ := (request_iff hr.plain hr.text hr.admitted hr.single hr.utf8 hw
      hv).mp hr
    have hne : fields.map fieldText ≠ [] := by
      have := List.ne_nil_of_mem hr.read
      simpa using this
    have hsplit : ([0x3a].intercalate (fields.map fieldText)).splitOn 0x3a =
        fields.map fieldText := by
      refine List.splitOn_intercalate 0x3a (fun l hl ↦ ?_) hne
      obtain ⟨f, hf, rfl⟩ := List.mem_map.mp hl
      exact (hr.plain f hf).2.1
    refine ⟨_, List.append_assoc .., [0x3a].intercalate (fields.map fieldText), base64 list,
      ?_, ?_, _, ?_, hkind, list, decode_eq_some_iff.mpr rfl, hr.utf8, hw, hv, hr'⟩
    · rw [splitOnce_eq_some.mpr ⟨rfl, not_mem_intercalate (by decide) fun p hp ↦ ?_⟩]
      · rfl
      · obtain ⟨f, hf, rfl⟩ := List.mem_map.mp hp
        exact (hr.plain f hf).2.2
    · rw [utf8_intercalate (by decide)]
      intro p hp
      obtain ⟨f, hf, rfl⟩ := List.mem_map.mp hp
      exact hr.text f hf
    · rw [hsplit]
      exact foldlM_read.mpr ⟨fields, rfl, fun f hf ↦ ⟨(hr.plain f hf).1, hr.admitted f hf⟩,
        fun _ _ ↦ List.not_mem_nil, hr.single, rfl⟩

/-! ### The order of the fields -/

/-- The text of a payload with some parts of metadata, and a payload or none. -/
def partsText (parts : List (List UInt8)) (payload : Option (List UInt8)) : List UInt8 :=
  ascii "5522;" ++ [0x3a].intercalate parts ++
    (payload.map fun payload ↦ 0x3b :: payload).getD []

theorem Request.perm {fields fields' : List RequestField} {list : List UInt8} {r : ReadRequest}
    (h : Request fields list r) (hp : fields.Perm fields') : Request fields' list r where
  plain f hf := h.plain f (hp.mem_iff.mpr hf)
  text f hf := h.text f (hp.mem_iff.mpr hf)
  admitted f hf := h.admitted f (hp.mem_iff.mpr hf)
  single := ((hp.map Prod.fst).filter _).nodup_iff.mp h.single
  read := hp.mem_iff.mp h.read
  location := by simpa only [← hp.mem_iff] using h.location
  id := by simpa only [← hp.mem_iff] using h.id
  password := by simpa only [← hp.mem_iff] using h.password
  name := by simpa only [← hp.mem_iff] using h.name
  utf8 := h.utf8
  mimes := h.mimes

private theorem perm_map {fields : List RequestField} {parts : List (List UInt8)}
    (h : (fields.map fieldText).Perm parts) :
    ∃ fields', fields.Perm fields' ∧ parts = fields'.map fieldText := by
  generalize hmap : fields.map fieldText = texts at h
  induction h generalizing fields with
  | nil => exact ⟨[], by rw [List.map_eq_nil_iff.mp hmap], rfl⟩
  | cons x _ ih =>
    obtain ⟨f, rest, rfl, rfl, rfl⟩ := List.map_eq_cons_iff.mp hmap
    obtain ⟨rest', hp, rfl⟩ := ih rfl
    exact ⟨f :: rest', hp.cons f, rfl⟩
  | swap x y l =>
    obtain ⟨f, rest, rfl, rfl, hrest⟩ := List.map_eq_cons_iff.mp hmap
    obtain ⟨g, rest, rfl, rfl, rfl⟩ := List.map_eq_cons_iff.mp hrest
    exact ⟨g :: f :: rest, .swap g f rest, rfl⟩
  | trans _ _ ih ih' =>
    obtain ⟨fields₁, h₁, rfl⟩ := ih hmap
    obtain ⟨fields₂, h₂, rfl⟩ := ih' rfl
    exact ⟨fields₂, h₁.trans h₂, rfl⟩

/-- A request that is parsed is parsed in any order of its parts. -/
private theorem parse_of_perm {parts parts' : List (List UInt8)}
    {payload : Option (List UInt8)} {r : ReadRequest} (hperm : parts.Perm parts')
    (hp : ∀ p ∈ parts, 0x3a ∉ p ∧ 0x3b ∉ p)
    (h : ReadRequest.parse (partsText parts payload) = some r) :
    ReadRequest.parse (partsText parts' payload) = some r := by
  by_cases hne : parts = []
  · subst hne
    rwa [hperm.nil_eq] at h
  rw [parse_eq_some] at h ⊢
  obtain ⟨hlen, fields, list, htext, hr⟩ := h
  have hmap : ∀ l ∈ fields.map fieldText, 0x3a ∉ l ∧ 0x3b ∉ l := by
    intro l hl
    obtain ⟨f, hf, rfl⟩ := List.mem_map.mp hl
    exact (hr.plain f hf).2
  have hsemi := @not_mem_intercalate _ 0x3a _ _ (by decide) fun p hm ↦ (hp p hm).2
  have hsemi' := @not_mem_intercalate _ 0x3a _ _ (by decide) fun p hm ↦ (hmap p hm).2
  rw [partsText, requestText, List.append_assoc, List.append_assoc,
    List.append_cancel_left_eq] at htext
  cases payload with
  | none =>
    rw [Option.map_none, Option.getD_none, List.append_nil] at htext
    rw [htext] at hsemi
    exact absurd (List.mem_append_right _ List.mem_cons_self) hsemi
  | some payload =>
    have hcut : splitOnce 0x3b ([0x3a].intercalate parts ++ 0x3b :: payload) =
        some ([0x3a].intercalate parts, payload) := splitOnce_eq_some.mpr ⟨rfl, hsemi⟩
    rw [Option.map_some, Option.getD_some] at htext
    rw [htext, splitOnce_eq_some.mpr ⟨rfl, hsemi'⟩] at hcut
    obtain ⟨hmeta, rfl⟩ := Prod.mk.inj (Option.some.inj hcut)
    have hfields : fields.map fieldText ≠ [] := by
      simpa using List.ne_nil_of_mem hr.read
    have hparts := congrArg (List.splitOn 0x3a) hmeta
    rw [List.splitOn_intercalate 0x3a (fun l hl ↦ (hmap l hl).1) hfields,
      List.splitOn_intercalate 0x3a (fun l hl ↦ (hp l hl).1) hne] at hparts
    subst hparts
    obtain ⟨fields', hf, rfl⟩ := perm_map hperm
    refine ⟨?_, fields', list, rfl, hr.perm hf⟩
    have hfields' : fields'.map fieldText ≠ [] :=
      fun h ↦ hfields (List.perm_nil.mp (h ▸ hperm))
    have hl := length_intercalate hne 0x3a
    have hl' := length_intercalate hfields' 0x3a
    have hsum := (hperm.map fun p ↦ p.length + 1).sum_eq
    simp only [partsText, List.length_append] at hlen ⊢
    omega

/-- The parsed request is the same in every order of the parts of its metadata. -/
theorem parse_perm {parts parts' : List (List UInt8)} (payload : Option (List UInt8))
    (hperm : parts.Perm parts') (hp : ∀ p ∈ parts, 0x3a ∉ p ∧ 0x3b ∉ p) :
    ReadRequest.parse (partsText parts payload) = ReadRequest.parse (partsText parts' payload) :=
  Option.ext fun _ ↦ ⟨parse_of_perm hperm hp,
    parse_of_perm hperm.symm fun p hm ↦ hp p (hperm.mem_iff.mpr hm)⟩

/-- A text is parsed as a request exactly when it is its fields, in any order, and its list of
types, and the order of the fields makes no difference. -/
theorem ReadRequest.parse_grammar :
    (∀ text r, ReadRequest.parse text = some r ↔ text.length ≤ MAX_METADATA ∧
      ∃ fields list, text = requestText fields list ∧ Request fields list r) ∧
    ∀ (parts parts' : List (List UInt8)) (payload : Option (List UInt8)), parts.Perm parts' →
      (∀ p ∈ parts, 0x3a ∉ p ∧ 0x3b ∉ p) →
      ReadRequest.parse (partsText parts payload) = ReadRequest.parse (partsText parts' payload) :=
  ⟨fun _ _ ↦ parse_eq_some, fun _ _ payload ↦ parse_perm payload⟩

theorem ReadRequest.parse_grammar_swapped :
    ReadRequest.parse (partsText [ascii "type=read", ascii "loc=primary"] (some (ascii "Lg=="))) =
      ReadRequest.parse
        (partsText [ascii "loc=primary", ascii "type=read"] (some (ascii "Lg=="))) :=
  ReadRequest.parse_grammar.2 _ _ _ (.swap ..) (by decide)

/-- Fields with known keys once, the type `read` and a valid list are not enough: the location
has to be one that is known. -/
theorem single_fields_refuted :
    ¬ ∀ text, (ReadRequest.parse text).isSome = true ↔ ∃ fields list,
      text = requestText fields list ∧
      (∀ f ∈ fields, 0x3d ∉ f.1 ∧ 0x3a ∉ fieldText f ∧ 0x3b ∉ fieldText f) ∧ Single fields ∧
      (ascii "type", ascii "read") ∈ fields ∧ Utf8 list ∧
      words list ≠ [] ∧ ∀ mime ∈ words list, validMime mime = true := by
  intro h
  have hparse : ReadRequest.parse (ascii "5522;type=read:loc=x;Lg==") = none := by decide +kernel
  have := (h (ascii "5522;type=read:loc=x;Lg==")).mpr
    ⟨[(ascii "type", ascii "read"), (ascii "loc", ascii "x")], ascii ".", by decide +kernel,
      by decide, by unfold Single; decide, by decide,
      (validateUTF8_iff _).mp (by decide +kernel), by decide,
      by decide⟩
  rw [hparse] at this
  cases this

end PtySpec.Vt
