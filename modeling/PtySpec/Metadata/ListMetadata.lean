import PtySpec.Metadata.Effective

/-!
# The projected metadata parser

Model of `parse_with_payloads`, `crates/pty-core/src/registry/list_metadata.rs`. The record
is read from the effective fields of the text; `lastLines`, `extraEnv` and `sessionEnv` can
be checked and dropped instead.
-/

namespace PtySpec.Metadata

open Lib

variable {α : Type}

/-! ### Readers of the fields -/

/-- The reader of a field, `SessionMetadata::deserialize`, `metadata.rs:32`. -/
def Field.reader : (f : Field) → FieldReader f.codec
  | command | displayCommand | cwd | createdAt => .default .string ""
  | args => .default .strings []
  | generation | daemonStartToken | daemonBootId | displayName | publicationRootId | exitedAt
  | lastAttachAt => .optional .string
  | daemonPid | exitCode => .optional (.token .int32 (fun _ ↦ rfl) (fun _ ↦ rfl))
  | recovery => .optionalValue
  | rows | cols => .optional (.token .uint16 (fun _ ↦ rfl) (fun _ ↦ rfl))
  | ephemeral | isolateEnv => .optional (.token .bool (fun _ ↦ rfl) (fun _ ↦ rfl))
  | tags | extraEnv | sessionEnv | env => .optional .tagMap
  | publicationBinding => .optional .binding
  | publicationCapability => .optional (.token .uint32 (fun _ ↦ rfl) (fun _ ↦ rfl))
  | unsetEnv | lastLines => .optional .strings
  | lastOutputAtMs => .optional (.token .int64 (fun _ ↦ rfl) (fun _ ↦ rfl))
  | clientGeneration => .optional (.token .uint64 (fun _ ↦ rfl) (fun _ ↦ rfl))

theorem Field.missing_isSome (f : Field) : (f.codec.read none).isSome := by
  cases f <;> rfl

/-- The value of a field that a text does not have. -/
def Field.missing (f : Field) : f.Ty := (f.codec.read none).get f.missing_isSome

theorem Field.read_none (f : Field) : f.codec.read none = some f.missing :=
  (Option.some_get f.missing_isSome).symm

/-! ### The record -/

/-- The record while its fields come in. -/
@[ext] structure Building where
  field : (f : Field) → Option f.Ty
  extra : JsonMap
  nodup : extra.keys.Nodup

namespace Building

/-- Before the first field. -/
def start : Building := ⟨fun _ ↦ none, [], List.nodup_nil⟩

/-- With a known field. -/
def set (b : Building) (f : Field) (value : f.Ty) : Building :=
  { b with field := fun g ↦ if h : f = g then some (h ▸ value) else b.field g }

/-- With a field that is none of the record's. -/
def collect (b : Building) (key : String) (value : Json) : Building :=
  { b with extra := b.extra.insert key value, nodup := IndexMap.nodup_insert b.nodup key value }

/-- The record, with the fields that did not come at their defaults. -/
def finish (b : Building) : SessionMetadata where
  field f := (b.field f).getD f.missing
  extra := b.extra
  nodup := b.nodup

end Building

/-- The fields as `FieldsAccess` hands them to the visitor that serde derives: a known field
once, and any other kept for `extra`. -/
def visitFields (depth : Nat) (b : Building) : IndexMap String Raw → Option Building
  | [] => some b
  | (key, raw) :: fields =>
    match Field.ofKey key with
    | some f =>
      if (b.field f).isSome then none
      else (f.reader.read depth raw).bind fun value ↦ visitFields depth (b.set f value) fields
    | none => (readValue depth raw).bind fun value ↦ visitFields depth (b.collect key value) fields

/-- `SessionMetadata::deserialize` over `FieldsAccess`, `list_metadata.rs:101`. -/
def sessionMetadataFrom (fields : IndexMap String Raw) : Option SessionMetadata :=
  (visitFields 1 .start fields).map Building.finish

/-- The same over decoded values. -/
private def visitValues (b : Building) : JsonMap → Option Building
  | [] => some b
  | (key, v) :: map =>
    match Field.ofKey key with
    | some f =>
      if (b.field f).isSome then none
      else (f.codec.read (some v)).bind fun value ↦ visitValues (b.set f value) map
    | none => visitValues (b.collect key v) map

private theorem visitFields_eq (depth : Nat) (b : Building) (fields : IndexMap String Raw) :
    visitFields depth b fields = (fields.readAll (Raw.value depth)).bind (visitValues b) := by
  induction fields generalizing b with
  | nil => rfl
  | cons e fields ih =>
    obtain ⟨key, raw⟩ := e
    rw [visitFields, IndexMap.readAll]
    have hv : ∀ v, (((IndexMap.readAll (Raw.value depth) fields).map ((key, v) :: ·)).bind
        (visitValues b)) =
        (IndexMap.readAll (Raw.value depth) fields).bind fun map ↦
          visitValues b ((key, v) :: map) := fun v ↦ Option.bind_map
    rw [Option.bind_assoc]
    simp only [hv, visitValues]
    cases Field.ofKey key with
    | none =>
      simp only [readValue_eq, ih]
    | some f =>
      simp only [f.reader.read_eq, ih]
      split
      · cases raw.value depth <;> cases IndexMap.readAll (Raw.value depth) fields <;> rfl
      · rw [Option.bind_assoc]
        refine Option.bind_congr fun v _ ↦ ?_
        exact Option.bind_comm _ _

namespace Building

@[simp] theorem set_field_self (b : Building) (f : Field) (value : f.Ty) :
    (b.set f value).field f = some value := dif_pos rfl

theorem set_field_of_ne (b : Building) {f g : Field} (h : f ≠ g) (value : f.Ty) :
    (b.set f value).field g = b.field g := dif_neg h

end Building

/-- What a field has after the entries of a map. -/
private def arrival (b : Building) (map : JsonMap) (f : Field) : Option f.Ty :=
  match map.get f.key with
  | none => b.field f
  | some v => f.codec.read (some v)

private theorem arrival_cons_ne (b : Building) {key : String} (v : Json) (map : JsonMap)
    {f : Field} (h : key ≠ f.key) : arrival b ((key, v) :: map) f = arrival b map f := by
  unfold arrival
  rw [IndexMap.get_cons, if_neg h]

private theorem unknown_cons (key : String) (v : Json) (map : JsonMap) :
    SessionMetadata.unknown ((key, v) :: map) =
      if (Field.ofKey key).isNone then (key, v) :: SessionMetadata.unknown map
      else SessionMetadata.unknown map :=
  List.filter_cons

private theorem get_eq_none {map : JsonMap} {key : String} (h : key ∉ map.keys) :
    map.get key = none := by
  rw [IndexMap.mem_keys_iff, Bool.not_eq_true, Option.isSome_eq_false_iff] at h
  exact Option.isNone_iff_eq_none.mp h

private theorem visitValues_eq_some {map : JsonMap} (hn : map.keys.Nodup) {b b' : Building}
    (hb : ∀ f : Field, f.key ∈ map.keys → b.field f = none)
    (he : ∀ key ∈ map.keys, key ∉ b.extra.keys) :
    visitValues b map = some b' ↔
      (∀ f : Field, b'.field f = arrival b map f) ∧
        (∀ (f : Field) (v : Json), map.get f.key = some v → (f.codec.read (some v)).isSome) ∧
          b'.extra = b.extra ++ SessionMetadata.unknown map := by
  induction map generalizing b with
  | nil =>
    simp only [visitValues, SessionMetadata.unknown, List.filter_nil, List.append_nil,
      Option.some_inj, IndexMap.get_nil, reduceCtorEq, false_implies, implies_true, true_and]
    constructor
    · rintro rfl
      exact ⟨fun _ ↦ rfl, rfl⟩
    · rintro ⟨hf, hx⟩
      exact (Building.ext (funext hf) hx).symm
  | cons e map ih =>
    obtain ⟨key, v⟩ := e
    obtain ⟨hk, hn'⟩ : key ∉ IndexMap.keys map ∧ (IndexMap.keys map).Nodup :=
      List.nodup_cons.mp hn
    have ht : ∀ {name : String}, name ∈ IndexMap.keys map →
        name ∈ IndexMap.keys ((key, v) :: map) := List.mem_cons_of_mem _
    rw [visitValues, unknown_cons]
    cases hf : Field.ofKey key with
    | none =>
      have hne : ∀ f : Field, key ≠ f.key := by
        rintro f rfl
        rw [Field.ofKey_key] at hf
        cases hf
      have hx : (b.collect key v).extra = b.extra ++ [(key, v)] :=
        IndexMap.insert_of_notMem (he key List.mem_cons_self) v
      have hd : ∀ name ∈ IndexMap.keys map, name ∉ (b.collect key v).extra.keys := by
        intro name hm hc
        rw [hx, IndexMap.keys, List.map_append, List.mem_append] at hc
        obtain hc | hc := hc
        · exact he name (ht hm) hc
        · exact hk ((List.mem_singleton.mp hc : name = key) ▸ hm)
      change visitValues (b.collect key v) map = some b' ↔ _
      rw [ih hn' (b := b.collect key v) (fun f hm ↦ hb f (ht hm)) hd, hx]
      refine and_congr (forall_congr' fun f ↦ ?_) (and_congr (forall_congr' fun f ↦ ?_) ?_)
      · rw [arrival_cons_ne b v map (hne f)]
        rfl
      · rw [IndexMap.get_cons, if_neg (hne f)]
      · rw [List.append_assoc]
        rfl
    | some f =>
      obtain rfl := Field.key_of_ofKey hf
      have hg : ∀ g : Field, f ≠ g → f.key ≠ g.key := fun g hne h ↦ hne (Field.key_injective h)
      have hb' := hb f List.mem_cons_self
      change (if (b.field f).isSome then none
        else (f.codec.read (some v)).bind fun value ↦ visitValues (b.set f value) map) = _ ↔ _
      rw [hb', if_neg (by simp)]
      cases hr : f.codec.read (some v) with
      | none =>
        refine iff_of_false (by simp) fun h ↦ ?_
        have := h.2.1 f v (by rw [IndexMap.get_cons, if_pos rfl])
        rw [hr] at this
        cases this
      | some x =>
        have hs : ∀ g : Field, g.key ∈ IndexMap.keys map → (b.set f x).field g = none := by
          intro g hm
          have hne : f ≠ g := fun h ↦ hk (h ▸ hm)
          rw [b.set_field_of_ne hne]
          exact hb g (ht hm)
        rw [Option.bind_some, ih hn' (b := b.set f x) hs (fun name hm ↦ he name (ht hm))]
        refine and_congr (forall_congr' fun g ↦ ?_) (and_congr (forall_congr' fun g ↦ ?_) ?_)
        · by_cases hfg : f = g
          · subst hfg
            have hl : arrival (b.set f x) map f = some x := by
              unfold arrival
              rw [get_eq_none hk]
              exact b.set_field_self f x
            have hl' : arrival b ((f.key, v) :: map) f = some x := by
              unfold arrival
              rw [IndexMap.get_cons, if_pos rfl]
              exact hr
            rw [hl, hl']
          · rw [arrival_cons_ne b v map (hg g hfg)]
            unfold arrival
            rw [b.set_field_of_ne hfg]
        · by_cases hfg : f = g
          · subst hfg
            rw [get_eq_none hk, IndexMap.get_cons, if_pos rfl]
            simp [hr]
          · rw [IndexMap.get_cons, if_neg (hg g hfg)]
        · rfl

/-- The visitor that serde derives builds the record that the decoded map has. -/
private theorem visitValues_start {map : JsonMap} (hn : map.keys.Nodup) :
    (visitValues .start map).map Building.finish = SessionMetadata.fromMap map := by
  have hv := fun b' ↦ @visitValues_eq_some map hn .start b' (fun _ _ ↦ rfl)
    (fun _ _ ↦ List.not_mem_nil)
  ext1 m
  rw [SessionMetadata.fromMap_eq_some, Option.map_eq_some_iff]
  constructor
  · rintro ⟨b, hb, rfl⟩
    obtain ⟨hf, hr, hx⟩ := (hv b).mp hb
    refine ⟨hn, fun f ↦ ?_, hx⟩
    have hff := hf f
    unfold arrival at hff
    change _ = some ((b.field f).getD f.missing)
    cases hg : map.get f.key with
    | none =>
      simp only [hg] at hff
      rw [hff]
      exact f.read_none
    | some v =>
      simp only [hg] at hff
      obtain ⟨x, hx⟩ := Option.isSome_iff_exists.mp (hr f v hg)
      rw [hff, hx]
      rfl
  · rintro ⟨-, hf, hx⟩
    refine ⟨⟨arrival .start map, SessionMetadata.unknown map,
      SessionMetadata.nodup_unknown hn⟩, (hv _).mpr ⟨fun _ ↦ rfl, ?_, rfl⟩, ?_⟩
    · intro f v hg
      have := hf f
      rw [hg] at this
      rw [this]
      rfl
    · ext1
      · funext f
        change (arrival .start map f).getD f.missing = m.field f
        have hff := hf f
        unfold arrival
        cases hg : map.get f.key with
        | none =>
          rw [hg, f.read_none] at hff
          exact Option.some_inj.mp hff
        | some v =>
          rw [hg] at hff
          simp only [hff]
          rfl
      · exact hx.symm

/-- Reading the record from effective fields is reading it from the decoded ones. -/
private theorem sessionMetadataFrom_eq {fields : IndexMap String Raw}
    (hn : fields.keys.Nodup) :
    sessionMetadataFrom fields =
      (fields.readAll (Raw.value 1)).bind SessionMetadata.fromMap := by
  unfold sessionMetadataFrom
  rw [visitFields_eq, Option.map_bind]
  refine Option.bind_congr fun map hm ↦ ?_
  have hk := IndexMap.keys_of_readAll hm
  exact visitValues_start (hk ▸ hn)

/-! ### Discarded payloads -/

/-- `DiscardString`, `list_metadata.rs:253`. -/
def discardString : Visitor Unit where
  visitScalar
    | .string _ => some ()
    | _ => none
  visitSeq _ _ := none
  visitMap _ _ := none

/-- `DiscardStrings<true>`, `list_metadata.rs:271`. -/
def discardStrings : Visitor Unit where
  visitScalar _ := none
  visitSeq _ _ := none
  visitMap depth fields :=
    if fields.all fun e ↦ (effective discardString depth e.2).isSome then some () else none

/-- `serde_json::from_str::<Option<DiscardStrings<false>>>`, `list_metadata.rs:91`: nothing
here looks at an object, so duplicate keys do not matter. -/
def discardLastLines : Raw → Bool
  | .scalar (some .null) => true
  | .array elements =>
    elements.all fun
      | .scalar (some (.string _)) => true
      | _ => false
  | _ => false

/-- `Option::<DiscardStrings<true>>::deserialize`, `list_metadata.rs:96`. -/
def discardEnv (raw : Raw) : Bool := (effectiveOption (effective discardStrings) 1 raw).isSome

/-- `shift_remove` of a payload and the check of its value, `list_metadata.rs:90-99`. -/
def shiftRemove (key : String) (discard : Raw → Bool) (fields : IndexMap String Raw) :
    Option (IndexMap String Raw) :=
  match fields.get key with
  | none => some fields
  | some raw => if discard raw then some (fields.remove key) else none

/-- `MetadataVisitor::visit_map`, `list_metadata.rs:87`. -/
def visitMap (full : Bool) (entries : List (Option String × Raw)) : Option SessionMetadata :=
  (lastFields 1 [] entries).bind fun fields ↦
    (if full then some fields
      else
        (shiftRemove "lastLines" discardLastLines fields).bind fun fields ↦
          (shiftRemove "extraEnv" discardEnv fields).bind fun fields ↦
            shiftRemove "sessionEnv" discardEnv fields).bind sessionMetadataFrom

/-- `parse_with_payloads`, `list_metadata.rs:20`, for what `serde_json` takes for the grammar
of a text. -/
def parseWithPayloads (grammar : List UInt8 → Option Raw) (bytes : List UInt8) (full : Bool) :
    Option SessionMetadata :=
  (grammar bytes).bind fun
    | .object entries => visitMap full entries
    | _ => none

/-- `from_slice` to a `Value` and `from_value` of an object to the record. -/
def parsePlain (grammar : List UInt8 → Option Raw) (bytes : List UInt8) :
    Option SessionMetadata :=
  ((grammar bytes).bind (Raw.value 0)).bind fun
    | .object map => SessionMetadata.fromMap map
    | _ => none

/-- A record with a field left out. -/
def SessionMetadata.without (m : SessionMetadata) (f : Field) : SessionMetadata :=
  { m with field := fun g ↦ if f = g then g.missing else m.field g }

/-- A record with `lastLines`, `extraEnv` and `sessionEnv` left out. -/
def SessionMetadata.withoutPayloads (m : SessionMetadata) : SessionMetadata :=
  ((m.without .lastLines).without .extraEnv).without .sessionEnv

private theorem without_of_get_none {map : JsonMap} {m : SessionMetadata} {f : Field}
    (h : SessionMetadata.fromMap map = some m) (hg : map.get f.key = none) :
    m.without f = m := by
  obtain ⟨-, hf, -⟩ := SessionMetadata.fromMap_eq_some.mp h
  have hff := hf f
  rw [hg, f.read_none] at hff
  ext1
  · funext g
    change (if f = g then g.missing else m.field g) = m.field g
    split
    · next he =>
      subst he
      exact Option.some_inj.mp hff
    · rfl
  · rfl

private theorem fromMap_remove {map : JsonMap} (hn : map.keys.Nodup) {f : Field}
    (hr : (f.codec.read (map.get f.key)).isSome) :
    SessionMetadata.fromMap (map.remove f.key) =
      (SessionMetadata.fromMap map).map (·.without f) := by
  have hu : SessionMetadata.unknown (map.remove f.key) = SessionMetadata.unknown map :=
    IndexMap.filter_remove (P := fun key ↦ (Field.ofKey key).isNone)
      (by rw [Field.ofKey_key]; rfl) map
  have hg : ∀ g : Field,
      IndexMap.get (map.remove f.key) g.key = if f = g then none else map.get g.key := by
    intro g
    rw [IndexMap.get_remove]
    by_cases hfg : f = g
    · rw [if_pos hfg, if_pos (hfg ▸ rfl)]
    · rw [if_neg hfg, if_neg fun h ↦ hfg (Field.key_injective h)]
  ext1 m
  rw [Option.map_eq_some_iff, SessionMetadata.fromMap_eq_some]
  constructor
  · rintro ⟨-, hf, hx⟩
    obtain ⟨x, hxr⟩ := Option.isSome_iff_exists.mp hr
    refine ⟨⟨fun g ↦ if h : f = g then h ▸ x else m.field g, SessionMetadata.unknown map,
      SessionMetadata.nodup_unknown hn⟩, SessionMetadata.fromMap_eq_some.mpr ⟨hn, ?_, rfl⟩, ?_⟩
    · intro g
      by_cases hfg : f = g
      · subst hfg
        simpa using hxr
      · have := hf g
        rw [hg, if_neg hfg] at this
        simpa [hfg] using this
    · ext1
      · funext g
        change (if f = g then g.missing else if h : f = g then h ▸ x else m.field g) = m.field g
        by_cases hfg : f = g
        · have := hf g
          rw [hg, if_pos hfg, g.read_none] at this
          rw [if_pos hfg]
          exact Option.some_inj.mp this
        · rw [if_neg hfg, dif_neg hfg]
      · exact (hx.trans hu).symm
  · rintro ⟨r, hr', rfl⟩
    obtain ⟨-, hf, hx⟩ := SessionMetadata.fromMap_eq_some.mp hr'
    refine ⟨by rw [IndexMap.keys_remove]; exact hn.filter _, fun g ↦ ?_, hx.trans hu.symm⟩
    rw [hg]
    change _ = some (if f = g then g.missing else r.field g)
    split
    · exact g.read_none
    · exact hf g

/-- The check of a discarded payload is whether its field would have been read. -/
private def Checks (f : Field) (discard : Raw → Bool) : Prop :=
  ∀ raw : Raw, discard raw = ((raw.value 1).bind fun v ↦ f.codec.read (some v)).isSome

private theorem string_isSome (depth : Nat) (raw : Raw) :
    (effective TypeReader.string.toVisitor depth raw).isSome =
      match raw with
      | .scalar (some (.string _)) => true
      | _ => false := by
  cases raw with
  | scalar token =>
    cases token with
    | none => rfl
    | some s => cases s <;> rfl
  | array elements =>
    rw [effective_array_eq_none fun _ _ ↦ rfl]
    rfl
  | object entries =>
    rw [effective_object_eq_none fun _ _ ↦ rfl]
    rfl

private theorem discardString_isSome (depth : Nat) (raw : Raw) :
    (effective discardString depth raw).isSome =
      (effective TypeReader.string.toVisitor depth raw).isSome := by
  rw [string_isSome]
  cases raw with
  | scalar token =>
    cases token with
    | none => rfl
    | some s => cases s <;> rfl
  | array elements =>
    rw [effective_array_eq_none fun _ _ ↦ rfl]
    rfl
  | object entries =>
    rw [effective_object_eq_none fun _ _ ↦ rfl]
    rfl

private theorem discardStrings_isSome (depth : Nat) (raw : Raw) :
    (effective discardStrings depth raw).isSome =
      (effective TypeReader.tagMap.toVisitor depth raw).isSome := by
  cases raw with
  | scalar token => cases token <;> rfl
  | array elements =>
    rw [effective_array_eq_none fun _ _ ↦ rfl, effective_array_eq_none fun _ _ ↦ rfl]
    rfl
  | object entries =>
    rw [effective, effective]
    cases descend depth with
    | none => rfl
    | some d =>
      rw [Option.bind_some, Option.bind_some]
      cases hl : lastFields d [] entries with
      | none => rfl
      | some fields =>
        have hn : fields.keys.Nodup := nodup_lastFields nodup_keys_nil hl
        change (if fields.all fun e ↦ (effective discardString d e.2).isSome then some ()
          else none).isSome = (IndexMap.readInto _ [] fields).isSome
        rw [IndexMap.readInto_eq _ hn (fun _ _ ↦ List.not_mem_nil), Option.isSome_map,
          Bool.eq_iff_iff, IndexMap.readAll_isSome]
        simp [discardString_isSome]

private theorem checks_discardEnv {f : Field} (h : f = .extraEnv ∨ f = .sessionEnv) :
    Checks f discardEnv := by
  intro raw
  have he := FieldReader.effectiveOption_eq TypeReader.tagMap.effective_eq 1 raw
  have hd : discardEnv raw =
      (effectiveOption (effective TypeReader.tagMap.toVisitor) 1 raw).isSome := by
    unfold discardEnv effectiveOption
    split
    · rfl
    · rw [Option.isSome_map, Option.isSome_map, discardStrings_isSome]
  rw [hd, he]
  obtain rfl | rfl := h <;> rfl

private theorem isSome_mapM (read : Raw → Option α) (elements : List Raw) :
    (elements.mapM read).isSome = elements.all fun raw ↦ (read raw).isSome := by
  induction elements with
  | nil => rfl
  | cons raw elements ih =>
    rw [List.mapM_cons, List.all_cons, ← ih]
    cases read raw with
    | none => rfl
    | some x => cases elements.mapM read <;> rfl

private theorem checks_discardLastLines : Checks .lastLines discardLastLines := by
  intro raw
  have he := FieldReader.effectiveOption_eq TypeReader.strings.effective_eq 1 raw
  change _ = ((raw.value 1).bind fun v ↦ (Codec.optional Kind.strings).read (some v)).isSome
  rw [← he]
  cases raw with
  | scalar token =>
    cases token with
    | none => rfl
    | some s => cases s <;> rfl
  | array elements =>
    change _ = ((elements.mapM (effective TypeReader.string.toVisitor 2)).map some).isSome
    rw [Option.isSome_map, isSome_mapM, discardLastLines]
    simp only [string_isSome]
  | object entries =>
    change false = ((effective TypeReader.strings.toVisitor 1 (.object entries)).map some).isSome
    rw [effective_object_eq_none fun _ _ ↦ rfl]
    rfl

private theorem nodup_shiftRemove {key : String} {discard : Raw → Bool}
    {fields r : IndexMap String Raw} (hn : fields.keys.Nodup)
    (h : shiftRemove key discard fields = some r) : r.keys.Nodup := by
  unfold shiftRemove at h
  split at h
  · cases h
    exact hn
  · split at h
    · cases h
      rw [IndexMap.keys_remove]
      exact hn.filter _
    · cases h

/-- Checking a payload and dropping it reads the record without it. -/
private theorem shiftRemove_read {f : Field} {discard : Raw → Bool} (hd : Checks f discard)
    {fields : IndexMap String Raw} (hn : fields.keys.Nodup) :
    (shiftRemove f.key discard fields).bind sessionMetadataFrom =
      (sessionMetadataFrom fields).map (·.without f) := by
  rw [sessionMetadataFrom_eq hn]
  unfold shiftRemove
  cases hg : fields.get f.key with
  | none =>
    change sessionMetadataFrom fields = _
    rw [sessionMetadataFrom_eq hn]
    cases hm : fields.readAll (Raw.value 1) with
    | none => rfl
    | some map =>
      change SessionMetadata.fromMap map = (SessionMetadata.fromMap map).map _
      cases hr : SessionMetadata.fromMap map with
      | none => rfl
      | some m =>
        have hgm : map.get f.key = none := by rw [IndexMap.get_readAll hm, hg]; rfl
        rw [Option.map_some, without_of_get_none hr hgm]
  | some raw =>
    have hnr : (fields.remove f.key).keys.Nodup := by
      rw [IndexMap.keys_remove]
      exact hn.filter _
    change (if discard raw then some (fields.remove f.key) else none).bind _ = _
    have hgm : ∀ map, fields.readAll (Raw.value 1) = some map →
        map.get f.key = raw.value 1 := by
      intro map hm
      rw [IndexMap.get_readAll hm, hg]
      rfl
    split
    · next hv =>
      rw [hd raw] at hv
      obtain ⟨x, hx⟩ := Option.isSome_iff_exists.mp hv
      obtain ⟨v, hv, hx⟩ := Option.bind_eq_some_iff.mp hx
      change sessionMetadataFrom _ = _
      rw [sessionMetadataFrom_eq hnr]
      cases hm : fields.readAll (Raw.value 1) with
      | none =>
        -- another field cannot be read, and it stays
        have hr : IndexMap.readAll (Raw.value 1) (fields.remove f.key) = none := by
          rw [← Option.not_isSome_iff_eq_none, IndexMap.readAll_isSome]
          intro ha
          have hs : (IndexMap.readAll (Raw.value 1) fields).isSome := by
            rw [IndexMap.readAll_isSome]
            intro e he
            by_cases hk : e.1 = f.key
            · have hge := IndexMap.get_of_mem hn he
              rw [hk, hg] at hge
              rw [← Option.some_inj.mp hge, hv]
              rfl
            · exact ha e (List.mem_filter.mpr ⟨he, decide_eq_true hk⟩)
          rw [hm] at hs
          cases hs
        rw [hr]
        rfl
      | some map =>
        have hk := IndexMap.keys_of_readAll hm
        have hr : IndexMap.readAll (Raw.value 1) (fields.remove f.key) =
            some (map.remove f.key) := IndexMap.readAll_filter hm (· ≠ f.key)
        rw [hr]
        refine fromMap_remove (hk ▸ hn) ?_
        rw [hgm map hm, hv, hx]
        rfl
    · next hv =>
      rw [hd raw] at hv
      cases hm : fields.readAll (Raw.value 1) with
      | none => rfl
      | some map =>
        change none = (SessionMetadata.fromMap map).map _
        cases hr : SessionMetadata.fromMap map with
        | none => rfl
        | some m =>
          refine absurd ?_ hv
          have hf := (SessionMetadata.fromMap_eq_some.mp hr).2.1 f
          rw [hgm map hm] at hf
          cases hrv : raw.value 1 with
          | none =>
            have hs : (fields.readAll (Raw.value 1)).isSome := by
              rw [hm]
              rfl
            have hs := IndexMap.readAll_isSome.mp hs _ (IndexMap.mem_of_get hg)
            rw [hrv] at hs
            cases hs
          | some v =>
            rw [hrv] at hf
            rw [Option.bind_some, hf]
            rfl

private theorem visitMap_eq (full : Bool) (entries : List (Option String × Raw)) :
    visitMap full entries =
      ((Raw.members 1 [] entries).bind SessionMetadata.fromMap).map fun m ↦
        if full then m else m.withoutPayloads := by
  have hl := lastFields_readAll 1 entries []
  rw [IndexMap.readAll, Option.bind_some] at hl
  unfold visitMap
  rw [← hl, Option.bind_assoc, Option.map_bind]
  refine Option.bind_congr fun fields hf ↦ ?_
  have hn : fields.keys.Nodup := nodup_lastFields nodup_keys_nil hf
  change _ = ((fields.readAll (Raw.value 1)).bind SessionMetadata.fromMap).map _
  rw [← sessionMetadataFrom_eq hn]
  cases full with
  | true => exact Option.map_id'.symm
  | false =>
    change ((shiftRemove _ _ fields).bind fun fields ↦ _).bind sessionMetadataFrom =
      (sessionMetadataFrom fields).map fun m ↦
        ((m.without .lastLines).without .extraEnv).without .sessionEnv
    have h₁ := shiftRemove_read checks_discardLastLines hn
    have h₂ : ∀ fs : IndexMap String Raw, fs.keys.Nodup → _ :=
      fun fs h ↦ shiftRemove_read (checks_discardEnv (.inl rfl)) h
    have h₃ : ∀ fs : IndexMap String Raw, fs.keys.Nodup → _ :=
      fun fs h ↦ shiftRemove_read (checks_discardEnv (.inr rfl)) h
    have hq : ∀ fs : IndexMap String Raw, fs.keys.Nodup →
        ((shiftRemove "extraEnv" discardEnv fs).bind fun fs ↦
          shiftRemove "sessionEnv" discardEnv fs).bind sessionMetadataFrom =
            (sessionMetadataFrom fs).map fun m ↦ (m.without .extraEnv).without .sessionEnv := by
      intro fs hfs
      rw [Option.bind_assoc]
      calc (shiftRemove "extraEnv" discardEnv fs).bind (fun fs ↦
            (shiftRemove "sessionEnv" discardEnv fs).bind sessionMetadataFrom)
          = (shiftRemove "extraEnv" discardEnv fs).bind (fun fs ↦
              (sessionMetadataFrom fs).map (·.without .sessionEnv)) :=
            Option.bind_congr fun gs hgs ↦ h₃ gs (nodup_shiftRemove hfs hgs)
        _ = ((shiftRemove "extraEnv" discardEnv fs).bind sessionMetadataFrom).map
              (·.without .sessionEnv) := Option.map_bind.symm
        _ = ((sessionMetadataFrom fs).map (·.without .extraEnv)).map (·.without .sessionEnv) :=
            congrArg _ (h₂ fs hfs)
        _ = _ := Option.map_map ..
    rw [Option.bind_assoc]
    calc (shiftRemove "lastLines" discardLastLines fields).bind (fun fs ↦
          ((shiftRemove "extraEnv" discardEnv fs).bind fun fs ↦
            shiftRemove "sessionEnv" discardEnv fs).bind sessionMetadataFrom)
        = (shiftRemove "lastLines" discardLastLines fields).bind (fun fs ↦
            (sessionMetadataFrom fs).map fun m ↦ (m.without .extraEnv).without .sessionEnv) :=
          Option.bind_congr fun gs hgs ↦ hq gs (nodup_shiftRemove hn hgs)
      _ = ((shiftRemove "lastLines" discardLastLines fields).bind sessionMetadataFrom).map
            fun m ↦ (m.without .extraEnv).without .sessionEnv := Option.map_bind.symm
      _ = ((sessionMetadataFrom fields).map (·.without .lastLines)).map
            fun m ↦ (m.without .extraEnv).without .sessionEnv := congrArg _ h₁
      _ = _ := Option.map_map ..

/-- The parser and its projection read what is read from the decoded value. -/
theorem parseWithPayloads_eq (grammar : List UInt8 → Option Raw) (bytes : List UInt8) :
    parseWithPayloads grammar bytes true = parsePlain grammar bytes ∧
      parseWithPayloads grammar bytes false =
        (parsePlain grammar bytes).map SessionMetadata.withoutPayloads := by
  have h : ∀ full, parseWithPayloads grammar bytes full =
      (parsePlain grammar bytes).map fun m ↦ if full then m else m.withoutPayloads := by
    intro full
    unfold parseWithPayloads parsePlain
    cases grammar bytes with
    | none => rfl
    | some raw =>
      cases raw with
      | scalar token => cases token with
        | none => rfl
        | some s => cases s <;> rfl
      | array elements =>
        change none = ((Raw.value 0 (.array elements)).bind _).map _
        rw [Raw.value]
        cases hv : Raw.values 1 elements <;> simp [Raw.deeper, hv]
      | object entries =>
        change visitMap full entries = ((Raw.value 0 (.object entries)).bind _).map _
        rw [visitMap_eq, Raw.value]
        change _ = (((Raw.members 1 [] entries).map Json.object).bind _).map _
        rw [Option.bind_map]
        rfl
  refine ⟨(h true).trans ?_, h false⟩
  exact Option.map_id'

example :
    (visitMap false [(some "command", .scalar (some (.integer 42))),
      (some "command", .scalar (some (.string "bash")))]).map (·.field .command) =
        some "bash" := by
  rfl

end PtySpec.Metadata
