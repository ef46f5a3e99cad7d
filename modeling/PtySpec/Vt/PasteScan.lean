import PtySpec.Vt.ReadRequest

/-!
# Scanning a paste packet

What `OutputScanner` makes of the bytes of `PastePacket::encode`,
`crates/pty-terminal/src/enhanced_paste.rs:238`, and what the sequences say.
-/

namespace PtySpec.Vt

open Lib

/-! ### Bytes that neither end nor cut a sequence -/

/-- No control byte, and no separator of fields or of the payload. -/
def Inert (text : List UInt8) : Prop := ∀ b ∈ text, 0x20 ≤ b ∧ b ≠ 0x3a ∧ b ≠ 0x3b

instance (text : List UInt8) : Decidable (Inert text) :=
  inferInstanceAs (Decidable (∀ b ∈ text, 0x20 ≤ b ∧ b ≠ 0x3a ∧ b ≠ 0x3b))

private theorem inert_of_digit {b : UInt8} (h : (digit b).isSome = true) :
    0x20 ≤ b ∧ b ≠ 0x3a ∧ b ≠ 0x3b := by
  unfold digit at h
  refine ⟨?_, ?_, ?_⟩
  · split at h
    · next hb => exact UInt8.le_trans (by decide) hb.1
    split at h
    · next hb => exact UInt8.le_trans (by decide) hb.1
    split at h
    · next hb => exact UInt8.le_trans (by decide) hb.1
    split at h
    · next hb => exact hb ▸ by decide
    split at h
    · next hb => exact hb ▸ by decide
    cases h
  · rintro rfl
    exact absurd h (by decide)
  · rintro rfl
    exact absurd h (by decide)

theorem inert_base64 (data : List UInt8) : Inert (base64 data) := by
  obtain ⟨digits, pad, hp⟩ := canonical_base64 data
  intro b hb
  rw [hp.eq] at hb
  obtain hb | hb := List.mem_append.mp hb
  · exact inert_of_digit (hp.known b hb)
  · rw [List.eq_of_mem_replicate hb]
    decide

private theorem inert_of_decode {text : List UInt8} (h : (decode text).isSome = true) :
    Inert text := by
  obtain ⟨data, hd⟩ := Option.isSome_iff_exists.mp h
  rw [decode_eq_some_iff.mp hd]
  exact inert_base64 data

private theorem inert_of_all {bytes : List UInt8}
    (h : bytes.all (fun b ↦ 0x20 ≤ b && b != 0x3a && b != 0x3b) = true) : Inert bytes := by
  intro b hb
  have hb := List.all_eq_true.mp h b hb
  simpa [and_assoc] using hb

private theorem inert_id {id : List UInt8} (h : validId id = true) : Inert id := by
  intro b hb
  unfold validId at h
  rw [Bool.and_eq_true, List.all_eq_true] at h
  have hv := h.2 b hb
  simp only [Bool.or_eq_true, Bool.and_eq_true, decide_eq_true_eq, List.contains_iff_mem] at hv
  obtain ((h | h) | h) | h := hv
  · refine ⟨UInt8.le_trans (by decide) h.1, ?_, ?_⟩ <;> rintro rfl <;> exact absurd h (by decide)
  · refine ⟨UInt8.le_trans (by decide) h.1, ?_, ?_⟩ <;> rintro rfl <;> exact absurd h (by decide)
  · refine ⟨UInt8.le_trans (by decide) h.1, ?_, ?_⟩ <;> rintro rfl <;> exact absurd h (by decide)
  · exact @inert_of_all (ascii "-_+.") rfl b h

/-! ### One sequence -/

/-- A sequence as a program reads it: its fields and its data. -/
structure Answer where
  fields : List RequestField
  data : List UInt8
  deriving DecidableEq

/-- What a program reads from an OSC 5522. -/
def Osc.answer (o : Osc) : Option Answer :=
  if (ascii "5522;").isPrefixOf o.payload then
    let rest := o.payload.drop 5
    let (metadata, payload) := (splitOnce 0x3b rest).getD (rest, [])
    ((metadata.splitOn 0x3a).mapM (splitOnce 0x3d)).bind fun fields ↦
      (decode payload).map fun data ↦ ⟨fields, data⟩
  else none

/-- `key=value:key=value`. -/
def metadataText (fields : List RequestField) : List UInt8 :=
  [0x3a].intercalate (fields.map fieldText)

theorem metadataText_cons (f : RequestField) (fields : List RequestField) :
    metadataText (f :: fields) = fieldText f ++ fields.flatMap fun g ↦ 0x3a :: fieldText g := by
  induction fields generalizing f with
  | nil => simp [metadataText]
  | cons g fields ih =>
    have hi := ih g
    unfold metadataText at hi ⊢
    rw [List.map_cons, List.map_cons, List.intercalate_cons_cons, ← List.map_cons, hi,
      List.flatMap_cons, List.append_assoc]
    rfl

/-- A sequence that a program reads: its keys and values are inert. -/
structure Worded (fields : List RequestField) : Prop where
  nonempty : fields ≠ []
  key : ∀ f ∈ fields, 0x3d ∉ f.1
  inert : ∀ f ∈ fields, Inert (fieldText f)

/-- The data of a sequence behind its metadata: nothing, or an encoded payload. -/
def Trails (tail data : List UInt8) : Prop := tail = [] ∧ data = [] ∨ tail = 0x3b :: base64 data

private theorem inert_metadata {fields : List RequestField} (h : Worded fields) :
    ∀ b ∈ metadataText fields, 0x20 ≤ b ∧ b ≠ 0x3b := by
  intro b hb
  obtain ⟨p, hp, hm⟩ | rfl : (∃ p ∈ fields.map fieldText, b ∈ p) ∨ b = 0x3a := by
    by_contra hn
    rw [not_or] at hn
    exact not_mem_intercalate hn.2 (fun p hp hm ↦ hn.1 ⟨p, hp, hm⟩) hb
  · obtain ⟨f, hf, rfl⟩ := List.mem_map.mp hp
    exact ⟨(h.inert f hf b hm).1, (h.inert f hf b hm).2.2⟩
  · decide

private theorem mapM_fields {fields : List RequestField} (h : ∀ f ∈ fields, 0x3d ∉ f.1) :
    (fields.map fieldText).mapM (splitOnce 0x3d) = some fields := by
  induction fields with
  | nil => rfl
  | cons f fields ih =>
    rw [List.forall_mem_cons] at h
    have hf : splitOnce 0x3d (fieldText f) = some (f.1, f.2) := splitOnce_eq_some.mpr ⟨rfl, h.1⟩
    rw [List.map_cons, List.mapM_cons, hf, ih h.2]
    rfl

/-- A sequence of inert fields is read as it was written. -/
theorem answer_osc {fields : List RequestField} {tail data : List UInt8} (h : Worded fields)
    (ht : Trails tail data) (raw : List UInt8) (terminator : Terminator) :
    Osc.answer ⟨raw, ascii "5522;" ++ (metadataText fields ++ tail), terminator⟩ =
      some ⟨fields, data⟩ := by
  have hsemi : 0x3b ∉ metadataText fields := fun hm ↦ (inert_metadata h _ hm).2 rfl
  have hsplit : (metadataText fields).splitOn 0x3a = fields.map fieldText := by
    refine List.splitOn_intercalate 0x3a (fun l hl ↦ ?_) (by simpa using h.nonempty)
    obtain ⟨f, hf, rfl⟩ := List.mem_map.mp hl
    exact fun hm ↦ (h.inert f hf _ hm).2.1 rfl
  have hcut : ∃ payload, (splitOnce 0x3b (metadataText fields ++ tail)).getD
      (metadataText fields ++ tail, []) = (metadataText fields, payload) ∧
      decode payload = some data := by
    obtain ⟨rfl, rfl⟩ | rfl := ht
    · refine ⟨[], ?_, rfl⟩
      rw [List.append_nil, splitOnce, if_neg hsemi]
      rfl
    · refine ⟨base64 data, ?_, decode_eq_some_iff.mpr rfl⟩
      rw [splitOnce_eq_some.mpr ⟨rfl, hsemi⟩]
      rfl
  obtain ⟨payload, hcut, hdata⟩ := hcut
  unfold Osc.answer
  rw [if_pos (List.isPrefixOf_iff_prefix.mpr (List.prefix_append _ _))]
  have hdrop : (ascii "5522;" ++ (metadataText fields ++ tail)).drop 5 =
      metadataText fields ++ tail := rfl
  simp only [hdrop, hcut, hsplit, mapM_fields h.key, Option.bind_some, hdata, Option.map_some]

/-! ### The scanner over one sequence -/

/-- The bytes of a sequence. -/
def sequenceText (fields : List RequestField) (tail : List UInt8) : List UInt8 :=
  ascii "\x1b]5522;" ++ (metadataText fields ++ tail) ++ ascii "\x1b\\"

namespace OutputScanner

/-- Bytes that an OSC takes. -/
private def Body (text : List UInt8) : Prop := ∀ b ∈ text, 0x20 ≤ b

private theorem next_osc {seq : List UInt8} {b : UInt8} (hb : 0x20 ≤ b) :
    transducer.next ⟨.osc, seq⟩ b =
      if (seq ++ [b]).length > oscLimit (seq ++ [b]) + 2 then
        (new, (seq ++ [b]).map .byte)
      else (⟨.osc, seq ++ [b]⟩, []) := by
  have h7 : b ≠ 0x07 := by rintro rfl; exact absurd hb (by decide)
  have h1b : b ≠ 0x1b := by rintro rfl; exact absurd hb (by decide)
  have hcan : ¬(b = 0x18 ∨ b = 0x1a) := by rintro (rfl | rfl) <;> exact absurd hb (by decide)
  change ((Scan.oscByte _ b).scanner, (Scan.oscByte _ b).atoms) = _
  simp only [Scan.oscByte]
  rw [if_neg h7, if_neg h1b, if_neg hcan]
  split
  · simp [Scan.hold, Scan.pass, Scan.atoms, new]
  · simp [Scan.hold, Scan.atoms]

private theorem oscLimit_paste (more : List UInt8) :
    oscLimit (ascii "\x1b]5522;" ++ more) = MAX_METADATA :=
  if_pos (List.isPrefixOf_iff_prefix.mpr (List.prefix_append (ascii "\x1b]5522;") more))

/-- A sequence within the limit is held back. -/
private theorem run_body {held body : List UInt8} (hb : Body body)
    (hl : (ascii "5522;" ++ (held ++ body)).length ≤ MAX_METADATA) :
    transducer.run ⟨.osc, ascii "\x1b]5522;" ++ held⟩ body =
      (⟨.osc, ascii "\x1b]5522;" ++ (held ++ body)⟩, []) := by
  induction body generalizing held with
  | nil =>
    rw [List.append_nil]
    rfl
  | cons b body ih =>
    rw [Body, List.forall_mem_cons] at hb
    have hfit : ¬(ascii "\x1b]5522;" ++ held ++ [b]).length > MAX_METADATA + 2 := by
      have h7 : (ascii "\x1b]5522;").length = 7 := rfl
      have h5 : (ascii "5522;").length = 5 := rfl
      simp only [List.length_append, List.length_cons, List.length_nil, h7, h5] at hl ⊢
      omega
    have hn := @next_osc (ascii "\x1b]5522;" ++ held) _ hb.1
    rw [List.append_assoc, oscLimit_paste, ← List.append_assoc, if_neg hfit,
      List.append_assoc] at hn
    have hi := @ih (held ++ [b]) hb.2 (by simpa using hl)
    rw [Transducer.run, hn]
    simp only [hi]
    rw [List.append_assoc]
    rfl

/-- A sequence over the limit is given up, and its bytes pass through. -/
private theorem run_over {held body : List UInt8} (rest : List UInt8) (hb : Body body)
    (hl : MAX_METADATA < (ascii "5522;" ++ (held ++ body)).length)
    (hheld : (ascii "5522;" ++ held).length ≤ MAX_METADATA) :
    ∃ b, Atom.byte b ∈
      (transducer.run ⟨.osc, ascii "\x1b]5522;" ++ held⟩ (body ++ rest)).2 := by
  induction body generalizing held with
  | nil =>
    rw [List.append_nil] at hl
    exact absurd hl (not_lt.mpr hheld)
  | cons b body ih =>
    rw [Body, List.forall_mem_cons] at hb
    have hn := @next_osc (ascii "\x1b]5522;" ++ held) _ hb.1
    rw [List.append_assoc, oscLimit_paste] at hn
    rw [List.cons_append, Transducer.run]
    by_cases hfit : (ascii "\x1b]5522;" ++ (held ++ [b])).length > MAX_METADATA + 2
    · rw [if_pos hfit] at hn
      refine ⟨0x1b, List.mem_append_left _ ?_⟩
      rw [hn]
      exact List.mem_cons_self
    · rw [if_neg hfit] at hn
      have h7 : (ascii "\x1b]5522;").length = 7 := rfl
      have h5 : (ascii "5522;").length = 5 := rfl
      obtain ⟨x, hx⟩ := @ih (held ++ [b]) hb.2 (by simpa using hl) (by
        simp only [List.length_append, List.length_cons, List.length_nil, h7, h5] at hfit ⊢
        omega)
      refine ⟨x, List.mem_append_right _ ?_⟩
      rw [hn]
      exact hx

private theorem run_end (body : List UInt8) :
    transducer.run ⟨.osc, ascii "\x1b]5522;" ++ body⟩ (ascii "\x1b\\") =
      (new, [.osc ⟨ascii "\x1b]5522;" ++ body ++ ascii "\x1b\\", ascii "5522;" ++ body, .st⟩]) := by
  change (new, [Atom.osc (makeOsc (ascii "\x1b]5522;" ++ body ++ [0x1b] ++ [0x5c]) .st)]) = _
  have hraw : ascii "\x1b]5522;" ++ body ++ [0x1b] ++ [0x5c] =
      0x1b :: 0x5d :: (ascii "5522;" ++ body) ++ [0x1b, 0x5c] := by
    rw [List.append_assoc, List.append_assoc]
    rfl
  have hpayload : ((0x1b :: 0x5d :: (ascii "5522;" ++ body) ++ [0x1b, 0x5c]).take
      ((0x1b :: 0x5d :: (ascii "5522;" ++ body) ++ [0x1b, 0x5c]).length - 2)).drop 2 =
      ascii "5522;" ++ body := by
    have hlen : (0x1b :: 0x5d :: (ascii "5522;" ++ body) ++ [0x1b, 0x5c]).length - 2 =
        (0x1b :: 0x5d :: (ascii "5522;" ++ body)).length := by
      rw [List.length_append]
      rfl
    rw [hlen, List.take_left]
    rfl
  rw [hraw, makeOsc]
  simp only [hpayload]
  rfl

/-- Bytes that are scanned as sequences which say something, from nothing held back to nothing
held back. -/
def Says (bytes : List UInt8) (answers : List Answer) : Prop :=
  ∃ oscs : List Osc, transducer.run new bytes = (new, oscs.map .osc) ∧
    oscs.mapM Osc.answer = some answers

theorem says_nil : Says [] [] := ⟨[], rfl, rfl⟩

theorem Says.append {bytes more : List UInt8} {answers others : List Answer}
    (h : Says bytes answers) (h' : Says more others) :
    Says (bytes ++ more) (answers ++ others) := by
  obtain ⟨oscs, hr, ha⟩ := h
  obtain ⟨oscs', hr', ha'⟩ := h'
  refine ⟨oscs ++ oscs', ?_, ?_⟩
  · rw [Transducer.run_append, hr, Transducer.andThen, hr', List.map_append]
    rfl
  · rw [List.mapM_append, ha, ha']
    rfl

theorem says_flatMap {α : Type} {text : α → List UInt8} {answer : α → Answer} {items : List α}
    (h : ∀ x ∈ items, Says (text x) [answer x]) :
    Says (items.flatMap text) (items.map answer) := by
  induction items with
  | nil => exact says_nil
  | cons x items ih =>
    rw [List.forall_mem_cons] at h
    rw [List.flatMap_cons, List.map_cons]
    exact h.1.append (ih h.2)

private theorem body_sequence {fields : List RequestField} {tail data : List UInt8}
    (h : Worded fields) (ht : Trails tail data) : Body (metadataText fields ++ tail) := by
  intro b hb
  obtain hb | hb := List.mem_append.mp hb
  · exact (inert_metadata h b hb).1
  obtain ⟨rfl, -⟩ | rfl := ht
  · cases hb
  obtain rfl | hb := List.mem_cons.mp hb
  · decide
  · exact (inert_base64 data b hb).1

private theorem run_opening (rest : List UInt8) :
    transducer.run new (ascii "\x1b]5522;" ++ rest) =
      transducer.run ⟨.osc, ascii "\x1b]5522;" ++ []⟩ rest := by
  have h : transducer.run new (ascii "\x1b]5522;") = (⟨.osc, ascii "\x1b]5522;" ++ []⟩, []) := rfl
  rw [Transducer.run_append, h]
  rfl

/-- A sequence within the limit is one token. -/
theorem says_sequence {fields : List RequestField} {tail data : List UInt8} (h : Worded fields)
    (ht : Trails tail data)
    (hl : (ascii "5522;" ++ (metadataText fields ++ tail)).length ≤ MAX_METADATA) :
    Says (sequenceText fields tail) [⟨fields, data⟩] := by
  refine ⟨[⟨sequenceText fields tail, ascii "5522;" ++ (metadataText fields ++ tail), .st⟩], ?_, ?_⟩
  · rw [sequenceText, List.append_assoc, run_opening, Transducer.run_append,
      run_body (body_sequence h ht) hl, Transducer.andThen, List.nil_append, run_end]
    rfl
  · rw [List.mapM_cons, answer_osc h ht]
    rfl

/-- A sequence over the limit is broken up. -/
theorem broken_sequence {fields : List RequestField} {tail data : List UInt8} (h : Worded fields)
    (ht : Trails tail data)
    (hl : MAX_METADATA < (ascii "5522;" ++ (metadataText fields ++ tail)).length)
    (rest : List UInt8) :
    ∃ b, Atom.byte b ∈ (transducer.run new (sequenceText fields tail ++ rest)).2 := by
  rw [sequenceText, List.append_assoc, List.append_assoc, run_opening]
  exact run_over _ (body_sequence h ht) hl (by decide)

end OutputScanner

/-! ### What a packet says -/

namespace PastePacket

/-- The fields of a packet's sequence with a status. -/
def fields (packet : PastePacket) (id : Option (List UInt8)) (status : List UInt8) :
    List RequestField :=
  (ascii "type", ascii "read") :: (ascii "status", status) ::
    match packet with
    | .listing location password _ =>
      (if status = ascii "OK" ∧ location = .primary then [(ascii "loc", ascii "primary")]
        else []) ++
      (if status = ascii "DATA" then [(ascii "mime", base64 (ascii "."))] else []) ++
      (password.map (ascii "pw", ·)).toList
    | .readData mime _ => (id.map (ascii "id", ·)).toList ++ [(ascii "mime", base64 mime)]
    | _ => (id.map (ascii "id", ·)).toList

/-- The statuses of a packet's sequences, `n` of them with data. -/
def statuses (n : Nat) : PastePacket → List (List UInt8)
  | .listing .. => ascii "OK" :: (List.replicate n (ascii "DATA") ++ [ascii "DONE"])
  | .readOk => [ascii "OK"]
  | .readData .. => List.replicate n (ascii "DATA")
  | .readDone => [ascii "DONE"]
  | .readError e => [e.status]

/-- What a packet carries. -/
def content : PastePacket → List UInt8
  | .listing _ _ mimes => [0x20].intercalate mimes
  | .readData _ data => data
  | _ => []

/-- The answers of a packet: in their order, each with its fields, the data in short pieces. -/
structure Conveys (packet : PastePacket) (id : Option (List UInt8)) (answers : List Answer) :
    Prop where
  fields : ∃ n, answers.map Answer.fields = (packet.statuses n).map (packet.fields id)
  short : ∀ a ∈ answers, a.data.length ≤ DATA_CHUNK
  bare : ∀ a ∈ answers, (ascii "status", ascii "DATA") ∉ a.fields → a.data = []
  content : answers.flatMap Answer.data = packet.content

/-- A packet's bytes are scanned, however they are cut, as nothing but the sequences of its
answers. -/
def Carried (packet : PastePacket) (id : Option (List UInt8)) (bytes : List UInt8) : Prop :=
  ∃ (oscs : List Osc) (answers : List Answer),
    (∀ pieces : List (List UInt8), pieces.flatten = bytes →
      OutputScanner.new.feedAll pieces = (OutputScanner.new, oscs.map .osc)) ∧
    oscs.mapM Osc.answer = some answers ∧ packet.Conveys id answers

/-- The answers of a packet. -/
def answers (packet : PastePacket) (id : Option (List UInt8)) : List Answer :=
  match packet with
  | .listing _ _ mimes =>
    ⟨packet.fields id (ascii "OK"), []⟩ ::
      ((chunks DATA_CHUNK ([0x20].intercalate mimes)).map (⟨packet.fields id (ascii "DATA"), ·⟩) ++
        [⟨packet.fields id (ascii "DONE"), []⟩])
  | .readOk => [⟨packet.fields id (ascii "OK"), []⟩]
  | .readData _ data =>
    if data = [] then [⟨packet.fields id (ascii "DATA"), []⟩]
    else (chunks DATA_CHUNK data).map (⟨packet.fields id (ascii "DATA"), ·⟩)
  | .readDone => [⟨packet.fields id (ascii "DONE"), []⟩]
  | .readError e => [⟨packet.fields id e.status, []⟩]

/-- The pieces of some data, each with the fields `DATA`. -/
private theorem conveys_chunks (packet : PastePacket) (id : Option (List UInt8))
    (data : List UInt8) :
    let answers := (chunks DATA_CHUNK data).map fun c ↦
      (⟨packet.fields id (ascii "DATA"), c⟩ : Answer)
    (answers.map Answer.fields = (List.replicate (chunks DATA_CHUNK data).length
      (ascii "DATA")).map (packet.fields id)) ∧
    (∀ a ∈ answers, a.data.length ≤ DATA_CHUNK ∧ (ascii "status", ascii "DATA") ∈ a.fields) ∧
    answers.flatMap Answer.data = data := by
  refine ⟨?_, ?_, ?_⟩
  · rw [List.map_map, List.map_replicate]
    exact List.map_const' ..
  · intro a ha
    obtain ⟨c, hc, rfl⟩ := List.mem_map.mp ha
    refine ⟨(length_le_of_mem_chunks (by decide) hc).trans (Nat.min_le_right ..), ?_⟩
    exact List.mem_cons_of_mem _ List.mem_cons_self
  · rw [List.flatMap_map]
    exact (List.flatMap_id' ..).trans (flatten_chunks DATA_CHUNK data)

private theorem conveys_single {packet : PastePacket} {id : Option (List UInt8)}
    {status : List UInt8} (hs : packet.statuses 1 = [status]) (hc : packet.content = []) :
    packet.Conveys id [⟨packet.fields id status, []⟩] where
  fields := ⟨1, by rw [hs]; rfl⟩
  short := by simp
  bare := by simp
  content := by simp [hc]

theorem conveys_answers (packet : PastePacket) (id : Option (List UInt8)) :
    packet.Conveys id (packet.answers id) := by
  cases packet with
  | listing location password mimes =>
    obtain ⟨hf, hs, hc⟩ := conveys_chunks (.listing location password mimes) id
      ([0x20].intercalate mimes)
    refine ⟨⟨(chunks DATA_CHUNK ([0x20].intercalate mimes)).length, ?_⟩, ?_, ?_, ?_⟩
    · simp only [answers, statuses, List.map_cons, List.map_append, hf, List.map_nil]
    · simp only [answers, List.forall_mem_cons, List.forall_mem_append]
      exact ⟨Nat.zero_le _, fun a ha ↦ (hs a ha).1, Nat.zero_le _, fun _ h ↦ (nomatch h)⟩
    · simp only [answers, List.forall_mem_cons, List.forall_mem_append]
      exact ⟨fun _ ↦ trivial, fun a ha hn ↦ absurd (hs a ha).2 hn, fun _ ↦ trivial,
        fun _ h ↦ (nomatch h)⟩
    · simp only [answers, List.flatMap_cons, List.flatMap_append, hc, List.flatMap_nil,
        List.append_nil, List.nil_append, content]
  | readData mime data =>
    rw [answers]
    split
    · next he => exact conveys_single rfl he
    · obtain ⟨hf, hs, hc⟩ := conveys_chunks (.readData mime data) id data
      exact ⟨⟨_, hf⟩, fun a ha ↦ (hs a ha).1, fun a ha hn ↦ absurd (hs a ha).2 hn, hc⟩
  | readOk => exact conveys_single rfl rfl
  | readDone => exact conveys_single rfl rfl
  | readError e => exact conveys_single rfl rfl

/-- A listing's password leaves room for its data in one sequence. -/
def Fits : PastePacket → Prop
  | .listing _ (some pw) mimes =>
    (ascii "5522;type=read:status=DATA:mime=Lg==:pw=").length + pw.length + 1 +
      base64Length (min ([0x20].intercalate mimes).length DATA_CHUNK) ≤ MAX_METADATA
  | _ => True

/-! ### The packet's sequences -/

section Scanned

variable {packet : PastePacket} {id : Option (List UInt8)} {bytes : List UInt8}

private theorem tokens_of_atoms {tokens : List Token} {oscs : List Osc} (hfull : .raw [] ∉ tokens)
    (h : tokens.flatMap Token.atoms = oscs.map .osc) : tokens = oscs.map .osc := by
  induction tokens generalizing oscs with
  | nil =>
    rw [List.flatMap_nil, eq_comm, List.map_eq_nil_iff] at h
    rw [h]
    rfl
  | cons t tokens ih =>
    rw [List.mem_cons, not_or] at hfull
    rw [List.flatMap_cons] at h
    cases t with
    | raw run =>
      cases run with
      | nil => exact absurd rfl hfull.1
      | cons b run =>
        cases oscs with
        | nil => cases h
        | cons o oscs => cases h
    | ris => cases oscs <;> cases h
    | csi c => cases oscs <;> cases h
    | osc o =>
      cases oscs with
      | nil => cases h
      | cons o' oscs =>
        obtain ⟨ho, hrest⟩ := List.cons_eq_cons.mp h
        cases ho
        rw [ih hfull.2 hrest]
        rfl

private theorem carried_of_says {answers : List Answer} (h : OutputScanner.Says bytes answers)
    (hc : packet.Conveys id answers) : packet.Carried id bytes := by
  obtain ⟨oscs, hr, ha⟩ := h
  refine ⟨oscs, answers, fun pieces hp ↦ ?_, ha, hc⟩
  have hf := OutputScanner.feedAll_eq_run OutputScanner.new pieces
  rw [hp, hr, Prod.mk.injEq] at hf
  exact Prod.ext hf.1 (tokens_of_atoms (OutputScanner.feedAll_full _ _) hf.2)

private theorem not_carried_of_byte
    (h : ∃ b, Atom.byte b ∈ (OutputScanner.transducer.run OutputScanner.new bytes).2) :
    ¬packet.Carried id bytes := by
  rintro ⟨oscs, _, hs, -, -⟩
  obtain ⟨b, hb⟩ := h
  have hf := OutputScanner.feedAll_eq_run OutputScanner.new [bytes]
  rw [hs [bytes] (List.flatten_singleton ..), List.flatten_singleton] at hf
  rw [← hf] at hb
  obtain ⟨t, ht, hm⟩ := List.mem_flatMap.mp hb
  obtain ⟨o, -, rfl⟩ := List.mem_map.mp ht
  cases List.mem_singleton.mp hm

theorem osc_eq_sequenceText (fields : List RequestField) (payload : List UInt8) :
    osc (metadataText fields) payload =
      sequenceText fields (if payload = [] then [] else 0x3b :: payload) := by
  unfold osc sequenceText
  simp only [List.append_assoc]
  rfl

private theorem trails_payload (data : List UInt8) :
    Trails (if base64 data = [] then [] else 0x3b :: base64 data) data := by
  split
  · next h => exact .inl ⟨rfl, base64_eq_nil.mp h⟩
  · exact .inr rfl

variable {location : Location} {password : Option (List UInt8)} {mimes : List (List UInt8)}

private theorem base64_dot : base64 (ascii ".") = ascii "Lg==" := by
  rw [show ascii "." = [0x2e] from rfl, base64, chunks_cons, List.take_nil, List.drop_nil,
    chunks_nil]
  rfl

private theorem flatMap_option (key : List UInt8) (value : Option (List UInt8)) :
    ((value.map (key, ·)).toList.flatMap fun g ↦ 0x3a :: fieldText g) =
      (value.map (0x3a :: key ++ [0x3d] ++ ·)).getD [] := by
  cases value with
  | none => rfl
  | some value => simp [fieldText]

private theorem metadata_ok :
    metadataText ((listing location password mimes).fields id (ascii "OK")) =
      ascii "type=read:status=OK" ++ ((if location = .primary then ascii ":loc=primary" else []) ++
        (password.map (ascii ":pw=" ++ ·)).getD []) := by
  have hf : (listing location password mimes).fields id (ascii "OK") =
      (ascii "type", ascii "read") :: (ascii "status", ascii "OK") ::
        ((if location = .primary then [(ascii "loc", ascii "primary")] else []) ++
          (password.map (ascii "pw", ·)).toList) := by
    cases location <;> rfl
  rw [hf, metadataText_cons, List.flatMap_cons, List.flatMap_append, flatMap_option]
  cases location <;> rfl

private theorem metadata_data :
    metadataText ((listing location password mimes).fields id (ascii "DATA")) =
      ascii "type=read:status=DATA:mime=Lg==" ++ (password.map (ascii ":pw=" ++ ·)).getD [] := by
  have hf : (listing location password mimes).fields id (ascii "DATA") =
      (ascii "type", ascii "read") :: (ascii "status", ascii "DATA") ::
        (ascii "mime", base64 (ascii ".")) :: (password.map (ascii "pw", ·)).toList := rfl
  rw [hf, metadataText_cons, List.flatMap_cons, List.flatMap_cons, flatMap_option, base64_dot]
  rfl

private theorem metadata_done :
    metadataText ((listing location password mimes).fields id (ascii "DONE")) =
      ascii "type=read:status=DONE" ++ (password.map (ascii ":pw=" ++ ·)).getD [] := by
  have hf : (listing location password mimes).fields id (ascii "DONE") =
      (ascii "type", ascii "read") :: (ascii "status", ascii "DONE") ::
        (password.map (ascii "pw", ·)).toList := rfl
  rw [hf, metadataText_cons, List.flatMap_cons, flatMap_option]
  rfl

/-- The metadata of a status that a read is answered with. -/
private theorem metadata_status (status : List UInt8) (more : List RequestField) :
    metadataText ((ascii "type", ascii "read") :: (ascii "status", status) ::
      ((id.map (ascii "id", ·)).toList ++ more)) =
      readStatus status id ++ more.flatMap fun g ↦ 0x3a :: fieldText g := by
  rw [metadataText_cons, List.flatMap_cons, List.flatMap_append, flatMap_option]
  cases id with
  | none => simp [readStatus, fieldText, List.append_assoc]; rfl
  | some id => simp [readStatus, fieldText, List.append_assoc]; rfl

private theorem inert_key : ∀ key ∈ KEYS, 0x3d ∉ key ∧ Inert key := by
  have hall : KEYS.all (fun key ↦ key.all fun b ↦
      (0x20 ≤ b && b != 0x3a && b != 0x3b) && b != 0x3d) = true := rfl
  intro key hk
  have hb := List.all_eq_true.mp (List.all_eq_true.mp hall key hk)
  refine ⟨fun h ↦ absurd (hb _ h) (by decide), inert_of_all (List.all_eq_true.mpr fun b hm ↦ ?_)⟩
  exact (Bool.and_eq_true_iff.mp (hb b hm)).1

private theorem worded_fields {status : List UInt8} (hid : ∀ i, id = some i → Inert i)
    (hpw : ∀ location pw mimes, packet = .listing location (some pw) mimes → Inert pw)
    (hs : Inert status) : Worded (packet.fields id status) := by
  have hf : ∀ key value, key ∈ KEYS → Inert value →
      0x3d ∉ key ∧ Inert key ∧ Inert value := fun key value hk hv ↦
    ⟨(inert_key key hk).1, (inert_key key hk).2, hv⟩
  have hi : ∀ f ∈ (id.map (ascii "id", ·)).toList, 0x3d ∉ f.1 ∧ Inert f.1 ∧ Inert f.2 := by
    intro f hm
    obtain ⟨i, hi, rfl⟩ := Option.map_eq_some_iff.mp (Option.mem_toList.mp hm)
    exact hf (ascii "id") i (by decide) (hid i hi)
  have hall : ∀ f ∈ packet.fields id status, 0x3d ∉ f.1 ∧ Inert f.1 ∧ Inert f.2 := by
    unfold fields
    rw [List.forall_mem_cons, List.forall_mem_cons]
    refine ⟨hf _ _ (by decide) (inert_of_all rfl), hf (ascii "status") status (by decide) hs, ?_⟩
    cases packet with
    | listing location password mimes =>
      simp only [List.forall_mem_append]
      refine ⟨⟨?_, ?_⟩, ?_⟩
      · split
        · exact List.forall_mem_singleton.mpr (hf _ _ (by decide) (inert_of_all rfl))
        · exact fun _ h ↦ (nomatch h)
      · split
        · exact List.forall_mem_singleton.mpr (hf _ _ (by decide) (inert_base64 _))
        · exact fun _ h ↦ (nomatch h)
      · intro f hm
        obtain ⟨pw, hp, rfl⟩ := Option.map_eq_some_iff.mp (Option.mem_toList.mp hm)
        exact hf (ascii "pw") pw (by decide) (hpw location pw mimes (by rw [hp]))
    | readData mime data =>
      simp only [List.forall_mem_append]
      exact ⟨hi, List.forall_mem_singleton.mpr (hf (ascii "mime") _ (by decide) (inert_base64 _))⟩
    | readOk => exact hi
    | readDone => exact hi
    | readError e => exact hi
  refine ⟨List.cons_ne_nil _ _, fun f hf ↦ (hall f hf).1, fun f hf b hb ↦ ?_⟩
  obtain hb | hb := List.mem_append.mp hb
  · exact (hall f hf).2.1 b hb
  obtain rfl | hb := List.mem_cons.mp hb
  · decide
  · exact (hall f hf).2.2 b hb

/-- The lengths that count for the limit. -/
private theorem length_sequence (fields : List RequestField) (tail : List UInt8) :
    (ascii "5522;" ++ (metadataText fields ++ tail)).length =
      5 + (metadataText fields).length + tail.length := by
  rw [List.length_append, List.length_append, ← Nat.add_assoc]
  rfl

private theorem length_payload (chunk : List UInt8) :
    (if base64 chunk = [] then [] else 0x3b :: base64 chunk).length ≤
      1 + base64Length chunk.length := by
  split
  · exact Nat.zero_le _
  · rw [List.length_cons, length_base64, Nat.add_comm]

private theorem base64Length_mono {m n : Nat} (h : m ≤ n) : base64Length m ≤ base64Length n := by
  unfold base64Length
  omega

/-- The listing's data in its first sequence, with the password. -/
def listingLength (password : Option (List UInt8)) (mimes : List (List UInt8)) : Nat :=
  36 + ((password.map (ascii ":pw=" ++ ·)).getD []).length + 1 +
    base64Length (min ([0x20].intercalate mimes).length DATA_CHUNK)

private theorem fits_iff :
    (listing location password mimes).Fits ↔ listingLength password mimes ≤ MAX_METADATA := by
  cases password with
  | none =>
    have hb := base64Length_mono (Nat.min_le_right ([0x20].intercalate mimes).length DATA_CHUNK)
    refine ⟨fun _ ↦ ?_, fun _ ↦ trivial⟩
    refine le_trans (Nat.add_le_add_left hb _) ?_
    decide
  | some pw =>
    have hl : (ascii "5522;type=read:status=DATA:mime=Lg==:pw=").length = 40 := rfl
    have h4 : (ascii ":pw=" ++ pw).length = 4 + pw.length := by
      rw [List.length_append]
      rfl
    unfold Fits listingLength
    rw [Option.map_some, Option.getD_some, h4, hl]
    omega

/-- The bytes of a listing. -/
def listingBytes (location : Location) (password : Option (List UInt8))
    (mimes : List (List UInt8)) : List UInt8 :=
  let packet := listing location password mimes
  sequenceText (packet.fields none (ascii "OK")) [] ++
    (chunks DATA_CHUNK ([0x20].intercalate mimes)).flatMap (fun chunk ↦
      sequenceText (packet.fields none (ascii "DATA"))
        (if base64 chunk = [] then [] else 0x3b :: base64 chunk)) ++
    sequenceText (packet.fields none (ascii "DONE")) []

private theorem encodeListing_eq_ok (h : encodeListing location password mimes = .ok bytes) :
    mimes ≠ [] ∧ mimes.all validMime = true ∧
    (∀ pw, password = some pw → (decode pw).isSome = true) ∧
      bytes = listingBytes location password mimes := by
  unfold encodeListing at h
  split at h
  · cases h
  split at h
  · cases h
  next hm hp =>
  dsimp only at h
  generalize hloc : (if location = .primary then ascii ":loc=primary" else []) = loc at h
  split at h
  · cases h
  rw [not_or, Bool.not_eq_true', Bool.not_eq_false] at hm
  refine ⟨hm.1, hm.2, ?_, ?_⟩
  · rintro pw rfl
    rw [Option.isSome_iff_ne_none]
    simpa using hp
  · have hok := @metadata_ok none location password mimes
    have hdata := @metadata_data none location password mimes
    have hdone := @metadata_done none location password mimes
    rw [hloc] at hok
    rw [← Except.ok.inj h, ← hok, ← hdata, ← hdone]
    simp only [listingBytes, osc_eq_sequenceText]
    rfl

private theorem list_ne_nil (hne : mimes ≠ []) (hv : mimes.all validMime = true) :
    [0x20].intercalate mimes ≠ [] := by
  obtain ⟨mime, rest, rfl⟩ := List.exists_cons_of_ne_nil hne
  have hm : validMime mime = true := List.all_eq_true.mp hv mime List.mem_cons_self
  cases mime with
  | nil => cases hm
  | cons b mime => exact List.ne_nil_of_mem (mem_intercalate List.mem_cons_self List.mem_cons_self)

/-- The sequences of a listing that fits. -/
private theorem says_listing (hpw : ∀ pw, password = some pw → Inert pw)
    (hlist : [0x20].intercalate mimes ≠ []) (hfit : listingLength password mimes ≤ MAX_METADATA) :
    OutputScanner.Says (listingBytes location password mimes)
      ((listing location password mimes).answers id) := by
  have hworded : ∀ status, Inert status →
      Worded ((listing location password mimes).fields none status) := fun status hs ↦
    worded_fields (fun _ h ↦ (nomatch h)) (fun l pw m hp ↦ hpw pw (by cases hp; rfl)) hs
  have hlen : 0 < ([0x20].intercalate mimes).length := List.length_pos_iff.mpr hlist
  have hone : base64Length 1 ≤ base64Length (min ([0x20].intercalate mimes).length DATA_CHUNK) :=
    base64Length_mono (Nat.le_min.mpr ⟨hlen, by decide⟩)
  have h4 : base64Length 1 = 4 := rfl
  unfold listingLength at hfit
  have hloc : (if location = .primary then ascii ":loc=primary" else []).length ≤ 12 := by
    cases location <;> decide
  refine ((OutputScanner.says_sequence (hworded _ (inert_of_all rfl)) (.inl ⟨rfl, rfl⟩) ?_).append
    (OutputScanner.says_flatMap fun chunk hc ↦ OutputScanner.says_sequence
      (hworded _ (inert_of_all rfl)) (trails_payload chunk) ?_)).append
    (OutputScanner.says_sequence (hworded _ (inert_of_all rfl)) (.inl ⟨rfl, rfl⟩) ?_)
  · have ht : (ascii "type=read:status=OK").length = 19 := rfl
    rw [length_sequence, metadata_ok, List.length_append, List.length_append, ht, List.length_nil]
    omega
  · have ht : (ascii "type=read:status=DATA:mime=Lg==").length = 31 := rfl
    have hp := length_payload chunk
    have hm := base64Length_mono (length_le_of_mem_chunks (by decide) hc)
    rw [length_sequence, metadata_data, List.length_append, ht]
    omega
  · have ht : (ascii "type=read:status=DONE").length = 21 := rfl
    rw [length_sequence, metadata_done, List.length_append, ht, List.length_nil]
    omega

/-- A listing whose data does not fit is broken up, in its first sequence or in its second. -/
private theorem broken_listing (hpw : ∀ pw, password = some pw → Inert pw)
    (hlist : [0x20].intercalate mimes ≠ []) (hfit : ¬listingLength password mimes ≤ MAX_METADATA) :
    ∃ b, Atom.byte b ∈ (OutputScanner.transducer.run OutputScanner.new
      (listingBytes location password mimes)).2 := by
  have hworded : ∀ status, Inert status →
      Worded ((listing location password mimes).fields none status) := fun status hs ↦
    worded_fields (fun _ h ↦ (nomatch h)) (fun l pw m hp ↦ hpw pw (by cases hp; rfl)) hs
  rw [listingBytes, chunks_eq_take_cons (by decide) hlist, List.flatMap_cons]
  simp only [List.append_assoc]
  have hok := hworded (ascii "OK") (inert_of_all rfl)
  by_cases hl : (ascii "5522;" ++ (metadataText ((listing location password mimes).fields none
      (ascii "OK")) ++ [])).length ≤ MAX_METADATA
  · -- the first sequence is one token, and the next one is given up
    obtain ⟨oscs, hr, -⟩ := OutputScanner.says_sequence hok (.inl ⟨rfl, rfl⟩) hl
    have hdata := OutputScanner.broken_sequence (hworded (ascii "DATA") (inert_of_all rfl))
      (trails_payload (([0x20].intercalate mimes).take DATA_CHUNK)) ?_
    · rw [Transducer.run_append, hr, Transducer.andThen]
      obtain ⟨b, hb⟩ := hdata _
      exact ⟨b, List.mem_append_right _ hb⟩
    · have hne : base64 (([0x20].intercalate mimes).take DATA_CHUNK) ≠ [] := by
        rw [ne_eq, base64_eq_nil, List.take_eq_nil_iff, not_or]
        exact ⟨by decide, hlist⟩
      have ht : (ascii "type=read:status=DATA:mime=Lg==").length = 31 := rfl
      rw [length_sequence, metadata_data, List.length_append, ht, if_neg hne, List.length_cons,
        length_base64, List.length_take, Nat.min_comm]
      unfold listingLength at hfit
      omega
  · exact OutputScanner.broken_sequence hok (.inl ⟨rfl, rfl⟩) (not_le.mp hl) _

private theorem length_readStatus {status : List UInt8}
    (hid : ∀ i, id = some i → validId i = true) :
    (readStatus status id).length ≤ 17 + status.length + (4 + MAX_ID) := by
  have ht : (ascii "type=read:status=").length = 17 := rfl
  have hi : (ascii ":id=").length = 4 := rfl
  cases id with
  | none =>
    rw [readStatus, List.length_append, ht]
    omega
  | some i =>
    have hv := hid i rfl
    unfold validId at hv
    simp only [Bool.and_eq_true, decide_eq_true_eq] at hv
    rw [readStatus, List.length_append, List.length_append, List.length_append, ht, hi]
    omega

/-- A single status. -/
private theorem says_status {status : List UInt8} (hid : ∀ i, id = some i → validId i = true)
    (hs : Inert status) (hl : status.length ≤ 6)
    (hf : packet.fields id status = (ascii "type", ascii "read") :: (ascii "status", status) ::
      (id.map (ascii "id", ·)).toList)
    (hp : ∀ location pw mimes, packet ≠ .listing location (some pw) mimes) :
    OutputScanner.Says (osc (readStatus status id) []) [⟨packet.fields id status, []⟩] := by
  have hm := @metadata_status id status []
  rw [List.append_nil, List.flatMap_nil, List.append_nil, ← hf] at hm
  rw [← hm, osc_eq_sequenceText]
  refine OutputScanner.says_sequence (worded_fields (fun i hi ↦ inert_id (hid i hi))
    (fun l pw m h ↦ absurd h (hp l pw m)) hs) (.inl ⟨rfl, rfl⟩) ?_
  have hr := @length_readStatus id status hid
  unfold MAX_ID at hr
  rw [length_sequence, hm, if_pos rfl, List.length_nil, MAX_METADATA]
  omega

/-- The sequences of one type's data. -/
private theorem says_data {mime data : List UInt8} (hid : ∀ i, id = some i → validId i = true)
    (h : encodeData mime data id = .ok bytes) :
    OutputScanner.Says bytes ((readData mime data).answers id) := by
  unfold encodeData at h
  split at h
  · cases h
  next hv =>
  split at h
  · cases h
  have hm :
      metadataText ((readData mime data).fields id (ascii "DATA")) = dataMetadata mime id := by
    have hs := @metadata_status id (ascii "DATA") [(ascii "mime", base64 mime)]
    rw [List.flatMap_cons, List.flatMap_nil, List.append_nil] at hs
    rw [dataMetadata, List.append_assoc]
    exact hs
  have hworded : Worded ((readData mime data).fields id (ascii "DATA")) :=
    worded_fields (fun i hi ↦ inert_id (hid i hi)) (fun _ _ _ h ↦ (nomatch h))
      (inert_of_all rfl)
  have hlen : (dataMetadata mime id).length ≤ 700 := by
    have hr := @length_readStatus id (ascii "DATA") hid
    have h4 : (ascii "DATA").length = 4 := rfl
    have h6 : (ascii ":mime=").length = 6 := rfl
    have hmime : mime.length ≤ MAX_MIME := by
      simp only [validMime, Bool.not_eq_true', Bool.not_eq_false, Bool.and_eq_true,
        decide_eq_true_eq] at hv
      exact hv.1.2
    have hb := base64Length_mono hmime
    have hb' : base64Length MAX_MIME = 340 := rfl
    unfold MAX_ID at hr
    rw [dataMetadata, List.length_append, List.length_append, length_base64, h6]
    omega
  have hchunk : base64Length DATA_CHUNK = 5464 := rfl
  cases h
  rw [answers, ← hm]
  by_cases hd : data = []
  · subst hd
    rw [if_pos rfl, if_pos rfl, chunks_nil, List.flatMap_nil, List.nil_append]
    have hs := @OutputScanner.says_sequence _ [0x3b] [] hworded
      (.inr (by rw [base64_eq_nil.mpr rfl])) (by
      rw [length_sequence, hm, MAX_METADATA, List.length_singleton]
      omega)
    have htext : ascii "\x1b]5522;" ++ metadataText ((readData mime []).fields id (ascii "DATA")) ++
        ascii ";\x1b\\" =
        sequenceText ((readData mime []).fields id (ascii "DATA")) [0x3b] := by
      rw [sequenceText]
      simp only [List.append_assoc]
      rfl
    rw [htext]
    exact hs
  · rw [if_neg hd, if_neg hd, List.append_nil]
    simp only [osc_eq_sequenceText]
    refine OutputScanner.says_flatMap fun chunk hc ↦
      OutputScanner.says_sequence hworded (trails_payload chunk) ?_
    have hp := length_payload chunk
    have hcl := base64Length_mono ((length_le_of_mem_chunks (by decide) hc).trans
      (Nat.min_le_right ..))
    rw [length_sequence, hm, MAX_METADATA]
    omega

/-- What a packet's bytes are, when it fits and when it does not. -/
private theorem carried_or_broken (h : encode packet id = .ok bytes) :
    (packet.Fits ∧ OutputScanner.Says bytes (packet.answers id)) ∨
      (¬packet.Fits ∧
        ∃ b, Atom.byte b ∈ (OutputScanner.transducer.run OutputScanner.new bytes).2) := by
  unfold encode at h
  split at h
  · cases h
  next hany =>
  have hid : ∀ i, id = some i → validId i = true := by
    rintro i rfl
    simpa using hany
  cases packet with
  | listing location password mimes =>
    obtain ⟨hne, hv, hpw, rfl⟩ := encodeListing_eq_ok h
    have hinert : ∀ pw, password = some pw → Inert pw := fun pw hp ↦ inert_of_decode (hpw pw hp)
    by_cases hf : listingLength password mimes ≤ MAX_METADATA
    · exact .inl ⟨fits_iff.mpr hf, says_listing hinert (list_ne_nil hne hv) hf⟩
    · exact .inr ⟨fun h ↦ hf (fits_iff.mp h), broken_listing hinert (list_ne_nil hne hv) hf⟩
  | readOk =>
    cases h
    exact .inl ⟨trivial, says_status hid (inert_of_all rfl) (by decide) rfl
      fun _ _ _ h ↦ (nomatch h)⟩
  | readData mime data => exact .inl ⟨trivial, says_data hid h⟩
  | readDone =>
    cases h
    exact .inl ⟨trivial, says_status hid (inert_of_all rfl) (by decide) rfl
      fun _ _ _ h ↦ (nomatch h)⟩
  | readError e =>
    cases h
    refine .inl ⟨trivial, says_status hid ?_ ?_ rfl fun _ _ _ h ↦ (nomatch h)⟩
    · cases e <;> exact inert_of_all rfl
    · cases e <;> decide

/-- The bytes of a packet are scanned as its answers and nothing else exactly when the password
of a listing leaves room. -/
theorem encode_carried_iff (packet : PastePacket) (id : Option (List UInt8)) (bytes : List UInt8)
    (h : encode packet id = .ok bytes) : packet.Carried id bytes ↔ packet.Fits := by
  obtain ⟨hf, hs⟩ | ⟨hf, hb⟩ := carried_or_broken h
  · exact ⟨fun _ ↦ hf, fun _ ↦ carried_of_says hs (conveys_answers packet id)⟩
  · exact ⟨fun hc ↦ absurd hc (not_carried_of_byte hb), fun hf' ↦ absurd hf' hf⟩

theorem encode_carried_iff_error :
    (readError .denied).Carried (some (ascii "w1"))
      (ascii "\x1b]5522;type=read:status=EPERM:id=w1\x1b\\") :=
  (encode_carried_iff _ _ _ (by decide +kernel)).mpr trivial

/-- With a password of 65528 bytes a listing is within the limit, and is not scanned as one. -/
theorem carried_refuted :
    ¬∀ packet id bytes, encode packet id = .ok bytes → packet.Carried id bytes := by
  intro h
  have hpw : (base64 (List.replicate 49146 0)).length = 65528 := by
    rw [length_base64, List.length_replicate, base64Length]
  have hd : decode (base64 (List.replicate 49146 0)) = some (List.replicate 49146 0) :=
    decode_eq_some_iff.mpr rfl
  generalize base64 (List.replicate 49146 0) = pw at hpw hd
  have henc : ∃ bytes, encode (.listing .clipboard (some pw) [ascii "x"]) none = .ok bytes := by
    unfold encode encodeListing
    dsimp only
    have hloc : (if Location.clipboard = .primary then ascii ":loc=primary" else []) = [] := rfl
    rw [if_neg (by decide), if_neg (by decide), if_neg (by rw [Option.any_some, hd]; decide),
      Option.map_some, Option.getD_some, hloc, List.nil_append, List.length_append, hpw,
      if_neg (by decide)]
    exact ⟨_, rfl⟩
  obtain ⟨bytes, henc⟩ := henc
  obtain ⟨hf, -⟩ | ⟨-, hb⟩ := carried_or_broken henc
  · have hl := fits_iff.mp hf
    rw [listingLength, Option.map_some, Option.getD_some, List.length_append, hpw] at hl
    exact absurd hl (by decide)
  · exact not_carried_of_byte hb (h _ _ _ henc)

end Scanned

end PastePacket

end PtySpec.Vt
