import PtySpec.Lib.Window

/-!
# Watching output for a pattern

Model of `VisibleText`, `crates/pty-client/src/peek.rs:653`: `peek --wait` drops the escape
sequences of the output that it watches, and looks for its patterns in the text that is left,
of which it keeps the end from one DATA packet to the next.
-/

namespace PtySpec.Client

open Lib

/-! ### The machine -/

/-- `Escape`, `peek.rs:663`. -/
inductive Escape where
  | ground
  | esc
  | intermediate
  | csi
  | text
  | textEsc
  deriving DecidableEq, Repr

/-- The second byte of an escape string. -/
def opensText (b : UInt8) : Bool := b ∈ [0x5d, 0x50, 0x58, 0x5e, 0x5f]

/-- An intermediate byte. -/
def isIntermediate (b : UInt8) : Bool := 0x20 ≤ b && b ≤ 0x2f

/-- The last byte of a CSI sequence. -/
def isCsiFinal (b : UInt8) : Bool := 0x40 ≤ b && b ≤ 0x7e

/-- The match in `feed`, `peek.rs:687-707`: the next state, and whether the byte breaks the
text. -/
def Escape.next : Escape → UInt8 → Escape × Bool
  | .ground, b => if b = 0x1b then (.esc, false) else (.ground, false)
  | .esc, b =>
    if b = 0x5b then (.csi, false)
    else if opensText b then (.text, false)
    else if isIntermediate b then (.intermediate, false)
    else (.ground, true)
  | .intermediate, b => if isIntermediate b then (.intermediate, false) else (.ground, false)
  | .csi, b =>
    if b = 0x6d then (.ground, false)
    else if isCsiFinal b then (.ground, true)
    else (.csi, false)
  | .text, b =>
    if b = 0x07 then (.ground, false) else if b = 0x1b then (.textEsc, false) else (.text, false)
  | .textEsc, _ => (.ground, false)

/-- `contains_any`, `peek.rs:646`. -/
def containsAny (haystack : List UInt8) (patterns : List (List UInt8)) : Bool :=
  patterns.any (· <:+: haystack)

/-- `VisibleText`, `peek.rs:657`. -/
structure VisibleText where
  state : Escape := .ground
  tail : List UInt8 := []
  deriving DecidableEq, Repr

namespace VisibleText

variable (patterns : List (List UInt8))

/-- How much of the text is kept, `peek.rs:716-721`. -/
def keep : Nat := ((patterns.map List.length).max?.getD 0) - 1

/-- One byte of a chunk; a pattern completed before a break still counts. -/
def byte (v : VisibleText × Bool) (b : UInt8) : VisibleText × Bool :=
  let tail := if v.1.state = .ground ∧ b ≠ 0x1b then v.1.tail ++ [b] else v.1.tail
  let (state, breaks) := v.1.state.next b
  if breaks then (⟨state, []⟩, v.2 || containsAny tail patterns) else (⟨state, tail⟩, v.2)

/-- `VisibleText::feed`, `peek.rs:683`. -/
def feed (v : VisibleText) (chunk : List UInt8) : VisibleText × Bool :=
  let (v, found) := chunk.foldl (byte patterns) (v, false)
  let found := found || containsAny v.tail patterns
  let drop := v.tail.length - keep patterns
  ({ v with tail := v.tail.drop drop }, found)

/-- What is reported for each of the chunks, one after the other. -/
def reports (v : VisibleText) : List (List UInt8) → List Bool
  | [] => []
  | chunk :: chunks => (v.feed patterns chunk).2 :: (v.feed patterns chunk).1.reports chunks

end VisibleText

/-! ### Text and sequences -/

/-- A byte of text, or a sequence: a style change, another CSI sequence, a charset designation,
an escape string, or an escape of a single byte. -/
inductive Token where
  | text (b : UInt8)
  | style (params : List UInt8)
  | control (params : List UInt8) (final : UInt8)
  | designation (intermediates : List UInt8) (final : UInt8)
  | string (introducer : UInt8) (body : List UInt8) (stop : List UInt8)
  | single (b : UInt8)

namespace Token

/-- How it is written. -/
def bytes : Token → List UInt8
  | text b => [b]
  | style params => 0x1b :: 0x5b :: (params ++ [0x6d])
  | control params final => 0x1b :: 0x5b :: (params ++ [final])
  | designation intermediates final => 0x1b :: (intermediates ++ [final])
  | string introducer body stop => 0x1b :: introducer :: (body ++ stop)
  | single b => [0x1b, b]

/-- It is a sequence of its kind; an escape string ends with BEL, or with ESC and a byte. -/
def Valid : Token → Prop
  | text b => b ≠ 0x1b
  | style params => ∀ b ∈ params, isCsiFinal b = false
  | control params final => (∀ b ∈ params, isCsiFinal b = false) ∧ isCsiFinal final = true ∧
      final ≠ 0x6d
  | designation intermediates final => intermediates ≠ [] ∧
      (∀ b ∈ intermediates, isIntermediate b = true) ∧ isIntermediate final = false
  | string introducer body stop => opensText introducer = true ∧
      (∀ b ∈ body, b ≠ 0x07 ∧ b ≠ 0x1b) ∧ (stop = [0x07] ∨ ∃ b, stop = [0x1b, b])
  | single b => b ≠ 0x5b ∧ opensText b = false ∧ isIntermediate b = false

/-- The text on both sides of such a sequence is joined, `peek.rs:677-682`. -/
def joins : Token → Bool
  | style _ => true
  | designation _ _ => true
  | string _ _ _ => true
  | _ => false

end Token

/-- A sequence of which the rest has not come. -/
inductive Unfinished : List UInt8 → Prop
  | nil : Unfinished []
  | esc : Unfinished [0x1b]
  | intermediate {is : List UInt8} (hne : is ≠ []) (h : ∀ b ∈ is, isIntermediate b = true) :
      Unfinished (0x1b :: is)
  | csi {params : List UInt8} (h : ∀ b ∈ params, isCsiFinal b = false) :
      Unfinished (0x1b :: 0x5b :: params)
  | text {introducer : UInt8} {body : List UInt8} (hi : opensText introducer = true)
      (h : ∀ b ∈ body, b ≠ 0x07 ∧ b ≠ 0x1b) : Unfinished (0x1b :: introducer :: body)
  | textEsc {introducer : UInt8} {body : List UInt8} (hi : opensText introducer = true)
      (h : ∀ b ∈ body, b ≠ 0x07 ∧ b ≠ 0x1b) : Unfinished (0x1b :: introducer :: (body ++ [0x1b]))

/-- An output taken apart. -/
structure Parsed (output : List UInt8) (tokens : List Token) (rest : List UInt8) : Prop where
  bytes : output = tokens.flatMap Token.bytes ++ rest
  valid : ∀ t ∈ tokens, t.Valid
  unfinished : Unfinished rest

/-- The maximal runs of text after a run that goes on. -/
def runsFrom (joins : Token → Bool) (run : List UInt8) : List Token → List (List UInt8)
  | [] => [run]
  | .text b :: tokens => runsFrom joins (run ++ [b]) tokens
  | t :: tokens => if joins t then runsFrom joins run tokens else run :: runsFrom joins [] tokens

/-- The maximal runs of text, where some sequences join the text on both sides. -/
def runs (joins : Token → Bool) (tokens : List Token) : List (List UInt8) :=
  runsFrom joins [] tokens

/-! ### The machine over sequences -/

/-- The state of the machine beside the runs of text of all that came. -/
structure Scan where
  state : Escape
  past : List (List UInt8)
  run : List UInt8

/-- One byte. -/
def Scan.byte (s : Scan) (b : UInt8) : Scan :=
  let run := if s.state = .ground ∧ b ≠ 0x1b then s.run ++ [b] else s.run
  let (state, breaks) := s.state.next b
  if breaks then ⟨state, s.past ++ [run], []⟩ else ⟨state, s.past, run⟩

/-- The bytes of an output. -/
def Scan.bytes (s : Scan) (output : List UInt8) : Scan := output.foldl Scan.byte s

namespace Scan

variable {past : List (List UInt8)} {run : List UInt8}

/-- Bytes that leave the machine in its state. -/
private theorem bytes_stay {state : Escape} {body : List UInt8} (hs : state ≠ .ground)
    (h : ∀ b ∈ body, state.next b = (state, false)) :
    bytes ⟨state, past, run⟩ body = ⟨state, past, run⟩ := by
  induction body with
  | nil => rfl
  | cons b body ih =>
    have hb : byte ⟨state, past, run⟩ b = ⟨state, past, run⟩ := by
      simp [byte, hs, h b List.mem_cons_self]
    rw [bytes, List.foldl_cons, hb]
    exact ih fun x hx ↦ h x (List.mem_cons_of_mem b hx)

private theorem bytes_append (s : Scan) (a b : List UInt8) :
    s.bytes (a ++ b) = (s.bytes a).bytes b := List.foldl_append

private theorem bytes_singleton (s : Scan) (b : UInt8) : s.bytes [b] = s.byte b := rfl

private theorem byte_sequence {state state' : Escape} {b : UInt8}
    (hs : ¬(state = .ground ∧ b ≠ 0x1b)) (h : state.next b = (state', false)) :
    byte ⟨state, past, run⟩ b = ⟨state', past, run⟩ := by
  simp only [byte, if_neg hs, h, Bool.false_eq_true, if_false]

private theorem byte_break {state : Escape} {b : UInt8} (hs : state ≠ .ground)
    (h : state.next b = (.ground, true)) :
    byte ⟨state, past, run⟩ b = ⟨.ground, past ++ [run], []⟩ := by
  simp only [byte, if_neg (not_and_of_not_left _ hs), h, if_true]

private theorem bytes_esc : byte ⟨.ground, past, run⟩ 0x1b = ⟨.esc, past, run⟩ :=
  byte_sequence (by simp) rfl

private theorem bytes_csi {params : List UInt8} (h : ∀ b ∈ params, isCsiFinal b = false) :
    bytes ⟨.ground, past, run⟩ (0x1b :: 0x5b :: params) = ⟨.csi, past, run⟩ := by
  rw [bytes, List.foldl_cons, List.foldl_cons, bytes_esc, byte_sequence (by simp) rfl]
  refine bytes_stay (by simp) fun b hb ↦ ?_
  have hf := h b hb
  have hm : b ≠ 0x6d := by
    rintro rfl
    exact absurd hf (by decide)
  simp only [Escape.next, if_neg hm, hf, Bool.false_eq_true, if_false]

private theorem bytes_text {introducer : UInt8} {body : List UInt8}
    (hi : opensText introducer = true) (h : ∀ b ∈ body, b ≠ 0x07 ∧ b ≠ 0x1b) :
    bytes ⟨.ground, past, run⟩ (0x1b :: introducer :: body) = ⟨.text, past, run⟩ := by
  have hne : introducer ≠ 0x5b := by
    rintro rfl
    exact absurd hi (by decide)
  rw [bytes, List.foldl_cons, List.foldl_cons, bytes_esc, byte_sequence (by simp)
    (show Escape.next .esc introducer = (.text, false) by
      simp only [Escape.next, if_neg hne, hi, if_true])]
  refine bytes_stay (by simp) fun b hb ↦ ?_
  obtain ⟨h7, he⟩ := h b hb
  simp only [Escape.next, if_neg h7, if_neg he]

private theorem bytes_intermediate {is : List UInt8} (hne : is ≠ [])
    (h : ∀ b ∈ is, isIntermediate b = true) :
    bytes ⟨.ground, past, run⟩ (0x1b :: is) = ⟨.intermediate, past, run⟩ := by
  obtain ⟨first, is, rfl⟩ := List.exists_cons_of_ne_nil hne
  have hfirst := h first List.mem_cons_self
  have hb : first ≠ 0x5b := by
    rintro rfl
    exact absurd hfirst (by decide)
  have ht : opensText first = false := by
    rw [← Bool.not_eq_true, opensText, decide_eq_true_eq]
    intro hm
    simp only [List.mem_cons, List.not_mem_nil, or_false] at hm
    obtain rfl | rfl | rfl | rfl | rfl := hm <;> exact absurd hfirst (by decide)
  rw [bytes, List.foldl_cons, List.foldl_cons, bytes_esc, byte_sequence (by simp)
    (show Escape.next .esc first = (.intermediate, false) by
      simp only [Escape.next, if_neg hb, ht, hfirst, Bool.false_eq_true, if_false, if_true])]
  refine bytes_stay (by simp) fun b hb ↦ ?_
  simp only [Escape.next, h b (List.mem_cons_of_mem _ hb), if_true]

/-- A sequence leaves the text, or ends its run. -/
private theorem bytes_token {t : Token} (h : t.Valid) (ht : ∀ b, t ≠ .text b) :
    bytes ⟨.ground, past, run⟩ t.bytes =
      if t.joins then ⟨.ground, past, run⟩ else ⟨.ground, past ++ [run], []⟩ := by
  cases t with
  | text b => exact absurd rfl (ht b)
  | style params =>
    rw [Token.bytes, ← List.cons_append, ← List.cons_append, bytes_append, bytes_csi h,
      bytes_singleton]
    exact byte_sequence (by simp) rfl
  | control params final =>
    obtain ⟨hp, hf, hm⟩ := h
    rw [Token.bytes, ← List.cons_append, ← List.cons_append, bytes_append, bytes_csi hp,
      bytes_singleton]
    exact byte_break (by simp) (by simp only [Escape.next, if_neg hm, hf, if_true])
  | designation is final =>
    obtain ⟨hne, his, hf⟩ := h
    rw [Token.bytes, ← List.cons_append, bytes_append, bytes_intermediate hne his,
      bytes_singleton]
    exact byte_sequence (by simp) (by simp only [Escape.next, hf, Bool.false_eq_true, if_false])
  | string introducer body stop =>
    obtain ⟨hi, hb, hstop⟩ := h
    rw [Token.bytes, ← List.cons_append, ← List.cons_append, bytes_append, bytes_text hi hb]
    obtain rfl | ⟨b, rfl⟩ := hstop
    · rw [bytes_singleton]
      exact byte_sequence (by simp) rfl
    · have he : byte ⟨.text, past, run⟩ 0x1b = ⟨.textEsc, past, run⟩ := byte_sequence (by simp) rfl
      rw [bytes, List.foldl_cons, he, List.foldl_cons, List.foldl_nil]
      exact byte_sequence (by simp) rfl
  | single b =>
    obtain ⟨hb, ht, hi⟩ := h
    rw [Token.bytes, bytes, List.foldl_cons, bytes_esc, List.foldl_cons, List.foldl_nil]
    exact byte_break (by simp)
      (by simp only [Escape.next, if_neg hb, ht, hi, Bool.false_eq_true, if_false])

private theorem bytes_unfinished {rest : List UInt8} (h : Unfinished rest)
    (past : List (List UInt8)) (run : List UInt8) :
    ∃ state, bytes ⟨.ground, past, run⟩ rest = ⟨state, past, run⟩ := by
  cases h with
  | nil => exact ⟨_, rfl⟩
  | esc => exact ⟨_, bytes_esc⟩
  | intermediate hne h => exact ⟨_, bytes_intermediate hne h⟩
  | csi h => exact ⟨_, bytes_csi h⟩
  | text hi h => exact ⟨_, bytes_text hi h⟩
  | textEsc hi h =>
    refine ⟨.textEsc, ?_⟩
    rw [← List.cons_append, ← List.cons_append, bytes_append, bytes_text hi h, bytes_singleton]
    exact byte_sequence (by simp) rfl

private theorem bytes_tokens {tokens : List Token} (h : ∀ t ∈ tokens, t.Valid)
    (past : List (List UInt8)) (run : List UInt8) :
    ∃ past' run', bytes ⟨.ground, past, run⟩ (tokens.flatMap Token.bytes) =
      ⟨.ground, past', run'⟩ ∧ past' ++ [run'] = past ++ runsFrom Token.joins run tokens := by
  induction tokens generalizing past run with
  | nil => exact ⟨past, run, rfl, rfl⟩
  | cons t tokens ih =>
    have hrest (u : Token) (hu : u ∈ tokens) : u.Valid := h u (List.mem_cons_of_mem t hu)
    have ht := h t List.mem_cons_self
    rw [List.flatMap_cons, bytes_append]
    by_cases hb : ∃ b, t = .text b
    · obtain ⟨b, rfl⟩ := hb
      have hbyte : bytes ⟨.ground, past, run⟩ (Token.text b).bytes =
          ⟨.ground, past, run ++ [b]⟩ := by
        have hne : b ≠ 0x1b := ht
        rw [Token.bytes, bytes_singleton, byte]
        simp [Escape.next, hne]
      rw [hbyte]
      exact ih hrest past (run ++ [b])
    · have hs (b : UInt8) : t ≠ .text b := fun he ↦ hb ⟨b, he⟩
      have hruns : runsFrom Token.joins run (t :: tokens) = if t.joins then
          runsFrom Token.joins run tokens else run :: runsFrom Token.joins [] tokens := by
        cases t <;> first | exact absurd rfl (hs _) | rfl
      rw [bytes_token ht hs, hruns]
      split
      · exact ih hrest past run
      · obtain ⟨past', run', hr, he⟩ := ih hrest (past ++ [run]) []
        exact ⟨past', run', hr, by rw [he, List.append_assoc, List.singleton_append]⟩

/-- The runs of an output that was taken apart. -/
private theorem bytes_parsed {output rest : List UInt8} {tokens : List Token}
    (h : Parsed output tokens rest) :
    (bytes ⟨.ground, [], []⟩ output).past ++ [(bytes ⟨.ground, [], []⟩ output).run] =
      runs Token.joins tokens := by
  obtain ⟨past, run, hr, he⟩ := bytes_tokens h.valid [] []
  obtain ⟨state, hs⟩ := bytes_unfinished h.unfinished past run
  rw [h.bytes, bytes_append, hr, hs, he]
  rfl

end Scan

/-- Every output can be taken apart. -/
theorem exists_parsed (output : List UInt8) : ∃ tokens rest, Parsed output tokens rest := by
  induction output using List.reverseRecOn with
  | nil => exact ⟨[], [], rfl, by simp, .nil⟩
  | append_singleton output b ih =>
    obtain ⟨tokens, rest, rfl, hv, hu⟩ := ih
    -- the byte goes on with what is unfinished, or ends it
    have hmore {rest' : List UInt8} (hr : rest' = rest ++ [b]) (hu' : Unfinished rest') :
        ∃ tokens' rest', Parsed (tokens.flatMap Token.bytes ++ rest ++ [b]) tokens' rest' :=
      ⟨tokens, rest', by rw [hr, List.append_assoc], hv, hu'⟩
    have hdone {t : Token} (hr : t.bytes = rest ++ [b]) (ht : t.Valid) :
        ∃ tokens' rest', Parsed (tokens.flatMap Token.bytes ++ rest ++ [b]) tokens' rest' := by
      refine ⟨tokens ++ [t], [], ?_, fun u hu ↦ ?_, .nil⟩
      · rw [List.flatMap_append, List.flatMap_singleton, hr, List.append_nil, List.append_assoc]
      · obtain hu | hu := List.mem_append.mp hu
        · exact hv u hu
        · rw [List.mem_singleton.mp hu]
          exact ht
    cases hu with
    | nil =>
      by_cases hb : b = 0x1b
      · subst hb
        exact hmore rfl .esc
      · exact hdone (t := .text b) rfl hb
    | esc =>
      by_cases hb : b = 0x5b
      · subst hb
        exact hmore rfl (@Unfinished.csi [] (by simp))
      · by_cases ht : opensText b = true
        · exact hmore rfl (@Unfinished.text b [] ht (by simp))
        · by_cases hi : isIntermediate b = true
          · exact hmore rfl (@Unfinished.intermediate [b] (by simp) (by simpa using hi))
          · exact hdone (t := .single b) rfl ⟨hb, by simpa using ht, by simpa using hi⟩
    | @intermediate is hne h =>
      by_cases hi : isIntermediate b = true
      · refine hmore rfl (@Unfinished.intermediate (is ++ [b]) (by simp) fun x hx ↦ ?_)
        obtain hx | hx := List.mem_append.mp hx
        · exact h x hx
        · rwa [List.mem_singleton.mp hx]
      · exact hdone (t := .designation is b) rfl ⟨hne, h, by simpa using hi⟩
    | @csi params h =>
      by_cases hm : b = 0x6d
      · subst hm
        exact hdone (t := .style params) rfl h
      · by_cases hf : isCsiFinal b = true
        · exact hdone (t := .control params b) rfl ⟨h, hf, hm⟩
        · refine hmore rfl (@Unfinished.csi (params ++ [b]) fun x hx ↦ ?_)
          obtain hx | hx := List.mem_append.mp hx
          · exact h x hx
          · rw [List.mem_singleton.mp hx]
            simpa using hf
    | @text introducer body hi h =>
      by_cases h7 : b = 0x07
      · subst h7
        exact hdone (t := .string introducer body [0x07]) rfl ⟨hi, h, .inl rfl⟩
      · by_cases he : b = 0x1b
        · subst he
          exact hmore rfl (.textEsc hi h)
        · refine hmore rfl (@Unfinished.text introducer (body ++ [b]) hi fun x hx ↦ ?_)
          obtain hx | hx := List.mem_append.mp hx
          · exact h x hx
          · rw [List.mem_singleton.mp hx]
            exact ⟨h7, he⟩
    | @textEsc introducer body hi h =>
      refine hdone (t := .string introducer body [0x1b, b]) ?_ ⟨hi, h, .inr ⟨b, rfl⟩⟩
      simp [Token.bytes]

/-! ### The text that is kept -/

namespace VisibleText

variable {patterns : List (List UInt8)}

private theorem containsAny_iff {haystack : List UInt8} :
    containsAny haystack patterns = true ↔ Occurs patterns haystack := by
  simp [containsAny, Occurs]

private theorem length_le_keep {p : List UInt8} (h : p ∈ patterns) :
    p.length ≤ keep patterns + 1 := by
  have hle : p.length ≤ (patterns.map List.length).max?.getD 0 :=
    List.le_max?_getD_of_mem (List.mem_map_of_mem h)
  rw [keep]
  omega

/-- The text that is kept follows the runs, and a report is made of a pattern in one of them. -/
private structure Follows (patterns : List (List UInt8)) (s : Scan) (v : VisibleText)
    (seen : Prop) : Prop where
  state : v.state = s.state
  window : Window patterns (keep patterns) s.run v.tail seen
  sound : seen → ∃ run ∈ s.past ++ [s.run], Occurs patterns run
  past : (∃ run ∈ s.past, Occurs patterns run) → seen

private theorem Follows.push {s : Scan} {v : VisibleText} {seen : Prop}
    (h : Follows patterns s v seen) (b : UInt8) :
    Follows patterns { s with run := s.run ++ [b] } { v with tail := v.tail ++ [b] } seen := by
  refine ⟨h.state, h.window.push (fun p hp ↦ length_le_keep hp) b, fun hs ↦ ?_, h.past⟩
  obtain ⟨run, hr, ho⟩ := h.sound hs
  obtain hr | hr := List.mem_append.mp hr
  · exact ⟨run, List.mem_append_left _ hr, ho⟩
  · rw [List.mem_singleton.mp hr] at ho
    exact ⟨_, List.mem_append_right _ (List.mem_singleton_self _),
      ho.of_infix (List.prefix_append _ _).isInfix⟩

/-- A look at the text that is kept: afterwards all that was seen is all there is. -/
private theorem Follows.look {s : Scan} {v : VisibleText} {seen : Prop}
    (h : Follows patterns s v seen) :
    (seen ∨ Occurs patterns v.tail) ↔ ∃ run ∈ s.past ++ [s.run], Occurs patterns run := by
  constructor
  · rintro (hs | ht)
    · exact h.sound hs
    · exact ⟨_, List.mem_append_right _ (List.mem_singleton_self _),
        ht.of_infix h.window.suffix.isInfix⟩
  · rintro ⟨run, hr, ho⟩
    obtain hr | hr := List.mem_append.mp hr
    · exact .inl (h.past ⟨run, hr, ho⟩)
    · rw [List.mem_singleton.mp hr] at ho
      exact h.window.occurs ho

private theorem Follows.byte {s : Scan} {v : VisibleText} {found : Bool} {earlier : Prop}
    (h : Follows patterns s v (earlier ∨ found = true)) (b : UInt8) :
    Follows patterns (s.byte b) (VisibleText.byte patterns (v, found) b).1
      (earlier ∨ (VisibleText.byte patterns (v, found) b).2 = true) := by
  obtain ⟨state, tail⟩ := v
  obtain rfl : state = s.state := h.state
  have hpush : Follows patterns
      { s with run := if s.state = .ground ∧ b ≠ 0x1b then s.run ++ [b] else s.run }
      ⟨s.state, if s.state = .ground ∧ b ≠ 0x1b then tail ++ [b] else tail⟩
      (earlier ∨ found = true) := by
    split
    · exact h.push b
    · exact h
  unfold Scan.byte VisibleText.byte
  dsimp only
  generalize hn : s.state.next b = next
  obtain ⟨state, breaks⟩ := next
  dsimp only
  cases breaks with
  | false => exact ⟨rfl, hpush.window, hpush.sound, hpush.past⟩
  | true =>
    have hlook := hpush.look
    rw [if_pos rfl, if_pos rfl]
    dsimp only at hlook ⊢
    rw [Bool.or_eq_true, containsAny_iff, ← or_assoc]
    refine ⟨rfl, .nil _, fun hs ↦ ?_, hlook.mpr⟩
    obtain ⟨run, hr, ho⟩ := hlook.mp hs
    exact ⟨run, List.mem_append_left _ hr, ho⟩

private theorem Follows.bytes {s : Scan} {v : VisibleText} {found : Bool} {earlier : Prop}
    (h : Follows patterns s v (earlier ∨ found = true)) (chunk : List UInt8) :
    Follows patterns (s.bytes chunk) (chunk.foldl (VisibleText.byte patterns) (v, found)).1
      (earlier ∨ (chunk.foldl (VisibleText.byte patterns) (v, found)).2 = true) := by
  induction chunk generalizing s v found with
  | nil => exact h
  | cons b chunk ih => exact ih (h.byte b)

/-- One chunk: all that was reported by then is all there is. -/
private theorem Follows.feed {s : Scan} {v : VisibleText} {seen : Prop}
    (h : Follows patterns s v seen) (chunk : List UInt8) :
    Follows patterns (s.bytes chunk) (v.feed patterns chunk).1
        (seen ∨ (v.feed patterns chunk).2 = true) ∧
      ((seen ∨ (v.feed patterns chunk).2 = true) ↔
        ∃ run ∈ (s.bytes chunk).past ++ [(s.bytes chunk).run], Occurs patterns run) := by
  have hstart : Follows patterns s v (seen ∨ false = true) := by simpa using h
  have hb := hstart.bytes chunk
  have hseen : (seen ∨ (v.feed patterns chunk).2 = true) ↔
      (seen ∨ (chunk.foldl (VisibleText.byte patterns) (v, false)).2 = true) ∨
        Occurs patterns (chunk.foldl (VisibleText.byte patterns) (v, false)).1.tail := by
    rw [VisibleText.feed]
    dsimp only
    rw [Bool.or_eq_true, containsAny_iff, or_assoc]
  rw [hseen, hb.look]
  refine ⟨⟨hb.state, ?_, id, fun ⟨run, hr, ho⟩ ↦ ⟨run, List.mem_append_left _ hr, ho⟩⟩, .rfl⟩
  exact hb.window.trim.mono hb.look.mp

/-- The tail that is kept after a chunk. -/
theorem length_tail_feed (v : VisibleText) (chunk : List UInt8) :
    (v.feed patterns chunk).1.tail.length ≤ keep patterns := by
  rw [feed]
  dsimp only
  rw [List.length_drop]
  omega

private theorem reports_iff {s : Scan} {v : VisibleText} {seen : Prop}
    (h : Follows patterns s v seen) (chunks : List (List UInt8)) (hne : chunks ≠ []) :
    (seen ∨ true ∈ v.reports patterns chunks) ↔
      ∃ run ∈ (s.bytes chunks.flatten).past ++ [(s.bytes chunks.flatten).run],
        Occurs patterns run := by
  induction chunks generalizing s v seen with
  | nil => exact absurd rfl hne
  | cons chunk chunks ih =>
    obtain ⟨hf, hseen⟩ := h.feed chunk
    rw [reports, List.flatten_cons, Scan.bytes_append, List.mem_cons, ← or_assoc,
      eq_comm (a := true)]
    by_cases hc : chunks = []
    · subst hc
      rw [reports, List.flatten_nil, show (s.bytes chunk).bytes [] = s.bytes chunk from rfl]
      simpa using hseen
    · exact ih hf hc

end VisibleText

/-- A pattern is reported in some packet exactly if one occurs in a maximal run of text of the
whole output, however it is cut; and what is kept is shorter than the longest pattern. -/
theorem watch_exact (patterns chunks : List (List UInt8)) :
    (∃ tokens rest, Parsed chunks.flatten tokens rest) ∧
      (∀ tokens rest, Parsed chunks.flatten tokens rest →
        (true ∈ ({} : VisibleText).reports patterns chunks ↔ chunks ≠ [] ∧
          ∃ run ∈ runs Token.joins tokens, ∃ p ∈ patterns, p <:+: run)) ∧
      ∀ (v : VisibleText) (chunk : List UInt8),
        (v.feed patterns chunk).1.tail.length ≤ (patterns.map List.length).max?.getD 0 - 1 := by
  refine ⟨exists_parsed _, fun tokens rest h ↦ ?_, VisibleText.length_tail_feed⟩
  have hstart : VisibleText.Follows patterns ⟨.ground, [], []⟩ {} False :=
    ⟨rfl, .nil _, False.elim, fun ⟨_, hr, _⟩ ↦ nomatch hr⟩
  by_cases hne : chunks = []
  · subst hne
    simp [VisibleText.reports]
  · have hr := VisibleText.reports_iff hstart chunks hne
    rw [false_or, Scan.bytes_parsed h] at hr
    exact hr.trans ⟨fun ho ↦ ⟨hne, ho⟩, And.right⟩

/-- A pattern in two packets, with a style change and a charset designation inside it. -/
theorem watch_exact_twice :
    true ∈ ({} : VisibleText).reports [[0x61, 0x62]]
        [[0x61, 0x1b, 0x5b], [0x6d, 0x1b, 0x28, 0x42, 0x62]] ↔
      [[0x61, 0x1b, 0x5b], [0x6d, 0x1b, 0x28, 0x42, 0x62]] ≠ ([] : List (List UInt8)) ∧
        ∃ run ∈ runs Token.joins [.text 0x61, .style [], .designation [0x28] 0x42, .text 0x62],
          ∃ p ∈ [[0x61, 0x62]], p <:+: run :=
  (watch_exact [[0x61, 0x62]] [[0x61, 0x1b, 0x5b], [0x6d, 0x1b, 0x28, 0x42, 0x62]]).2.1
    [.text 0x61, .style [], .designation [0x28] 0x42, .text 0x62] []
    ⟨rfl, by simp [Token.Valid, isIntermediate], .nil⟩

/-- Only style changes and escape strings join the text on both sides. -/
def Token.joinsOnly : Token → Bool
  | .style _ => true
  | .string _ _ _ => true
  | _ => false

/-- Text on both sides of a charset designation. -/
theorem joinsOnly_refuted :
    ¬∀ (patterns chunks : List (List UInt8)) (tokens : List Token) (rest : List UInt8),
      Parsed chunks.flatten tokens rest →
        (true ∈ ({} : VisibleText).reports patterns chunks ↔ chunks ≠ [] ∧
          ∃ run ∈ runs Token.joinsOnly tokens, ∃ p ∈ patterns, p <:+: run) := by
  intro h
  have hp : Parsed [0x61, 0x1b, 0x28, 0x42, 0x62]
      [.text 0x61, .designation [0x28] 0x42, .text 0x62] [] :=
    ⟨rfl, by simp [Token.Valid, isIntermediate], .nil⟩
  have hr : true ∈ ({} : VisibleText).reports [[0x61, 0x62]]
      [[0x61, 0x1b, 0x28, 0x42, 0x62]] := by decide
  obtain ⟨-, run, hrun, p, hp, hi⟩ :=
    (h [[0x61, 0x62]] [[0x61, 0x1b, 0x28, 0x42, 0x62]] _ [] hp).mp hr
  obtain rfl := List.mem_singleton.mp hp
  have hruns : run ∈ [[0x61], [0x62]] := hrun
  have hl := hi.length_le
  simp only [List.mem_cons, List.not_mem_nil, or_false] at hruns
  obtain rfl | rfl := hruns <;> simp at hl

end PtySpec.Client
