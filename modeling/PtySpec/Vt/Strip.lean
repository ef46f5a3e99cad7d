import PtySpec.Lib.Transducer

/-!
# The scanner over the child's output

Model of `crates/pty-terminal/src/strip.rs`: a tokenizer that picks CSI and OSC sequences
out of the output, keeps a partial one back until a later chunk completes it, and passes
everything else through. Bytes are written by their code; `0x1b` is ESC.
-/

namespace PtySpec.Vt

open Lib

/-- `MAX_CSI`, `strip.rs:24`. -/
def MAX_CSI : Nat := 64

/-- `MAX_OSC`, `strip.rs:27`. -/
def MAX_OSC : Nat := 4096

/-- `enhanced_paste::MAX_METADATA`, `enhanced_paste.rs:24`. -/
def MAX_METADATA : Nat := 64 * 1024

/-- `Terminator`, `strip.rs:31`. -/
inductive Terminator where
  | bel
  | st
  deriving DecidableEq, Repr

/-- `Csi`, `strip.rs:40`; `marker` is its private-marker byte. -/
structure Csi where
  raw : List UInt8
  marker : Option UInt8
  intermediates : List UInt8
  params : List UInt16
  finalByte : UInt8
  deriving DecidableEq, Repr

/-- `Osc`, `strip.rs:183`. -/
structure Osc where
  raw : List UInt8
  payload : List UInt8
  terminator : Terminator
  deriving DecidableEq, Repr

/-- `Token`, `strip.rs:254`. -/
inductive Token where
  | raw (bytes : List UInt8)
  | ris
  | csi (c : Csi)
  | osc (o : Osc)
  deriving DecidableEq, Repr

/-- `Token::raw`, `strip.rs:267`: the exact bytes the token stands for. -/
def Token.bytes : Token → List UInt8
  | raw b => b
  | ris => [0x1b, 0x63]
  | csi c => c.raw
  | osc o => o.raw

/-! ### Sequences -/

/-- The byte is one of `a..=b`. -/
def within (a b x : UInt8) : Bool := a ≤ x && x ≤ b

/-- The number a parameter stands for, `strip.rs:492-501`: up to a colon, digits only,
saturated at 65535. -/
def parseParam (part : List UInt8) : UInt16 :=
  UInt16.ofNat <| (part.takeWhile (· ≠ 0x3a)).foldl
    (fun v d ↦ if within 0x30 0x39 d then min (v * 10 + (d - 0x30).toNat) 65535 else v) 0

/-- `parse_csi`, `strip.rs:465`. -/
def parseCsi (seq : List UInt8) : Csi :=
  let body := (seq.drop 2).dropLast
  let (marker, rest) :=
    match body with
    | first :: more => if within 0x3c 0x3f first then (some first, more) else (none, body)
    | [] => (none, body)
  let intermediates := rest.dropWhile (!within 0x20 0x2f ·)
  let paramsBytes := rest.takeWhile (!within 0x20 0x2f ·)
  { raw := seq
    marker := marker
    intermediates := intermediates
    params := if paramsBytes = [] then [] else (paramsBytes.splitOn 0x3b).map parseParam
    finalByte := seq.getLastD 0 }

/-- `make_osc`, `strip.rs:514`. -/
def makeOsc (seq : List UInt8) (terminator : Terminator) : Osc :=
  let length := match terminator with
    | .bel => seq.length - 1
    | .st => seq.length - 2
  { raw := seq, payload := (seq.take length).drop 2, terminator := terminator }

/-- `osc_limit`, `strip.rs:457`: more for `ESC ] 5 5 2 2 ;`. -/
def oscLimit (seq : List UInt8) : Nat :=
  if [0x1b, 0x5d, 0x35, 0x35, 0x32, 0x32, 0x3b].isPrefixOf seq then MAX_METADATA else MAX_OSC

/-! ### The scanner -/

/-- `State`, `strip.rs:278`. -/
inductive State where
  | ground
  | esc
  | csi
  | osc
  | oscEsc
  deriving DecidableEq, Repr

/-- `OutputScanner`, `strip.rs:295`. -/
structure OutputScanner where
  state : State
  seq : List UInt8
  deriving DecidableEq, Repr

/-- A scanner in the loop of `feed`: with the raw run and the tokens so far. -/
structure Scan where
  scanner : OutputScanner
  raw : List UInt8
  out : List Token

namespace OutputScanner

/-- `OutputScanner::new`, `strip.rs:310`. -/
def new : OutputScanner := ⟨.ground, []⟩

/-- `OutputScanner::pending`, `strip.rs:324`. -/
def pending (s : OutputScanner) : List UInt8 := s.seq

end OutputScanner

namespace Scan

/-- `flush_raw`, `strip.rs:332`. -/
def flushRaw (r : Scan) : Scan :=
  if r.raw = [] then r else { r with raw := [], out := r.out ++ [.raw r.raw] }

/-- The scanner goes on in another state with other bytes held back. -/
def hold (r : Scan) (state : State) (seq : List UInt8) : Scan :=
  { r with scanner := ⟨state, seq⟩ }

/-- The bytes held back and one more pass through. -/
def pass (r : Scan) (more : List UInt8) : Scan :=
  { r with raw := r.raw ++ (r.scanner.seq ++ more) }

/-- A complete sequence: the raw run before it, then its token; nothing is held back. -/
def emit (r : Scan) (token : Token) : Scan :=
  let r := (r.hold .ground []).flushRaw
  { r with out := r.out ++ [token] }

/-- The `Esc` state, `strip.rs:352`. -/
def escByte (r : Scan) (b : UInt8) : Scan :=
  if b = 0x63 then r.emit .ris
  else if b = 0x5b then r.hold .csi (r.scanner.seq ++ [b])
  else if b = 0x5d then r.hold .osc (r.scanner.seq ++ [b])
  -- ESC ESC: the first was a lone escape
  else if b = 0x1b then (r.pass []).hold .esc [b]
  else (r.pass [b]).hold .ground []

/-- The `Csi` state, `strip.rs:381`. -/
def csiByte (r : Scan) (b : UInt8) : Scan :=
  if within 0x40 0x7e b then r.emit (.csi (parseCsi (r.scanner.seq ++ [b])))
  else if b = 0x1b then (r.pass []).hold .esc [b]
  else if b = 0x18 ∨ b = 0x1a then (r.pass [b]).hold .ground []
  else if (r.scanner.seq ++ [b]).length > MAX_CSI then (r.pass [b]).hold .ground []
  else r.hold .csi (r.scanner.seq ++ [b])

/-- The `Osc` state, `strip.rs:410`. -/
def oscByte (r : Scan) (b : UInt8) : Scan :=
  let seq := r.scanner.seq ++ [b]
  if b = 0x07 then r.emit (.osc (makeOsc seq .bel))
  else if b = 0x1b then r.hold .oscEsc seq
  else if b = 0x18 ∨ b = 0x1a then (r.pass [b]).hold .ground []
  else if seq.length > oscLimit seq + 2 then (r.pass [b]).hold .ground []
  else r.hold .osc seq

/-- The `OscEsc` state, `strip.rs:435`: without a backslash the OSC is abandoned, its ESC
starts something new and the byte is read again in the `Esc` state. -/
def oscEscByte (r : Scan) (b : UInt8) : Scan :=
  if b = 0x5c then r.emit (.osc (makeOsc (r.scanner.seq ++ [b]) .st))
  else
    let r := { r with scanner := ⟨.oscEsc, r.scanner.seq.dropLast⟩ }
    ((r.pass []).hold .esc [0x1b]).escByte b

/-- One byte of `feed`, `strip.rs:339`. -/
def feedByte (r : Scan) (b : UInt8) : Scan :=
  match r.scanner.state with
  | .ground => if b = 0x1b then r.hold .esc [b] else { r with raw := r.raw ++ [b] }
  | .esc => r.escByte b
  | .csi => r.csiByte b
  | .osc => r.oscByte b
  | .oscEsc => r.oscEscByte b

end Scan

namespace OutputScanner

/-- `OutputScanner::feed`, `strip.rs:329`. -/
def feed (s : OutputScanner) (data : List UInt8) : OutputScanner × List Token :=
  let r := (data.foldl Scan.feedByte ⟨s, [], []⟩).flushRaw
  (r.scanner, r.out)

/-- The chunks of a stream, fed in order, and all their tokens. -/
def feedAll : OutputScanner → List (List UInt8) → OutputScanner × List Token
  | s, [] => (s, [])
  | s, chunk :: rest =>
    let r := feedAll (s.feed chunk).1 rest
    (r.1, (s.feed chunk).2 ++ r.2)

end OutputScanner
/-! ### What the scanner makes of a stream -/

/-- A stream taken apart: single bytes that pass through, and sequences. -/
inductive Atom where
  | byte (b : UInt8)
  | ris
  | csi (c : Csi)
  | osc (o : Osc)

/-- A raw run is its bytes; any other token is one piece. -/
def Token.atoms : Token → List Atom
  | raw b => b.map .byte
  | ris => [.ris]
  | csi c => [.csi c]
  | osc o => [.osc o]

namespace Scan

/-- What has been put out and what will be at the next flush. -/
def atoms (r : Scan) : List Atom := r.out.flatMap Token.atoms ++ r.raw.map .byte

@[simp] theorem atoms_flushRaw (r : Scan) : r.flushRaw.atoms = r.atoms := by
  unfold flushRaw
  split
  · rfl
  · simp [atoms, Token.atoms]

@[simp] theorem scanner_flushRaw (r : Scan) : r.flushRaw.scanner = r.scanner := by
  unfold flushRaw
  split <;> rfl

theorem raw_flushRaw (r : Scan) : r.flushRaw.raw = [] := by
  unfold flushRaw
  split
  · next h => exact h
  · rfl

@[simp] theorem scanner_emit (r : Scan) (token : Token) :
    (r.emit token).scanner = ⟨.ground, []⟩ := by
  simp [emit, hold]

theorem atoms_emit (r : Scan) (token : Token) :
    (r.emit token).atoms = r.atoms ++ token.atoms := by
  have h := atoms_flushRaw (r.hold .ground [])
  simp only [atoms, raw_flushRaw, List.map_nil, List.append_nil] at h
  simp only [emit, atoms, raw_flushRaw, List.flatMap_append, h, List.map_nil, List.append_nil]
  simp [hold]

/-- The same scanner, with more put out before. -/
structure Extends (before : List Atom) (r r₀ : Scan) : Prop where
  scanner : r.scanner = r₀.scanner
  atoms : r.atoms = before ++ r₀.atoms

namespace Extends

variable {before : List Atom} {r r₀ : Scan}

theorem hold (h : Extends before r r₀) (state : State) (seq : List UInt8) :
    Extends before (r.hold state seq) (r₀.hold state seq) := ⟨rfl, h.atoms⟩

theorem pass (h : Extends before r r₀) (more : List UInt8) :
    Extends before (r.pass more) (r₀.pass more) := by
  refine ⟨h.scanner, ?_⟩
  have ha := h.atoms
  simp only [Scan.atoms] at ha
  simp only [Scan.atoms, Scan.pass, h.scanner, List.map_append, ← List.append_assoc, ha]

theorem emit (h : Extends before r r₀) (token : Token) :
    Extends before (r.emit token) (r₀.emit token) := by
  constructor
  · simp
  · simp only [atoms_emit, h.atoms, List.append_assoc]

theorem escByte (h : Extends before r r₀) (b : UInt8) :
    Extends before (r.escByte b) (r₀.escByte b) := by
  unfold Scan.escByte
  rw [h.scanner]
  split
  · exact h.emit _
  · split
    · exact h.hold _ _
    · split
      · exact h.hold _ _
      · split
        · exact (h.pass _).hold _ _
        · exact (h.pass _).hold _ _

theorem csiByte (h : Extends before r r₀) (b : UInt8) :
    Extends before (r.csiByte b) (r₀.csiByte b) := by
  unfold Scan.csiByte
  rw [h.scanner]
  split
  · exact h.emit _
  · split
    · exact (h.pass _).hold _ _
    · split
      · exact (h.pass _).hold _ _
      · split
        · exact (h.pass _).hold _ _
        · exact h.hold _ _

theorem oscByte (h : Extends before r r₀) (b : UInt8) :
    Extends before (r.oscByte b) (r₀.oscByte b) := by
  unfold Scan.oscByte
  simp only [h.scanner]
  split
  · exact h.emit _
  · split
    · exact h.hold _ _
    · split
      · exact (h.pass _).hold _ _
      · split
        · exact (h.pass _).hold _ _
        · exact h.hold _ _

theorem oscEscByte (h : Extends before r r₀) (b : UInt8) :
    Extends before (r.oscEscByte b) (r₀.oscEscByte b) := by
  unfold Scan.oscEscByte
  simp only [h.scanner]
  split
  · exact h.emit _
  · exact (((h.hold _ _).pass _).hold _ _).escByte b

/-- What a byte does depends on the scanner alone. -/
theorem feedByte (h : Extends before r r₀) (b : UInt8) :
    Extends before (r.feedByte b) (r₀.feedByte b) := by
  unfold Scan.feedByte
  rw [h.scanner]
  split
  · split
    · exact h.hold _ _
    · refine ⟨rfl, ?_⟩
      have ha := h.atoms
      simp only [Scan.atoms] at ha
      simp only [Scan.atoms, List.map_append, ← List.append_assoc, ha]
  · exact h.escByte b
  · exact h.csiByte b
  · exact h.oscByte b
  · exact h.oscEscByte b

end Extends
end Scan

namespace OutputScanner

/-- The scanner as a transducer from bytes to pieces. -/
def transducer : Transducer OutputScanner UInt8 (List Atom) where
  nil := []
  join := (· ++ ·)
  next s b :=
    let r := (⟨s, [], []⟩ : Scan).feedByte b
    (r.scanner, r.atoms)
  nil_join := List.nil_append
  join_nil := List.append_nil
  join_assoc := List.append_assoc

private theorem foldl_feedByte (r : Scan) (data : List UInt8) :
    ((data.foldl Scan.feedByte r).scanner, (data.foldl Scan.feedByte r).atoms) =
      transducer.andThen (r.scanner, r.atoms) data := by
  induction data generalizing r with
  | nil => simp [Transducer.andThen, transducer]
  | cons b data ih =>
    have hr : Scan.Extends r.atoms r ⟨r.scanner, [], []⟩ := ⟨rfl, by simp [Scan.atoms]⟩
    have hb := hr.feedByte b
    rw [List.foldl_cons, ih, hb.scanner, hb.atoms]
    simp [Transducer.andThen, Transducer.run, transducer]

/-- Feeding a chunk is the run of the transducer over it. -/
theorem feed_chunked :
    transducer.Chunked (fun s chunk ↦ ((s.feed chunk).1, (s.feed chunk).2.flatMap Token.atoms))
      id := by
  constructor
  intro s chunk
  have h := foldl_feedByte ⟨s, [], []⟩ chunk
  have hf := Scan.atoms_flushRaw (chunk.foldl Scan.feedByte ⟨s, [], []⟩)
  simp only [Scan.atoms, Scan.raw_flushRaw, List.map_nil, List.append_nil] at hf
  simp only [feed, id, hf, Scan.scanner_flushRaw]
  simpa [Transducer.andThen, Scan.atoms, transducer] using h

/-- The chunks of a stream give the pieces of the stream, however it is cut. -/
theorem feedAll_eq_run (s : OutputScanner) (chunks : List (List UInt8)) :
    ((s.feedAll chunks).1, (s.feedAll chunks).2.flatMap Token.atoms) =
      transducer.run s chunks.flatten := by
  induction chunks generalizing s with
  | nil => rfl
  | cons chunk rest ih =>
    have hc := feed_chunked.agrees s chunk
    have hr := ih (s.feed chunk).1
    simp only [id] at hc
    rw [List.flatten_cons, Transducer.run_append, ← hc]
    simp only [Transducer.andThen, ← hr, feedAll, List.flatMap_append]
    rfl

end OutputScanner

/-! ### Merged runs -/

/-- A raw run in front, merged with the one that follows. -/
def prependRaw (bytes : List UInt8) : List Token → List Token
  | .raw more :: rest => .raw (bytes ++ more) :: rest
  | rest => .raw bytes :: rest

/-- The tokens with adjacent raw runs merged. -/
def mergeRaw : List Token → List Token
  | [] => []
  | .raw bytes :: rest => prependRaw bytes (mergeRaw rest)
  | token :: rest => token :: mergeRaw rest

/-- The pieces back in tokens, every raw run as long as it can be. -/
def regroup : List Atom → List Token
  | [] => []
  | .byte b :: rest => prependRaw [b] (regroup rest)
  | .ris :: rest => .ris :: regroup rest
  | .csi c :: rest => .csi c :: regroup rest
  | .osc o :: rest => .osc o :: regroup rest

private theorem prependRaw_prependRaw (a b : List UInt8) (tokens : List Token) :
    prependRaw a (prependRaw b tokens) = prependRaw (a ++ b) tokens := by
  unfold prependRaw
  split
  · next h =>
    split at h
    · cases h
      simp
    · cases h
      rfl
  · next h =>
    split at h
    · exact absurd rfl (h _ _)
    · exact absurd rfl (h _ _)

private theorem regroup_bytes (b : UInt8) (bs : List UInt8) (rest : List Atom) :
    regroup ((b :: bs).map .byte ++ rest) = prependRaw (b :: bs) (regroup rest) := by
  induction bs generalizing b with
  | nil => rfl
  | cons c bs ih =>
    rw [List.map_cons, List.cons_append, regroup, ih, prependRaw_prependRaw]
    rfl

/-- Merged tokens are determined by their pieces. -/
private theorem mergeRaw_eq_regroup {tokens : List Token} (h : .raw [] ∉ tokens) :
    mergeRaw tokens = regroup (tokens.flatMap Token.atoms) := by
  induction tokens with
  | nil => rfl
  | cons token rest ih =>
    rw [List.mem_cons, not_or] at h
    have hr := ih h.2
    cases token with
    | raw bytes =>
      cases bytes with
      | nil => exact absurd rfl h.1
      | cons b bs =>
        rw [List.flatMap_cons, Token.atoms, regroup_bytes, mergeRaw, hr]
    | ris => simp [mergeRaw, regroup, Token.atoms, hr]
    | csi c => simp [mergeRaw, regroup, Token.atoms, hr]
    | osc o => simp [mergeRaw, regroup, Token.atoms, hr]

/-! ### Raw runs are never empty -/

/-- No token put out so far is an empty raw run. -/
def Scan.Full (r : Scan) : Prop := .raw [] ∉ r.out

namespace Scan.Full

variable {r : Scan}

theorem flushRaw (h : r.Full) : r.flushRaw.Full := by
  unfold Scan.flushRaw
  split
  · exact h
  · next hr =>
    unfold Scan.Full at h ⊢
    simp [h, Ne.symm hr]

theorem emit (h : r.Full) {token : Token} (ht : token ≠ .raw []) : (r.emit token).Full := by
  have hf : (r.hold .ground []).flushRaw.Full := Scan.Full.flushRaw h
  unfold Scan.Full at hf ⊢
  simp [Scan.emit, hf, Ne.symm ht]

theorem escByte (h : r.Full) (b : UInt8) : (r.escByte b).Full := by
  unfold Scan.escByte
  split
  · exact h.emit (by simp)
  · repeat' split
    all_goals exact h

theorem feedByte (h : r.Full) (b : UInt8) : (r.feedByte b).Full := by
  unfold Scan.feedByte
  split
  · split
    · exact h
    · exact h
  · exact h.escByte b
  · unfold Scan.csiByte
    split
    · exact h.emit (by simp)
    · repeat' split
      all_goals exact h
  · simp only [Scan.oscByte]
    split
    · exact h.emit (by simp)
    · repeat' split
      all_goals exact h
  · simp only [Scan.oscEscByte]
    split
    · exact h.emit (by simp)
    · apply Scan.Full.escByte
      exact h

end Scan.Full

namespace OutputScanner

/-- No chunk gives an empty raw run. -/
theorem feed_full (s : OutputScanner) (data : List UInt8) :
    .raw [] ∉ (s.feed data).2 := by
  apply Scan.Full.flushRaw
  suffices h : ∀ r : Scan, r.Full → (data.foldl Scan.feedByte r).Full from
    h ⟨s, [], []⟩ (by simp [Scan.Full])
  intro r hr
  induction data generalizing r with
  | nil => exact hr
  | cons b data ih => exact ih _ (hr.feedByte b)

theorem feedAll_full (s : OutputScanner) (chunks : List (List UInt8)) :
    .raw [] ∉ (s.feedAll chunks).2 := by
  induction chunks generalizing s with
  | nil => simp [feedAll]
  | cons chunk rest ih =>
    rw [feedAll, List.mem_append, not_or]
    exact ⟨feed_full s chunk, ih _⟩

end OutputScanner

/-! ### What is held back -/

namespace OutputScanner

/-- What the scanner holds back in each state: at most `MAX_CSI` bytes of a CSI, at most
`oscLimit` bytes of an OSC's payload, and the first half of an `ESC \` behind it. -/
def WF (s : OutputScanner) : Prop :=
  match s.state with
  | .ground => s.seq = []
  | .esc => s.seq = [0x1b]
  | .csi => (∃ body, s.seq = 0x1b :: 0x5b :: body) ∧ s.seq.length ≤ MAX_CSI
  | .osc => ∃ payload, s.seq = 0x1b :: 0x5d :: payload ∧ payload.length ≤ oscLimit s.seq
  | .oscEsc =>
    ∃ payload, s.seq = 0x1b :: 0x5d :: (payload ++ [0x1b]) ∧ payload.length ≤ oscLimit s.seq

/-- More bytes never lower the limit of an OSC. -/
theorem oscLimit_append (seq more : List UInt8) : oscLimit seq ≤ oscLimit (seq ++ more) := by
  unfold oscLimit MAX_METADATA MAX_OSC
  split
  · next h =>
    rw [List.isPrefixOf_iff_prefix] at h
    rw [if_pos (List.isPrefixOf_iff_prefix.mpr (h.trans (List.prefix_append _ _)))]
  · split <;> omega

end OutputScanner

/-- The bytes put out so far, with those held back. -/
def Scan.bytes (r : Scan) : List UInt8 :=
  r.out.flatMap Token.bytes ++ (r.raw ++ r.scanner.seq)

/-- One more byte is accounted for, and the scanner is well formed. -/
structure Scan.Keeps (r : Scan) (b : UInt8) (r' : Scan) : Prop where
  wf : r'.scanner.WF
  bytes : r'.bytes = r.bytes ++ [b]

namespace Scan

variable {r : Scan} {b : UInt8}

private theorem bytes_flushRaw (r : Scan) : r.flushRaw.bytes = r.bytes := by
  unfold flushRaw
  split
  · rfl
  · simp [bytes, Token.bytes]

private theorem keeps_emit {token : Token} (ht : token.bytes = r.scanner.seq ++ [b]) :
    r.Keeps b (r.emit token) := by
  constructor
  · simp [OutputScanner.WF]
  · have h := bytes_flushRaw (r.hold .ground [])
    simp only [bytes, raw_flushRaw, scanner_flushRaw, hold, List.append_nil] at h
    simp only [emit, bytes, raw_flushRaw, hold, List.flatMap_append, h]
    simp [ht]

private theorem keeps_hold {state : State}
    (hw : (⟨state, r.scanner.seq ++ [b]⟩ : OutputScanner).WF) :
    r.Keeps b (r.hold state (r.scanner.seq ++ [b])) :=
  ⟨hw, by simp [bytes, hold]⟩

/-- The sequence is given up, the byte with it. -/
private theorem keeps_drop : r.Keeps b ((r.pass [b]).hold .ground []) :=
  ⟨rfl, by simp [bytes, hold, pass]⟩

/-- The sequence is given up, and the byte starts another one. -/
private theorem keeps_restart : r.Keeps 0x1b ((r.pass []).hold .esc [0x1b]) :=
  ⟨rfl, by simp [bytes, hold, pass]⟩

private theorem keeps_escByte (h : r.scanner.seq = [0x1b]) : r.Keeps b (r.escByte b) := by
  unfold escByte
  split
  · next hb =>
    subst hb
    exact keeps_emit (by simp [h, Token.bytes])
  · split
    · apply keeps_hold
      simp_all [OutputScanner.WF, MAX_CSI]
    · split
      · apply keeps_hold
        simp_all [OutputScanner.WF]
      · split
        · next hb =>
          subst hb
          exact keeps_restart
        · exact keeps_drop

private theorem keeps_csiByte {body : List UInt8} (h : r.scanner.seq = 0x1b :: 0x5b :: body) :
    r.Keeps b (r.csiByte b) := by
  unfold csiByte
  split
  · exact keeps_emit rfl
  · split
    · next hb =>
      subst hb
      exact keeps_restart
    · split
      · exact keeps_drop
      · split
        · exact keeps_drop
        · next hl =>
          apply keeps_hold
          refine ⟨⟨body ++ [b], by simp [h]⟩, ?_⟩
          simpa using hl

private theorem keeps_oscByte {payload : List UInt8}
    (h : r.scanner.seq = 0x1b :: 0x5d :: payload)
    (hl : payload.length ≤ oscLimit r.scanner.seq) : r.Keeps b (r.oscByte b) := by
  simp only [oscByte]
  split
  · exact keeps_emit rfl
  · split
    · next hb =>
      subst hb
      apply keeps_hold
      refine ⟨payload, by simp [h], ?_⟩
      exact hl.trans (OutputScanner.oscLimit_append _ _)
    · split
      · exact keeps_drop
      · split
        · exact keeps_drop
        · next hn =>
          apply keeps_hold
          refine ⟨payload ++ [b], by simp [h], ?_⟩
          simp only [h, List.cons_append, List.length_cons, gt_iff_lt, Nat.not_lt] at hn ⊢
          omega

private theorem keeps_oscEscByte {payload : List UInt8}
    (h : r.scanner.seq = 0x1b :: 0x5d :: (payload ++ [0x1b])) : r.Keeps b (r.oscEscByte b) := by
  simp only [oscEscByte]
  split
  · exact keeps_emit rfl
  · have hk := keeps_escByte (b := b)
      (r := (({ r with scanner := ⟨.oscEsc, r.scanner.seq.dropLast⟩ } : Scan).pass []).hold
        .esc [0x1b]) rfl
    have hd : r.scanner.seq.dropLast = 0x1b :: 0x5d :: payload := by
      rw [h]
      show ((0x1b :: 0x5d :: payload) ++ [0x1b]).dropLast = _
      exact List.dropLast_concat
    refine ⟨hk.wf, ?_⟩
    rw [hk.bytes]
    simp only [bytes, hold, pass, hd]
    rw [h]
    simp

/-- Every byte is accounted for, in every state. -/
theorem keeps_feedByte (h : r.scanner.WF) (b : UInt8) : r.Keeps b (r.feedByte b) := by
  unfold feedByte
  unfold OutputScanner.WF at h
  split
  · next hs =>
    rw [hs] at h
    split
    · next hb =>
      subst hb
      exact ⟨rfl, by simp_all [bytes, hold]⟩
    · exact ⟨by simp_all [OutputScanner.WF], by simp_all [bytes]⟩
  · next hs =>
    rw [hs] at h
    exact keeps_escByte h
  · next hs =>
    rw [hs] at h
    obtain ⟨⟨body, hseq⟩, -⟩ := h
    exact keeps_csiByte hseq
  · next hs =>
    rw [hs] at h
    obtain ⟨payload, hseq, hl⟩ := h
    exact keeps_oscByte hseq hl
  · next hs =>
    rw [hs] at h
    obtain ⟨payload, hseq, -⟩ := h
    exact keeps_oscEscByte hseq

end Scan

namespace OutputScanner

private theorem feed_keeps {s : OutputScanner} (h : s.WF) (data : List UInt8) :
    (s.feed data).1.WF ∧
      (s.feed data).2.flatMap Token.bytes ++ (s.feed data).1.pending = s.pending ++ data := by
  suffices hk : ∀ r : Scan, r.scanner.WF →
      (data.foldl Scan.feedByte r).scanner.WF ∧
        (data.foldl Scan.feedByte r).bytes = r.bytes ++ data by
    obtain ⟨hw, hb⟩ := hk ⟨s, [], []⟩ h
    have hf := Scan.bytes_flushRaw (data.foldl Scan.feedByte ⟨s, [], []⟩)
    simp only [Scan.bytes, Scan.raw_flushRaw, Scan.scanner_flushRaw, List.nil_append] at hf
    simp only [feed, Scan.scanner_flushRaw]
    refine ⟨hw, hf.trans (hb.trans ?_)⟩
    simp [Scan.bytes, pending]
  intro r hr
  induction data generalizing r with
  | nil => exact ⟨hr, by simp⟩
  | cons b data ih =>
    have hb := Scan.keeps_feedByte hr b
    obtain ⟨hw, ht⟩ := ih _ hb.wf
    refine ⟨hw, ?_⟩
    rw [List.foldl_cons, ht, hb.bytes]
    simp

private theorem feedAll_keeps {s : OutputScanner} (h : s.WF) (chunks : List (List UInt8)) :
    (s.feedAll chunks).1.WF ∧ (s.feedAll chunks).2.flatMap Token.bytes ++
      (s.feedAll chunks).1.pending = s.pending ++ chunks.flatten := by
  induction chunks generalizing s with
  | nil => exact ⟨h, by simp [feedAll]⟩
  | cons chunk rest ih =>
    obtain ⟨hw, hb⟩ := feed_keeps h chunk
    obtain ⟨hw', hb'⟩ := ih hw
    refine ⟨hw', ?_⟩
    simp only [feedAll, List.flatMap_append, List.append_assoc, hb', List.flatten_cons]
    rw [← List.append_assoc, hb, List.append_assoc]

/-- What may be held back: nothing, an ESC, at most `MAX_CSI` bytes of a CSI, or an OSC with
at most `oscLimit` bytes of payload, whose terminator may have begun. -/
def Held (pending : List UInt8) : Prop :=
  pending = [] ∨ pending = [0x1b] ∨
    ((∃ body, pending = 0x1b :: 0x5b :: body) ∧ pending.length ≤ MAX_CSI) ∨
    ∃ payload, (pending = 0x1b :: 0x5d :: payload ∨
      pending = 0x1b :: 0x5d :: (payload ++ [0x1b])) ∧ payload.length ≤ oscLimit pending

private theorem WF.held {s : OutputScanner} (h : s.WF) : Held s.pending := by
  unfold WF at h
  split at h
  · exact .inl h
  · exact .inr (.inl h)
  · exact .inr (.inr (.inl h))
  · obtain ⟨payload, hs, hl⟩ := h
    exact .inr (.inr (.inr ⟨payload, .inl hs, hl⟩))
  · obtain ⟨payload, hs, hl⟩ := h
    exact .inr (.inr (.inr ⟨payload, .inr hs, hl⟩))

/-- For every way of cutting a stream into chunks, the tokens and the bytes held back are
exactly the stream, the merged tokens and what is held back depend only on the stream, and
what is held back stays within its bound. -/
theorem feedAll_chunks (chunks : List (List UInt8)) :
    (new.feedAll chunks).2.flatMap Token.bytes ++ (new.feedAll chunks).1.pending =
        chunks.flatten ∧
      mergeRaw (new.feedAll chunks).2 = mergeRaw (new.feed chunks.flatten).2 ∧
      (new.feedAll chunks).1 = (new.feed chunks.flatten).1 ∧
      Held (new.feedAll chunks).1.pending := by
  have hwf : new.WF := rfl
  obtain ⟨hw, hb⟩ := feedAll_keeps hwf chunks
  have hall := feedAll_eq_run new chunks
  have hone := feed_chunked.agrees new chunks.flatten
  simp only [id] at hone
  rw [← hone, Prod.mk.injEq] at hall
  refine ⟨by simpa [pending, new] using hb, ?_, hall.1, hw.held⟩
  rw [mergeRaw_eq_regroup (feedAll_full _ _), mergeRaw_eq_regroup (feed_full _ _), hall.2]

end OutputScanner

end PtySpec.Vt
