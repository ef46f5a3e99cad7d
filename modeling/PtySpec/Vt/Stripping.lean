import PtySpec.Lib.Excision
import PtySpec.Vt.Actor

/-!
# What is left when queries are taken out

`strip_terminal_queries`, `crates/pty-terminal/src/strip.rs:526`, and the broadcast of
`TerminalActor::write` leave sequences out of a stream. The bytes on both sides of one then
follow each other. What is left contains a query exactly if a query in the stream was broken
up by sequences that are left out.
-/

namespace PtySpec.Vt

open Lib

/-- Sequences that are left out of a stream. -/
structure Cut where
  csi : Csi → Bool
  osc : Osc → Bool

/-- A token is left out. -/
def Cut.token (d : Cut) : Token → Bool
  | .csi c => d.csi c
  | .osc o => d.osc o
  | _ => false

/-- The queries that stripping removes, `strip.rs:531`. -/
def queries : Cut := ⟨Csi.isStrippedQuery, fun o ↦ o.colorQuery.isSome⟩

/-- The bytes of the tokens that are not left out. -/
def Cut.keep (d : Cut) (tokens : List Token) : List UInt8 :=
  tokens.flatMap fun t ↦ if d.token t then [] else t.bytes

/-- The bytes without the sequences that are left out. -/
def Cut.strip (d : Cut) (data : List UInt8) : List UInt8 :=
  d.keep (OutputScanner.new.feed data).2 ++ (OutputScanner.new.feed data).1.pending

/-- `strip_terminal_queries`, `strip.rs:526`. -/
def stripTerminalQueries (data : List UInt8) : List UInt8 := queries.strip data

/-- The bytes, scanned, contain a query. -/
def Asks (bytes : List UInt8) : Prop :=
  ∃ t ∈ (OutputScanner.new.feed bytes).2, queries.token t = true

/-- The bytes are one sequence, and it is left out. -/
def Cut.Word (d : Cut) (bytes : List UInt8) : Prop :=
  ∃ t, OutputScanner.new.feed bytes = (OutputScanner.new, [t]) ∧ d.token t = true

/-- What `TerminalActor::write` leaves out of its broadcast, `actor.rs:606-737`. -/
def TerminalActor.leftOut {G ε : Type} (a : TerminalActor G ε) : Cut where
  csi c := c.isStrippedQuery
  osc o := (o.clipboardReadSelection.isSome && !a.clipboardClientAvailable) || o.colorQuery.isSome

/-! ### Pieces -/

/-- The bytes of a piece. -/
def Atom.bytes : Atom → List UInt8
  | byte b => [b]
  | ris => [0x1b, 0x63]
  | csi c => c.raw
  | osc o => o.raw

/-- A piece is left out. -/
def Cut.atom (d : Cut) : Atom → Bool
  | .csi c => d.csi c
  | .osc o => d.osc o
  | _ => false

/-- A piece that is no CSI and no OSC. -/
def Atom.plain : Atom → Bool
  | byte _ | ris => true
  | _ => false

/-- The bytes of the pieces that are not left out. -/
def Cut.keepAtoms (d : Cut) (atoms : List Atom) : List UInt8 :=
  atoms.flatMap fun a ↦ if d.atom a then [] else a.bytes

private theorem bytes_map (bytes : List UInt8) :
    (bytes.map Atom.byte).flatMap Atom.bytes = bytes := by
  induction bytes with
  | nil => rfl
  | cons b bytes ih => rw [List.map_cons, List.flatMap_cons, ih]; rfl

private theorem plain_map (bytes : List UInt8) : ∀ a ∈ bytes.map Atom.byte, a.plain = true := by
  intro a ha
  obtain ⟨b, -, rfl⟩ := List.mem_map.mp ha
  rfl

namespace Cut

variable (d : Cut)

private theorem keepAtoms_append (as bs : List Atom) :
    d.keepAtoms (as ++ bs) = d.keepAtoms as ++ d.keepAtoms bs := List.flatMap_append

private theorem keepAtoms_map (bytes : List UInt8) : d.keepAtoms (bytes.map .byte) = bytes := by
  induction bytes with
  | nil => rfl
  | cons b bytes ih =>
    rw [List.map_cons, keepAtoms, List.flatMap_cons]
    exact congrArg (b :: ·) ih

private theorem atom_of_plain {a : Atom} (h : a.plain = true) : d.atom a = false := by
  cases a with
  | byte b => rfl
  | ris => rfl
  | csi c => exact absurd h (by simp [Atom.plain])
  | osc o => exact absurd h (by simp [Atom.plain])

/-- Nothing is left out of pieces none of which is. -/
private theorem keepAtoms_eq {as : List Atom} (h : ∀ a ∈ as, d.atom a = false) :
    d.keepAtoms as = as.flatMap Atom.bytes := by
  induction as with
  | nil => rfl
  | cons a as ih =>
    rw [List.forall_mem_cons] at h
    rw [keepAtoms, List.flatMap_cons, List.flatMap_cons, h.1]
    exact congrArg (a.bytes ++ ·) (ih h.2)

private theorem keepAtoms_token (t : Token) :
    d.keepAtoms t.atoms = if d.token t then [] else t.bytes := by
  cases t with
  | raw bytes => exact d.keepAtoms_map bytes
  | ris => rfl
  | csi c => exact List.append_nil _
  | osc o => exact List.append_nil _

private theorem keep_eq (tokens : List Token) :
    d.keep tokens = d.keepAtoms (tokens.flatMap Token.atoms) := by
  induction tokens with
  | nil => rfl
  | cons t tokens ih =>
    rw [List.flatMap_cons, keepAtoms_append, ← ih, keepAtoms_token]
    rfl

private theorem exists_token {tokens : List Token} :
    (∃ t ∈ tokens, d.token t = true) ↔ ∃ a ∈ tokens.flatMap Token.atoms, d.atom a = true := by
  constructor
  · rintro ⟨t, ht, hd⟩
    cases t with
    | raw bytes => cases hd
    | ris => cases hd
    | csi c => exact ⟨.csi c, List.mem_flatMap.mpr ⟨_, ht, List.mem_singleton_self _⟩, hd⟩
    | osc o => exact ⟨.osc o, List.mem_flatMap.mpr ⟨_, ht, List.mem_singleton_self _⟩, hd⟩
  · rintro ⟨a, ha, hd⟩
    obtain ⟨t, ht, hat⟩ := List.mem_flatMap.mp ha
    refine ⟨t, ht, ?_⟩
    cases t with
    | raw bytes =>
      rw [d.atom_of_plain (plain_map bytes a hat)] at hd
      cases hd
    | ris =>
      obtain rfl := List.mem_singleton.mp hat
      cases hd
    | csi c =>
      obtain rfl := List.mem_singleton.mp hat
      exact hd
    | osc o =>
      obtain rfl := List.mem_singleton.mp hat
      exact hd

end Cut

/-! ### One byte -/

namespace OutputScanner

/-- What the scanner holds back, by its state; an ESC always starts something new. -/
inductive Shape : OutputScanner → Prop where
  | ground : Shape ⟨.ground, []⟩
  | esc : Shape ⟨.esc, [0x1b]⟩
  | csi (body : List UInt8) (h : 0x1b ∉ body) : Shape ⟨.csi, 0x1b :: 0x5b :: body⟩
  | osc (payload : List UInt8) (h : 0x1b ∉ payload) : Shape ⟨.osc, 0x1b :: 0x5d :: payload⟩
  | oscEsc (payload : List UInt8) (h : 0x1b ∉ payload) :
    Shape ⟨.oscEsc, 0x1b :: 0x5d :: (payload ++ [0x1b])⟩

/-- The second byte of a CSI or of an OSC. -/
def Opens (x : UInt8) : Prop := x = 0x5b ∨ x = 0x5d

/-- The scanner has nothing, an ESC, or the first two bytes of a sequence. -/
inductive Fresh : OutputScanner → Prop where
  | ground : Fresh ⟨.ground, []⟩
  | esc : Fresh ⟨.esc, [0x1b]⟩
  | csi : Fresh ⟨.csi, [0x1b, 0x5b]⟩
  | osc : Fresh ⟨.osc, [0x1b, 0x5d]⟩

/-- A byte may end a sequence: it is no ESC, and before it there is none but the first, or the
first half of a terminator. -/
def Ends (seq : List UInt8) (b : UInt8) : Prop :=
  ∃ x middle, Opens x ∧ seq = 0x1b :: x :: middle ∧
    ((0x1b ∉ middle ∧ b ≠ 0x1b) ∨ ∃ front, middle = front ++ [0x1b] ∧ 0x1b ∉ front ∧ b = 0x5c)

/-- What one byte does. -/
structure Stepped (s : OutputScanner) (b : UInt8) (r : OutputScanner × List Atom) : Prop where
  shape : r.1.Shape
  bytes : r.2.flatMap Atom.bytes ++ r.1.seq = s.seq ++ [b]
  fresh : r.2 = [] ∨ Fresh r.1
  atoms : (∀ a ∈ r.2, a.plain = true) ∨ (Ends s.seq b ∧ r.1 = new ∧ r.2.length = 1)

/-- One byte of the transducer. -/
def step (s : OutputScanner) (b : UInt8) : OutputScanner × List Atom := transducer.next s b

section Step

variable {s : OutputScanner} {b : UInt8}

/-- The byte is held back with the rest. -/
private theorem stepped_hold {state : State} (h : Shape ⟨state, s.seq ++ [b]⟩) :
    Stepped s b (⟨state, s.seq ++ [b]⟩, []) := ⟨h, rfl, .inl rfl, .inl (by simp)⟩

/-- Everything passes through. -/
private theorem stepped_drop : Stepped s b (new, (s.seq ++ [b]).map .byte) :=
  ⟨.ground, by rw [bytes_map]; exact List.append_nil _, .inr .ground, .inl (plain_map _)⟩

/-- The rest passes through, and the byte is held back. -/
private theorem stepped_restart {t : OutputScanner} (hf : Fresh t) (ht : t.Shape)
    (pre : List UInt8) (h : s.seq ++ [b] = pre ++ t.seq) : Stepped s b (t, pre.map .byte) :=
  ⟨ht, by rw [bytes_map, h], .inr hf, .inl (plain_map _)⟩

private theorem stepped_emit {a : Atom} (ha : a.bytes = s.seq ++ [b]) (h : Ends s.seq b) :
    Stepped s b (new, [a]) :=
  ⟨.ground, by simpa [new] using ha, .inr .ground, .inr ⟨h, rfl, rfl⟩⟩

private theorem emitted (t : Token) :
    (((⟨s, [], []⟩ : Scan).emit t).scanner, ((⟨s, [], []⟩ : Scan).emit t).atoms) =
      (new, t.atoms) := by
  rw [Scan.scanner_emit, Scan.atoms_emit]
  rfl

/-- After an ESC a byte never ends a CSI or an OSC, and leaves no more than its start. -/
private theorem step_esc (b : UInt8) : Stepped ⟨.esc, [0x1b]⟩ b (step ⟨.esc, [0x1b]⟩ b) ∧
    Fresh (step ⟨.esc, [0x1b]⟩ b).1 ∧ ∀ a ∈ (step ⟨.esc, [0x1b]⟩ b).2, a.plain = true := by
  change Stepped _ b ((Scan.escByte _ b).scanner, (Scan.escByte _ b).atoms) ∧
    Fresh (Scan.escByte _ b).scanner ∧ ∀ a ∈ (Scan.escByte _ b).atoms, a.plain = true
  unfold Scan.escByte
  split
  · next hb =>
    subst hb
    rw [emitted, Scan.scanner_emit, Scan.atoms_emit]
    exact ⟨⟨.ground, rfl, .inr .ground, .inl (by simp [Token.atoms, Atom.plain])⟩, .ground,
      by simp [Token.atoms, Atom.plain, Scan.atoms]⟩
  · split
    · next hb =>
      subst hb
      exact ⟨stepped_hold (.csi [] (by simp)), .csi, by simp [Scan.atoms, Scan.hold]⟩
    · split
      · next hb =>
        subst hb
        exact ⟨stepped_hold (.osc [] (by simp)), .osc, by simp [Scan.atoms, Scan.hold]⟩
      · split
        · next hb =>
          subst hb
          exact ⟨stepped_restart .esc .esc [0x1b] rfl, .esc, plain_map [0x1b]⟩
        · exact ⟨stepped_drop, .ground, plain_map [0x1b, b]⟩

private theorem stepped_csi {body : List UInt8} (hbody : 0x1b ∉ body) (b : UInt8) :
    Stepped ⟨.csi, 0x1b :: 0x5b :: body⟩ b (step ⟨.csi, 0x1b :: 0x5b :: body⟩ b) := by
  change Stepped _ b ((Scan.csiByte _ b).scanner, (Scan.csiByte _ b).atoms)
  unfold Scan.csiByte
  split
  · next hb =>
    rw [emitted]
    refine stepped_emit rfl ⟨0x5b, body, .inl rfl, rfl, .inl ⟨hbody, ?_⟩⟩
    rintro rfl
    exact absurd hb (by decide)
  · split
    · next hb =>
      subst hb
      exact stepped_restart (s := ⟨.csi, 0x1b :: 0x5b :: body⟩) (b := 0x1b) .esc .esc
        (0x1b :: 0x5b :: (body ++ [])) (by simp)
    · next hb =>
      split
      · exact stepped_drop
      · split
        · exact stepped_drop
        · refine stepped_hold (.csi (body ++ [b]) ?_)
          simp [hbody, Ne.symm hb]

private theorem stepped_osc {payload : List UInt8} (hp : 0x1b ∉ payload) (b : UInt8) :
    Stepped ⟨.osc, 0x1b :: 0x5d :: payload⟩ b (step ⟨.osc, 0x1b :: 0x5d :: payload⟩ b) := by
  change Stepped _ b ((Scan.oscByte _ b).scanner, (Scan.oscByte _ b).atoms)
  simp only [Scan.oscByte]
  split
  · next hb =>
    subst hb
    rw [emitted]
    exact stepped_emit rfl ⟨0x5d, payload, .inr rfl, rfl, .inl ⟨hp, by decide⟩⟩
  · split
    · next hb =>
      subst hb
      exact stepped_hold (.oscEsc payload hp)
    · next hb =>
      split
      · exact stepped_drop
      · split
        · exact stepped_drop
        · refine stepped_hold (.osc (payload ++ [b]) ?_)
          simp [hp, Ne.symm hb]

private theorem stepped_oscEsc {payload : List UInt8} (hp : 0x1b ∉ payload) (b : UInt8) :
    Stepped ⟨.oscEsc, 0x1b :: 0x5d :: (payload ++ [0x1b])⟩ b
      (step ⟨.oscEsc, 0x1b :: 0x5d :: (payload ++ [0x1b])⟩ b) := by
  change Stepped _ b ((Scan.oscEscByte _ b).scanner, (Scan.oscEscByte _ b).atoms)
  simp only [Scan.oscEscByte]
  split
  · next hb =>
    subst hb
    rw [emitted]
    exact stepped_emit rfl ⟨0x5d, payload ++ [0x1b], .inr rfl, rfl, .inr ⟨payload, rfl, hp, rfl⟩⟩
  · -- the OSC is given up, and its ESC read as the first byte of something new
    have hd : (0x1b :: 0x5d :: (payload ++ [0x1b]) : List UInt8).dropLast =
        0x1b :: 0x5d :: payload := by simp [List.dropLast_cons_of_ne_nil]
    have he : Scan.Extends ((0x1b :: 0x5d :: payload).map .byte)
        (((⟨⟨.oscEsc, 0x1b :: 0x5d :: payload⟩, [], []⟩ : Scan).pass []).hold .esc [0x1b])
        ⟨⟨.esc, [0x1b]⟩, [], []⟩ := ⟨rfl, by simp [Scan.atoms, Scan.hold, Scan.pass]⟩
    have hb := he.escByte b
    obtain ⟨hs, hf, hpl⟩ := step_esc b
    simp only [hd]
    rw [hb.scanner, hb.atoms]
    refine ⟨hs.shape, ?_, .inr hf, .inl ?_⟩
    · have hbytes := hs.bytes
      rw [List.flatMap_append, bytes_map, List.append_assoc]
      exact (congrArg _ hbytes).trans (by simp)
    · intro a ha
      obtain ha | ha := List.mem_append.mp ha
      · exact plain_map _ a ha
      · exact hpl a ha

end Step

/-- What one byte does, in every state. -/
theorem step_stepped {s : OutputScanner} (h : s.Shape) (b : UInt8) : Stepped s b (s.step b) := by
  cases h with
  | ground =>
    change Stepped _ b ((Scan.feedByte _ b).scanner, (Scan.feedByte _ b).atoms)
    simp only [Scan.feedByte]
    split
    · next hb =>
      subst hb
      exact stepped_hold .esc
    · exact stepped_drop
  | esc => exact (step_esc b).1
  | csi body hbody => exact stepped_csi hbody b
  | osc payload hp => exact stepped_osc hp b
  | oscEsc payload hp => exact stepped_oscEsc hp b

/-! ### A whole text -/

/-- The scanner and the pieces it has put out after a text. -/
def scan (text : List UInt8) : OutputScanner × List Atom := transducer.run new text

/-- Reading what is held back from the start leads to the same state, and puts nothing out. -/
def Rests (s : OutputScanner) : Prop := scan s.seq = (s, [])

private theorem run_append (s : OutputScanner) (x y : List UInt8) :
    transducer.run s (x ++ y) = ((transducer.run (transducer.run s x).1 y).1,
      (transducer.run s x).2 ++ (transducer.run (transducer.run s x).1 y).2) :=
  transducer.run_append s x y

private theorem scan_concat (x : List UInt8) (b : UInt8) :
    scan (x ++ [b]) = (((scan x).1.step b).1, (scan x).2 ++ ((scan x).1.step b).2) := by
  rw [scan, run_append, transducer.run_singleton]
  rfl

private theorem Fresh.rests {s : OutputScanner} (h : Fresh s) : s.Rests := by
  cases h <;> rfl

/-- What holds after any text. -/
structure Scanned (text : List UInt8) (s : OutputScanner) (atoms : List Atom) : Prop where
  shape : s.Shape
  rests : s.Rests
  bytes : atoms.flatMap Atom.bytes ++ s.seq = text

theorem scan_scanned (text : List UInt8) : Scanned text (scan text).1 (scan text).2 := by
  induction text using List.reverseRecOn with
  | nil => exact ⟨.ground, rfl, rfl⟩
  | append_singleton text b ih =>
    have hs := step_stepped ih.shape b
    rw [scan_concat]
    refine ⟨hs.shape, ?_, ?_⟩
    · obtain he | hf := hs.fresh
      · have hb := hs.bytes
        rw [he, List.flatMap_nil, List.nil_append] at hb
        have hr := ih.rests
        unfold Rests at hr ⊢
        rw [hb, scan_concat, hr]
        exact Prod.ext rfl he
      · exact hf.rests
    · rw [List.flatMap_append, List.append_assoc, hs.bytes, ← List.append_assoc, ih.bytes]

/-- The first two bytes of a sequence start it, and what was held back passes through. -/
private theorem run_start {s : OutputScanner} (h : s.Shape) {x : UInt8} (hx : Opens x) :
    transducer.run s [0x1b, x] = ((scan [0x1b, x]).1, s.seq.map .byte) := by
  have hd : ∀ payload : List UInt8,
      (Atom.byte 0x5d :: (payload.map Atom.byte ++ [.byte 0x1b])).dropLast =
        .byte 0x5d :: payload.map Atom.byte := fun payload ↦ by
    rw [← List.cons_append, List.dropLast_concat]
  cases h with
  | ground => obtain rfl | rfl := hx <;> rfl
  | esc => obtain rfl | rfl := hx <;> rfl
  | csi body _ =>
    obtain rfl | rfl := hx <;>
      simp [Transducer.run, transducer, scan, new, Scan.feedByte, Scan.csiByte, Scan.escByte,
        within, Scan.hold, Scan.pass, Scan.atoms]
  | osc payload _ =>
    obtain rfl | rfl := hx <;>
      simp [Transducer.run, transducer, scan, new, Scan.feedByte, Scan.oscByte,
        Scan.oscEscByte, Scan.escByte, Scan.hold, Scan.pass, Scan.atoms, hd]
  | oscEsc payload _ =>
    obtain rfl | rfl := hx <;>
      simp [Transducer.run, transducer, scan, new, Scan.feedByte, Scan.oscEscByte,
        Scan.escByte, Scan.hold, Scan.pass, Scan.atoms, hd]

/-- A sequence may be read on its own: it is where its first byte is. -/
private theorem run_opens {s : OutputScanner} (h : s.Shape) {x : UInt8} (hx : Opens x)
    (rest : List UInt8) : transducer.run s (0x1b :: x :: rest) =
      ((scan (0x1b :: x :: rest)).1, s.seq.map .byte ++ (scan (0x1b :: x :: rest)).2) := by
  have hnew : (scan [0x1b, x]).2 = [] := by obtain rfl | rfl := hx <;> rfl
  have hsplit : 0x1b :: x :: rest = [0x1b, x] ++ rest := rfl
  rw [scan, hsplit, run_append, run_append, run_start h hx,
    show (transducer.run new [0x1b, x]).2 = [] from hnew]
  rfl

/-! ### Sequences in a text -/

section Words

variable (d : Cut)

private theorem feed_new (text : List UInt8) :
    (new.feed text).1 = (scan text).1 ∧ (new.feed text).2.flatMap Token.atoms = (scan text).2 :=
  Prod.mk.injEq .. |>.mp (feed_chunked.agrees new text)

private theorem atoms_ne_nil {t : Token} (h : t ≠ .raw []) : t.atoms ≠ [] := by
  cases t with
  | raw bytes =>
    rw [Token.atoms, ne_eq, List.map_eq_nil_iff]
    exact fun hb ↦ h (congrArg _ hb)
  | _ => exact List.cons_ne_nil _ _

/-- A single piece is a single token. -/
private theorem eq_singleton {tokens : List Token} (hfull : .raw [] ∉ tokens) {a : Atom}
    (h : tokens.flatMap Token.atoms = [a]) {t : Token} (ht : t ∈ tokens) : tokens = [t] := by
  cases tokens with
  | nil => cases ht
  | cons t₀ rest =>
    rw [List.mem_cons, not_or] at hfull
    rw [List.flatMap_cons] at h
    obtain ⟨h₀, -⟩ | ⟨-, hr⟩ := List.append_eq_singleton_iff.mp h
    · exact absurd h₀ (atoms_ne_nil (Ne.symm hfull.1))
    · cases rest with
      | nil => rw [List.mem_singleton.mp ht]
      | cons t₁ rest =>
        have hne := atoms_ne_nil fun he ↦ hfull.2 (he ▸ List.mem_cons_self)
        rw [List.flatMap_cons, List.append_eq_nil_iff] at hr
        exact absurd hr.1 hne

/-- A sequence read on its own. -/
private theorem word_iff {q : List UInt8} :
    d.Word q ↔ ∃ a, scan q = (new, [a]) ∧ d.atom a = true := by
  obtain ⟨hs, ha⟩ := feed_new q
  constructor
  · rintro ⟨t, hf, hd⟩
    rw [hf] at hs ha
    obtain ⟨a, hat, hda⟩ := (Cut.exists_token d).mp
      (⟨t, List.mem_singleton_self t, hd⟩ : ∃ t' ∈ [t], d.token t' = true)
    refine ⟨a, Prod.ext hs.symm ?_, hda⟩
    rw [← ha]
    cases t with
    | raw bytes => cases hd
    | ris => cases hd
    | csi c => exact congrArg (fun x ↦ [x]) (List.mem_singleton.mp hat).symm
    | osc o => exact congrArg (fun x ↦ [x]) (List.mem_singleton.mp hat).symm
  · rintro ⟨a, hq, hd⟩
    rw [hq] at hs ha
    obtain ⟨t, ht, hdt⟩ := d.exists_token.mpr ⟨a, by rw [ha]; simp, hd⟩
    exact ⟨t, Prod.ext hs (eq_singleton (feed_full new q) ha ht), hdt⟩

/-- A piece that is left out was a sequence of the text. -/
private theorem has_of_atom {text : List UInt8} {a : Atom} (ha : a ∈ (scan text).2)
    (hd : d.atom a = true) : Has d.Word text := by
  induction text using List.reverseRecOn with
  | nil => cases ha
  | append_singleton text b ih =>
    have hs := scan_scanned text
    have hb := step_stepped hs.shape b
    rw [scan_concat] at ha
    obtain ha | ha := List.mem_append.mp ha
    · simpa using (ih ha).append [] [b]
    · obtain hp | ⟨-, hn, hl⟩ := hb.atoms
      · rw [d.atom_of_plain (hp a ha)] at hd
        cases hd
      · obtain ⟨a', ha'⟩ := List.length_eq_one_iff.mp hl
        obtain rfl := List.mem_singleton.mp (ha' ▸ ha)
        refine ⟨(scan text).2.flatMap Atom.bytes, (scan text).1.seq ++ [b], [], ?_,
          (word_iff d).mpr ⟨a, ?_, hd⟩⟩
        · rw [List.append_nil, ← List.append_assoc, hs.bytes]
        · have hr := hs.rests
          unfold Rests at hr
          rw [scan_concat, hr]
          exact Prod.ext hn ha'

/-- How a sequence starts and ends. -/
private theorem word_shape {q : List UInt8} (h : d.Word q) :
    ∃ init b, q = init ++ [b] ∧ Ends init b := by
  obtain ⟨a, hq, hd⟩ := (word_iff d).mp h
  have hne : q ≠ [] := by
    rintro rfl
    exact absurd (congrArg Prod.snd hq) (by simp [scan, transducer])
  obtain ⟨init, b, rfl⟩ := List.eq_nil_or_concat' q |>.resolve_left hne
  have hs := scan_scanned init
  have hb := step_stepped hs.shape b
  rw [scan_concat, Prod.mk.injEq] at hq
  refine ⟨init, b, rfl, ?_⟩
  obtain ⟨h₁, h₂⟩ | ⟨h₁, h₂⟩ := List.append_eq_singleton_iff.mp hq.2
  · obtain hp | ⟨he, -, -⟩ := hb.atoms
    · rw [h₂, List.forall_mem_singleton] at hp
      rw [d.atom_of_plain hp] at hd
      cases hd
    · have hbytes := hs.bytes
      rw [h₁, List.flatMap_nil, List.nil_append] at hbytes
      exact hbytes ▸ he
  · -- nothing was put out by the last byte, and nothing was held back: there was no byte
    have hbytes := hb.bytes
    rw [h₂, hq.1] at hbytes
    exact absurd hbytes (by simp [new])

private theorem word_opens {q : List UInt8} (h : d.Word q) :
    ∃ x rest, Opens x ∧ q = 0x1b :: x :: rest := by
  obtain ⟨init, b, rfl, x, middle, hx, rfl, -⟩ := word_shape d h
  exact ⟨x, middle ++ [b], hx, rfl⟩

/-- A sequence is read the same wherever it is. -/
private theorem run_word {s : OutputScanner} (h : s.Shape) {q : List UInt8} {a : Atom}
    (hq : scan q = (new, [a])) (hd : d.atom a = true) :
    transducer.run s q = (new, s.seq.map .byte ++ [a]) := by
  obtain ⟨x, rest, hx, rfl⟩ := word_opens d ((word_iff d).mpr ⟨a, hq, hd⟩)
  rw [run_opens h hx, hq]

/-- A text with a sequence in it. -/
private theorem scan_word {q : List UInt8} {a : Atom} (hq : scan q = (new, [a]))
    (hd : d.atom a = true) (x y : List UInt8) : scan (x ++ q ++ y) =
      ((scan y).1, (scan x).2 ++ ((scan x).1.seq.map .byte ++ [a]) ++ (scan y).2) := by
  have hs := (scan_scanned x).shape
  unfold scan at hs ⊢
  rw [run_append, run_append, run_word d hs hq hd]

/-- Two sequences that start at the same place are the same. -/
private theorem word_eq {q q' m : List UInt8} (h : d.Word q) (h' : d.Word q')
    (he : q' = q ++ m) : m = [] := by
  obtain ⟨a, hq, hd⟩ := (word_iff d).mp h
  obtain ⟨a', hq', hd'⟩ := (word_iff d).mp h'
  have hm := scan_word d hq hd [] m
  rw [List.nil_append, ← he, hq'] at hm
  have hs := scan_scanned m
  have hb := hs.bytes
  have h₁ := congrArg Prod.fst hm
  have h₂ := congrArg Prod.snd hm
  change [a'] = ([] ++ ([] ++ [a]) ++ (scan m).2) at h₂
  rw [List.nil_append, List.nil_append, List.singleton_append, List.cons.injEq] at h₂
  rw [← h₂.2, ← h₁] at hb
  exact hb.symm

/-- No sequence starts inside another one. -/
private theorem not_word_inside {q q' m w b b' : List UInt8} (h : d.Word q) (h' : d.Word q')
    (hm : m ≠ []) (hw : w ≠ []) (hq : q = m ++ w) (he : w ++ b = q' ++ b') : False := by
  obtain ⟨init, c, rfl, x, middle, hx, rfl, hc⟩ := word_shape d h
  obtain ⟨x', rest, hx', rfl⟩ := word_opens d h'
  obtain ⟨first, m, rfl⟩ := List.exists_cons_of_ne_nil hm
  obtain ⟨e, w, rfl⟩ := List.exists_cons_of_ne_nil hw
  simp only [List.cons_append, List.cons.injEq] at hq he
  obtain ⟨rfl, he⟩ := he
  obtain ⟨-, hq⟩ := hq
  have hxe : x ≠ 0x1b := by obtain rfl | rfl := hx <;> decide
  have hmem : (0x1b : UInt8) ∈ x :: (middle ++ [c]) := by
    rw [hq]
    simp
  obtain ⟨hmid, hce⟩ | ⟨front, rfl, hf, rfl⟩ := hc
  · simp [hmid, Ne.symm hce, Ne.symm hxe] at hmem
  · -- the only ESC inside is that of the terminator, and a backslash follows it
    have hxf : (0x1b : UInt8) ∉ x :: front := by simp [hf, Ne.symm hxe]
    have hsplit : (x :: front) ++ [0x1b, 0x5c] = m ++ 0x1b :: w := by simpa using hq
    have hlast : w = [0x5c] := by
      obtain ⟨k, rfl, hk⟩ | ⟨k, hk, hk'⟩ := List.append_eq_append_iff.mp hsplit
      · match k, hk with
        | [], hk => exact (List.cons.inj hk).2.symm
        | [_], hk => cases hk
        | _ :: _ :: k, hk => exact absurd (congrArg List.length hk) (by simp)
      · cases k with
        | nil => exact (List.cons.inj hk').2
        | cons y k =>
          obtain ⟨rfl, -⟩ := List.cons.inj hk'
          exact absurd (hk ▸ by simp) hxf
    subst hlast
    obtain ⟨rfl, -⟩ := List.cons.inj he
    obtain hx' | hx' := hx' <;> exact absurd hx' (by decide)

end Words

section Excised

variable (d : Cut)

private theorem apart_after {q b q' b' m : List UInt8} (h : d.Word q) (h' : d.Word q')
    (he : q ++ b = m ++ (q' ++ b')) : (m = [] ∧ q = q') ∨ ∃ k, m = q ++ k := by
  obtain ⟨k, rfl, -⟩ | ⟨w, hq, hw⟩ := List.append_eq_append_iff.mp he
  · exact .inr ⟨k, rfl⟩
  · by_cases hwe : w = []
    · exact .inr ⟨[], by rw [hq, hwe, List.append_nil, List.append_nil]⟩
    · by_cases hm : m = []
      · subst hm
        refine .inl ⟨rfl, ?_⟩
        rw [List.nil_append] at he
        obtain ⟨k, hk, -⟩ | ⟨k, hk, -⟩ := List.append_eq_append_iff.mp he
        · rw [hk, word_eq d h h' hk, List.append_nil]
        · rw [hk, word_eq d h' h hk, List.append_nil]
      · exact (not_word_inside d h h' hm hwe hq hw.symm).elim

/-- Two sequences of one text do not overlap. -/
theorem apart_word : Apart d.Word := by
  refine ⟨fun h ↦ ?_, fun {a q b a' q' b'} h h' he ↦ ?_⟩
  · obtain ⟨x, rest, -, rfl⟩ := word_opens d h
    exact List.cons_ne_nil _ _
  · rw [List.append_assoc, List.append_assoc] at he
    obtain ⟨m, rfl, hm⟩ | ⟨m, rfl, hm⟩ := List.append_eq_append_iff.mp he
    · obtain ⟨rfl, hq⟩ | ⟨k, rfl⟩ := apart_after d h h' hm
      · exact .inl ⟨(List.append_nil a).symm, hq⟩
      · exact .inr (.inl ⟨k, (List.append_assoc _ _ _).symm⟩)
    · obtain ⟨rfl, hq⟩ | ⟨k, rfl⟩ := apart_after d h' h hm
      · exact .inl ⟨List.append_nil a', hq.symm⟩
      · exact .inr (.inr ⟨k, (List.append_assoc _ _ _).symm⟩)

private theorem strip_eq (text : List UInt8) :
    d.strip text = d.keepAtoms (scan text).2 ++ (scan text).1.seq := by
  obtain ⟨hs, ha⟩ := feed_new text
  rw [Cut.strip, d.keep_eq, ha, hs]
  rfl

/-- Stripping takes the sequences out that are left out, and nothing else. -/
theorem excises_strip : Excises d.Word d.strip := by
  refine ⟨fun x {q} y hq ↦ ?_, fun {x} hx ↦ ?_⟩
  · obtain ⟨a, hq, hd⟩ := (word_iff d).mp hq
    have ha : d.keepAtoms [a] = [] := by simp [Cut.keepAtoms, hd]
    rw [strip_eq, strip_eq, strip_eq, scan_word d hq hd x y]
    simp only [d.keepAtoms_append, d.keepAtoms_map, ha, List.nil_append, List.append_assoc]
  · rw [strip_eq, d.keepAtoms_eq, (scan_scanned x).bytes]
    intro a ha
    by_contra hd
    exact hx (has_of_atom d ha (Bool.not_eq_false _ ▸ hd))

/-- A text has such a sequence exactly if the scanner finds one. -/
theorem has_word_iff {text : List UInt8} :
    Has d.Word text ↔ ∃ a ∈ (scan text).2, d.atom a = true := by
  constructor
  · rintro ⟨x, q, y, rfl, hq⟩
    obtain ⟨a, hq, hd⟩ := (word_iff d).mp hq
    refine ⟨a, ?_, hd⟩
    rw [scan_word d hq hd]
    simp
  · rintro ⟨a, ha, hd⟩
    exact has_of_atom d ha hd

end Excised

section Broadcast

variable (d : Cut)

/-- The scanner left by some output. -/
private theorem feedAll_scan (chunks : List (List UInt8)) :
    (new.feedAll chunks).1 = (scan chunks.flatten).1 :=
  congrArg Prod.fst (feedAll_eq_run new chunks)

/-- What a chunk leaves, with what the scanner holds back after it, is what the chunk leaves
together with what the scanner held back before. -/
private theorem keep_feed {s : OutputScanner} (hs : s.Rests) (data : List UInt8) :
    d.keep (s.feed data).2 ++ (s.feed data).1.pending = d.strip (s.pending ++ data) ∧
      (s.feed data).1 = (scan (s.pending ++ data)).1 := by
  have hf : (s.feed data).1 = (transducer.run s data).1 ∧
      (s.feed data).2.flatMap Token.atoms = (transducer.run s data).2 :=
    Prod.mk.injEq .. |>.mp (feed_chunked.agrees s data)
  have hr : scan (s.pending ++ data) = transducer.run s data := by
    unfold Rests at hs
    unfold scan at hs ⊢
    rw [run_append, pending, hs]
    rfl
  rw [strip_eq, hr, d.keep_eq, hf.1, hf.2]
  exact ⟨rfl, rfl⟩

/-- What is held back completes no sequence of what is before it. -/
private theorem has_append_pending {s : OutputScanner} (hs : s.Shape) (hr : s.Rests)
    (text : List UInt8) : Has d.Word (text ++ s.seq) ↔ Has d.Word text := by
  have ht := (scan_scanned text).shape
  have hplain : ∀ a ∈ (transducer.run (scan text).1 s.seq).2, a.plain = true := by
    have hstart : ∀ x rest, Opens x → s.seq = 0x1b :: x :: rest →
        ∀ a ∈ (transducer.run (scan text).1 s.seq).2, a.plain = true := by
      intro x rest hx he a ha
      unfold Rests at hr
      rw [he, run_opens ht hx, ← he, hr, List.append_nil] at ha
      exact plain_map _ a ha
    cases hs with
    | ground => exact fun a ha ↦ by cases ha
    | esc =>
      rw [transducer.run_singleton]
      obtain hp | ⟨⟨x, middle, -, -, ⟨-, he⟩ | ⟨front, -, -, he⟩⟩, -⟩ :=
        (step_stepped ht 0x1b).atoms
      · exact hp
      · exact absurd rfl he
      · exact absurd he (by decide)
    | csi body _ => exact hstart 0x5b body (.inl rfl) rfl
    | osc payload _ => exact hstart 0x5d payload (.inr rfl) rfl
    | oscEsc payload _ => exact hstart 0x5d (payload ++ [0x1b]) (.inr rfl) rfl
  rw [has_word_iff, has_word_iff]
  have hrun : (scan (text ++ s.seq)).2 =
      (scan text).2 ++ (transducer.run (scan text).1 s.seq).2 := by
    rw [scan, run_append]
    rfl
  rw [hrun]
  constructor
  · rintro ⟨a, ha, hd⟩
    obtain ha | ha := List.mem_append.mp ha
    · exact ⟨a, ha, hd⟩
    · rw [d.atom_of_plain (hplain a ha)] at hd
      cases hd
  · rintro ⟨a, ha, hd⟩
    exact ⟨a, List.mem_append_left _ ha, hd⟩

end Broadcast

/-- A text contains a query exactly if some bytes of it in a row are one. -/
theorem asks_iff {bytes : List UInt8} : Asks bytes ↔ Has queries.Word bytes := by
  obtain ⟨-, ha⟩ := feed_new bytes
  rw [has_word_iff, Asks, queries.exists_token, ha]

end OutputScanner

/-! ### The broadcast of the actor -/

namespace Writing

variable {G ε : Type}

/-- The clients are shown these bytes more, and nothing else is decided for them. -/
structure Shows (w w' : Writing G ε) (bytes : List UInt8) : Prop where
  broadcast : w'.broadcast = w.broadcast ++ bytes
  client : w'.actor.clipboardClientAvailable = w.actor.clipboardClientAvailable

section Shown

variable {w w' w'' : Writing G ε}

private theorem Shows.trans {a b : List UInt8} (h : Shows w w' a) (h' : Shows w' w'' b) :
    Shows w w'' (a ++ b) :=
  ⟨by rw [h'.broadcast, h.broadcast, List.append_assoc], h'.client.trans h.client⟩

private theorem shows_nil (hb : w'.broadcast = w.broadcast)
    (hc : w'.actor.clipboardClientAvailable = w.actor.clipboardClientAvailable) :
    Shows w w' [] := ⟨by rw [hb, List.append_nil], hc⟩

variable [Ghostty G]

private theorem shows_flushFeed (w : Writing G ε) : Shows w w.flushFeed [] := by
  unfold flushFeed
  split <;> exact shows_nil rfl rfl

omit [Ghostty G] in
private theorem shows_foldl_reply (replies : List (List UInt8)) (w : Writing G ε) :
    Shows w (replies.foldl reply w) [] := by
  induction replies generalizing w with
  | nil => exact shows_nil rfl rfl
  | cons r replies ih => exact (shows_nil rfl rfl : Shows w (w.reply r) []).trans (ih _)

/-- The terminal gets what waits for it, and the child an answer. -/
private theorem shows_answer (w : Writing G ε) (bytes : List UInt8) :
    Shows w (w.flushFeed.reply bytes) [] :=
  (shows_flushFeed w).trans (shows_nil rfl rfl : Shows w.flushFeed (w.flushFeed.reply bytes) [])

private theorem shows_trackModes (w : Writing G ε) (c : Csi) : Shows w (w.trackModes c) [] := by
  unfold trackModes
  split
  · exact shows_nil rfl rfl
  · split
    · exact shows_nil rfl rfl
    · split
      · exact shows_nil rfl rfl
      · next params set _ =>
        dsimp only
        have hm : Shows w { w with actor := { w.actor with
            modes := (Modes.applyAll ε w.actor.modes params set).1
            events := w.actor.events ++ (Modes.applyAll ε w.actor.modes params set).2 } } [] :=
          shows_nil rfl rfl
        split
        · refine (hm.trans (shows_flushFeed _)).trans (b := []) ?_
          exact shows_nil rfl rfl
        · split
          · exact hm.trans (b := []) (shows_nil rfl rfl)
          · exact hm

/-- Every query that is answered on its own is one that stripping removes. -/
private theorem isStrippedQuery_of_answered {c : Csi}
    (h : c.isModifyKeysQuery = true ∨ c.isModeQuery 5522 = true ∨ c.sizeQuery.isSome = true) :
    c.isStrippedQuery = true := by
  unfold Csi.isStrippedQuery
  obtain h | h | h := h
  · simp [h]
  · simp only [Csi.isModeQuery, Bool.and_eq_true, decide_eq_true_eq] at h
    simp [h]
  · simp [h]

private theorem shows_csi (w : Writing G ε) (c : Csi) :
    Shows w (w.csiToken c) (if c.isStrippedQuery then [] else c.raw) := by
  have hkeys : Shows w (w.recordKeys c) [] := by
    unfold recordKeys
    dsimp only
    split <;> exact shows_nil rfl rfl
  have hshape : Shows (w.recordKeys c) ((w.recordKeys c).recordShape c) [] := by
    unfold recordShape
    split <;> exact shows_nil rfl rfl
  simp only [csiToken, answerCsi]
  split
  · next h =>
    rw [isStrippedQuery_of_answered (.inl h)]
    exact hkeys.trans (shows_answer _ _)
  · split
    · next h =>
      rw [isStrippedQuery_of_answered (.inr (.inl h))]
      exact hkeys.trans (shows_answer _ _)
    · split
      · next query h =>
        rw [isStrippedQuery_of_answered (.inr (.inr (by rw [h]; rfl)))]
        exact hkeys.trans (shows_answer _ _)
      · have ht := (hkeys.trans hshape).trans (shows_trackModes _ c)
        split
        · exact ht.trans (b := []) (shows_nil rfl rfl)
        · exact ht.trans ⟨rfl, rfl⟩

private theorem shows_osc [Taps ε] (w : Writing G ε) (o : Osc) :
    Shows w (w.oscToken o) (if w.actor.leftOut.osc o then [] else o.raw) := by
  have hcolor : Shows w (w.recordColor o) [] := by
    unfold recordColor
    dsimp only
    split <;> exact shows_nil rfl rfl
  simp only [oscToken, answerOsc, TerminalActor.leftOut, ← hcolor.client]
  split
  · next selection h =>
    obtain ⟨hs, hc⟩ := Option.filter_eq_some_iff.mp h
    simp only [hs, hc, Option.isSome_some, Bool.true_and, Bool.true_or, if_true]
    exact hcolor.trans (shows_answer _ _)
  · next h =>
    split
    · next hq =>
      simp only [hq, Option.isSome_some, Bool.or_true, if_true]
      exact (hcolor.trans (shows_flushFeed _)).trans (shows_foldl_reply _ _)
    · next hq =>
      have hn : (o.clipboardReadSelection.isSome &&
          !(w.recordColor o).actor.clipboardClientAvailable) = false := by
        cases hs : o.clipboardReadSelection with
        | none => rfl
        | some selection =>
          rw [hs] at h
          simpa [Option.filter] using h
      simp only [hn, hq, Option.isSome_none, Bool.or_false, Bool.false_eq_true, if_false]
      exact hcolor.trans ⟨rfl, rfl⟩

private theorem shows_token [Taps ε] (w : Writing G ε) (t : Token) :
    Shows w (w.token t) (w.actor.leftOut.keep [t]) := by
  cases t with
  | raw bytes =>
    simp only [token, rawToken, Cut.keep, Cut.token]
    split <;> exact ⟨by simp [Token.bytes], rfl⟩
  | ris =>
    have hf := shows_flushFeed
      { w with actor := { w.actor with history := w.actor.history.invalidate } }
    exact ⟨by simp [token, risToken, Cut.keep, Cut.token, Token.bytes, hf.broadcast], hf.client⟩
  | csi c =>
    rw [show w.actor.leftOut.keep [.csi c] = if c.isStrippedQuery then [] else c.raw
      from List.append_nil _]
    exact shows_csi w c
  | osc o =>
    rw [show w.actor.leftOut.keep [.osc o] = if w.actor.leftOut.osc o then [] else o.raw
      from List.append_nil _]
    exact shows_osc w o

/-- The clients are shown what is not left out. -/
private theorem shows_foldl_token [Taps ε] (tokens : List Token) (w : Writing G ε) :
    Shows w (tokens.foldl token w) (w.actor.leftOut.keep tokens) := by
  induction tokens generalizing w with
  | nil => exact shows_nil rfl rfl
  | cons t tokens ih =>
    have ht := shows_token w t
    have hl : (w.token t).actor.leftOut = w.actor.leftOut := by
      simp only [TerminalActor.leftOut, ht.client]
    have hi := ht.trans (ih (w.token t))
    rw [hl] at hi
    simpa [Cut.keep] using hi

end Shown

end Writing

namespace TerminalActor

variable {G ε : Type} [Ghostty G] [Taps ε]

/-- The broadcast is what the tokens leave. -/
theorem write_broadcast (a : TerminalActor G ε) (data : List UInt8) :
    (a.write data).1 = a.leftOut.keep (a.scanner.feed data).2 := by
  have h := (Writing.shows_foldl_token (a.scanner.feed data).2
    ⟨{ a with scanner := (a.scanner.feed data).1 }, [], []⟩).trans (Writing.shows_flushFeed _)
  exact h.broadcast.trans (List.append_nil _)

omit [Ghostty G] [Taps ε] in
private theorem word_leftOut (a : TerminalActor G ε) {q : List UInt8} (h : queries.Word q) :
    a.leftOut.Word q := by
  obtain ⟨t, hq, hd⟩ := h
  refine ⟨t, hq, ?_⟩
  cases t with
  | raw bytes => exact hd
  | ris => exact hd
  | csi c => exact hd
  | osc o =>
    simp only [queries, Cut.token] at hd
    simp [Cut.token, leftOut, hd]

/-- The broadcast contains a query exactly if one was broken up, in the output together with
what the scanner held back. -/
private theorem asks_broadcast_iff (a : TerminalActor G ε) {earlier : List (List UInt8)}
    (h : a.scanner = (OutputScanner.new.feedAll earlier).1) (data : List UInt8) :
    Asks (a.write data).1 ↔
      BrokenUp a.leftOut.Word queries.Word (a.scanner.pending ++ data) := by
  have hs : a.scanner.Rests := by
    rw [h, OutputScanner.feedAll_scan]
    exact (OutputScanner.scan_scanned _).rests
  obtain ⟨hk, hn⟩ := OutputScanner.keep_feed a.leftOut hs data
  have ht := OutputScanner.scan_scanned (a.scanner.pending ++ data)
  rw [← hn] at ht
  rw [OutputScanner.asks_iff, write_broadcast,
    ← OutputScanner.has_append_pending queries ht.shape ht.rests,
    show a.leftOut.keep (a.scanner.feed data).2 ++ (a.scanner.feed data).1.seq = _ from hk]
  exact (OutputScanner.excises_strip a.leftOut).has_iff_brokenUp
    (OutputScanner.apart_word a.leftOut) a.word_leftOut

end TerminalActor

/-- What is left has no query, and is left as it is when it is stripped again, exactly if no
query of the input is broken up by queries; and so is the broadcast of an actor exactly if no
query is broken up by what the broadcast leaves out. -/
theorem TerminalActor.never_asks_iff {G ε : Type} [Ghostty G] [Taps ε]
    (a : TerminalActor G ε) {earlier : List (List UInt8)}
    (h : a.scanner = (OutputScanner.new.feedAll earlier).1) (data : List UInt8) :
    (¬ Asks (stripTerminalQueries data) ↔ ¬ BrokenUp queries.Word queries.Word data) ∧
    (stripTerminalQueries (stripTerminalQueries data) = stripTerminalQueries data ↔
      ¬ BrokenUp queries.Word queries.Word data) ∧
    (¬ Asks (a.write data).1 ↔
      ¬ BrokenUp a.leftOut.Word queries.Word (a.scanner.pending ++ data)) := by
  have hR := OutputScanner.apart_word queries
  have hf := OutputScanner.excises_strip queries
  have hiff : Has queries.Word (queries.strip data) ↔ _ := hf.has_iff_brokenUp hR id
  refine ⟨not_congr ?_, ?_, not_congr (asks_broadcast_iff a h data)⟩
  · exact OutputScanner.asks_iff.trans hiff
  · exact (hf.eq_self_iff hR).trans (not_congr hiff)

/-- No query of this output is broken up. -/
theorem TerminalActor.never_asks_iff_apart :
    ∃ a : TerminalActor Drained.Enq Unit, ¬ BrokenUp queries.Word queries.Word (ascii "a\x1b[cb") ∧
      ¬ BrokenUp a.leftOut.Word queries.Word (a.scanner.pending ++ ascii "a\x1b[cb") := by
  let a : TerminalActor Drained.Enq Unit := { term := {} }
  have h := never_asks_iff a
    (show a.scanner = (OutputScanner.new.feedAll []).1 from rfl) (ascii "a\x1b[cb")
  exact ⟨a, h.2.1.mp (by decide), h.2.2.mp (by unfold Asks; decide)⟩

/-- A query is left where one was taken out of its middle. -/
theorem TerminalActor.never_asks_joined :
    stripTerminalQueries (ascii "\x1b[\x1b[cc") = ascii "\x1b[c" ∧
      Asks (stripTerminalQueries (ascii "\x1b[\x1b[cc")) ∧
      stripTerminalQueries (stripTerminalQueries (ascii "\x1b[\x1b[cc")) = [] ∧
      ∃ a : TerminalActor Drained.Enq Unit, (a.write (ascii "\x1b[\x1b[cc")).1 = ascii "\x1b[c" :=
  ⟨by decide, ⟨.csi ⟨ascii "\x1b[c", none, [], [], 0x63⟩, by decide, by decide⟩, by decide,
    { term := {} }, by decide⟩

end PtySpec.Vt
