import PtySpec.Lib.Pieces
import PtySpec.Protocol.Payload

/-!
# Sending a paste

Model of `send_data`, `crates/pty-client/src/connection.rs:345`, and of `wrap_bracketed_paste`,
`crates/pty-core/src/paste.rs:16`, with the terminal that takes pasted text apart from typed.
-/

namespace PtySpec.Client

open Lib Protocol

/-- `BRACKETED_PASTE_START`, `paste.rs:11`. -/
def bracketedPasteStart : List UInt8 := [0x1b, 0x5b, 0x32, 0x30, 0x30, 0x7e]

/-- `BRACKETED_PASTE_END`, `paste.rs:13`. -/
def bracketedPasteEnd : List UInt8 := [0x1b, 0x5b, 0x32, 0x30, 0x31, 0x7e]

/-- `wrap_bracketed_paste`, `paste.rs:16`. -/
def wrapBracketedPaste (payload : List UInt8) : List UInt8 :=
  bracketedPasteStart ++ payload ++ bracketedPasteEnd

/-! ### Sending -/

/-- The field of `SendDataOptions` that says what is sent; the other says when. -/
structure SendDataOptions where
  paste : Bool
  deriving DecidableEq, Repr

/-- What was written to the socket, and how the call ended. -/
structure Sending (ε : Type) where
  packets : List Packet
  result : Except ε Unit

/-- Write packets one after the other until a write fails. -/
def writeAll {ε : Type} (fails : Nat → Option ε) (sent : List Packet) : List Packet → Sending ε
  | [] => ⟨sent, .ok ()⟩
  | p :: rest =>
    match fails sent.length with
    | some e => ⟨sent, .error e⟩
    | none => writeAll fails (sent ++ [p]) rest

/-- `send_data`, `connection.rs:345`, once connected: what the status of the session says of its
bracketed paste mode is asked for only if it matters. -/
def sendData {ε : Type} (bracketedPaste : Except ε Bool) (fails : Nat → Option ε)
    (items : List (List UInt8)) (opts : SendDataOptions) : Sending ε :=
  let pasting := if opts.paste && !items.isEmpty then bracketedPaste else .ok false
  match pasting with
  | .error e => ⟨[], .error e⟩
  | .ok paste =>
    let mark (bytes : List UInt8) := if paste then [Packet.data bytes] else []
    writeAll fails [] (mark bracketedPasteStart ++ items.map Packet.data ++ mark bracketedPasteEnd)

/-- The input that the session reads of a sending. -/
def Sending.stream {ε : Type} (s : Sending ε) : List UInt8 := s.packets.flatMap Packet.payload

private theorem writeAll_ok {ε : Type} {fails : Nat → Option ε} {rest : List Packet}
    {sent : List Packet} (h : (writeAll fails sent rest).result = .ok ()) :
    (writeAll fails sent rest).packets = sent ++ rest := by
  induction rest generalizing sent with
  | nil => exact (List.append_nil sent).symm
  | cons p rest ih =>
    unfold writeAll at h ⊢
    cases hf : fails sent.length with
    | some e =>
      rw [hf] at h
      cases h
    | none =>
      rw [hf] at h
      dsimp only at h ⊢
      rw [ih h, List.append_assoc, List.singleton_append]

private theorem sendData_paste {ε : Type} {fails : Nat → Option ε} {items : List (List UInt8)}
    {opts : SendDataOptions} (hp : opts.paste = true) (hi : items ≠ [])
    (h : (sendData (.ok true) fails items opts).result = .ok ()) :
    (sendData (.ok true) fails items opts).stream = wrapBracketedPaste items.flatten := by
  have hne : items.isEmpty = false := by simpa using hi
  simp only [sendData, hp, hne, Bool.not_false, Bool.and_self, if_true] at h ⊢
  rw [Sending.stream, writeAll_ok h, List.nil_append, List.flatMap_append, List.flatMap_append,
    List.flatMap_map]
  have hpayload : items.flatMap (fun item ↦ (Packet.data item).payload) = items.flatten :=
    List.flatMap_id'
  rw [hpayload]
  simp [wrapBracketedPaste, Packet.data]

/-! ### Receiving -/

/-- What is before the first place where the text has a mark, and what is after it. -/
def splitAtMark (mark : List UInt8) : List UInt8 → Option (List UInt8 × List UInt8)
  | [] => if mark = [] then some ([], []) else none
  | x :: text =>
    if mark <+: x :: text then some ([], (x :: text).drop mark.length)
    else (splitAtMark mark text).map fun (before, rest) ↦ (x :: before, rest)

/-- What a terminal program takes its input for. -/
inductive Received where
  | typed (byte : UInt8)
  | pasted (content : List UInt8)
  deriving DecidableEq, Repr

theorem splitAtMark_eq {mark text before rest : List UInt8}
    (h : splitAtMark mark text = some (before, rest)) : text = before ++ mark ++ rest := by
  induction text generalizing before with
  | nil =>
    rw [splitAtMark] at h
    split at h
    · next hm =>
      cases h
      rw [hm]
      rfl
    · cases h
  | cons x text ih =>
    rw [splitAtMark] at h
    split at h
    · next hm =>
      cases h
      exact (List.prefix_iff_eq_append.mp hm).symm
    · obtain ⟨⟨front, more⟩, hs, he⟩ := Option.map_eq_some_iff.mp h
      cases he
      rw [ih hs]
      rfl

/-- The protocol of a receiver: from a start mark to the next end mark it is a paste. A paste
without an end is still going on. -/
def received : List UInt8 → List Received
  | [] => []
  | x :: text =>
    if bracketedPasteStart <+: x :: text then
      match _h : splitAtMark bracketedPasteEnd (text.drop 5) with
      | some (content, rest) => .pasted content :: received rest
      | none => []
    else .typed x :: received text
termination_by text => text.length
decreasing_by
  · have hl := congrArg List.length (splitAtMark_eq _h)
    simp only [List.length_drop, List.length_append] at hl
    rw [List.length_cons]
    omega
  · simp

theorem marked_end : Marked 0x1b (· = bracketedPasteEnd) where
  opens h := ⟨bracketedPasteEnd.tail, h, by decide⟩
  same h h' := by simpa [h] using h'

private theorem splitAtMark_end {content : List UInt8} (h : ¬bracketedPasteEnd <:+: content) :
    splitAtMark bracketedPasteEnd (content ++ bracketedPasteEnd) = some (content, []) := by
  induction content with
  | nil => rfl
  | cons x content ih =>
    have hno : ¬bracketedPasteEnd <+: x :: (content ++ bracketedPasteEnd) := by
      rintro ⟨rest, hr⟩
      have he : [] ++ bracketedPasteEnd ++ rest =
          (x :: content) ++ bracketedPasteEnd ++ [] := by
        rw [List.nil_append, hr, List.append_nil, List.cons_append]
      obtain ⟨hbad, -⟩ | ⟨m, hm⟩ | ⟨m, hm⟩ := marked_end.apart.apart rfl rfl he
      · cases hbad
      · exact h ⟨[], m, by rw [hm, List.nil_append]⟩
      · cases hm
    rw [List.cons_append, splitAtMark, if_neg hno,
      ih fun hc ↦ h (hc.trans (List.suffix_cons x content).isInfix)]
    rfl

private theorem received_paste {content : List UInt8} (h : ¬bracketedPasteEnd <:+: content) :
    received (wrapBracketedPaste content) = [.pasted content] := by
  have hw : wrapBracketedPaste content =
      0x1b :: (bracketedPasteStart.tail ++ (content ++ bracketedPasteEnd)) := by
    simp [wrapBracketedPaste, bracketedPasteStart]
  rw [hw, received, if_pos ⟨content ++ bracketedPasteEnd, rfl⟩]
  split
  · next inside rest hs =>
    rw [show 5 = bracketedPasteStart.tail.length from rfl, List.drop_left, splitAtMark_end h] at hs
    cases hs
    rw [received]
  · next hs =>
    rw [show 5 = bracketedPasteStart.tail.length from rfl, List.drop_left, splitAtMark_end h] at hs
    cases hs

/-- A receiver sees one paste, and the first end mark after its start is the last thing in it. -/
structure OnePaste (stream content : List UInt8) : Prop where
  sees : received stream = [.pasted content]
  closes : ∃ inside, stream = bracketedPasteStart ++ inside ∧
    ∀ a b, inside = a ++ bracketedPasteEnd ++ b → b = []

private theorem onePaste_wrap (content : List UInt8) :
    OnePaste (wrapBracketedPaste content) content ↔ ¬bracketedPasteEnd <:+: content := by
  constructor
  · rintro ⟨-, inside, he, hc⟩ ⟨a, b, rfl⟩
    rw [wrapBracketedPaste, List.append_assoc] at he
    have hb := hc a (b ++ bracketedPasteEnd)
      (by rw [← List.append_cancel_left he, List.append_assoc _ b])
    exact absurd (List.append_eq_nil_iff.mp hb).2 (by decide)
  · intro h
    refine ⟨received_paste h, content ++ bracketedPasteEnd,
      by rw [wrapBracketedPaste, List.append_assoc], fun a b he ↦ ?_⟩
    rw [← List.append_nil (content ++ bracketedPasteEnd)] at he
    obtain ⟨rfl, -⟩ | ⟨m, rfl⟩ | ⟨m, rfl⟩ := marked_end.apart.apart rfl rfl he
    · simpa using he
    · have hl := congrArg List.length he
      have hpos : 0 < bracketedPasteEnd.length := by decide
      simp only [List.length_append, List.length_nil] at hl
      omega
    · exact absurd ⟨a, m, rfl⟩ h

/-- A paste cannot be broken out of exactly if what is pasted, the items one after the other, has
no end mark in it. -/
theorem onePaste_iff {ε : Type} (payload : List UInt8) (items : List (List UInt8))
    (opts : SendDataOptions) (fails : Nat → Option ε) (hp : opts.paste = true) (hi : items ≠ [])
    (h : (sendData (.ok true) fails items opts).result = .ok ()) :
    (OnePaste (wrapBracketedPaste payload) payload ↔ ¬bracketedPasteEnd <:+: payload) ∧
      (OnePaste (sendData (.ok true) fails items opts).stream items.flatten ↔
        ¬bracketedPasteEnd <:+: items.flatten) := by
  refine ⟨onePaste_wrap payload, ?_⟩
  rw [sendData_paste hp hi h]
  exact onePaste_wrap items.flatten

/-- Two items. -/
theorem onePaste_iff_twice :
    (OnePaste (wrapBracketedPaste [0x61]) [0x61] ↔ ¬bracketedPasteEnd <:+: [0x61]) ∧
      (OnePaste (sendData (ε := Unit) (.ok true) (fun _ ↦ none) [[0x61], [0x62]] ⟨true⟩).stream
          [0x61, 0x62] ↔
        ¬bracketedPasteEnd <:+: [0x61, 0x62]) :=
  onePaste_iff [0x61] [[0x61], [0x62]] ⟨true⟩ (fun _ ↦ none) rfl (by simp) rfl

/-- An item that ends a paste in front of a command line. -/
theorem onePaste_refuted :
    (¬∀ payload, OnePaste (wrapBracketedPaste payload) payload) ∧
      ¬∀ items : List (List UInt8), items ≠ [] →
        OnePaste (sendData (ε := Unit) (.ok true) (fun _ ↦ none) items ⟨true⟩).stream
          items.flatten := by
  constructor
  · intro h
    exact (onePaste_wrap _).mp (h (bracketedPasteEnd ++ [0x6c, 0x73, 0x0d]))
      ⟨[], [0x6c, 0x73, 0x0d], rfl⟩
  · intro h
    have hone := h [[0x1b, 0x5b, 0x32], [0x30, 0x31, 0x7e, 0x6c, 0x73, 0x0d]] (by simp)
    rw [sendData_paste rfl (by simp) rfl] at hone
    exact (onePaste_wrap _).mp hone ⟨[], [0x6c, 0x73, 0x0d], rfl⟩

end PtySpec.Client
