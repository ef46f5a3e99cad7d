import PtySpec.Handle.Core
import PtySpec.Lib.Program

/-!
# Read transactions

A handle's thread takes one message after another. Of each read it publishes the child hears
one whole answer, one error, or nothing because the mode was turned off under the read; a
packet that is refused writes nothing, except the error that replaces a dropped answer.
-/

namespace PtySpec.Handle

open Lib Vt

/-- A published read. -/
structure Request where
  attempt : Nat
  read : Nat
  request : ReadRequest

/-- The status that ends a read without an answer. -/
def statusBytes (e : ReadError) (id : Option PasteId) : List UInt8 :=
  osc (readStatus e.status (id.map (·.val))) []

/-! ### What a packet does -/

/-- What becomes of a paste packet. -/
inductive Taken {G ν : Type} (c : Core G ν) (attempt : Nat) (target : PasteTarget) :
    PastePacket → Except PasteRefusal Unit → Core G ν → List (Effect ν) → Prop where
  | refused (packet : PastePacket) (e : PasteRefusal) :
    Taken c attempt target packet (.error e) c []
  | listed (packet : PastePacket) (bytes : List UInt8) (ht : target = .paste) :
    Taken c attempt target packet (.ok ()) c (c.input .listing bytes)
  | begun (o : OpenRead) (bytes : List UInt8) (ho : c.paste.openRead = some o)
    (ht : target = .read o.read) (ha : c.paste.answer = none)
    (hb : PastePacket.encode .readOk (o.id.map (·.val)) = .ok bytes) :
    Taken c attempt target .readOk (.ok ())
      { c with paste := { c.paste with answer := some bytes } } []
  | extended (o : OpenRead) (mime data answer bytes : List UInt8)
    (ho : c.paste.openRead = some o) (ht : target = .read o.read)
    (ha : c.paste.answer = some answer)
    (hb : PastePacket.encode (.readData mime data) (o.id.map (·.val)) = .ok bytes)
    (hd : c.paste.data + data.length ≤ MAX_TRANSACTION) :
    Taken c attempt target (.readData mime data) (.ok ())
      { c with paste := { c.paste with
        data := c.paste.data + data.length
        answer := some (answer ++ bytes) } } []
  | dropped (o : OpenRead) (answer : List UInt8) (packet : PastePacket) (e : PasteRefusal)
    (ho : c.paste.openRead = some o) (ha : c.paste.answer = some answer) :
    Taken c attempt target packet (.error e) { c with paste := {} }
      [.input ⟨.read o.read, c.attempt, statusBytes .busy o.id⟩]
  | done (o : OpenRead) (answer bytes : List UInt8) (ho : c.paste.openRead = some o)
    (ht : target = .read o.read) (ha : c.paste.answer = some answer)
    (hb : PastePacket.encode .readDone (o.id.map (·.val)) = .ok bytes) :
    Taken c attempt target .readDone (.ok ()) { c with paste := {} }
      [.input ⟨.read o.read, c.attempt, answer ++ bytes⟩]
  | failed (o : OpenRead) (e : ReadError) (ho : c.paste.openRead = some o)
    (ht : target = .read o.read) :
    Taken c attempt target (.readError e) (.ok ()) { c with paste := {} }
      [.input ⟨.read o.read, c.attempt, statusBytes e o.id⟩]

/-- A paste packet leaves the terminal alone. -/
theorem Taken.actor {G ν : Type} {c d : Core G ν} {attempt : Nat} {target : PasteTarget}
    {packet : PastePacket} {result : Except PasteRefusal Unit} {es : List (Effect ν)}
    (h : Taken c attempt target packet result d es) : d.actor = c.actor := by
  cases h <;> rfl

namespace Core

variable {G ν : Type} {c : Core G ν} {attempt : Nat} {target : PasteTarget} {packet : PastePacket}

private theorem input_eq (hr : c.backend.readonly = false) (hd : c.backend.disconnected = false)
    (source : Source) (bytes : List UInt8) :
    c.input source bytes = [.input ⟨source, c.attempt, bytes⟩] := by
  unfold input
  split
  · rfl
  · next opts stream hb =>
    rw [hb] at hr hd
    cases stream with
    | none => cases hd
    | some k =>
      have hr : opts.readonly = false := hr
      simp [hr]

/-- A packet that fits has a listing's target, or that of the open read; and there is someone
to write to. -/
private theorem checkPaste_ok (h : c.checkPaste attempt target packet = .ok ()) :
    (∀ source bytes, c.input source bytes = [.input ⟨source, c.attempt, bytes⟩]) ∧
      ((target = .paste ∧ ∃ l p m, packet = .listing l p m) ∨
        (∃ o, c.paste.openRead = some o ∧ target = .read o.read ∧
          ∀ l p m, packet ≠ .listing l p m)) := by
  unfold checkPaste at h
  split_ifs at h with _ hr hd _ _
  refine ⟨input_eq (by simpa using hr) (by simpa using hd), ?_⟩
  split at h
  · exact .inl ⟨rfl, _, _, _, rfl⟩
  · cases h
  · next read hlist =>
    split_ifs at h with hall
    cases ho : c.paste.openRead with
    | none => simp [ho] at hall
    | some o =>
      simp only [ho, Option.all_some, decide_eq_true_eq, not_not] at hall
      exact .inr ⟨o, rfl, by rw [hall], fun l p m he ↦ hlist l p m he⟩
  · cases h

private theorem encodePaste_eq (c : Core G ν) (packet : PastePacket) {o : OpenRead}
    (ho : c.paste.openRead = some o) :
    c.encodePaste packet =
      match packet.encode (o.id.map (·.val)) with
      | .ok bytes => .ok bytes
      | .error .invalid => .error .invalid
      | .error .tooLarge => .error .packetTooLarge := by
  unfold encodePaste
  rw [ho]
  rfl

private theorem encodePaste_ok {bytes : List UInt8} {o : OpenRead}
    (ho : c.paste.openRead = some o) (h : c.encodePaste packet = .ok bytes) :
    packet.encode (o.id.map (·.val)) = .ok bytes := by
  rw [encodePaste_eq c packet ho] at h
  split at h
  · next h' => rw [h', Except.ok.inj h]
  · cases h
  · cases h

private theorem refuseOpenRead_eq {o : OpenRead} (ho : c.paste.openRead = some o)
    (hw : ∀ source bytes, c.input source bytes = [.input ⟨source, c.attempt, bytes⟩]) :
    c.refuseOpenRead = ({ c with paste := {} },
      [.input ⟨.read o.read, c.attempt, statusBytes .busy o.id⟩]) := by
  unfold refuseOpenRead refuseRead readSource
  rw [ho]
  dsimp only [Option.bind_some]
  rw [PastePacket.encode_readError]
  dsimp only
  rw [hw]
  rfl

/-- Every packet is taken in one of these ways. -/
theorem writePaste_taken (c : Core G ν) (attempt : Nat) (target : PasteTarget)
    (packet : PastePacket) :
    Taken c attempt target packet (c.writePaste attempt target packet).1
      (c.writePaste attempt target packet).2.1 (c.writePaste attempt target packet).2.2 := by
  unfold writePaste
  split
  · exact .refused packet _
  · next h =>
    obtain ⟨hw, ⟨ht, l, p, m, rfl⟩ | ⟨o, ho, ht, hlist⟩⟩ := checkPaste_ok h
    · unfold takePaste
      dsimp only
      split
      · exact .refused _ _
      · exact .listed _ _ ht
    · have hsource : c.readSource = .read o.read := by rw [readSource, ho]
      cases packet with
      | listing l p m => exact absurd rfl (hlist l p m)
      | readOk =>
        unfold takePaste
        dsimp only
        split
        · exact .refused _ _
        · next ha =>
          split
          · exact .refused _ _
          · next bytes hb =>
            exact .begun o bytes ho ht (by simpa using ha) (encodePaste_ok ho hb)
      | readData mime data =>
        unfold takePaste
        dsimp only
        split
        · exact .refused _ _
        · next answer ha =>
          split
          · next e _ =>
            rw [refuseOpenRead_eq ho hw]
            exact .dropped o answer _ e ho ha
          · next bytes hb =>
            split
            · next hfit =>
              exact .extended o mime data answer bytes ho ht ha (encodePaste_ok ho hb) hfit.1
            · rw [refuseOpenRead_eq ho hw]
              exact .dropped o answer _ _ ho ha
      | readDone =>
        unfold takePaste
        dsimp only
        split
        · exact .refused _ _
        · next answer ha =>
          rw [encodePaste_eq c _ ho, PastePacket.encode_readDone]
          dsimp only
          rw [hw, hsource]
          exact .done o answer _ ho ht ha (PastePacket.encode_readDone o.id)
      | readError e =>
        unfold takePaste
        dsimp only
        rw [encodePaste_eq c _ ho, PastePacket.encode_readError]
        dsimp only
        rw [hw, hsource]
        exact .failed o e ho ht

end Core

/-! ### What a log says -/

section Log

variable {ν : Type}

/-- The read that an effect publishes. -/
def Effect.request? : Effect ν → Option Request
  | .emit (.enhancedPasteRequest attempt read request) => some ⟨attempt, read, request⟩
  | _ => none

/-- What an effect writes for a read. -/
def Effect.write? (read : Nat) : Effect ν → Option Written
  | .input w => if w.source = .read read then some w else none
  | _ => none

/-- The packet that an effect accepts for a read. -/
def Effect.accepted? (read : Nat) : Effect ν → Option PastePacket
  | .answer _ target p (.ok ()) => if target = .read read then some p else none
  | _ => none

/-- The published reads. -/
def requests (log : List (Effect ν)) : List Request := log.filterMap Effect.request?

/-- What was written for a read. -/
def writes (read : Nat) (log : List (Effect ν)) : List Written :=
  log.filterMap (Effect.write? read)

/-- The packets accepted for a read. -/
def accepted (read : Nat) (log : List (Effect ν)) : List PastePacket :=
  log.filterMap (Effect.accepted? read)

/-- The effect says nothing of reads. -/
structure Quiet (e : Effect ν) : Prop where
  request : e.request? = none
  write : ∀ read, e.write? read = none
  accepted : ∀ read, e.accepted? read = none

/-- The mode was turned off after the read was published, under the same attempt. -/
def Ended (q : Request) (log : List (Effect ν)) : Prop :=
  ∃ pre post, log = pre ++ .emit (.enhancedPasteRequest q.attempt q.read q.request) :: post ∧
    .emit (.enhancedPasteMode q.attempt false) ∈ post

variable {log es : List (Effect ν)} {read : Nat} {q : Request}

@[simp] theorem requests_append : requests (log ++ es) = requests log ++ requests es :=
  List.filterMap_append ..

@[simp] theorem writes_append : writes read (log ++ es) = writes read log ++ writes read es :=
  List.filterMap_append ..

@[simp] theorem accepted_append :
    accepted read (log ++ es) = accepted read log ++ accepted read es :=
  List.filterMap_append ..

theorem requests_of_quiet (h : ∀ e ∈ es, Quiet e) : requests es = [] :=
  List.filterMap_eq_nil_iff.mpr fun e he ↦ (h e he).request

theorem writes_of_quiet (h : ∀ e ∈ es, Quiet e) (read : Nat) : writes read es = [] :=
  List.filterMap_eq_nil_iff.mpr fun e he ↦ (h e he).write read

theorem accepted_of_quiet (h : ∀ e ∈ es, Quiet e) (read : Nat) : accepted read es = [] :=
  List.filterMap_eq_nil_iff.mpr fun e he ↦ (h e he).accepted read

theorem Quiet.mem_singleton {e : Effect ν} (h : Quiet e) : ∀ e' ∈ [e], Quiet e' := by
  intro e' he
  rwa [List.mem_singleton.mp he]

theorem Ended.append (h : Ended q log) (es : List (Effect ν)) : Ended q (log ++ es) := by
  obtain ⟨pre, post, rfl, hm⟩ := h
  exact ⟨pre, post ++ es, by simp, List.mem_append_left _ hm⟩

/-- A published read ends with the mode. -/
theorem ended_of_mem (h : q ∈ requests log) :
    Ended q (log ++ [.emit (.enhancedPasteMode q.attempt false)]) := by
  obtain ⟨e, he, hq⟩ := List.mem_filterMap.mp h
  have heq : e = .emit (.enhancedPasteRequest q.attempt q.read q.request) := by
    unfold Effect.request? at hq
    split at hq
    · cases hq
      rfl
    · cases hq
  obtain ⟨pre, post, rfl⟩ := List.append_of_mem he
  exact ⟨pre, post ++ [.emit (.enhancedPasteMode q.attempt false)], by simp [heq], by simp⟩

end Log

/-! ### Answers -/

/-- The bytes of some packets under one id. -/
def Encoded (id : Option PasteId) (packets : List PastePacket) (bytes : List UInt8) : Prop :=
  ∃ pieces, List.Forall₂ (fun p b ↦ PastePacket.encode p (id.map (·.val)) = .ok b) packets pieces ∧
    bytes = pieces.flatten

theorem Encoded.append {id : Option PasteId} {packets : List PastePacket} {bytes more : List UInt8}
    {packet : PastePacket} (h : Encoded id packets bytes)
    (hp : packet.encode (id.map (·.val)) = .ok more) :
    Encoded id (packets ++ [packet]) (bytes ++ more) := by
  obtain ⟨pieces, hf, rfl⟩ := h
  exact ⟨pieces ++ [more], List.rel_append hf (.cons hp .nil), by simp⟩

/-- The packets that carry an answer's data. -/
def dataPackets (datas : List (List UInt8 × List UInt8)) : List PastePacket :=
  datas.map fun d ↦ .readData d.1 d.2

/-- How much data they carry. -/
def dataLength (datas : List (List UInt8 × List UInt8)) : Nat := (datas.map (·.2.length)).sum

/-- The bytes are one whole answer made of the packets, or one error. -/
inductive Whole (id : Option PasteId) (packets : List PastePacket) : List UInt8 → Prop where
  | answer (datas : List (List UInt8 × List UInt8)) (bytes : List UInt8)
    (hp : packets = .readOk :: dataPackets datas ++ [.readDone])
    (hd : dataLength datas ≤ MAX_TRANSACTION) (hb : Encoded id packets bytes) :
    Whole id packets bytes
  | error (e : ReadError) : Whole id packets (statusBytes e id)

/-! ### The invariant -/

section Sound

variable {G ν : Type}

/-- The held answer is what the accepted packets encode to. -/
def Held (paste : PasteRead) (o : OpenRead) (packets : List PastePacket) : Prop :=
  (paste.answer = none ∧ packets = [] ∧ paste.data = 0) ∨
    ∃ answer datas, paste.answer = some answer ∧ packets = .readOk :: dataPackets datas ∧
      Encoded o.id packets answer ∧ paste.data = dataLength datas ∧ paste.data ≤ MAX_TRANSACTION

/-- A published read is open, or was answered, or has ended; or it ends with an event that is
still to be published. -/
def Settled (c : Core G ν) (pending : List (TerminalEvent (Tapped ν))) (log : List (Effect ν))
    (q : Request) : Prop :=
  (∃ o, c.paste.openRead = some o ∧ o.read = q.read) ∨
    (writes q.read log = [] ∧
      (Ended q log ∨ (q.attempt = c.attempt ∧ .enhancedPasteMode false ∈ pending))) ∨
    ∃ w, writes q.read log = [w] ∧ w.attempt = q.attempt ∧
      Whole q.request.id (accepted q.read log) w.bytes

/-- What holds between the handling of two events, with some events still to be published. -/
structure Sound (c : Core G ν) (pending : List (TerminalEvent (Tapped ν)))
    (log : List (Effect ν)) : Prop where
  mode : told c.pasteMode pending = c.actor.modes.enhancedPaste
  admitted : c.paste.openRead.isSome → c.pasteMode = true
  idle : c.paste.openRead = none → c.paste.answer = none ∧ c.paste.data = 0
  increasing : (requests log).Pairwise fun a b ↦ a.read < b.read
  bounded : ∀ q ∈ requests log, q.read ≤ c.pasteReads
  fresh : ∀ read, c.pasteReads < read → writes read log = [] ∧ accepted read log = []
  opened : ∀ o, c.paste.openRead = some o → ∃ q ∈ requests log,
    q.read = o.read ∧ q.attempt = c.attempt ∧ q.request.id = o.id ∧ writes o.read log = [] ∧
      Held c.paste o (accepted o.read log)
  settled : ∀ q ∈ requests log, Settled c pending log q
  owned : ∀ w, .input w ∈ log → ∀ read, w.source = .read read → ∃ q ∈ requests log, q.read = read

namespace Sound

variable {c d : Core G ν} {pending : List (TerminalEvent (Tapped ν))} {log es : List (Effect ν)}

theorem unique (h : Sound c pending log) {q q' : Request} (hq : q ∈ requests log)
    (hq' : q' ∈ requests log) (he : q.read = q'.read) : q = q' :=
  List.inj_on_of_nodup_map (List.pairwise_map.mpr (h.increasing.imp Nat.ne_of_lt)) hq hq' he

/-- The invariant reads nothing else of a core. -/
theorem congr (h : Sound c pending log) (hattempt : d.attempt = c.attempt)
    (hpaste : d.paste = c.paste) (hreads : d.pasteReads = c.pasteReads)
    (hmode : d.pasteMode = c.pasteMode)
    (hon : d.actor.modes.enhancedPaste = c.actor.modes.enhancedPaste) : Sound d pending log where
  mode := by rw [hmode, hon, h.mode]
  admitted := by rw [hpaste, hmode]; exact h.admitted
  idle := by rw [hpaste]; exact h.idle
  increasing := h.increasing
  bounded := by rw [hreads]; exact h.bounded
  fresh := by rw [hreads]; exact h.fresh
  opened := by rw [hpaste, hattempt]; exact h.opened
  settled q hq := by
    unfold Settled
    rw [hpaste, hattempt]
    exact h.settled q hq
  owned := h.owned

/-- Effects that say nothing of reads keep the invariant. -/
theorem quiet (h : Sound c pending log) (hq : ∀ e ∈ es, Quiet e) : Sound c pending (log ++ es) := by
  have hr : requests (log ++ es) = requests log := by simp [requests_of_quiet hq]
  have hw : ∀ read, writes read (log ++ es) = writes read log := by simp [writes_of_quiet hq]
  have ha : ∀ read, accepted read (log ++ es) = accepted read log := by simp [accepted_of_quiet hq]
  exact {
    mode := h.mode
    admitted := h.admitted
    idle := h.idle
    increasing := by rw [hr]; exact h.increasing
    bounded := by rw [hr]; exact h.bounded
    fresh := fun read hf ↦ by rw [hw, ha]; exact h.fresh read hf
    opened := fun o ho ↦ by rw [hr, hw, ha]; exact h.opened o ho
    settled := fun q hmem ↦ by
      rw [hr] at hmem
      unfold Settled
      rw [hw, ha]
      rcases h.settled q hmem with h1 | ⟨h1, h2⟩ | h1
      · exact .inl h1
      · exact .inr (.inl ⟨h1, h2.imp_left (·.append es)⟩)
      · exact .inr (.inr h1)
    owned := fun w hmem read hs ↦ by
      rw [hr]
      rcases List.mem_append.mp hmem with hm | hm
      · exact h.owned w hm read hs
      · have := (hq _ hm).write read
        simp [Effect.write?, hs] at this }

/-- An event that does not change the mode is passed over. -/
theorem skip {event : TerminalEvent (Tapped ν)} (h : Sound c (event :: pending) log)
    (he : ∀ set, event ≠ .enhancedPasteMode set) : Sound c pending log := by
  have hm : told c.pasteMode (event :: pending) = told c.pasteMode pending := by
    cases event with
    | enhancedPasteMode set => exact absurd rfl (he set)
    | _ => rfl
  exact { h with
    mode := hm ▸ h.mode
    settled := fun q hq ↦ by
      rcases h.settled q hq with h1 | ⟨h1, h2 | ⟨h2, h3⟩⟩ | h1
      · exact .inl h1
      · exact .inr (.inl ⟨h1, .inl h2⟩)
      · refine .inr (.inl ⟨h1, .inr ⟨h2, ?_⟩⟩)
        exact (List.mem_cons.mp h3).resolve_left fun heq ↦ he false heq.symm
      · exact .inr (.inr h1) }

/-- The mode is turned on, or off: off closes the open read. -/
theorem turn {set : Bool} (h : Sound c (.enhancedPasteMode set :: pending) log) :
    Sound { c with paste := if set then c.paste else {}, pasteMode := set } pending
      (log ++ [.emit (.enhancedPasteMode c.attempt set)]) := by
  have hq : ∀ e ∈ [(.emit (.enhancedPasteMode c.attempt set) : Effect ν)], Quiet e := by
    simp only [List.mem_singleton, forall_eq]
    exact ⟨rfl, fun _ ↦ rfl, fun _ ↦ rfl⟩
  have hl := h.quiet hq
  cases set with
  | true =>
    exact {
      mode := h.mode
      admitted := fun _ ↦ rfl
      idle := hl.idle
      increasing := hl.increasing
      bounded := hl.bounded
      fresh := hl.fresh
      opened := hl.opened
      settled := fun q hmem ↦ by
        rcases hl.settled q hmem with h1 | ⟨h1, h2 | ⟨h2, h3⟩⟩ | h1
        · exact .inl h1
        · exact .inr (.inl ⟨h1, .inl h2⟩)
        · exact .inr (.inl ⟨h1, .inr ⟨h2, by simpa using h3⟩⟩)
        · exact .inr (.inr h1)
      owned := hl.owned }
  | false =>
    have hend : ∀ q ∈ requests log, q.attempt = c.attempt →
        Ended q (log ++ [.emit (.enhancedPasteMode c.attempt false)]) := by
      intro q hmem ha
      rw [← ha]
      exact ended_of_mem hmem
    exact {
      mode := h.mode
      admitted := fun ho ↦ by cases ho
      idle := fun _ ↦ ⟨rfl, rfl⟩
      increasing := hl.increasing
      bounded := hl.bounded
      fresh := hl.fresh
      opened := fun o ho ↦ by cases ho
      settled := fun q hmem ↦ by
        have hmem' : q ∈ requests log := by simpa [requests_of_quiet hq] using hmem
        refine .inr ?_
        rcases hl.settled q hmem with ⟨o, ho, hr⟩ | ⟨h1, h2 | ⟨h2, -⟩⟩ | h1
        · obtain ⟨q', hq', hr', ha', -, hw, -⟩ := hl.opened o ho
          obtain rfl := hl.unique hq' hmem (hr'.trans hr)
          exact .inl ⟨hr ▸ hw, .inl (hend q' hmem' ha')⟩
        · exact .inl ⟨h1, .inl h2⟩
        · exact .inl ⟨h1, .inl (hend q hmem' h2)⟩
        · exact .inr h1
      owned := hl.owned }

theorem quiet_input (source : Source) (hs : ∀ read, source ≠ .read read)
    (bytes : List UInt8) : ∀ e ∈ c.input source bytes, Quiet e := by
  have hw : Quiet (.input ⟨source, c.attempt, bytes⟩ : Effect ν) :=
    ⟨rfl, fun read ↦ if_neg (hs read), fun _ ↦ rfl⟩
  unfold Core.input
  split
  · simpa using hw
  · split
    · simpa using hw
    · simp

private theorem quiet_refuseRead (id : Option PasteId) :
    ∀ e ∈ c.refuseRead .unpublished id, Quiet e := by
  unfold Core.refuseRead
  rw [PastePacket.encode_readError]
  exact quiet_input .unpublished (fun _ ↦ nofun) _

/-- A read is published under the next id. -/
theorem publishRead {request : ReadRequest} (h : Sound c pending log) (hm : c.pasteMode = true)
    (ho : c.paste.openRead = none) :
    Sound { c with
        pasteReads := c.pasteReads + 1
        paste := { c.paste with openRead := some ⟨c.pasteReads + 1, request.id⟩ } } pending
      (log ++ [.emit (.enhancedPasteRequest c.attempt (c.pasteReads + 1) request)]) := by
  have hr : requests (log ++ [.emit (.enhancedPasteRequest c.attempt (c.pasteReads + 1) request)]) =
      requests log ++ [⟨c.attempt, c.pasteReads + 1, request⟩] := requests_append
  have hw : ∀ read, writes read
      (log ++ [.emit (.enhancedPasteRequest c.attempt (c.pasteReads + 1) request)]) =
      writes read log := fun read ↦ writes_append.trans (List.append_nil _)
  have ha : ∀ read, accepted read
      (log ++ [.emit (.enhancedPasteRequest c.attempt (c.pasteReads + 1) request)]) =
      accepted read log := fun read ↦ accepted_append.trans (List.append_nil _)
  obtain ⟨hfw, hfa⟩ := h.fresh (c.pasteReads + 1) (Nat.lt_succ_self _)
  exact {
    mode := h.mode
    admitted := fun _ ↦ hm
    idle := fun he ↦ by cases he
    increasing := by
      rw [hr]
      refine List.pairwise_append.mpr ⟨h.increasing, List.pairwise_singleton _ _, ?_⟩
      intro q hq q' hq'
      rw [List.mem_singleton.mp hq']
      exact Nat.lt_succ_of_le (h.bounded q hq)
    bounded := by
      rw [hr]
      intro q hq
      rcases List.mem_append.mp hq with hq | hq
      · exact (h.bounded q hq).trans (Nat.le_succ _)
      · rw [List.mem_singleton.mp hq]
    fresh := fun read hread ↦ by
      rw [hw, ha]
      exact h.fresh read ((Nat.lt_succ_self _).trans hread)
    opened := fun o heq ↦ by
      obtain rfl := Option.some.inj heq
      rw [hr, hw, ha, hfw, hfa]
      exact ⟨_, List.mem_append_right _ (List.mem_singleton_self _), rfl, rfl, rfl, rfl,
        .inl ⟨(h.idle ho).1, rfl, (h.idle ho).2⟩⟩
    settled := fun q hmem ↦ by
      rw [hr] at hmem
      rcases List.mem_append.mp hmem with hq | hq
      · refine .inr ?_
        rw [hw, ha]
        rcases h.settled q hq with ⟨o, he, -⟩ | ⟨h1, h2⟩ | h1
        · cases ho.symm.trans he
        · exact .inl ⟨h1, h2.imp_left (·.append _)⟩
        · exact .inr h1
      · rw [List.mem_singleton.mp hq]
        exact .inl ⟨_, rfl, rfl⟩
    owned := fun w hmem read hs ↦ by
      obtain ⟨q, hq, he⟩ := h.owned w (by simpa using hmem) read hs
      exact ⟨q, hr ▸ List.mem_append_left _ hq, he⟩ }

/-- One event of the loop. -/
theorem publishEvent {event : TerminalEvent (Tapped ν)} (h : Sound c (event :: pending) log) :
    Sound (c.publishEvent event).1 pending (log ++ (c.publishEvent event).2) := by
  have hquiet : ∀ {e : Effect ν}, Quiet e → (∀ set, event ≠ .enhancedPasteMode set) →
      Sound c pending (log ++ [e]) := by
    intro e hq he
    exact (h.skip he).quiet (by simpa using hq)
  have hnone : (∀ set, event ≠ .enhancedPasteMode set) → Sound c pending (log ++ []) := by
    intro he
    rw [List.append_nil]
    exact h.skip he
  cases event with
  | bell | titleChange _ => exact hquiet ⟨rfl, fun _ ↦ rfl, fun _ ↦ rfl⟩ (fun _ ↦ nofun)
  | focusRequest | cursorVisible => exact hnone (fun _ ↦ nofun)
  | notification n =>
    cases n with
    | notification n => exact hquiet ⟨rfl, fun _ ↦ rfl, fun _ ↦ rfl⟩ (fun _ ↦ nofun)
    | read r => exact hnone (fun _ ↦ nofun)
  | enhancedPasteMode set => exact h.turn
  | enhancedPasteRead e =>
    cases e with
    | notification n => exact hnone (fun _ ↦ nofun)
    | read request =>
      unfold Core.publishEvent
      dsimp only
      split
      · exact hnone (fun _ ↦ nofun)
      · next hm =>
        split
        · exact (h.skip fun _ ↦ nofun).quiet (quiet_refuseRead _)
        · next ho =>
          exact (h.skip fun _ ↦ nofun).publishRead (by simpa using hm) (by simpa using ho)

/-- The loop of a publication. -/
theorem publishEvents (events : List (TerminalEvent (Tapped ν)))
    (h : Sound c (events ++ pending) log) :
    Sound (c.publishEvents events).1 pending (log ++ (c.publishEvents events).2) := by
  induction events generalizing c log with
  | nil => simpa [Core.publishEvents] using h
  | cons event rest ih =>
    unfold Core.publishEvents
    dsimp only
    rw [← List.append_assoc]
    exact ih h.publishEvent

/-- What the terminal does between two publications, it announces. -/
theorem announce {a : TerminalActor G (Tapped ν)} (h : Sound c c.actor.events log)
    (ha : Announces c.actor a) : Sound { c with actor := a } a.events log := by
  obtain ⟨new, he, hm⟩ := ha
  exact { h with
    mode := by
      rw [he, told_append, h.mode]
      exact hm
    settled := fun q hq ↦ by
      rcases h.settled q hq with h1 | ⟨h1, h2⟩ | h1
      · exact .inl h1
      · exact .inr (.inl ⟨h1, h2.imp_right fun ⟨h3, h4⟩ ↦ ⟨h3, he ▸ List.mem_append_left _ h4⟩⟩)
      · exact .inr (.inr h1) }

/-- The open read is dropped, because its stream has ended. -/
theorem endStream (h : Sound c c.actor.events log) :
    Sound { c with paste := {}, actor := c.actor.endStream } c.actor.endStream.events log := by
  have hs := h.announce (TerminalActor.announces_endStream c.actor)
  exact { hs with
    admitted := fun ho ↦ by cases ho
    idle := fun _ ↦ ⟨rfl, rfl⟩
    opened := fun o ho ↦ by cases ho
    settled := fun q hq ↦ by
      refine .inr ?_
      rcases hs.settled q hq with ⟨o, ho, hr⟩ | h1 | h1
      · obtain ⟨q', hq', hr', ha', -, hw, -⟩ := hs.opened o ho
        obtain rfl := hs.unique hq' hq (hr'.trans hr)
        refine .inl ⟨hr ▸ hw, .inr ⟨ha', ?_⟩⟩
        exact mem_of_told (hs.mode.trans c.actor.enhancedPaste_endStream)
          (hs.admitted (Option.isSome_iff_exists.mpr ⟨o, ho⟩))
      · exact .inl h1
      · exact .inr h1 }

/-- A packet was accepted for the open read, and its answer is held. -/
theorem hold {o : OpenRead} {paste : PasteRead} {packet : PastePacket} (attempt : Nat)
    (h : Sound c pending log) (ho : c.paste.openRead = some o) (hp : paste.openRead = some o)
    (hheld : Held c.paste o (accepted o.read log) →
      Held paste o (accepted o.read log ++ [packet])) :
    Sound { c with paste := paste } pending
      (log ++ [.answer attempt (.read o.read) packet (.ok ())]) := by
  have hr : requests (log ++ [(.answer attempt (.read o.read) packet (.ok ()) : Effect ν)]) =
      requests log := requests_append.trans (List.append_nil _)
  have hw : ∀ read, writes read
      (log ++ [(.answer attempt (.read o.read) packet (.ok ()) : Effect ν)]) = writes read log :=
    fun read ↦ writes_append.trans (List.append_nil _)
  have ha : accepted o.read
      (log ++ [(.answer attempt (.read o.read) packet (.ok ()) : Effect ν)]) =
        accepted o.read log ++ [packet] := by
    simp [accepted, Effect.accepted?]
  have hne : ∀ read, read ≠ o.read → accepted read
      (log ++ [(.answer attempt (.read o.read) packet (.ok ()) : Effect ν)]) =
        accepted read log := by
    intro read hne
    simp [accepted, Effect.accepted?, hne.symm]
  obtain ⟨q₀, hq₀, hread, hattempt, hid, hnone, hh⟩ := h.opened o ho
  exact {
    mode := h.mode
    admitted := fun _ ↦ h.admitted (Option.isSome_iff_exists.mpr ⟨o, ho⟩)
    idle := fun he ↦ by cases hp.symm.trans he
    increasing := hr ▸ h.increasing
    bounded := hr ▸ h.bounded
    fresh := fun read hread' ↦ by
      have hlt : read ≠ o.read := by
        have hle : o.read ≤ c.pasteReads := hread ▸ h.bounded q₀ hq₀
        exact fun he ↦ absurd hread' (Nat.not_lt.mpr (he ▸ hle))
      rw [hw, hne read hlt]
      exact h.fresh read hread'
    opened := fun o' ho' ↦ by
      obtain rfl := Option.some.inj (hp.symm.trans ho')
      rw [hr, hw, ha]
      exact ⟨q₀, hq₀, hread, hattempt, hid, hnone, hheld hh⟩
    settled := fun q hq ↦ by
      rw [hr] at hq
      by_cases he : q.read = o.read
      · exact .inl ⟨o, hp, he.symm⟩
      · unfold Settled
        rw [hw, hne _ he]
        rcases h.settled q hq with ⟨o', ho', hr'⟩ | ⟨h1, h2⟩ | h1
        · obtain rfl := Option.some.inj (ho.symm.trans ho')
          exact absurd hr'.symm he
        · exact .inr (.inl ⟨h1, h2.imp_left (·.append _)⟩)
        · exact .inr (.inr h1)
    owned := fun w hmem read hs ↦ by
      rw [hr]
      exact h.owned w (by simpa using hmem) read hs }

/-- The open read is written to, and closed. -/
theorem close {o : OpenRead} {bytes : List UInt8} {target : PasteTarget} {packet : PastePacket}
    {result : Except PasteRefusal Unit} (attempt : Nat) (h : Sound c pending log)
    (ho : c.paste.openRead = some o) (ht : result = .ok () → target = .read o.read)
    (hwhole : Held c.paste o (accepted o.read log) →
      Whole o.id (accepted o.read log ++ accepted o.read
        [(.answer attempt target packet result : Effect ν)]) bytes) :
    Sound { c with paste := {} } pending (log ++
      [.input ⟨.read o.read, c.attempt, bytes⟩, .answer attempt target packet result]) := by
  let es : List (Effect ν) :=
    [.input ⟨.read o.read, c.attempt, bytes⟩, .answer attempt target packet result]
  have hr : requests (log ++ es) = requests log := requests_append.trans (List.append_nil _)
  have hw : writes o.read (log ++ es) =
      writes o.read log ++ [⟨.read o.read, c.attempt, bytes⟩] := by
    simp [writes, Effect.write?, es]
  have ha : accepted o.read (log ++ es) = accepted o.read log ++
      accepted o.read [(.answer attempt target packet result : Effect ν)] := accepted_append
  have hwne : ∀ read, read ≠ o.read → writes read (log ++ es) = writes read log := by
    intro read hne
    simp [writes, Effect.write?, es, hne.symm]
  have hane : ∀ read, read ≠ o.read → accepted read (log ++ es) = accepted read log := by
    intro read hne
    refine accepted_append.trans ((congrArg _ ?_).trans (List.append_nil _))
    refine List.filterMap_eq_nil_iff.mpr fun e he ↦ ?_
    rcases List.mem_cons.mp he with rfl | he
    · rfl
    · rw [List.mem_singleton.mp he]
      unfold Effect.accepted?
      split
      · next heq =>
        injection heq with _ h2 _ h4
        subst h2
        rw [ht h4]
        exact if_neg fun hc ↦ hne (PasteTarget.read.inj hc).symm
      · rfl
  obtain ⟨q₀, hq₀, hread, hattempt, hid, hnone, hh⟩ := h.opened o ho
  exact {
    mode := h.mode
    admitted := fun he ↦ by cases he
    idle := fun _ ↦ ⟨rfl, rfl⟩
    increasing := hr ▸ h.increasing
    bounded := hr ▸ h.bounded
    fresh := fun read hread' ↦ by
      have hlt : read ≠ o.read := by
        have hle : o.read ≤ c.pasteReads := hread ▸ h.bounded q₀ hq₀
        exact fun he ↦ absurd hread' (Nat.not_lt.mpr (he ▸ hle))
      show writes read (log ++ es) = [] ∧ accepted read (log ++ es) = []
      rw [hwne read hlt, hane read hlt]
      exact h.fresh read hread'
    opened := fun o' ho' ↦ by cases ho'
    settled := fun q hq ↦ by
      replace hq : q ∈ requests log := hr ▸ hq
      refine .inr ?_
      show (writes q.read (log ++ es) = [] ∧ _) ∨
        ∃ w, writes q.read (log ++ es) = [w] ∧ _ ∧ Whole _ (accepted q.read (log ++ es)) _
      by_cases he : q.read = o.read
      · obtain rfl := h.unique hq₀ hq (hread.trans he.symm)
        rw [he, hw, ha, hnone, hid]
        exact .inr ⟨_, rfl, hattempt.symm, hwhole hh⟩
      · rw [hwne _ he, hane _ he]
        rcases h.settled q hq with ⟨o', ho', hr'⟩ | ⟨h1, h2⟩ | h1
        · obtain rfl := Option.some.inj (ho.symm.trans ho')
          exact absurd hr'.symm he
        · exact .inl ⟨h1, h2.imp_left (·.append _)⟩
        · exact .inr h1
    owned := fun w hmem read hs ↦ by
      rcases List.mem_append.mp hmem with hm | hm
      · obtain ⟨q, hq, he⟩ := h.owned w hm read hs
        exact ⟨q, hr.symm ▸ hq, he⟩
      · have hm : w = ⟨.read o.read, c.attempt, bytes⟩ := by simpa using hm
        subst hm
        exact ⟨q₀, hr.symm ▸ hq₀, hread.trans (Source.read.inj hs)⟩ }

private theorem dataPackets_append (datas : List (List UInt8 × List UInt8))
    (mime data : List UInt8) :
    dataPackets (datas ++ [(mime, data)]) = dataPackets datas ++ [.readData mime data] := by
  simp [dataPackets]

/-- A paste packet is taken. -/
theorem take {attempt : Nat} {target : PasteTarget} {packet : PastePacket}
    {result : Except PasteRefusal Unit} (h : Sound c pending log)
    (ht : Taken c attempt target packet result d es) :
    Sound d pending (log ++ (es ++ [.answer attempt target packet result])) := by
  cases ht with
  | refused p e =>
    exact h.quiet fun e' he' ↦ by
      rw [List.mem_singleton.mp he']
      exact ⟨rfl, fun _ ↦ rfl, fun _ ↦ rfl⟩
  | listed p bytes htarget =>
    subst htarget
    exact h.quiet fun e' he' ↦ by
      rcases List.mem_append.mp he' with he' | he'
      · exact quiet_input .listing (fun _ ↦ nofun) _ _ he'
      · rw [List.mem_singleton.mp he']
        exact ⟨rfl, fun _ ↦ rfl, fun _ ↦ by simp [Effect.accepted?]⟩
  | begun o bytes ho htarget ha hb =>
    subst htarget
    refine h.hold attempt ho ho fun hheld ↦ ?_
    obtain ⟨-, hp, hd⟩ | ⟨_, _, hc, -⟩ := hheld
    · refine .inr ⟨bytes, [], rfl, by rw [hp]; rfl, ?_, hd, ?_⟩
      · rw [hp]
        exact ⟨[bytes], .cons hb .nil, by simp⟩
      · exact hd.le.trans (Nat.zero_le _)
    · cases ha.symm.trans hc
  | extended o mime data answer bytes ho htarget ha hb hd =>
    subst htarget
    refine h.hold attempt ho ho fun hheld ↦ ?_
    obtain ⟨hc, -⟩ | ⟨answer', datas, hc, hp, he, hl, -⟩ := hheld
    · cases ha.symm.trans hc
    · obtain rfl := Option.some.inj (ha.symm.trans hc)
      refine .inr ⟨_, datas ++ [(mime, data)], rfl, ?_, he.append hb, ?_, hd⟩
      · rw [hp, dataPackets_append]
        rfl
      · show c.paste.data + data.length = _
        simp [hl, dataLength]
  | dropped o answer p e ho ha =>
    exact h.close attempt ho (fun he ↦ by cases he) fun _ ↦ .error .busy
  | done o answer bytes ho htarget ha hb =>
    refine h.close attempt ho (fun _ ↦ htarget) fun hheld ↦ ?_
    obtain ⟨hc, -⟩ | ⟨answer', datas, hc, hp, he, hl, hmax⟩ := hheld
    · cases ha.symm.trans hc
    · obtain rfl := Option.some.inj (ha.symm.trans hc)
      have hdone : accepted o.read [(.answer attempt target .readDone (.ok ()) : Effect ν)] =
          [.readDone] := by simp [accepted, Effect.accepted?, htarget]
      rw [hdone]
      exact .answer datas _ (by rw [hp]) (hl ▸ hmax) (he.append hb)
  | failed o e ho htarget =>
    exact h.close attempt ho (fun _ ↦ htarget) fun _ ↦ .error e

end Sound

/-! ### Messages -/

/-- What holds between two messages: every event is published. -/
structure Rest (c : Core G ν) (log : List (Effect ν)) : Prop where
  sound : Sound c [] log
  events : c.actor.events = []

private theorem publishEvent_actor (c : Core G ν) (event : TerminalEvent (Tapped ν)) :
    (c.publishEvent event).1.actor = c.actor := by
  unfold Core.publishEvent
  repeat' split
  all_goals rfl

private theorem publishEvents_actor (events : List (TerminalEvent (Tapped ν))) (c : Core G ν) :
    (c.publishEvents events).1.actor = c.actor := by
  induction events generalizing c with
  | nil => rfl
  | cons event rest ih =>
    unfold Core.publishEvents
    exact (ih _).trans (publishEvent_actor c event)

namespace Rest

variable {c d : Core G ν} {log es : List (Effect ν)}

theorem quiet (h : Rest c log) (hq : ∀ e ∈ es, Quiet e) : Rest c (log ++ es) :=
  ⟨h.sound.quiet hq, h.events⟩

/-- The flags and the backend do not matter. -/
theorem congr (h : Rest c log) (hactor : d.actor = c.actor) (hattempt : d.attempt = c.attempt)
    (hpaste : d.paste = c.paste) (hreads : d.pasteReads = c.pasteReads)
    (hmode : d.pasteMode = c.pasteMode) : Rest d log :=
  ⟨h.sound.congr hattempt hpaste hreads hmode (by rw [hactor]), hactor ▸ h.events⟩

/-- With the mode off no read is open. -/
theorem closed_of_off (h : Rest c log) (hoff : c.actor.modes.enhancedPaste = false) :
    c.paste.openRead = none := by
  by_contra ho
  have hm := h.sound.admitted (Option.isSome_iff_ne_none.mpr ho)
  cases (hm.symm.trans h.sound.mode).trans hoff

/-- A new attempt, with no read open. -/
theorem nextAttempt {status : Status} {backend : Backend} (h : Rest c log)
    (ho : c.paste.openRead = none) :
    Rest { c with attempt := c.attempt + 1, status := status, backend := backend } log :=
  ⟨{ mode := h.sound.mode
     admitted := h.sound.admitted
     idle := h.sound.idle
     increasing := h.sound.increasing
     bounded := h.sound.bounded
     fresh := h.sound.fresh
     opened := fun o he ↦ by cases ho.symm.trans he
     settled := fun q hq ↦ by
      rcases h.sound.settled q hq with h1 | ⟨h1, h2 | ⟨-, h2⟩⟩ | h1
      · exact .inl h1
      · exact .inr (.inl ⟨h1, .inl h2⟩)
      · cases h2
      · exact .inr (.inr h1)
     owned := h.sound.owned }, h.events⟩

theorem shutdown (h : Rest c log) :
    Rest c.shutdown.1 (log ++ c.shutdown.2) := by
  unfold Core.shutdown
  refine Rest.quiet (congr h rfl rfl rfl rfl rfl) ?_
  intro e he
  rcases List.mem_cons.mp he with rfl | he
  · exact ⟨rfl, fun _ ↦ rfl, fun _ ↦ rfl⟩
  · split at he
    · rw [List.mem_singleton.mp he]
      exact ⟨rfl, fun _ ↦ rfl, fun _ ↦ rfl⟩
    · cases he

variable [Emulator G]

theorem publish_actor (c : Core G ν) : c.publish.1.actor = { c.actor with events := [] } := by
  unfold Core.publish
  exact publishEvents_actor _ _

/-- A publication. -/
theorem publish (h : Sound c c.actor.events log) : Rest c.publish.1 (log ++ c.publish.2) := by
  refine ⟨?_, by rw [publish_actor]⟩
  let generation := Emulator.graphicsGeneration c.actor.term
  have hstart : Sound { c with actor := c.actor.takeEvents.2, graphicsGeneration := generation }
      (c.actor.events ++ []) (log ++ [.publish]) := by
    rw [List.append_nil]
    exact Sound.congr (c := c) (h.quiet (Quiet.mem_singleton ⟨rfl, fun _ ↦ rfl, fun _ ↦ rfl⟩))
      rfl rfl rfl rfl rfl
  have htail : ∀ e ∈ (if c.graphicsGeneration != generation then
      [(.emit (.graphics generation) : Effect ν)] else []) ++ [.dirty], Quiet e := by
    intro e he
    rcases List.mem_append.mp he with he | he
    · split at he
      · rw [List.mem_singleton.mp he]
        exact ⟨rfl, fun _ ↦ rfl, fun _ ↦ rfl⟩
      · cases he
    · rw [List.mem_singleton.mp he]
      exact ⟨rfl, fun _ ↦ rfl, fun _ ↦ rfl⟩
  have heq : c.publish.2 = [.publish] ++
      (Core.publishEvents { c with
        actor := c.actor.takeEvents.2
        graphicsGeneration := generation } c.actor.events).2 ++ _ := List.append_assoc _ _ _
  rw [heq, ← List.append_assoc, ← List.append_assoc log]
  exact (Sound.publishEvents c.actor.events hstart).quiet htail

/-- The terminal changes, and the change is published. -/
theorem change {a : TerminalActor G (Tapped ν)} (h : Rest c log) (ha : Announces c.actor a) :
    Rest { c with actor := a }.publish.1 (log ++ { c with actor := a }.publish.2) :=
  publish (Sound.announce (h.events.symm ▸ h.sound) ha)

/-- The stream ends, and a mode that goes off with it is published. -/
theorem endStreamPublished (h : Rest c log) :
    Rest c.endStreamPublished.1 (log ++ c.endStreamPublished.2) ∧
      c.endStreamPublished.1.paste.openRead = none := by
  have hend := Sound.endStream (h.events.symm ▸ h.sound)
  have hoff : c.actor.endStream.modes.enhancedPaste = false := c.actor.enhancedPaste_endStream
  unfold Core.endStreamPublished Core.endStream
  dsimp only
  split
  · have hpub := publish hend
    exact ⟨hpub, hpub.closed_of_off (by rw [publish_actor]; exact hoff)⟩
  · next hon =>
    have hev : c.actor.endStream.events = [] := by
      unfold TerminalActor.endStream
      dsimp only
      rw [if_neg hon]
      exact h.events
    rw [List.append_nil]
    exact ⟨⟨hev ▸ hend, hev⟩, rfl⟩

theorem onExit (h : Rest c log) (code : Int32) :
    Rest (c.onExit code).1 (log ++ (c.onExit code).2) := by
  have hend := Sound.endStream (h.events.symm ▸ h.sound)
  unfold Core.onExit Core.endStream
  dsimp only
  rw [← List.append_assoc]
  refine Rest.quiet (congr (publish hend) rfl rfl rfl rfl rfl) fun e he ↦ ?_
  simp only [List.mem_cons, List.not_mem_nil, or_false] at he
  rcases he with rfl | rfl <;> exact ⟨rfl, fun _ ↦ rfl, fun _ ↦ rfl⟩

theorem onDisconnected (h : Rest c log) :
    Rest c.onDisconnected.1 (log ++ c.onDisconnected.2) := by
  unfold Core.onDisconnected
  dsimp only
  rw [← List.append_assoc]
  exact Rest.quiet (congr h.endStreamPublished.1 rfl rfl rfl rfl rfl)
    (Quiet.mem_singleton ⟨rfl, fun _ ↦ rfl, fun _ ↦ rfl⟩)

theorem resize (h : Rest c log) (cols rows : UInt16) :
    Rest (c.resize cols rows).1 (log ++ (c.resize cols rows).2) := by
  unfold Core.resize
  split
  · split
    · simpa using h
    · dsimp only
      rw [← List.append_assoc]
      exact Rest.quiet (h.change (TerminalActor.announces_resize _ _ _))
        (Quiet.mem_singleton ⟨rfl, fun _ ↦ rfl, fun _ ↦ rfl⟩)
  · split
    · simpa using h
    · refine Rest.quiet (congr h rfl rfl rfl rfl rfl) ?_
      split
      · exact Quiet.mem_singleton ⟨rfl, fun _ ↦ rfl, fun _ ↦ rfl⟩
      · simp

theorem setCellSize (h : Rest c log) (cell : CellSize) :
    Rest (c.setCellSize cell).1 (log ++ (c.setCellSize cell).2) := by
  have ha := TerminalActor.announces_setCellSize c.actor cell
  unfold Core.setCellSize
  dsimp only
  split
  · split
    · exact h.change ha
    · rw [← List.append_assoc]
      refine Rest.change (c := { c with backend := .attach _ _ })
        (Rest.quiet (congr h rfl rfl rfl rfl rfl) ?_) ha
      split
      · exact Quiet.mem_singleton ⟨rfl, fun _ ↦ rfl, fun _ ↦ rfl⟩
      · simp
  · exact h.change ha

theorem reconnect (h : Rest c log) (attached : Bool) :
    Rest (c.reconnect attached).1 (log ++ (c.reconnect attached).2) := by
  unfold Core.reconnect
  split
  · simpa using h
  · next opts stream hb =>
    have hdetached : Rest { c with backend := .attach opts none }
        (log ++ if stream.isSome then [.packet ⟨.detach, []⟩] else []) := by
      refine Rest.quiet (congr h rfl rfl rfl rfl rfl) ?_
      split
      · exact Quiet.mem_singleton ⟨rfl, fun _ ↦ rfl, fun _ ↦ rfl⟩
      · simp
    obtain ⟨hend, ho⟩ := hdetached.endStreamPublished
    dsimp only
    rw [← List.append_assoc, ← List.append_assoc]
    refine Rest.quiet (nextAttempt hend ho) ?_
    · split
      · intro e he
        simp only [List.mem_cons, List.not_mem_nil, or_false] at he
        rcases he with rfl | rfl <;> exact ⟨rfl, fun _ ↦ rfl, fun _ ↦ rfl⟩
      · simp

variable [NotificationTap ν]

theorem onOutput (h : Rest c log) (bytes : List UInt8) :
    Rest (c.onOutput bytes).1 (log ++ (c.onOutput bytes).2) := by
  have ha : Announces c.actor (c.actor.write bytes).2.takePtyReplies.2 :=
    (TerminalActor.announces_write _ _).trans (TerminalActor.announces_takePtyReplies _)
  unfold Core.onOutput
  dsimp only
  rw [← List.append_assoc]
  refine Rest.change (h.quiet ?_) ha
  split
  · split
    · simp
    · exact Quiet.mem_singleton ⟨rfl, fun _ ↦ by simp [Effect.write?], fun _ ↦ rfl⟩
  · simp

theorem onFrame (h : Rest c log) (packet : Protocol.Packet) :
    Rest (c.onFrame packet).1 (log ++ (c.onFrame packet).2) := by
  unfold Core.onFrame
  split
  · dsimp only
    rw [← List.append_assoc]
    refine Rest.quiet (congr (h.change ?_) rfl rfl rfl rfl rfl)
      (Quiet.mem_singleton ⟨rfl, fun _ ↦ rfl, fun _ ↦ rfl⟩)
    exact (TerminalActor.announces_reset _).trans
      ((TerminalActor.announces_write _ _).trans (TerminalActor.announces_takePtyReplies _))
  · exact h.change ((TerminalActor.announces_write _ _).trans
      (TerminalActor.announces_takePtyReplies _))
  · exact h.onExit _
  · dsimp only
    rw [← List.append_assoc]
    exact Rest.quiet (h.change (TerminalActor.announces_resize _ _ _))
      (Quiet.mem_singleton ⟨rfl, fun _ ↦ rfl, fun _ ↦ rfl⟩)
  · simpa using h

/-- Every message keeps what holds between two messages. -/
theorem dispatch (h : Rest c log) (msg : Msg G) :
    Rest (c.dispatch msg).1 (log ++ (c.dispatch msg).2) := by
  have hnone : Rest c (log ++ []) := by simpa using h
  cases msg with
  | output attempt bytes =>
    unfold Core.dispatch
    dsimp only
    split
    · exact h.onOutput bytes
    · exact hnone
  | frame attempt packet =>
    unfold Core.dispatch
    dsimp only
    split
    · exact h.onFrame packet
    · exact hnone
  | disconnected attempt =>
    unfold Core.dispatch
    dsimp only
    split
    · exact h.onDisconnected
    · exact hnone
  | childExited attempt code =>
    unfold Core.dispatch
    dsimp only
    split
    · exact h.onExit code
    · exact hnone
  | input bytes => exact h.quiet (Sound.quiet_input .user (fun _ ↦ nofun) bytes)
  | resize cols rows => exact h.resize cols rows
  | snapshot offset reply => exact h.quiet (Quiet.mem_singleton ⟨rfl, fun _ ↦ rfl, fun _ ↦ rfl⟩)
  | captureFrame offset reply =>
    refine h.quiet ?_
    unfold Core.dispatch
    dsimp only
    split
    · intro e he
      simp only [List.mem_cons, List.not_mem_nil, or_false] at he
      rcases he with rfl | rfl <;> exact ⟨rfl, fun _ ↦ rfl, fun _ ↦ rfl⟩
    · exact Quiet.mem_singleton ⟨rfl, fun _ ↦ rfl, fun _ ↦ rfl⟩
  | observeFrames => exact h.quiet (Quiet.mem_singleton ⟨rfl, fun _ ↦ rfl, fun _ ↦ rfl⟩)
  | query => exact hnone
  | clearGraphics => exact h.change (TerminalActor.announces_clearGraphics _)
  | cellSize cell => exact h.setCellSize cell
  | event ev =>
    refine h.quiet ?_
    unfold Core.dispatch
    dsimp only
    split
    · simp
    · exact Sound.quiet_input .user (fun _ ↦ nofun) _
  | setPalette colors => exact h.change (TerminalActor.announces_setPalette _ _)
  | enhancedPaste attempt target packet =>
    have ht := c.writePaste_taken attempt target packet
    exact ⟨h.sound.take ht, (congrArg (·.events) ht.actor).trans h.events⟩
  | reconnect attached => exact h.reconnect attached

end Rest

end Sound

/-! ### Runs -/

section Run

variable {G ν : Type} [Emulator G]

/-- A handle whose thread has begun, `run`, `handle.rs:985`. -/
def Init (s : Core G ν × List (Effect ν)) : Prop :=
  ∃ (term : G) (cell : CellSize) (backend : Backend),
    s = ((Core.publish { actor := { term := term, cell := cell }, backend := backend }).1,
      (Core.publish { actor := { term := term, cell := cell }, backend := backend }).2 ++
        [.flush false])

private theorem rest_of_init (s : Core G ν × List (Effect ν)) (h : Init s) : Rest s.1 s.2 := by
  obtain ⟨term, cell, backend, rfl⟩ := h
  have hstart : Sound (ν := ν) { actor := { term := term, cell := cell }, backend := backend }
      [] [] :=
    { mode := rfl
      admitted := fun h ↦ by cases h
      idle := fun _ ↦ ⟨rfl, rfl⟩
      increasing := .nil
      bounded := fun q hq ↦ by cases hq
      fresh := fun _ _ ↦ ⟨rfl, rfl⟩
      opened := fun o ho ↦ by cases ho
      settled := fun q hq ↦ by cases hq
      owned := fun w hw ↦ by cases hw }
  have hpub := Rest.publish hstart
  rw [List.nil_append] at hpub
  exact hpub.quiet (Quiet.mem_singleton ⟨rfl, fun _ ↦ rfl, fun _ ↦ rfl⟩)

variable [NotificationTap ν]

/-- The thread takes a message, or closes. -/
inductive Step : Core G ν × List (Effect ν) → Core G ν × List (Effect ν) → Prop where
  | message (c : Core G ν) (log : List (Effect ν)) (msg : Msg G) (h : c.status.closed = false) :
    Step (c, log) ((c.dispatch msg).1, log ++ (c.dispatch msg).2)
  | close (c : Core G ν) (log : List (Effect ν)) (h : c.status.closed = false) :
    Step (c, log) (c.shutdown.1, log ++ c.shutdown.2)

private theorem rest_of_reachable {s : Core G ν × List (Effect ν)}
    (h : Reachable Init Step s) : Rest s.1 s.2 := by
  refine h.induct rest_of_init fun s t _ ih hs ↦ ?_
  cases hs with
  | message c log msg _ => exact ih.dispatch msg
  | close c log _ => exact ih.shutdown

/-- What a handle has done with the reads it published. -/
structure Transactions (c : Core G ν) (log : List (Effect ν)) : Prop where
  ids : (requests log).Pairwise fun a b ↦ a.read < b.read
  opened : ∀ o, c.paste.openRead = some o → ∃ q ∈ requests log,
    q.read = o.read ∧ q.attempt = c.attempt ∧ writes q.read log = []
  settled : ∀ q ∈ requests log,
    (writes q.read log = [] ∧
      ((∃ o, c.paste.openRead = some o ∧ o.read = q.read) ∨ Ended q log)) ∨
    ∃ w, writes q.read log = [w] ∧ w.attempt = q.attempt ∧
      Whole q.request.id (accepted q.read log) w.bytes
  owned : ∀ w, .input w ∈ log → ∀ read, w.source = .read read → ∃ q ∈ requests log, q.read = read
  refused : ∀ attempt target packet e, (c.writePaste attempt target packet).1 = .error e →
    (c.writePaste attempt target packet).2.2 = [] ∨
      ∃ o answer, c.paste.openRead = some o ∧ c.paste.answer = some answer ∧
        (c.writePaste attempt target packet).2.2 =
          [.input ⟨.read o.read, c.attempt, statusBytes .busy o.id⟩] ∧
        (c.writePaste attempt target packet).2.1.paste = {}

end Run

end PtySpec.Handle
