import PtySpec.Client.Readiness

/-!
# Readiness controls reach the proven daemon

A control connects to a path and proves afterwards who listens there, from reads of the record,
of the socket's peer and of the process table between which sessions exit and are launched again,
records are written, and process ids are used again. What it asks is checked first, for any
answers; what the answers mean is read off a history of the system.
-/

namespace PtySpec.Client.Readiness

open Lib Protocol Metadata
open Prog (ask ret)

variable {C P R : Type}

/-! ### What was asked before -/

/-- The moments of a control. -/
abbrev Trace (C : Type) := List (Moment (Op C) Op.Ans)

/-- A record of a generation names a process by its id and start token. -/
def Names (metadata : SessionMetadata) (generation : String) (b : DaemonPeerBinding) : Prop :=
  metadata.field .generation = some generation ∧ metadata.field .daemonPid = some b.pid ∧
    Listing.daemonStartToken metadata = some b.startToken

/-- A record that names a process was read, then the socket's peer had its id, then the process of
that id its start token. -/
def Checked (name generation : String) (c : C) (b : DaemonPeerBinding) (past : Trace C) : Prop :=
  ∃ u₁ u₂ u₃ metadata uid, Names metadata generation b ∧
    List.Sublist [⟨u₁, .readMetadata name, some metadata⟩, ⟨u₂, .peer c, some (b.pid, uid)⟩,
      ⟨u₃, .startToken b.pid, some b.startToken⟩] past

/-- Bytes were written on a socket after it was checked. -/
def Written (name generation : String) (c : C) (b : DaemonPeerBinding) (past : Trace C) : Prop :=
  ∃ early u bytes n late, past = early ++ ⟨u, .write c bytes, .ok n⟩ :: late ∧ 0 < n ∧
    Checked name generation c b early

/-- What was read on a socket. -/
def chunks [DecidableEq C] (c : C) (past : Trace C) : List (List UInt8) :=
  past.filterMap fun m ↦
    match m with
    | ⟨_, .read c', .ok bytes⟩ => if c' = c then some bytes else none
    | _ => none

/-- A result is what a packet of the expected type is read as, decoded from what was read on a
socket. -/
def Decoded [DecidableEq C] (ctl : Control R) (c : C) (result : R) (past : Trace C) : Prop :=
  ∃ reader packets, PacketReader.feedAll {} (chunks c past) = (reader, .ok packets) ∧
    ∃ p ∈ packets, p.type_ = ctl.expectedType ∧ ctl.parse p.payload = some result

/-- A question that moves no bytes. -/
def Op.isQuiet : Op C → Bool
  | write _ _ => false
  | read _ => false
  | _ => true

/-- A write comes after a check of its socket. -/
def WriteChecked (name generation : String) (past : Trace C) (m : Moment (Op C) Op.Ans) : Prop :=
  ∀ c bytes, m.op = .write c bytes → ∃ b, Checked name generation c b past

/-- Some moments that move no bytes were added. -/
def Quietly (past past' : Trace C) (Q : Trace C → Prop) : Prop :=
  ∃ extra, past' = past ++ extra ∧ (∀ m ∈ extra, m.op.isQuiet = true) ∧ Q extra

theorem Checked.append {name generation : String} {c : C} {b : DaemonPeerBinding}
    {past : Trace C} (h : Checked name generation c b past) (more : Trace C) :
    Checked name generation c b (past ++ more) := by
  obtain ⟨u₁, u₂, u₃, metadata, uid, hnames, hsub⟩ := h
  exact ⟨u₁, u₂, u₃, metadata, uid, hnames, hsub.trans (List.sublist_append_left past more)⟩

theorem Checked.prepend {name generation : String} {c : C} {b : DaemonPeerBinding}
    {past : Trace C} (h : Checked name generation c b past) (less : Trace C) :
    Checked name generation c b (less ++ past) := by
  obtain ⟨u₁, u₂, u₃, metadata, uid, hnames, hsub⟩ := h
  exact ⟨u₁, u₂, u₃, metadata, uid, hnames, hsub.trans (List.sublist_append_right less past)⟩

variable {may : Moment (Op C) Op.Ans → Prop} {name generation : String} {past : Trace C}

private theorem writeChecked_of_quiet {m : Moment (Op C) Op.Ans} (h : m.op.isQuiet = true) :
    WriteChecked name generation past m := by
  intro c bytes hop
  rw [hop] at h
  cases h

theorem Quietly.refl {Q : Trace C → Prop} (h : Q []) : Quietly past past Q :=
  ⟨[], by simp, by simp, h⟩

/-- A quiet moment goes before others. -/
theorem Quietly.cons {past' : Trace C} {Q Q' : Trace C → Prop} {m : Moment (Op C) Op.Ans}
    (hm : m.op.isQuiet = true) (hq : ∀ extra, Q extra → Q' (m :: extra))
    (h : Quietly (past ++ [m]) past' Q) : Quietly past past' Q' := by
  obtain ⟨extra, rfl, hquiet, hextra⟩ := h
  exact ⟨m :: extra, by simp, List.forall_mem_cons.2 ⟨hm, hquiet⟩, hq extra hextra⟩

/-! ### What the parts ask -/

variable {α : Type}

/-- What a quiet question upholds is what comes after its answer. -/
private theorem upholds_ask {o : Op C} {k : o.Ans → Act C α} {Q : Trace C → α → Prop}
    (ho : o.isQuiet = true)
    (h : ∀ u r, may ⟨u, o, r⟩ →
      (k r).Upholds may (WriteChecked name generation) (past ++ [⟨u, o, r⟩]) Q) :
    (ask o k).Upholds may (WriteChecked name generation) past Q :=
  fun u r hr ↦ ⟨writeChecked_of_quiet ho, h u r hr⟩

/-- The same, with what comes after told as what was added. -/
private theorem upholds_ask_quietly {o : Op C} {k : o.Ans → Act C α} {Q : α → Trace C → Prop}
    (ho : o.isQuiet = true)
    (h : ∀ u r, may ⟨u, o, r⟩ → (k r).Upholds may (WriteChecked name generation)
      (past ++ [⟨u, o, r⟩])
      fun past' a ↦ Quietly (past ++ [⟨u, o, r⟩]) past' fun extra ↦ Q a (⟨u, o, r⟩ :: extra)) :
    (ask o k).Upholds may (WriteChecked name generation) past
      fun past' a ↦ Quietly past past' (Q a) :=
  upholds_ask ho fun u r hr ↦ (h u r hr).mono fun _ _ hq ↦ hq.cons ho fun _ ↦ id

/-- What was added before and after a point was added. -/
private theorem upholds_from {p : Act C α} {mid : Trace C} {Q : Trace C → Prop}
    {Q' : α → Trace C → Prop} (hmid : Quietly past mid Q)
    (h : p.Upholds may (WriteChecked name generation) mid
      fun past' a ↦ Quietly mid past' fun y ↦ ∀ x, Q x → Q' a (x ++ y)) :
    p.Upholds may (WriteChecked name generation) mid
      fun past' a ↦ Quietly past past' (Q' a) := by
  obtain ⟨x, rfl, hx, hqx⟩ := hmid
  refine h.mono fun past' a ⟨y, hpast, hy, hqy⟩ ↦ ⟨x ++ y, by simp [hpast], fun m hm ↦ ?_,
    hqy x hqx⟩
  obtain hm | hm := List.mem_append.1 hm
  · exact hx m hm
  · exact hy m hm

/-- A program that moves no bytes. -/
def Quiet (may : Moment (Op C) Op.Ans → Prop) (name generation : String) (p : Act C α) : Prop :=
  ∀ past, p.Upholds may (WriteChecked name generation) past
    fun past' _ ↦ Quietly past past' fun _ ↦ True

namespace Quiet

variable {β ε : Type}

theorem ret (a : α) : Quiet may name generation (ret a : Act C α) := fun _ ↦ .refl trivial

theorem ask {o : Op C} {k : o.Ans → Act C α} (ho : o.isQuiet = true)
    (h : ∀ r, Quiet may name generation (k r)) : Quiet may name generation (ask o k) :=
  fun _ ↦ upholds_ask_quietly ho fun _ r _ ↦ h r _

theorem thenOk {p : Act C (Except ε α)} {f : α → Act C (Except ε β)}
    (h : Quiet may name generation p) (hf : ∀ a, Quiet may name generation (f a)) :
    Quiet may name generation (p.thenOk f) :=
  fun past ↦ (h past).thenOk (fun _ _ hq ↦ hq) fun mid a hmid ↦
    upholds_from hmid ((hf a mid).mono fun _ _ hq ↦ hq.imp fun _ ⟨he, hx, _⟩ ↦
      ⟨he, hx, fun _ _ ↦ trivial⟩)

end Quiet

theorem quiet_waitFd (c : C) (events : PollEvents) (deadline turns : Nat) :
    Quiet may name generation (waitFd c events deadline turns) := by
  induction turns with
  | zero => exact .ask rfl fun r ↦ r.elim
  | succ turns ih =>
    refine .thenOk (.ask rfl fun _ ↦ .ret _) fun ms ↦ .ask rfl fun r ↦ ?_
    cases r with
    | reports asked broken =>
      dsimp only
      split
      · exact .ret _
      · split
        · exact .ret _
        · exact ih
    | timeout => exact .ret _
    | interrupted => exact ih
    | failed e => exact .ret _

theorem quiet_connectUntil (path : List UInt8) (deadline turns : Nat) :
    Quiet may name generation (connectUntil (C := C) path deadline turns) := by
  unfold connectUntil
  split
  · exact .ret _
  · refine .ask rfl fun r ↦ ?_
    cases r with
    | error e => exact .ret _
    | ok c =>
      refine .ask rfl fun r ↦ ?_
      cases r with
      | ok _ => exact .ret _
      | error e =>
        dsimp only
        split
        · refine .thenOk (quiet_waitFd c .pollout deadline turns) fun _ ↦ .ask rfl fun r ↦ ?_
          cases r with
          | error e => exact .ret _
          | ok pending =>
            cases pending with
            | none => exact .ret _
            | some e => exact .ret _
        · exact .ret _

/-- The credentials have the id that the socket's peer has. -/
theorem upholds_credentials (c : C) (past : Trace C) :
    (credentials c).Upholds may (WriteChecked name generation) past
      fun past' r ↦ Quietly past past' fun extra ↦ ∀ peer ∈ r,
        ∃ u, List.Sublist [⟨u, .peer c, some (peer.pid, peer.uid)⟩] extra := by
  refine upholds_ask_quietly rfl fun u r _ ↦ ?_
  cases r with
  | none => exact .refl (by simp)
  | some who =>
    obtain ⟨pid, uid⟩ := who
    refine upholds_ask_quietly rfl fun v row _ ↦ ?_
    cases row with
    | none => exact .refl (by simp)
    | some row =>
      refine .refl fun peer hpeer ↦ ⟨u, ?_⟩
      obtain ⟨-, hrow⟩ := Option.ite_none_left_eq_some.1 hpeer
      obtain ⟨token, -, rfl⟩ := Option.map_eq_some_iff.1 hrow
      exact List.Sublist.cons_cons _ (List.nil_sublist _)

theorem upholds_readProcessStartToken (pid : Int32) (past : Trace C) :
    (readProcessStartToken pid).Upholds may (WriteChecked name generation) past
      fun past' r ↦ Quietly past past' fun extra ↦ ∀ token ∈ r,
        ∃ u, extra = [⟨u, .startToken pid, some token⟩] := by
  unfold readProcessStartToken
  split
  · exact .refl (by simp)
  · refine upholds_ask_quietly rfl fun u r _ ↦ .refl fun token htoken ↦ ⟨u, ?_⟩
    obtain rfl : r = some token := htoken
    rfl

/-- What was verified was checked. -/
theorem upholds_verifyDaemonPeer (c : C) (past : Trace C) :
    (verifyDaemonPeer name generation c).Upholds may (WriteChecked name generation) past
      fun past' r ↦ Quietly past past' fun extra ↦
        ∀ b, r = .ok b → Checked name generation c b extra := by
  refine upholds_ask_quietly rfl fun u₁ r _ ↦ ?_
  cases r with
  | none => exact .refl (by simp)
  | some metadata =>
    dsimp only
    split
    · exact .refl (by simp)
    · next hgen =>
      split
      · next pid token hpid htoken =>
        refine (upholds_credentials c _).bind fun mid peer hmid ↦ upholds_from hmid ?_
        cases peer with
        | none => exact .refl (by simp)
        | some peer =>
          refine upholds_ask_quietly rfl fun u r _ ↦ ?_
          split
          · exact .refl (by simp)
          · next hpeer =>
            push Not at hpeer
            refine (upholds_readProcessStartToken pid _).bind fun last t hlast ↦
              upholds_from hlast ?_
            split
            · next ht =>
              refine .refl fun x hx y hy b hb ↦ ?_
              obtain rfl := Except.ok.inj hb
              obtain ⟨u₂, hsub⟩ := hy peer rfl
              obtain ⟨u₃, rfl⟩ := hx token ht
              refine ⟨u₁, u₂, u₃, metadata, peer.uid, ⟨not_not.1 hgen, hpid, htoken⟩, ?_⟩
              rw [hpeer.2] at hsub
              have hpart := hsub.append (List.sublist_cons_self ⟨u, .effectiveUid, r⟩
                [⟨u₃, .startToken pid, some token⟩])
              simpa using hpart
            · exact .refl (by simp)
      · exact .refl (by simp)

/-- What is still current was read again, and that is all that was asked. -/
theorem upholds_verifyBindingStillCurrent (b : DaemonPeerBinding) (past : Trace C) :
    (verifyBindingStillCurrent name generation b).Upholds may (WriteChecked name generation) past
      fun past' r ↦ r = .ok () → ∃ u u' metadata, Names metadata generation b ∧
        past' = past ++ [⟨u, .readMetadata name, some metadata⟩,
          ⟨u', .startToken b.pid, some b.startToken⟩] := by
  refine upholds_ask rfl fun u r _ ↦ ?_
  cases r with
  | none => exact fun h ↦ by cases h
  | some metadata =>
    dsimp only
    split
    · exact fun h ↦ by cases h
    · next hnames =>
      push Not at hnames
      refine (upholds_readProcessStartToken b.pid _).bind fun last t hlast ↦ ?_
      obtain ⟨extra, rfl, -, hextra⟩ := hlast
      split
      · next ht =>
        obtain ⟨u', rfl⟩ := hextra b.startToken ht
        exact fun _ ↦ ⟨u, u', metadata, hnames, by simp⟩
      · exact fun h ↦ by cases h

/-! ### The bytes -/

theorem Written.append {c : C} {b : DaemonPeerBinding} (h : Written name generation c b past)
    (more : Trace C) : Written name generation c b (past ++ more) := by
  obtain ⟨early, u, bytes, n, late, rfl, hn, hcheck⟩ := h
  exact ⟨early, u, bytes, n, late ++ more, by simp, hn, hcheck⟩

section

variable [DecidableEq C]

@[simp] theorem chunks_append (c : C) (past more : Trace C) :
    chunks c (past ++ more) = chunks c past ++ chunks c more := List.filterMap_append

private theorem chunks_of_quiet (c : C) {extra : Trace C}
    (h : ∀ m ∈ extra, m.op.isQuiet = true) : chunks c extra = [] := by
  refine List.filterMap_eq_nil_iff.2 fun m hm ↦ ?_
  have hquiet := h m hm
  split
  · cases hquiet
  · rfl

/-- What is known of a socket that was checked, after some more moments without a read. -/
structure Kept (name generation : String) (c : C) (b : DaemonPeerBinding)
    (past past' : Trace C) : Prop where
  checked : Checked name generation c b past'
  chunks : chunks c past' = chunks c past
  written : Written name generation c b past → Written name generation c b past'

variable {c : C} {b : DaemonPeerBinding}

theorem Kept.refl (h : Checked name generation c b past) : Kept name generation c b past past :=
  ⟨h, rfl, id⟩

theorem Kept.trans {past' past'' : Trace C} (h : Kept name generation c b past past')
    (h' : Kept name generation c b past' past'') : Kept name generation c b past past'' :=
  ⟨h'.checked, h'.chunks.trans h.chunks, h'.written ∘ h.written⟩

private theorem Kept.quietly {past' : Trace C} {Q : Trace C → Prop}
    (h : Checked name generation c b past) (hq : Quietly past past' Q) :
    Kept name generation c b past past' := by
  obtain ⟨extra, rfl, hquiet, -⟩ := hq
  exact ⟨h.append extra, by simp [chunks_of_quiet c hquiet], fun hw ↦ hw.append extra⟩

private theorem Kept.write (h : Checked name generation c b past) (u : Nat) (bytes : List UInt8)
    (r : CallAnswer Nat) : Kept name generation c b past (past ++ [⟨u, .write c bytes, r⟩]) :=
  ⟨h.append _, by simp [Readiness.chunks], fun hw ↦ hw.append _⟩

/-- Every write comes after the check, and one that is done wrote something. -/
theorem upholds_writeAllUntil (deadline turns : Nat) (bytes : List UInt8)
    (h : Checked name generation c b past) :
    (writeAllUntil c deadline turns bytes).Upholds may (WriteChecked name generation) past
      fun past' r ↦ Kept name generation c b past past' ∧
        (r = .ok () → bytes = [] ∨ Written name generation c b past') := by
  induction turns generalizing past bytes with
  | zero =>
    cases bytes with
    | nil => exact ⟨.refl h, fun _ ↦ .inl rfl⟩
    | cons byte bytes => exact fun _ r ↦ r.elim
  | succ turns ih =>
    cases bytes with
    | nil => exact ⟨.refl h, fun _ ↦ .inl rfl⟩
    | cons byte bytes =>
      refine fun u r _ ↦ ⟨fun c' bytes' hop ↦ ?_, ?_⟩
      · cases hop
        exact ⟨b, h⟩
      · have hkept := Kept.write h u (byte :: bytes) r
        cases r with
        | ok n =>
          dsimp only
          split
          · exact ⟨hkept, fun he ↦ by cases he⟩
          · next hn =>
            refine (ih _ hkept.checked).mono fun past' r hq ↦ ⟨hkept.trans hq.1, fun _ ↦ .inr ?_⟩
            exact hq.1.written ⟨past, u, byte :: bytes, n, [], rfl, Nat.pos_of_ne_zero hn, h⟩
        | interrupted =>
          exact (ih _ hkept.checked).mono fun past' r hq ↦ ⟨hkept.trans hq.1, hq.2⟩
        | failed e =>
          dsimp only
          split
          · refine (quiet_waitFd c .pollout deadline turns _).thenOk (fun mid _ hmid ↦ ?_)
              fun mid _ hmid ↦ ?_
            · exact ⟨hkept.trans (.quietly hkept.checked hmid), fun he ↦ by cases he⟩
            · have hwaited := hkept.trans (.quietly hkept.checked hmid)
              exact (ih _ hwaited.checked).mono fun past' r hq ↦ ⟨hwaited.trans hq.1, hq.2⟩
          · exact ⟨hkept, fun he ↦ by cases he⟩

private theorem feedAll_concat {r r' r'' : PacketReader} {cs : List (List UInt8)}
    {chunk : List UInt8} {ps qs : List Packet} (h : r.feedAll cs = (r', .ok ps))
    (hchunk : r'.feed chunk = (r'', .ok qs)) :
    r.feedAll (cs ++ [chunk]) = (r'', .ok (ps ++ qs)) := by
  induction cs generalizing r ps with
  | nil =>
    cases h
    simp [PacketReader.feedAll, hchunk]
  | cons first cs ih =>
    rw [PacketReader.feedAll] at h
    rw [List.cons_append, PacketReader.feedAll]
    split at h
    · cases h
    · next r₁ ps₁ hfirst =>
      split at h
      · cases h
      · next r₂ ps₂ hrest =>
        cases h
        rw [ih hrest]
        simp

variable (ctl : Control R)

/-- How a control ends that gives a result: it was decoded from what was read on the socket, on
which bytes were written after the check, and then the record and the process were read again. -/
def Concluded (c : C) (b : DaemonPeerBinding) (result : R) (past : Trace C) : Prop :=
  ∃ before u u' metadata, Names metadata ctl.expectedGeneration b ∧
    past = before ++ [⟨u, .readMetadata ctl.name, some metadata⟩,
      ⟨u', .startToken b.pid, some b.startToken⟩] ∧
    Written ctl.name ctl.expectedGeneration c b before ∧ Decoded ctl c result before

/-- The reader has what was read on the socket, and its packets are read no further than the first
of the expected type. -/
theorem upholds_readLoop (deadline turns : Nat) {reader : PacketReader}
    (h : Checked ctl.name ctl.expectedGeneration c b past)
    (hw : Written ctl.name ctl.expectedGeneration c b past)
    (hread : ∃ packets, PacketReader.feedAll {} (chunks c past) = (reader, .ok packets)) :
    (readLoop ctl c b deadline turns reader).Upholds may
      (WriteChecked ctl.name ctl.expectedGeneration) past
      fun past' r ↦ ∀ result, r = .ok result → Concluded ctl c b result past' := by
  induction turns generalizing past reader with
  | zero => exact fun _ r ↦ r.elim
  | succ turns ih =>
    refine (quiet_waitFd c .pollin deadline turns past).bind fun mid r hmid ↦ ?_
    have hkept := Kept.quietly h hmid
    cases r with
    | error e => exact fun _ he ↦ by cases he
    | ok _ =>
      refine fun u r _ ↦ ⟨fun c' bytes hop ↦ (by cases hop), ?_⟩
      have hchecked := hkept.checked.append [⟨u, .read c, r⟩]
      have hwritten := (hkept.written hw).append [⟨u, .read c, r⟩]
      cases r with
      | ok chunk =>
        cases chunk with
        | nil => exact fun _ he ↦ by cases he
        | cons byte chunk =>
          obtain ⟨packets, hpackets⟩ := hread
          dsimp only
          split
          · exact fun _ he ↦ by cases he
          · next reader' more hfeed =>
            have hall : PacketReader.feedAll {}
                (chunks c (mid ++ [⟨u, .read c, .ok (byte :: chunk)⟩])) =
                (reader', .ok (packets ++ more)) := by
              rw [chunks_append, hkept.chunks]
              simpa [chunks] using feedAll_concat hpackets hfeed
            split
            · exact ih hchecked hwritten ⟨_, hall⟩
            · next p hfind =>
              split
              · exact fun _ he ↦ by cases he
              · next result hparse =>
                refine (upholds_verifyBindingStillCurrent b _).thenOk
                  (fun _ _ _ _ he ↦ by cases he) fun past' a hcurrent result' hresult ↦ ?_
                obtain rfl := Except.ok.inj hresult
                obtain ⟨u₁, u₂, metadata, hnames, rfl⟩ := hcurrent rfl
                have htype := List.find?_some hfind
                exact ⟨_, u₁, u₂, metadata, hnames, rfl, hwritten, reader', _, hall, p,
                  List.mem_append_right _ (List.mem_of_find?_eq_some hfind), by simpa using htype,
                  hparse⟩
      | interrupted =>
        have hnone : chunks c [⟨u, .read c, .interrupted⟩] = [] := rfl
        refine ih hchecked hwritten ?_
        rwa [chunks_append, hkept.chunks, hnone, List.append_nil]
      | failed e =>
        have hnone : chunks c [⟨u, .read c, .failed e⟩] = [] := rfl
        dsimp only
        split
        · refine ih hchecked hwritten ?_
          rwa [chunks_append, hkept.chunks, hnone, List.append_nil]
        · exact fun _ he ↦ by cases he

/-- A control writes only after the check, and a result of it is concluded. -/
theorem upholds_requestControlJson {packet : List UInt8} (hpacket : packet ≠ [])
    (timeout turns : Nat) :
    (requestControlJson (C := C) ctl packet timeout turns).Upholds may
      (WriteChecked ctl.name ctl.expectedGeneration) []
      fun past' r ↦ ∀ result, r = .ok result → ∃ c b, Concluded ctl c b result past' := by
  refine upholds_ask rfl fun u (start : Nat) _ ↦ ?_
  have hconnect : Quiet may ctl.name ctl.expectedGeneration
      (connectUntil (C := C) ctl.path (start + timeout) turns) := quiet_connectUntil _ _ _
  refine Prog.Upholds.thenOk ((hconnect [⟨u, .now, start⟩]).mapError
    (R := fun past' _ ↦ Quietly [⟨u, .now, start⟩] past' fun _ ↦ True) (fun _ _ h ↦ h)
    fun _ _ h ↦ h) (fun _ _ _ _ he ↦ by cases he) fun mid c hmid ↦ ?_
  obtain ⟨x, rfl, hx, -⟩ := hmid
  refine (upholds_verifyDaemonPeer c _).thenOk (fun _ _ _ _ he ↦ by cases he) fun mid b hmid ↦ ?_
  obtain ⟨y, rfl, hy, hchecked⟩ := hmid
  have hbefore := (hchecked b rfl).prepend ([⟨u, .now, start⟩] ++ x)
  have hchunks : chunks c ([⟨u, .now, start⟩] ++ x ++ y) = [] := by
    rw [chunks_append, chunks_append, chunks_of_quiet c hx, chunks_of_quiet c hy]
    rfl
  refine Prog.Upholds.thenOk ((upholds_writeAllUntil (start + timeout) turns packet
    hbefore).mapError (R := fun past' r ↦ Kept ctl.name ctl.expectedGeneration c b _ past' ∧
      (r = .ok () → packet = [] ∨ Written ctl.name ctl.expectedGeneration c b past'))
      (fun _ _ hq ↦ ⟨hq.1, fun he ↦ by cases he⟩)
      fun _ _ hq ↦ ⟨hq.1, fun _ ↦ hq.2 rfl⟩) (fun _ _ _ _ he ↦ by cases he) fun mid _ hmid ↦ ?_
  have hwritten := (hmid.2 rfl).resolve_left hpacket
  refine (upholds_readLoop ctl (start + timeout) turns hmid.1.checked hwritten
    ⟨[], ?_⟩).mono fun _ _ hq result hr ↦ ⟨c, b, hq result hr⟩
  rw [hmid.1.chunks, hchunks]
  rfl

end

/-! ### What the system does meanwhile -/

/-- A history of processes, of connections and of records. A process holds its id as long as it is
listed, and its sockets are open as long as it runs; records are written at any time. -/
structure System (P C : Type) where
  pid : P → Int32
  token : P → String
  running : P → Nat → Prop
  listed : P → Nat → Prop
  listed_of_running : ∀ {p t}, running p t → listed p t
  running_between : ∀ {p t u v}, running p t → running p v → t ≤ u → u ≤ v → running p u
  one_listed : ∀ {p q t}, listed p t → listed q t → pid p = pid q → p = q
  identity : ∀ {p q}, pid p = pid q → token p = token q → p = q
  pid_ne_zero : ∀ p, pid p ≠ 0
  /-- The process that listens at the other end of a connected socket, and since when. -/
  listener : C → Option P
  connectedAt : C → Nat
  listening : ∀ {c p}, listener c = some p → running p (connectedAt c)
  record : String → Nat → Option SessionMetadata

namespace System

variable (sys : System P C)

/-- What the system answers: the peer of a connected socket is the process that listens there, a
start token is that of the process which has the id, and a write gets through only while the
process at the other end runs. -/
def answers (m : Moment (Op C) Op.Ans) : Prop :=
  match m with
  | ⟨u, .readMetadata name, r⟩ => r = sys.record name u
  | ⟨u, .peer c, r⟩ => ∀ pid uid, r = some (pid, uid) →
      (sys.listener c = none ∧ pid = 0) ∨
        ∃ p, sys.listener c = some p ∧ pid = sys.pid p ∧ sys.connectedAt c ≤ u
  | ⟨u, .process pid, r⟩ => r.isSome → ∃ p, sys.listed p u ∧ sys.pid p = pid
  | ⟨u, .startToken pid, r⟩ => ∀ token, r = some token →
      ∃ p, sys.listed p u ∧ sys.pid p = pid ∧ sys.token p = token
  | ⟨u, .write c _, r⟩ => ∀ n, r = .ok n → 0 < n →
      ∃ p, sys.listener c = some p ∧ sys.running p u
  | _ => True

/-- The process that listens on a socket was proven: a record of the generation named its id and
start token, and at an instant at which they were looked up it ran; no other process has both. -/
def Proven (ctl : Control R) (c : C) (p : P) (past : Trace C) : Prop :=
  sys.listener c = some p ∧ (∀ q, sys.pid q = sys.pid p → sys.token q = sys.token p → q = p) ∧
    ∃ u₁ u₂ metadata,
      (⟨u₁, .readMetadata ctl.name, some metadata⟩ : Moment (Op C) Op.Ans) ∈ past ∧
      (⟨u₂, .startToken (sys.pid p), some (sys.token p)⟩ : Moment (Op C) Op.Ans) ∈ past ∧
      u₁ ≤ u₂ ∧ sys.record ctl.name u₁ = some metadata ∧
      Names metadata ctl.expectedGeneration ⟨sys.pid p, sys.token p⟩ ∧ sys.running p u₂

variable {sys}

/-- A write that got through after a check went to the process that was proven. -/
private theorem proven_of_checked {ctl : Control R} {c : C} {b : DaemonPeerBinding}
    {past more : Trace C} {u : Nat} {bytes : List UInt8} {n : Nat}
    (hcheck : Checked ctl.name ctl.expectedGeneration c b past)
    (hanswers : ∀ m ∈ past ++ ⟨u, .write c bytes, .ok n⟩ :: more, sys.answers m)
    (hsorted : (past ++ ⟨u, .write c bytes, .ok n⟩ :: more).Pairwise (·.instant ≤ ·.instant))
    (hn : 0 < n) : ∃ p, sys.Proven ctl c p past ∧ b = ⟨sys.pid p, sys.token p⟩ := by
  obtain ⟨u₁, u₂, u₃, metadata, uid, hnames, hsub⟩ := hcheck
  obtain ⟨hsorted, -, hcross⟩ := List.pairwise_append.1 hsorted
  have hbefore : ∀ m ∈ past, m.instant ≤ u := fun m hm ↦ hcross m hm _ (List.mem_cons_self ..)
  have hwrite := hanswers _ (List.mem_append_right _ (List.mem_cons_self ..))
  have hmay : ∀ m ∈ past, sys.answers m := fun m hm ↦ hanswers m (List.mem_append_left _ hm)
  have hmem := hsub.subset
  have hread := hmem (List.mem_cons_self ..)
  have hpeer := hmem (List.mem_cons_of_mem _ (List.mem_cons_self ..))
  have htoken := hmem (List.mem_cons_of_mem _ (List.mem_cons_of_mem _ (List.mem_cons_self ..)))
  have hordered := hsorted.sublist hsub
  obtain ⟨p, hlistener, hruns⟩ := hwrite n rfl hn
  -- the peer is the process that still runs at the write, so it ran at the look at its token
  obtain ⟨hnone, -⟩ | ⟨q, hq, hpid, hsince⟩ := hmay _ hpeer b.pid uid rfl
  · rw [hlistener] at hnone
    cases hnone
  · obtain rfl : p = q := Option.some.inj (hlistener.symm.trans hq)
    have h₁₃ : u₁ ≤ u₃ := List.rel_of_pairwise_cons hordered
      (List.mem_cons_of_mem _ (List.mem_singleton_self _))
    have h₂₃ : u₂ ≤ u₃ :=
      List.rel_of_pairwise_cons (List.Pairwise.of_cons hordered) (List.mem_singleton_self _)
    have hran : sys.running p u₃ := sys.running_between (sys.listening hlistener) hruns
      (Nat.le_trans hsince h₂₃) (hbefore _ htoken)
    obtain ⟨q, hlisted, hqpid, hqtoken⟩ := hmay _ htoken b.startToken rfl
    obtain rfl : q = p :=
      sys.one_listed hlisted (sys.listed_of_running hran) (hqpid.trans hpid)
    obtain ⟨pid, startToken⟩ := b
    obtain rfl : pid = sys.pid q := hpid
    obtain rfl : sys.token q = startToken := hqtoken
    exact ⟨q, ⟨hlistener, fun _ ↦ sys.identity, u₁, u₃, metadata, hread, htoken, h₁₃,
      (hmay _ hread).symm, hnames, hran⟩, rfl⟩

end System

theorem encodePacket_ne_nil (type_ : MessageType) (payload : List UInt8) :
    encodePacket type_ payload ≠ [] := List.cons_ne_nil _ _

/-- In every history and for all instants of its questions, a control gets bytes through only to
the process that a record of the expected generation names and that ran when it was checked; and
a result is decoded from a packet of the expected type that the same socket gave, after which the
record named that process and generation again. -/
theorem requests_reach_proven [DecidableEq C] (sys : System P C) (ctl : Control R)
    {type_ : MessageType} {payload : List UInt8} {timeout turns t v : Nat} {es : Trace C}
    {q : Act C (Except ReadinessError R)}
    (h : Prog.Goes sys.answers t
      (requestControlJson ctl (encodePacket type_ payload) timeout turns) es v q) :
    (∀ before u c bytes n after, es = before ++ ⟨u, .write c bytes, .ok n⟩ :: after → 0 < n →
      ∃ p, sys.Proven ctl c p before) ∧
    ∀ result, q = ret (.ok result) → ∃ c p before u u' metadata,
      es = before ++ [⟨u, .readMetadata ctl.name, some metadata⟩,
        ⟨u', .startToken (sys.pid p), some (sys.token p)⟩] ∧
      sys.Proven ctl c p before ∧
      Written ctl.name ctl.expectedGeneration c ⟨sys.pid p, sys.token p⟩ before ∧
      Decoded ctl c result before ∧ sys.record ctl.name u = some metadata ∧
      Names metadata ctl.expectedGeneration ⟨sys.pid p, sys.token p⟩ ∧ sys.listed p u' := by
  have hanswers := h.allowed
  have hsorted := h.sorted
  have hupholds : (requestControlJson ctl (encodePacket type_ payload) timeout turns).Upholds
      sys.answers _ [] _ :=
    upholds_requestControlJson ctl (encodePacket_ne_nil type_ payload) timeout turns
  obtain ⟨hwrites, hrest⟩ := hupholds.goes h
  refine ⟨fun before u c bytes n after he hn ↦ ?_, fun result hq ↦ ?_⟩
  · obtain ⟨b, hcheck⟩ := hwrites before _ after he c bytes rfl
    subst he
    obtain ⟨p, hp, -⟩ := System.proven_of_checked hcheck hanswers hsorted hn
    exact ⟨p, hp⟩
  · subst hq
    obtain ⟨c, b, before, u, u', metadata, hnames, he, hwritten, hdecoded⟩ := hrest result rfl
    obtain rfl : es = _ := he
    obtain ⟨early, w, bytes, n, late, rfl, hn, hcheck⟩ := hwritten
    rw [List.append_assoc, List.cons_append] at hanswers hsorted
    obtain ⟨p, hp, rfl⟩ := System.proven_of_checked hcheck hanswers hsorted hn
    have hread := hanswers ⟨u, .readMetadata ctl.name, some metadata⟩ (by simp)
    have htoken := hanswers ⟨u', .startToken (sys.pid p), some (sys.token p)⟩ (by simp)
    obtain ⟨r, hlisted, hpid, htok⟩ := htoken _ rfl
    obtain rfl : r = p := hp.2.1 r hpid htok
    refine ⟨c, r, _, u, u', metadata, rfl, ?_, ⟨early, w, bytes, n, late, rfl, hn, hcheck⟩,
      hdecoded, hread.symm, hnames, hlisted⟩
    obtain ⟨hlistener, hunique, u₁, u₂, m, h₁, h₂, hrest⟩ := hp
    exact ⟨hlistener, hunique, u₁, u₂, m, List.mem_append_left _ h₁, List.mem_append_left _ h₂,
      hrest⟩

/-! ### A whole exchange -/

/-- The record of a daemon. -/
def soleRecord : SessionMetadata :=
  (SessionMetadata.fromMap [("generation", .string "g"), ("daemonPid", .integer 7),
    ("daemonStartToken", .string "born")]).get (by decide)

/-- A system of one daemon, which runs all the time. -/
def sole : System Unit Unit where
  pid _ := 7
  token _ := "born"
  running _ _ := True
  listed _ _ := True
  listed_of_running := id
  running_between _ _ _ _ := trivial
  one_listed _ _ _ := rfl
  identity _ _ := rfl
  pid_ne_zero _ := by decide
  listener _ := some ()
  connectedAt _ := 0
  listening _ := trivial
  record _ _ := some soleRecord

/-- A control whose answer has no content. -/
def bare : Control Unit := ⟨"s", "g", [97], "a", .lifecycleCas, fun _ ↦ some ()⟩

/-- A whole exchange with that daemon. -/
def soleRun : Trace Unit :=
  [⟨0, .now, (0 : Nat)⟩, ⟨1, .socket, .ok ()⟩, ⟨2, .connect () [97], .ok ()⟩,
    ⟨3, .readMetadata "s", some soleRecord⟩, ⟨4, .peer (), some (7, 0)⟩,
    ⟨5, .process 7, some ⟨7, 1, 7, ['S'], none, some ['b']⟩⟩, ⟨6, .effectiveUid, (0 : UInt32)⟩,
    ⟨7, .startToken 7, some "born"⟩, ⟨8, .write () [9, 0, 0, 0, 0], .ok 5⟩, ⟨9, .now, (9 : Nat)⟩,
    ⟨10, .poll () .pollin 1999, .reports true false⟩, ⟨11, .read (), .ok [9, 0, 0, 0, 0]⟩,
    ⟨12, .readMetadata "s", some soleRecord⟩, ⟨13, .startToken 7, some "born"⟩]

private theorem soleRun_goes : Prog.Goes sole.answers 0
    (requestControlJson bare (encodePacket .lifecycleCas []) 2000000000 2) soleRun 13
    (ret (.ok ())) := by
  have hfeed : ({} : PacketReader).feed [9, 0, 0, 0, 0] = ({}, .ok [⟨.lifecycleCas, []⟩]) := by
    have hd := drain_encode [⟨.lifecycleCas, []⟩] (by simp)
    rw [feed_eq] <;> rw [show ({} : PacketReader).buffer ++ [9, 0, 0, 0, 0] =
      ([(⟨.lifecycleCas, []⟩ : Packet)].map Packet.encode).flatten from rfl, hd]
    rfl
  have hpeer : sole.answers ⟨4, .peer (), some (7, 0)⟩ := by
    intro pid uid h
    cases h
    exact .inr ⟨(), rfl, rfl, Nat.zero_le _⟩
  have hlisted (u : Nat) : sole.answers ⟨u, .startToken 7, some "born"⟩ := by
    intro token h
    cases h
    exact ⟨(), trivial, rfl, rfl⟩
  refine .ask (by decide) trivial <| .ask (by decide) trivial <| .ask (by decide) trivial <|
    .ask (by decide) rfl <| .ask (by decide) hpeer <|
    .ask (by decide) (fun _ ↦ ⟨(), trivial, rfl⟩) <|
    .ask (by decide) trivial <| .ask (by decide) (hlisted 7) <|
    .ask (by decide) (fun _ _ _ ↦ ⟨(), rfl, trivial⟩) <|
    .ask (by decide) trivial <| .ask (by decide) trivial <| .ask (by decide) trivial ?_
  dsimp only
  rw [hfeed]
  exact .ask (by decide) rfl <| .ask (by decide) (hlisted 13) (.here _ _)

/-- The request of that exchange got through to the daemon, and its result is the daemon's. -/
theorem requests_reach_proven_sole :
    (∃ p, sole.Proven bare () p (soleRun.take 8)) ∧
      ∃ c p before, soleRun.take 12 = before ∧ sole.Proven bare c p before ∧
        Decoded bare c () before := by
  have h := requests_reach_proven sole bare soleRun_goes
  refine ⟨h.1 _ 8 () _ 5 (soleRun.drop 9) rfl (by decide), ?_⟩
  obtain ⟨c, p, before, u, u', metadata, he, hproven, -, hdecoded, -⟩ := h.2 () rfl
  have hbefore : soleRun.take 12 = before := by
    have hsplit : soleRun = soleRun.take 12 ++ soleRun.drop 12 := (List.take_append_drop ..).symm
    exact (List.append_inj' (hsplit.symm.trans he) rfl).1
  exact ⟨c, p, before, hbefore, hproven, hdecoded⟩

end PtySpec.Client.Readiness
