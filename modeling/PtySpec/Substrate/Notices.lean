import PtySpec.Substrate.Step

/-!
# What the actor broadcasts

The events that the actor has broadcast or is about to, in their order, against what the
reader has read and what the lifecycle is: the reader's messages come through in order and
whole, and the end of the child is broadcast once, behind the output handled before it.
-/

namespace PtySpec.Substrate

/-- The broadcasts that are not begun. -/
def pending : List Effect → List SessionEvent
  | [] => []
  | .broadcast event :: rest => event :: pending rest
  | _ :: rest => pending rest

/-- The streams that broadcasts under way have not reached. -/
def tells : List Effect → List (List Nat)
  | [] => []
  | .tell _ todo :: rest => todo :: tells rest
  | _ :: rest => tells rest

/-- Events without the lifecycle. -/
def plain : List SessionEvent → List SessionEvent
  | [] => []
  | .lifecycle _ :: rest => plain rest
  | event :: rest => event :: plain rest

/-- The reader's messages among commands, as the events they become. -/
def wire : List Command → List SessionEvent
  | [] => []
  | .output bytes :: rest => .data bytes :: wire rest
  | .readerClosed :: rest => .outputClosed :: wire rest
  | _ :: rest => wire rest

/-- What the reader has read and not sent. -/
def ReaderPhase.hand : ReaderPhase → List SessionEvent
  | .got chunk | .reserved chunk => [.data chunk]
  | _ => []

/-- All that the reader says, with its end. -/
def System.said (s : System) : List SessionEvent :=
  s.tape.reads.map .data ++ if s.reader.phase = .done then [.outputClosed] else []

/-- All events broadcast or about to be. -/
def System.notices (s : System) : List SessionEvent := s.tape.log ++ pending s.actor.effects

/-- The lifecycle event of a change of what is published. -/
def notice (a b : Actor) : List SessionEvent :=
  if b.published = a.published then [] else [.lifecycle b.published]

@[simp] theorem pending_append (es fs : List Effect) :
    pending (es ++ fs) = pending es ++ pending fs := by
  induction es with
  | nil => rfl
  | cons e es ih => cases e <;> simp [pending, ih]

@[simp] theorem tells_append (es fs : List Effect) : tells (es ++ fs) = tells es ++ tells fs := by
  induction es with
  | nil => rfl
  | cons e es ih => cases e <;> simp [tells, ih]

@[simp] theorem plain_append (es fs : List SessionEvent) :
    plain (es ++ fs) = plain es ++ plain fs := by
  induction es with
  | nil => rfl
  | cons e es ih => cases e <;> simp [plain, ih]

@[simp] theorem wire_append (cs ds : List Command) : wire (cs ++ ds) = wire cs ++ wire ds := by
  induction cs with
  | nil => rfl
  | cons c cs ih => cases c <;> simp [wire, ih]

theorem datas_plain (es : List SessionEvent) : datas (plain es) = datas es := by
  induction es with
  | nil => rfl
  | cons e es ih => cases e <;> simp [plain, datas, ih]

theorem mem_plain {es : List SessionEvent} :
    SessionEvent.outputClosed ∈ plain es ↔ SessionEvent.outputClosed ∈ es := by
  induction es with
  | nil => rfl
  | cons e es ih => cases e <;> simp [plain, ih]

@[simp] theorem pending_forgets (is : List Nat) : pending (is.map .forget) = [] := by
  induction is with
  | nil => rfl
  | cons i is ih => simpa [pending] using ih

@[simp] theorem tells_forgets (is : List Nat) : tells (is.map .forget) = [] := by
  induction is with
  | nil => rfl
  | cons i is ih => simpa [tells] using ih

@[simp] theorem pending_answerTo (reply : Option Nat) (error : Option SessionError) :
    pending (answerTo reply error) = [] := by
  cases reply <;> rfl

@[simp] theorem tells_answerTo (reply : Option Nat) (error : Option SessionError) :
    tells (answerTo reply error) = [] := by
  cases reply <;> rfl

/-! ### What a command does to the actor -/

namespace Actor

variable {a : Actor}

/-- What a command broadcasts: what the reader said, and a change of what is published. -/
theorem pending_handle (h : a.effects = []) (c : Command)
    (hc : a.outputClosed = true → wire [c] = []) :
    pending (a.handle c).effects = wire [c] ++ notice a (a.handle c) := by
  cases c with
  | request session kind reply =>
    cases hr : (a.check session >>= fun _ ↦ a.isRunning) <;> cases kind <;>
      simp [handle, hr, accept, emit, h, pending, wire, notice]
  | query session reply =>
    cases hr : a.check session <;> simp [handle, hr, emit, h, pending, wire, notice]
  | attach session attachment reply =>
    cases hr : a.check session <;> simp [handle, hr, emit, h, pending, wire, notice]
  | output bytes =>
    cases ho : a.outputClosed with
    | false => simp [handle, ho, emit, h, pending, wire, notice]
    | true => cases hc ho
  | reaped status =>
    by_cases hl : a.lifecycle = .running <;> by_cases ho : a.outputClosed <;>
      by_cases hp : a.published = .exited status <;>
      simp [handle, hl, ho, hp, publishLifecycle, emit, h, pending, wire, notice, eq_comm]
  | readerClosed =>
    by_cases hp : a.published = a.lifecycle
    · simp [handle, hp, publishLifecycle, emit, h, pending, wire, notice]
    · simp [handle, hp, Ne.symm hp, publishLifecycle, emit, h, pending, wire, notice]
  | ownerLost =>
    by_cases hl : a.lifecycle = .running
    · by_cases hp : a.published = .ownerLost
      · simp [handle, hl, hp, publishLifecycle, emit, h, pending, wire, notice]
      · simp [handle, hl, hp, Ne.symm hp, publishLifecycle, emit, h, pending, wire, notice]
    · simp [handle, hl, h, pending, wire, notice]

/-- What publishing broadcasts. -/
theorem pending_publishLifecycle (h : a.effects = []) :
    pending a.publishLifecycle.effects = notice a a.publishLifecycle := by
  by_cases hp : a.published = a.lifecycle
  · simp [publishLifecycle, hp, h, pending, notice]
  · simp [publishLifecycle, hp, Ne.symm hp, h, pending, notice]

theorem pending_finish (h : a.effects = []) :
    pending a.finish.effects = notice a a.finish := by
  by_cases hp : a.published = a.lifecycle
  · simp [finish, publishLifecycle, emit, hp, h, pending, notice]
  · simp [finish, publishLifecycle, emit, hp, Ne.symm hp, h, pending, notice]

theorem tells_handle (h : a.effects = []) (c : Command) : tells (a.handle c).effects = [] := by
  cases c with
  | request session kind reply =>
    cases hr : (a.check session >>= fun _ ↦ a.isRunning) <;> cases kind <;>
      simp [handle, hr, accept, emit, h, tells]
  | query session reply => cases hr : a.check session <;> simp [handle, hr, emit, h, tells]
  | attach session attachment reply =>
    cases hr : a.check session <;> simp [handle, hr, emit, h, tells]
  | output bytes => by_cases ho : a.outputClosed <;> simp [handle, ho, emit, h, tells]
  | reaped status =>
    by_cases hl : a.lifecycle = .running <;> by_cases ho : a.outputClosed <;>
      by_cases hp : a.published = .exited status <;>
      simp [handle, hl, ho, hp, publishLifecycle, emit, h, tells]
  | readerClosed =>
    by_cases hp : a.published = a.lifecycle <;>
      simp [handle, hp, publishLifecycle, emit, h, tells]
  | ownerLost =>
    by_cases hl : a.lifecycle = .running <;> by_cases hp : a.published = .ownerLost <;>
      simp [handle, hl, hp, publishLifecycle, emit, h, tells]

theorem tells_publishLifecycle (h : a.effects = []) : tells a.publishLifecycle.effects = [] := by
  by_cases hp : a.published = a.lifecycle <;> simp [publishLifecycle, hp, h, tells]

theorem tells_finish (h : a.effects = []) : tells a.finish.effects = [] := by
  by_cases hp : a.published = a.lifecycle <;>
    simp [finish, publishLifecycle, emit, hp, h, tells]

theorem outputClosed_handle (c : Command) :
    (a.handle c).outputClosed = true ↔ a.outputClosed = true ∨ c = .readerClosed := by
  cases c with
  | request session kind reply =>
    cases hr : (a.check session >>= fun _ ↦ a.isRunning) <;> cases kind <;>
      simp [handle, hr, accept, emit]
  | query session reply => cases hr : a.check session <;> simp [handle, hr, emit]
  | attach session attachment reply => cases hr : a.check session <;> simp [handle, hr, emit]
  | output bytes => by_cases ho : a.outputClosed <;> simp [handle, ho, emit]
  | reaped status =>
    by_cases hl : a.lifecycle = .running <;> by_cases ho : a.outputClosed <;>
      simp [handle, hl, ho, emit]
  | readerClosed => simp [handle, emit]
  | ownerLost => by_cases hl : a.lifecycle = .running <;> simp [handle, hl, emit]

/-- What is published after a command is the lifecycle, or what was published before. -/
theorem published_handle (c : Command) :
    (a.handle c).published = a.published ∨ (a.handle c).published = (a.handle c).lifecycle := by
  cases c with
  | request session kind reply =>
    cases hr : (a.check session >>= fun _ ↦ a.isRunning) <;> cases kind <;>
      simp [handle, hr, accept, emit]
  | query session reply => cases hr : a.check session <;> simp [handle, hr, emit]
  | attach session attachment reply => cases hr : a.check session <;> simp [handle, hr, emit]
  | output bytes => by_cases ho : a.outputClosed <;> simp [handle, ho, emit]
  | reaped status =>
    by_cases hl : a.lifecycle = .running <;> by_cases ho : a.outputClosed <;>
      simp [handle, hl, ho, emit]
  | readerClosed => simp [handle, emit]
  | ownerLost => by_cases hl : a.lifecycle = .running <;> simp [handle, hl, emit]

/-- A command changes the lifecycle only when the child is running. -/
theorem lifecycle_handle (c : Command) (h : a.lifecycle ≠ .running) :
    (a.handle c).lifecycle = a.lifecycle := by
  cases c with
  | request session kind reply =>
    cases hr : (a.check session >>= fun _ ↦ a.isRunning) <;> cases kind <;>
      simp [handle, hr, accept, emit]
  | query session reply => cases hr : a.check session <;> simp [handle, hr, emit]
  | attach session attachment reply => cases hr : a.check session <;> simp [handle, hr, emit]
  | output bytes => by_cases ho : a.outputClosed <;> simp [handle, ho, emit]
  | reaped status => simp [handle, h]
  | readerClosed => simp [handle, emit]
  | ownerLost => simp [handle, h]

/-- A command that publishes an exit finds the output closed, or closes it. -/
theorem exited_handle (c : Command) (status : ExitStatus)
    (h : (a.handle c).published ≠ a.published)
    (he : (a.handle c).published = .exited status) : (a.handle c).outputClosed = true := by
  cases c with
  | request session kind reply =>
    cases hr : (a.check session >>= fun _ ↦ a.isRunning) <;> cases kind <;>
      simp [handle, hr, accept, emit] at h
  | query session reply => cases hr : a.check session <;> simp [handle, hr, emit] at h
  | attach session attachment reply =>
    cases hr : a.check session <;> simp [handle, hr, emit] at h
  | output bytes => by_cases ho : a.outputClosed <;> simp [handle, ho, emit] at h
  | reaped status =>
    by_cases hl : a.lifecycle = .running <;> by_cases ho : a.outputClosed <;>
      simp_all [handle, emit]
  | readerClosed => simp [handle, emit]
  | ownerLost => by_cases hl : a.lifecycle = .running <;> simp_all [handle, emit]

@[simp] theorem published_finish : a.finish.published = a.lifecycle := by
  simp [finish, emit]

@[simp] theorem lifecycle_finish : a.finish.lifecycle = a.lifecycle := by
  simp [finish, emit]

@[simp] theorem outputClosed_finish : a.finish.outputClosed = a.outputClosed := by
  simp [finish, emit]

@[simp] theorem attachments_finish : a.finish.attachments = a.attachments := by
  simp [finish, emit]

end Actor

/-! ### The notices of every run -/

/-- The notices come from what the reader says and what is published: what the reader says is
broadcast in its order, the terminal lifecycle once, and an exit behind the output handled by
then, closed unless the drain timer has fired. -/
structure Tracks (s : System) : Prop where
  plain : plain s.notices ++ wire s.inbox ++ s.reader.phase.hand = s.said
  handled : s.tape.handled = datas s.notices
  closed : s.actor.outputClosed = true ↔ .outputClosed ∈ s.notices
  lifecycles : lifecycles s.notices =
    .running :: if s.actor.published = .running then [] else [s.actor.published]
  trails : s.actor.published = .running ∨ s.actor.published = s.actor.lifecycle
  exit : ∀ status, s.actor.published = .exited status → ∃ pre post,
    s.notices = pre ++ .lifecycle s.actor.published :: post ∧ s.tape.exit = some (datas pre) ∧
      (s.tape.timedOut = false → .outputClosed ∈ pre)
  head : ∃ rest, s.notices = .lifecycle .running :: rest

/-- What the notices depend on. -/
theorem Tracks.of_eq {s t : System} (h : Tracks s) (hn : t.notices = s.notices)
    (hw : wire t.inbox = wire s.inbox) (hr : t.reader.phase.hand = s.reader.phase.hand)
    (hs : t.said = s.said) (hh : t.tape.handled = s.tape.handled)
    (he : t.tape.exit = s.tape.exit) (ht : t.tape.timedOut = s.tape.timedOut)
    (hp : t.actor.published = s.actor.published) (hl : t.actor.lifecycle = s.actor.lifecycle)
    (hc : t.actor.outputClosed = s.actor.outputClosed) : Tracks t := by
  constructor
  · rw [hn, hw, hr, hs]
    exact h.plain
  · rw [hh, hn]
    exact h.handled
  · rw [hc, hn]
    exact h.closed
  · rw [hn, hp]
    exact h.lifecycles
  · rw [hp, hl]
    exact h.trails
  · rw [hp, hn, he, ht]
    exact h.exit
  · rw [hn]
    exact h.head

private theorem plain_wire (cs : List Command) : plain (wire cs) = wire cs := by
  induction cs with
  | nil => rfl
  | cons c cs ih => cases c <;> simp [wire, plain, ih]

private theorem lifecycles_plain (es : List SessionEvent) : lifecycles (plain es) = [] := by
  induction es with
  | nil => rfl
  | cons e es ih => cases e <;> simp [plain, lifecycles, ih]

private theorem plain_notice (a b : Actor) : plain (notice a b) = [] := by
  unfold notice
  split <;> rfl

private theorem datas_notice (a b : Actor) : datas (notice a b) = [] := by
  rw [← datas_plain, plain_notice]
  rfl

/-- Nothing is left of a list behind the end that only its last item can be. -/
theorem eq_nil_of_closing {xs ys : List SessionEvent} {ds : List (List UInt8)} {p : Prop}
    [Decidable p]
    (h : xs ++ .outputClosed :: ys <+: ds.map .data ++ if p then [.outputClosed] else []) :
    ys = [] ∧ p := by
  obtain ⟨zs, hz⟩ := h
  have hd : SessionEvent.outputClosed ∉ ds.map SessionEvent.data := by simp
  rw [List.append_assoc, List.append_eq_append_iff] at hz
  rcases hz with ⟨as, ha, hb⟩ | ⟨bs, ha, hb⟩
  · cases as with
    | nil =>
      split at hb
      · next hp =>
        simp only [List.cons_append, List.nil_append, List.cons.injEq, true_and] at hb
        simp_all
      · simp at hb
    | cons a as =>
      simp only [List.cons_append, List.cons.injEq] at hb
      rw [ha, ← hb.1] at hd
      simp at hd
  · cases bs with
    | nil =>
      split at hb
      · next hp =>
        simp only [List.nil_append, List.cons_append, List.cons.injEq, true_and] at hb
        simp_all
      · simp at hb
    | cons b bs =>
      split at hb
      · next hp =>
        simp only [List.cons_append, List.cons.injEq] at hb
        simp at hb
      · simp at hb

namespace Tracks

variable {s t : System}

/-- The reader's messages up to any point are what it says, up to there. -/
theorem prefix_said (h : Tracks s) : Substrate.plain s.notices <+: s.said :=
  ⟨wire s.inbox ++ s.reader.phase.hand, by rw [← List.append_assoc]; exact h.plain⟩

/-- Nothing of the reader is on its way when its end has been taken up. -/
theorem wire_eq_nil (h : Tracks s) (hc : s.actor.outputClosed = true) : wire s.inbox = [] := by
  obtain ⟨xs, ys, hxy⟩ := List.append_of_mem (mem_plain.mpr (h.closed.mp hc))
  have hp := h.plain
  rw [hxy, List.append_assoc, List.append_assoc, List.cons_append] at hp
  have := (eq_nil_of_closing ⟨[], (List.append_nil _).trans hp⟩).1
  simp only [List.append_eq_nil_iff] at this
  exact this.2.1

/-- A transition of an actor that has nothing else to do. -/
theorem act (h : Tracks s) (idle : s.actor.effects = []) (w : List Command)
    (hlog : t.tape.log = s.tape.log)
    (hp : pending t.actor.effects = wire w ++ notice s.actor t.actor)
    (hpub : t.actor.published = s.actor.published ∨ t.actor.published = t.actor.lifecycle)
    (hlife : s.actor.lifecycle ≠ .running → t.actor.lifecycle = s.actor.lifecycle)
    (hclosed : t.actor.outputClosed = true ↔
      s.actor.outputClosed = true ∨ .outputClosed ∈ wire w)
    (hexit : ∀ status, t.tape.timedOut = false → t.actor.published ≠ s.actor.published →
      t.actor.published = .exited status → t.actor.outputClosed = true)
    (hw : wire s.inbox = wire w ++ wire t.inbox) (hr : t.reader = s.reader)
    (hreads : t.tape.reads = s.tape.reads)
    (hh : t.tape.handled = s.tape.handled ++ datas (wire w))
    (he : t.tape.exit =
      if t.actor.published = s.actor.published then s.tape.exit else some t.tape.handled)
    (ht : t.tape.timedOut = false → s.tape.timedOut = false) : Tracks t := by
  have hs : s.notices = s.tape.log := by simp [System.notices, idle, pending]
  have hn : t.notices = s.notices ++ wire w ++ notice s.actor t.actor := by
    rw [hs, System.notices, hlog, hp, List.append_assoc]
  have hlw : Substrate.lifecycles (wire w) = [] := by
    rw [← plain_wire, lifecycles_plain]
  have hmem : SessionEvent.outputClosed ∈ t.notices ↔
      SessionEvent.outputClosed ∈ s.notices ∨ SessionEvent.outputClosed ∈ wire w := by
    rw [← mem_plain, hn, plain_append, plain_append, plain_notice, plain_wire, List.append_nil,
      List.mem_append, mem_plain]
  have hc : t.actor.outputClosed = true ↔ SessionEvent.outputClosed ∈ t.notices := by
    rw [hclosed, hmem, h.closed]
  constructor
  · rw [hn, plain_append, plain_append, plain_notice, plain_wire, List.append_nil, hr,
      List.append_assoc _ _ (wire t.inbox), ← hw, h.plain]
    simp [System.said, hr, hreads]
  · rw [hh, hn, datas_append, datas_append, datas_notice, List.append_nil, h.handled]
  · exact hc
  · rw [hn, lifecycles_append, lifecycles_append, hlw, h.lifecycles]
    by_cases hb : t.actor.published = s.actor.published
    · simp [notice, hb, Substrate.lifecycles]
    · have hbl := hpub.resolve_left hb
      have ha : s.actor.published = .running := by
        rcases h.trails with ha | ha
        · exact ha
        · by_contra hne
          rw [ha] at hne
          exact hb (by rw [hbl, hlife hne, ha])
      have hbr : t.actor.published ≠ .running := fun hbr ↦ hb (by rw [hbr, ha])
      simp [notice, ha, hbr, Substrate.lifecycles]
  · rcases hpub with hb | hb
    · rcases h.trails with ha | ha
      · exact .inl (hb.trans ha)
      · by_cases hrun : s.actor.lifecycle = .running
        · exact .inl (by rw [hb, ha, hrun])
        · exact .inr (by rw [hb, ha, hlife hrun])
    · exact .inr hb
  · intro status hst
    by_cases hb : t.actor.published = s.actor.published
    · obtain ⟨pre, post, hpre, hex, hto⟩ := h.exit status (hb ▸ hst)
      refine ⟨pre, post ++ (wire w ++ notice s.actor t.actor), ?_, ?_, fun hf ↦ hto (ht hf)⟩
      · rw [hn, hpre, hb]
        simp
      · rw [he, if_pos hb, hex]
    · refine ⟨s.notices ++ wire w, [], ?_, ?_, fun hf ↦ ?_⟩
      · rw [hn, notice, if_neg hb]
      · rw [he, if_neg hb, hh, datas_append, h.handled]
      · rw [List.mem_append, ← hmem]
        exact hc.mp (hexit status hf hb hst)
  · obtain ⟨rest, hrest⟩ := h.head
    exact ⟨rest ++ (wire w ++ notice s.actor t.actor), by rw [hn, hrest]; simp⟩

end Tracks

/-! ### Every step -/

variable {size : Nat} {s t : System}

private theorem ReaderStep.tracks (h : Tracks s) (hs : ReaderStep s t) : Tracks t := by
  cases hs with
  | room hp =>
    exact h.of_eq rfl rfl (by rw [hp]; rfl) (by simp [System.said, System.withReader, hp]) rfl rfl
      rfl rfl rfl rfl
  | read chunk hp =>
    have hpl := h.plain
    simp only [hp, System.said, ReaderPhase.hand, List.append_nil, reduceCtorEq, if_false] at hpl
    refine ⟨?_, h.handled, h.closed, h.lifecycles, h.trails, h.exit, h.head⟩
    change plain s.notices ++ wire s.inbox ++ [.data chunk] =
      (s.tape.reads ++ [chunk]).map .data ++ []
    rw [hpl]
    simp
  | retry hp =>
    exact h.of_eq rfl rfl (by rw [hp]; rfl) (by simp [System.said, System.withReader, hp]) rfl rfl
      rfl rfl rfl rfl
  | reserve chunk hp =>
    have hn : ∀ u : System, ∀ n, (u.reserve n).notices = u.notices ∧
        (u.reserve n).inbox = u.inbox ∧ (u.reserve n).reader = u.reader ∧
        (u.reserve n).tape = u.tape ∧ (u.reserve n).actor = u.actor := by
      intro u n
      unfold System.reserve
      split
      · exact ⟨rfl, rfl, rfl, rfl, rfl⟩
      · split <;> exact ⟨rfl, rfl, rfl, rfl, rfl⟩
    obtain ⟨h1, h2, h3, h4, h5⟩ := hn (s.withReader (.reserved chunk)) chunk.length
    refine h.of_eq h1 (by rw [h2]; rfl) (by rw [h3, hp]; rfl) ?_ (by rw [h4]; rfl)
      (by rw [h4]; rfl) (by rw [h4]; rfl) (by rw [h5]; rfl) (by rw [h5]; rfl) (by rw [h5]; rfl)
    rw [System.said, h3, h4]
    simp [System.said, System.withReader, hp]
  | send chunk hp =>
    have hpl := h.plain
    simp only [hp, System.said, ReaderPhase.hand, reduceCtorEq, if_false] at hpl
    refine ⟨?_, h.handled, h.closed, h.lifecycles, h.trails, h.exit, h.head⟩
    change plain s.notices ++ wire (s.inbox ++ [.output chunk]) ++ [] =
      s.tape.reads.map .data ++ []
    rw [← hpl]
    simp [wire]
  | close hp =>
    have hpl := h.plain
    simp only [hp, System.said, ReaderPhase.hand, reduceCtorEq, if_false] at hpl
    refine ⟨?_, h.handled, h.closed, h.lifecycles, h.trails, h.exit, h.head⟩
    change plain s.notices ++ wire (s.inbox ++ [.readerClosed]) ++ [] =
      s.tape.reads.map .data ++ [.outputClosed]
    rw [wire_append, ← List.append_assoc, ← List.append_nil (plain s.notices ++ wire s.inbox),
      hpl]
    simp [wire]

private theorem ReaperStep.tracks (h : Tracks s) (hs : ReaperStep s t) : Tracks t := by
  cases hs with
  | report =>
    refine h.of_eq rfl ?_ rfl rfl rfl rfl rfl rfl rfl rfl
    simp [wire]
  | exited | lock | collect | wait | mark =>
    exact h.of_eq rfl rfl rfl rfl rfl rfl rfl rfl rfl rfl

private theorem WriterStep.tracks (h : Tracks s) (hs : WriterStep s t) : Tracks t := by
  cases hs <;> exact h.of_eq rfl rfl rfl rfl rfl rfl rfl rfl rfl rfl

private theorem ClientStep.tracks (h : Tracks s) (hs : ClientStep size s t) : Tracks t := by
  cases hs with
  | request | query | attach | loseOwnership | dropOwner =>
    refine h.of_eq rfl ?_ rfl rfl rfl rfl rfl rfl rfl rfl
    simp [wire]
  | attached | rejected | clone | drop | recv | dropStream =>
    exact h.of_eq rfl rfl rfl rfl rfl rfl rfl rfl rfl rfl

private theorem tape_note (t : Tape) (a b : Actor) :
    (t.note a b).log = t.log ∧ (t.note a b).reads = t.reads ∧ (t.note a b).handled = t.handled ∧
      (t.note a b).timedOut = t.timedOut ∧
      (t.note a b).exit = if b.published = a.published then t.exit else some t.handled := by
  unfold Tape.note
  split <;> exact ⟨rfl, rfl, rfl, rfl, rfl⟩

private theorem tape_take (t : Tape) (c : Command) :
    (t.take c).log = t.log ∧ (t.take c).reads = t.reads ∧
      (t.take c).handled = t.handled ++ datas (wire [c]) ∧ (t.take c).timedOut = t.timedOut ∧
      (t.take c).exit = t.exit := by
  cases c <;> simp [Tape.take, wire, datas]

private theorem tracks_receive (h : Tracks s) (idle : s.actor.effects = []) {c : Command}
    {rest : List Command} (hi : s.inbox = c :: rest) : Tracks (s.take c rest) := by
  have hc : s.actor.outputClosed = true → wire [c] = [] := by
    intro hc
    have hw := h.wire_eq_nil hc
    rw [hi, ← List.singleton_append, wire_append, List.append_eq_nil_iff] at hw
    exact hw.1
  obtain ⟨h1, h2, h3, h4, h5⟩ := tape_note (s.tape.take c) s.actor (s.actor.handle c)
  obtain ⟨g1, g2, g3, g4, g5⟩ := tape_take s.tape c
  refine h.act idle [c] (h1.trans g1) (Actor.pending_handle idle c hc) (Actor.published_handle c)
    (Actor.lifecycle_handle c) ?_ ?_ ?_ rfl (h2.trans g2) (h3.trans g3) ?_ ?_
  · change (s.actor.handle c).outputClosed = true ↔ _
    rw [Actor.outputClosed_handle]
    cases c <;> simp [wire]
  · intro status _ hne hst
    exact Actor.exited_handle c status hne hst
  · rw [hi, ← List.singleton_append, wire_append]
    rfl
  · refine h5.trans ?_
    rw [g5]
    change _ = if (s.actor.handle c).published = s.actor.published then _ else
      some ((s.tape.take c).note s.actor (s.actor.handle c)).handled
    rw [h3]
  · intro hf
    rw [← g4, ← h4]
    exact hf

private theorem ActorStep.tracks (h : Tracks s) (hs : ActorStep size s t) : Tracks t := by
  cases hs with
  | receive c rest idle _ hi => exact tracks_receive h idle hi
  | timeout idle =>
    obtain ⟨h1, h2, h3, _, h5⟩ := tape_note s.tape s.actor s.actor.publishLifecycle
    refine h.act idle [] h1 (Actor.pending_publishLifecycle idle)
      (.inr ?_) (fun _ ↦ Actor.lifecycle_publishLifecycle) ?_ ?_ rfl rfl h2 ?_ ?_ ?_
    · simp
    · simp [wire]
    · intro _ hf
      cases hf
    · simpa [wire, datas] using h3
    · refine h5.trans ?_
      change _ = if s.actor.publishLifecycle.published = s.actor.published then _ else
        some (s.tape.note s.actor s.actor.publishLifecycle).handled
      rw [h3]
    · intro hf
      cases hf
  | disconnected idle _ hi reader =>
    obtain ⟨h1, h2, h3, h4, h5⟩ := tape_note s.tape s.actor s.actor.finish
    refine h.act idle [] h1 (Actor.pending_finish idle)
      (.inr ?_) (fun _ ↦ Actor.lifecycle_finish) ?_ ?_ rfl rfl h2 ?_ ?_ ?_
    · simp
    · simp [wire]
    · intro _ _ _ _
      change s.actor.finish.outputClosed = true
      have hp := h.plain
      rw [hi, reader, System.said, reader, if_pos rfl] at hp
      simp only [wire, ReaderPhase.hand, List.append_nil] at hp
      rw [Actor.outputClosed_finish, h.closed, ← mem_plain, hp]
      simp
    · simpa [wire, datas] using h3
    · refine h5.trans ?_
      change _ = if s.actor.finish.published = s.actor.published then _ else
        some (s.tape.note s.actor s.actor.finish).handled
      rw [h3]
    · intro hf
      rw [← h4]
      exact hf
  | broadcast e rest hq =>
    refine h.of_eq ?_ rfl rfl rfl rfl rfl rfl rfl rfl rfl
    simp [System.notices, System.proceed, hq, pending]
  | leave rest hq =>
    refine h.of_eq ?_ rfl rfl rfl rfl rfl rfl rfl rfl rfl
    simp [System.notices, hq, pending]
  | told e rest hq =>
    refine h.of_eq ?_ rfl rfl rfl rfl rfl rfl rfl rfl rfl
    simp [System.notices, System.proceed, hq, pending]
  | tell e i todo rest st hq =>
    refine h.of_eq ?_ rfl rfl rfl rfl rfl rfl rfl rfl rfl
    simp [System.notices, System.proceed, System.withStream, hq, pending]
  | detach e i todo rest st hq =>
    refine h.of_eq ?_ rfl rfl rfl rfl rfl rfl rfl rfl rfl
    simp [System.notices, System.withStream, hq, pending]
  | enrol i rest st hq =>
    refine h.of_eq ?_ rfl rfl rfl rfl rfl rfl rfl rfl rfl
    simp [System.notices, System.withStream, hq, pending]
  | refuse i rest st hq | forget i rest st hq =>
    refine h.of_eq ?_ rfl rfl rfl rfl rfl rfl rfl rfl rfl
    simp [System.notices, System.proceed, System.withStream, hq, pending]
  | closeGate _ rest hq | submit _ _ rest hq | full _ _ rest hq | gone _ _ rest hq
  | resize _ _ rest _ hq | nobody _ _ _ rest hq | lock _ _ _ rest hq | late _ _ _ rest hq
  | kill _ _ _ rest _ _ hq | answer _ _ rest hq =>
    refine h.of_eq ?_ rfl rfl rfl rfl rfl rfl rfl rfl rfl
    simp [System.notices, System.proceed, hq, pending]

/-- The notices keep their order in every step. -/
theorem Step.tracks (h : Tracks s) (hs : Step size s t) : Tracks t := by
  cases hs with
  | reader hs => exact hs.tracks h
  | reaper hs => exact hs.tracks h
  | writer hs => exact hs.tracks h
  | client hs => exact hs.tracks h
  | actor hs => exact hs.tracks h

theorem tracks_start (session : SessionRef) (pid : Option Nat) (capacity : Option Nat) :
    Tracks (.start session pid capacity) := by
  refine ⟨rfl, rfl, ?_, rfl, .inl rfl, fun status h ↦ ?_, ⟨[], rfl⟩⟩
  · simp [System.start, Actor.start, System.notices, pending]
  · simp [System.start, Actor.start] at h

end PtySpec.Substrate
