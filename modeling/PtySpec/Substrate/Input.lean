import PtySpec.Substrate.Requests

/-!
# Input and signals

The writer takes the jobs in the order they were accepted, writes each from its start and
answers it, and writes nothing once it has seen the gate closed. A signal is sent under the
lock of the child, and only to a child that is not collected.
-/

namespace PtySpec.Substrate

variable {size : Nat} {s t : System}

/-! ### The writer -/

/-- What of the job at hand is written. -/
def WriterPhase.part : WriterPhase → List UInt8
  | .writing _ part _ | .waiting _ part _ | .replying _ part _ => part
  | _ => []

/-- Whether bytes of a job may still be written. -/
def WriterPhase.writes : WriterPhase → Bool
  | .writing _ _ _ | .waiting _ _ _ => true
  | _ => false

/-- An answer that fits what was written of a job. -/
structure Fits (job : InputJob) (part : List UInt8) (answer : Answer) : Prop where
  start : part <+: job.bytes
  ok : answer = .ok → part = job.bytes
  written : answer ≠ .refused .inputBackpressure

/-- What is written of the job at hand is its start. -/
def WriterPhase.Sound : WriterPhase → Prop
  | .writing job part rest | .waiting job part rest => part ++ rest = job.bytes
  | .replying job part answer => Fits job part answer
  | _ => True

/-- The jobs in their order, and what was written of them. -/
structure Written (s : System) : Prop where
  accepted : s.input.accepted =
    s.input.done.map Done.job ++ s.input.writer.jobs ++ s.input.jobs
  written : s.input.written = (s.input.done.map Done.part).flatten ++ s.input.writer.part
  done : ∀ d ∈ s.input.done,
    Fits d.job d.part d.answer ∧ (d.job.reply, d.answer) ∈ s.desk.answers
  writer : s.input.writer.Sound
  gate : s.input.gate ≠ some .inputBackpressure
  reasons : .closeGate .inputBackpressure ∉ s.actor.effects
  full : ∀ r, Refused s r .inputBackpressure → ∀ job ∈ s.input.accepted, job.reply ≠ r
  seen : s.input.seenClosed = true → s.input.gate ≠ none ∧ s.input.writer.writes = false
  finish : s.input.writer = .done → s.input.jobs = [] ∧ s.input.hungUp = true

/-- What the writer's account depends on. -/
private theorem Written.of_eq (h : Written s) (hi : t.input = s.input)
    (ha : t.desk.answers = s.desk.answers)
    (hc : .closeGate .inputBackpressure ∈ t.actor.effects →
      .closeGate .inputBackpressure ∈ s.actor.effects)
    (hr : ∀ r, .answer r (.refused .inputBackpressure) ∈ t.actor.effects →
      Refused s r .inputBackpressure) : Written t where
  accepted := by rw [hi, h.accepted]
  written := by rw [hi, h.written]
  done := by rw [hi, ha]; exact h.done
  writer := by rw [hi]; exact h.writer
  gate := by rw [hi]; exact h.gate
  reasons hm := h.reasons (hc hm)
  full r hm := by
    rw [hi]
    exact h.full r (hm.elim (hr r) fun hm ↦ .inr (ha ▸ hm))
  seen := by rw [hi]; exact h.seen
  finish := by rw [hi]; exact h.finish

/-- An accepted job has been answered, or it is with the writer. -/
private theorem Written.place (h : Written s) {job : InputJob} (hj : job ∈ s.input.accepted) :
    (∃ a, (job.reply, a) ∈ s.desk.answers) ∨
      job.reply ∈ (s.input.writer.jobs ++ s.input.jobs).map InputJob.reply := by
  rw [h.accepted, List.append_assoc, List.mem_append] at hj
  rcases hj with hj | hj
  · obtain ⟨d, hd, rfl⟩ := List.mem_map.mp hj
    exact .inl ⟨d.answer, (h.done d hd).2⟩
  · exact .inr (List.mem_map_of_mem hj)

/-- A reply with the actor is not one of an accepted job. -/
private theorem Written.not_accepted (h : Written s) (ha : Accounted s) {e : Effect}
    (he : e ∈ s.actor.effects) {r : Nat} (hr : r ∈ e.replies) {job : InputJob}
    (hj : job ∈ s.input.accepted) : job.reply ≠ r := by
  rintro rfl
  have hu := mem_unanswered_of_effects he hr
  rcases h.place hj with ⟨a, hans⟩ | hw
  · exact ha.not_answered hu a hans
  · have h1 := List.count_pos_iff.mpr hw
    have h2 : 0 < (s.actor.effects.flatMap Effect.replies).count job.reply :=
      List.count_pos_iff.mpr (List.mem_flatMap.mpr ⟨e, he, hr⟩)
    have h3 := ha.count job.reply
    have h4 := List.nodup_iff_count_le_one.mp ha.nodup job.reply
    simp only [System.unanswered, List.count_append] at h3
    rw [List.map_append, List.count_append] at h1
    simp only [List.map_append, List.count_append] at h3
    omega

private theorem not_backpressure_handle {a : Actor} (h : a.effects = []) (c : Command) :
    .closeGate .inputBackpressure ∉ (a.handle c).effects ∧
      ∀ r, .answer r (.refused .inputBackpressure) ∉ (a.handle c).effects := by
  have hcheck : ∀ session e, a.check session = .error e → e ≠ .inputBackpressure := by
    intro session e he
    unfold Actor.check at he
    split at he <;> cases he
    simp
  cases c with
  | request session kind reply =>
    have hrun : ∀ e, a.isRunning = .error e → e ≠ .inputBackpressure := by
      intro e he
      unfold Actor.isRunning at he
      split at he <;> cases he <;> simp
    cases hs : a.check session with
    | error e =>
      have := hcheck _ _ hs
      have hb : (a.check session >>= fun _ ↦ a.isRunning) = .error e := by rw [hs]; rfl
      simp [Actor.handle, hb, Actor.emit, h, this.symm]
    | ok =>
      cases hr : a.isRunning with
      | error e =>
        have := hrun _ hr
        have hb : (a.check session >>= fun _ ↦ a.isRunning) = .error e := by rw [hs, hr]; rfl
        simp [Actor.handle, hb, Actor.emit, h, this.symm]
      | ok =>
        have hb : (a.check session >>= fun _ ↦ a.isRunning) = .ok () := by rw [hs, hr]; rfl
        cases kind <;> simp [Actor.handle, hb, Actor.accept, Actor.emit, h]
  | query session reply =>
    cases hs : a.check session with
    | error e =>
      have := hcheck _ _ hs
      simp [Actor.handle, hs, Actor.emit, h, this.symm]
    | ok => simp [Actor.handle, hs, Actor.emit, h]
  | attach session attachment reply =>
    cases hs : a.check session with
    | error e =>
      have := hcheck _ _ hs
      simp [Actor.handle, hs, Actor.emit, h, this.symm]
    | ok => simp [Actor.handle, hs, Actor.emit, h]
  | output bytes => by_cases ho : a.outputClosed <;> simp [Actor.handle, ho, Actor.emit, h]
  | reaped status =>
    by_cases hl : a.lifecycle = .running <;> by_cases ho : a.outputClosed <;>
      by_cases hp : a.published = .exited status <;>
      simp [Actor.handle, hl, ho, hp, Actor.publishLifecycle, Actor.emit, h]
  | readerClosed =>
    by_cases hp : a.published = a.lifecycle <;>
      simp [Actor.handle, hp, Actor.publishLifecycle, Actor.emit, h]
  | ownerLost =>
    by_cases hl : a.lifecycle = .running <;> by_cases hp : a.published = .ownerLost <;>
      simp [Actor.handle, hl, hp, Actor.publishLifecycle, Actor.emit, h]

private theorem not_backpressure_finish {a : Actor} (h : a.effects = []) :
    (.closeGate .inputBackpressure ∉ a.publishLifecycle.effects ∧
      ∀ r, .answer r (.refused .inputBackpressure) ∉ a.publishLifecycle.effects) ∧
    (.closeGate .inputBackpressure ∉ a.finish.effects ∧
      ∀ r, .answer r (.refused .inputBackpressure) ∉ a.finish.effects) := by
  by_cases hp : a.published = a.lifecycle <;>
    simp [Actor.finish, Actor.publishLifecycle, Actor.emit, hp, h]

private theorem WriterStep.written (h : Written s) (hs : WriterStep s t) : Written t := by
  obtain ⟨hacc, hwr, hdone, hsound, hgate, hreasons, hfull, hseen, hover⟩ := h
  cases hs with
  | take job rest hw hj =>
    refine ⟨?_, ?_, hdone, trivial, hgate, hreasons, hfull, fun hc ↦ ⟨(hseen hc).1, rfl⟩, ?_⟩
    · simp [hacc, hw, hj, WriterPhase.jobs]
    · simp [hwr, hw, WriterPhase.part]
    · intro hd
      cases hd
  | look job hw hg =>
    refine ⟨?_, ?_, hdone, ?_, hgate, hreasons, hfull, fun hc ↦ absurd hg (hseen hc).1, ?_⟩
    · simp [System.withWriter, hacc, hw, WriterPhase.jobs]
    · simp [System.withWriter, hwr, hw, WriterPhase.part]
    · exact List.nil_append _
    · intro hd
      cases hd
  | lookClosed job reason hw hg =>
    refine ⟨?_, ?_, hdone, ?_, hgate, hreasons, hfull, fun _ ↦ ⟨by simp [System.seen, hg], rfl⟩,
      ?_⟩
    · simp [System.seen, hacc, hw, WriterPhase.jobs]
    · simp [System.seen, hwr, hw, WriterPhase.part]
    · refine ⟨List.nil_prefix, fun he ↦ (by cases he), fun he ↦ hgate ?_⟩
      cases he
      exact hg
    · intro hd
      cases hd
  | write job part new rest hw =>
    rw [hw] at hsound hseen
    refine ⟨?_, ?_, hdone, ?_, hgate, hreasons, hfull, fun hc ↦ ?_, ?_⟩
    · simp [hacc, hw, WriterPhase.jobs]
    · simp [hwr, hw, WriterPhase.part]
    · simpa [WriterPhase.Sound] using hsound
    · have := (hseen hc).2
      simp [WriterPhase.writes] at this
    · intro hd
      cases hd
  | finished job part hw =>
    rw [hw] at hsound
    simp only [WriterPhase.Sound, List.append_nil] at hsound
    refine ⟨?_, ?_, hdone, ⟨?_, fun _ ↦ hsound, by simp⟩, hgate, hreasons, hfull,
      fun hc ↦ ⟨(hseen hc).1, rfl⟩, ?_⟩
    · simp [System.withWriter, hacc, hw, WriterPhase.jobs]
    · simp [System.withWriter, hwr, hw, WriterPhase.part]
    · rw [hsound]
    · intro hd
      cases hd
  | failed job part rest message hw =>
    rw [hw] at hsound
    refine ⟨?_, ?_, hdone, ⟨⟨rest, hsound⟩, fun he ↦ (by cases he), by simp⟩, hgate, hreasons,
      hfull, fun hc ↦ ⟨(hseen hc).1, rfl⟩, ?_⟩
    · simp [System.withWriter, hacc, hw, WriterPhase.jobs]
    · simp [System.withWriter, hwr, hw, WriterPhase.part]
    · intro hd
      cases hd
  | wouldBlock job part rest hw =>
    rw [hw] at hsound hseen
    refine ⟨?_, ?_, hdone, hsound, hgate, hreasons, hfull, fun hc ↦ ?_, ?_⟩
    · simp [System.withWriter, hacc, hw, WriterPhase.jobs]
    · simp [System.withWriter, hwr, hw, WriterPhase.part]
    · have := (hseen hc).2
      simp [WriterPhase.writes] at this
    · intro hd
      cases hd
  | retry job part rest hw =>
    rw [hw] at hsound hseen
    refine ⟨?_, ?_, hdone, hsound, hgate, hreasons, hfull, fun hc ↦ ?_, ?_⟩
    · simp [System.withWriter, hacc, hw, WriterPhase.jobs]
    · simp [System.withWriter, hwr, hw, WriterPhase.part]
    · have := (hseen hc).2
      simp [WriterPhase.writes] at this
    · intro hd
      cases hd
  | waitClosed job part rest reason hw hg =>
    rw [hw] at hsound
    refine ⟨?_, ?_, hdone, ⟨⟨rest, hsound⟩, fun he ↦ (by cases he), fun he ↦ hgate ?_⟩, hgate,
      hreasons, hfull, fun _ ↦ ⟨by simp [System.seen, hg], rfl⟩, ?_⟩
    · simp [System.seen, hacc, hw, WriterPhase.jobs]
    · simp [System.seen, hwr, hw, WriterPhase.part]
    · cases he
      exact hg
    · intro hd
      cases hd
  | reply job part answer hw =>
    rw [hw] at hsound
    refine ⟨?_, ?_, ?_, trivial, hgate, hreasons, ?_, fun hc ↦ ⟨(hseen hc).1, rfl⟩, ?_⟩
    · simp [hacc, hw, WriterPhase.jobs]
    · simp [hwr, hw, WriterPhase.part]
    · intro d hd
      rcases List.mem_append.mp hd with hd | hd
      · exact ⟨(hdone d hd).1, List.mem_cons_of_mem _ (hdone d hd).2⟩
      · cases List.mem_singleton.mp hd
        exact ⟨hsound, List.mem_cons_self ..⟩
    · rintro r (hr | hr)
      · exact hfull r (.inl hr)
      · rcases List.mem_cons.mp hr with hr | hr
        · cases hr
          exact absurd rfl hsound.written
        · exact hfull r (.inr hr)
    · intro hd
      cases hd
  | leave hw hj hh =>
    refine ⟨?_, ?_, hdone, trivial, hgate, hreasons, hfull, fun hc ↦ ⟨(hseen hc).1, rfl⟩,
      fun _ ↦ ⟨hj, hh⟩⟩
    · simp [System.withWriter, hacc, hw, WriterPhase.jobs]
    · simp [System.withWriter, hwr, hw, WriterPhase.part]

/-- The next of the actor's effects is done, and nothing of the writer's account is changed. -/
private theorem Written.advance (h : Written s) {e : Effect} {rest : List Effect}
    (hq : s.actor.effects = e :: rest) (es : List Effect) (hes : t.actor.effects = es ++ rest)
    (hi : t.input = s.input) (ha : t.desk.answers = s.desk.answers)
    (hc : .closeGate .inputBackpressure ∉ es)
    (hr : ∀ r, .answer r (.refused .inputBackpressure) ∉ es) : Written t := by
  refine h.of_eq hi ha (fun hm ↦ ?_) (fun r hm ↦ .inl ?_)
  · rw [hes, List.mem_append] at hm
    rw [hq]
    exact List.mem_cons_of_mem _ (hm.resolve_left hc)
  · rw [hes, List.mem_append] at hm
    rw [hq]
    exact List.mem_cons_of_mem _ (hm.resolve_left (hr r))

private theorem not_backpressure_answerTo (reply : Option Nat) (message : Option String) :
    .closeGate .inputBackpressure ∉ answerTo reply (message.map .io) ∧
      ∀ r, .answer r (.refused .inputBackpressure) ∉ answerTo reply (message.map .io) := by
  cases reply <;> cases message <;> simp [answerTo, answerOf]

private theorem ActorStep.written (h : Written s) (ha : Accounted s)
    (hs : ActorStep size s t) : Written t := by
  cases hs with
  | receive c rest idle =>
    obtain ⟨hc, hr⟩ := not_backpressure_handle idle c
    have hd : (s.take c rest).desk.answers = s.desk.answers := by cases c <;> rfl
    exact h.of_eq rfl hd (fun hm ↦ absurd hm hc) (fun r hm ↦ absurd hm (hr r))
  | timeout idle =>
    obtain ⟨⟨hc, hr⟩, _⟩ := not_backpressure_finish idle
    exact h.of_eq rfl rfl (fun hm ↦ absurd hm hc) (fun r hm ↦ absurd hm (hr r))
  | disconnected idle =>
    obtain ⟨_, hc, hr⟩ := not_backpressure_finish idle
    exact h.of_eq rfl rfl (fun hm ↦ absurd hm hc) (fun r hm ↦ absurd hm (hr r))
  | broadcast _ rest hq | tell _ _ _ rest _ hq | refuse _ rest _ hq | gone _ _ rest hq
  | lock _ _ _ rest hq => exact h.advance hq [_] rfl rfl rfl (by simp) (by simp)
  | told _ rest hq | enrol _ rest _ hq | forget _ rest _ hq =>
    exact h.advance hq [] rfl rfl rfl (by simp) (by simp)
  | detach _ _ _ rest _ hq => exact h.advance hq [_, _] rfl rfl rfl (by simp) (by simp)
  | resize _ _ rest message hq =>
    exact h.advance hq [_] rfl rfl rfl (by simp) (by cases message <;> simp [answerOf])
  | nobody _ _ reply rest hq | late _ _ reply rest hq =>
    obtain ⟨hc, hr⟩ := not_backpressure_answerTo reply none
    exact h.advance hq _ rfl rfl rfl hc hr
  | kill _ _ reply rest _ message hq =>
    obtain ⟨hc, hr⟩ := not_backpressure_answerTo reply message
    exact h.advance hq _ rfl rfl rfl hc hr
  | leave rest hq =>
    obtain ⟨hacc, hwr, hdone, hsound, hgate, hreasons, hfull, hseen, hfin⟩ := h
    have hmem : ∀ e, (∀ i, e ≠ .forget i) → e ∈ s.actor.attachments.map .forget ++ rest →
        e ∈ s.actor.effects := by
      intro e he hm
      rw [hq]
      rcases List.mem_append.mp hm with hm | hm
      · obtain ⟨i, _, rfl⟩ := List.mem_map.mp hm
        exact absurd rfl (he i)
      · exact List.mem_cons_of_mem _ hm
    refine ⟨hacc, hwr, hdone, hsound, hgate, fun hm ↦ hreasons (hmem _ (by simp) hm), ?_, hseen,
      fun hd ↦ ⟨(hfin hd).1, rfl⟩⟩
    rintro r (hm | hm)
    · exact hfull r (.inl (hmem _ (by simp) hm))
    · exact hfull r (.inr hm)
  | closeGate reason rest hq =>
    obtain ⟨hacc, hwr, hdone, hsound, hgate, hreasons, hfull, hseen, hfin⟩ := h
    rw [hq] at hreasons
    refine ⟨hacc, hwr, hdone, hsound, ?_, fun hm ↦ hreasons (List.mem_cons_of_mem _ hm), ?_, ?_,
      hfin⟩
    · cases hg : s.input.gate with
      | none =>
        simp only [Input.close, hg, Option.none_or, ne_eq, Option.some.injEq]
        rintro rfl
        exact hreasons (List.mem_cons_self ..)
      | some e => simpa [System.proceed, Input.close, hg] using hgate
    · rintro r (hm | hm)
      · exact hfull r (.inl (by rw [hq]; exact List.mem_cons_of_mem _ hm))
      · exact hfull r (.inr hm)
    · intro hc
      refine ⟨?_, (hseen hc).2⟩
      cases hg : s.input.gate <;> simp [Input.close, hg]
  | submit bytes reply rest hq alive =>
    have hnot : ∀ r, Refused s r .inputBackpressure → reply ≠ r := by
      rintro r (hm | hm) rfl
      · rw [hq] at hm
        have hm := (List.mem_cons.mp hm).resolve_left (by simp)
        have h2 : 0 < (rest.flatMap Effect.replies).count reply :=
          List.count_pos_iff.mpr (List.mem_flatMap.mpr ⟨_, hm, by simp [Effect.replies]⟩)
        have h3 := ha.count reply
        have h4 := List.nodup_iff_count_le_one.mp ha.nodup reply
        simp only [System.unanswered, hq, List.flatMap_cons, Effect.replies, List.count_append,
          List.count_cons_self] at h3
        omega
      · exact ha.not_answered (mem_unanswered_of_effects (by rw [hq]; exact List.mem_cons_self ..)
          (by simp [Effect.replies])) _ hm
    obtain ⟨hacc, hwr, hdone, hsound, hgate, hreasons, hfull, hseen, hfin⟩ := h
    rw [hq] at hreasons
    refine ⟨?_, hwr, hdone, hsound, hgate, fun hm ↦ hreasons (List.mem_cons_of_mem _ hm), ?_,
      hseen, fun hd ↦ absurd hd alive⟩
    · simp [hacc]
    · intro r hr job hj
      have hs : Refused s r .inputBackpressure :=
        hr.imp (fun hm ↦ by rw [hq]; exact List.mem_cons_of_mem _ hm) id
      rcases List.mem_append.mp hj with hj | hj
      · exact hfull r hs job hj
      · cases List.mem_singleton.mp hj
        exact hnot r hs
  | full bytes reply rest hq =>
    have hnot : ∀ job ∈ s.input.accepted, job.reply ≠ reply := fun _ hj ↦
      h.not_accepted ha (e := .submit bytes reply) (by rw [hq]; exact List.mem_cons_self ..)
        (by simp [Effect.replies]) hj
    obtain ⟨hacc, hwr, hdone, hsound, hgate, hreasons, hfull, hseen, hfin⟩ := h
    rw [hq] at hreasons
    refine ⟨hacc, hwr, hdone, hsound, hgate, ?_, ?_, hseen, hfin⟩
    · intro hm
      rcases List.mem_cons.mp hm with hm | hm
      · cases hm
      · exact hreasons (List.mem_cons_of_mem _ hm)
    · rintro r (hm | hm)
      · rcases List.mem_cons.mp hm with hm | hm
        · cases hm
          exact hnot
        · exact hfull r (.inl (by rw [hq]; exact List.mem_cons_of_mem _ hm))
      · exact hfull r (.inr hm)
  | answer reply answer rest hq =>
    obtain ⟨hacc, hwr, hdone, hsound, hgate, hreasons, hfull, hseen, hfin⟩ := h
    rw [hq] at hreasons
    refine ⟨hacc, hwr, fun d hd ↦ ⟨(hdone d hd).1, List.mem_cons_of_mem _ (hdone d hd).2⟩,
      hsound, hgate, fun hm ↦ hreasons (List.mem_cons_of_mem _ hm), ?_, hseen, hfin⟩
    rintro r (hm | hm)
    · exact hfull r (.inl (by rw [hq]; exact List.mem_cons_of_mem _ hm))
    · rcases List.mem_cons.mp hm with hm | hm
      · cases hm
        exact hfull reply (.inl (by rw [hq]; exact List.mem_cons_self ..))
      · exact hfull r (.inr hm)

/-- The writer's account is kept in every step. -/
theorem Step.written (h : Written s) (ha : Accounted s) (hs : Step size s t) : Written t := by
  cases hs with
  | reader hs =>
    cases hs with
    | reserve chunk =>
      obtain ⟨h1, _, h3, h4⟩ := reserve_desk (s.withReader (.reserved chunk)) chunk.length
      exact h.of_eq (by rw [h4]; rfl) (by rw [h1]; rfl) (by rw [h3]; exact id)
        (by rw [h3]; exact fun _ hm ↦ .inl hm)
    | room | read | retry | send | close => exact h.of_eq rfl rfl id fun _ hm ↦ .inl hm
  | reaper hs => cases hs <;> exact h.of_eq rfl rfl id fun _ hm ↦ .inl hm
  | writer hs => exact hs.written h
  | client hs => cases hs <;> exact h.of_eq rfl rfl id fun _ hm ↦ .inl hm
  | actor hs => exact hs.written h ha

/-- Nothing is written from the moment the writer has seen the gate closed. -/
theorem Step.seen (h : Written s) (hc : s.input.seenClosed = true) (hs : Step size s t) :
    t.input.seenClosed = true ∧ t.input.written = s.input.written := by
  cases hs with
  | reader hs =>
    cases hs with
    | reserve chunk =>
      obtain ⟨_, _, _, h4⟩ := reserve_desk (s.withReader (.reserved chunk)) chunk.length
      rw [h4]
      exact ⟨hc, rfl⟩
    | room | read | retry | send | close => exact ⟨hc, rfl⟩
  | reaper hs => cases hs <;> exact ⟨hc, rfl⟩
  | writer hs =>
    cases hs with
    | write job part new rest hw =>
      have := (h.seen hc).2
      rw [hw] at this
      cases this
    | lookClosed | waitClosed => exact ⟨rfl, rfl⟩
    | take | look | finished | failed | wouldBlock | retry | reply | leave => exact ⟨hc, rfl⟩
  | client hs => cases hs <;> exact ⟨hc, rfl⟩
  | actor hs => cases hs <;> exact ⟨hc, rfl⟩

/-- How many steps the writer still takes, at most, when the gate is closed. -/
def Input.rank (i : Input) : Nat :=
  3 * i.jobs.length +
    match i.writer with
    | .idle => 1
    | .checking _ => 3
    | .writing _ _ rest => 4 + rest.length
    | .waiting _ _ _ => 3
    | .replying _ _ _ => 2
    | .done => 0

/-- With the gate closed the writer comes to an end. -/
theorem WriterStep.rank (hs : WriterStep s t) (hg : s.input.gate ≠ none) :
    t.input.rank < s.input.rank := by
  cases hs with
  | take job rest hw hj =>
    simp only [Input.rank, hw, hj, List.length_cons]
    omega
  | look job hw gate => exact absurd gate hg
  | retry job part rest hw gate => exact absurd gate hg
  | write job part new rest hw hne =>
    have := List.length_pos_iff.mpr hne
    simp only [Input.rank, hw, List.length_append]
    omega
  | lookClosed job reason hw | finished job part hw | failed job part rest message hw
  | wouldBlock job part rest hw | waitClosed job part rest reason hw =>
    simp only [Input.rank, System.seen, System.withWriter, hw]
    omega
  | reply job part answer hw =>
    simp only [Input.rank, hw]
    omega
  | leave hw =>
    simp only [Input.rank, System.withWriter, hw]
    omega

/-- A writer that cannot go on has answered every job. -/
theorem Written.answered (h : Written s) (hstuck : ∀ t, ¬ WriterStep s t) {job : InputJob}
    (hj : job ∈ s.input.accepted) : ∃ a, (job.reply, a) ∈ s.desk.answers := by
  rcases h.place hj with ha | hw
  · exact ha
  · exfalso
    cases hp : s.input.writer with
    | idle =>
      cases hjobs : s.input.jobs with
      | nil => simp [hp, hjobs, WriterPhase.jobs] at hw
      | cons job rest => exact hstuck _ (.take job rest hp hjobs)
    | checking job =>
      cases hg : s.input.gate with
      | none => exact hstuck _ (.look job hp hg)
      | some reason => exact hstuck _ (.lookClosed job reason hp hg)
    | writing job part rest =>
      cases rest with
      | nil => exact hstuck _ (.finished job part hp)
      | cons b rest => exact hstuck _ (.wouldBlock job part _ hp (by simp))
    | waiting job part rest =>
      cases hg : s.input.gate with
      | none => exact hstuck _ (.retry job part rest hp hg)
      | some reason => exact hstuck _ (.waitClosed job part rest reason hp hg)
    | replying job part answer => exact hstuck _ (.reply job part answer hp)
    | done => simp [hp, WriterPhase.jobs, (h.finish hp).1] at hw

/-! ### Signals -/

/-- A signal under way. -/
def Effect.isKill : Effect → Bool
  | .kill _ _ _ => true
  | _ => false

/-- The lock of the child keeps signals and the collection of the child apart. -/
structure Fenced (s : System) : Prop where
  collected : s.child.collected = true → s.child.pid ≠ none →
    s.child.lock = some .reaper ∨ s.child.reaped = true
  locked : s.child.reaper = .locked → s.child.lock = some .reaper
  held : ∀ status, s.child.reaper = .collected status → s.child.pid ≠ none →
    s.child.lock = some .reaper
  kill : ∀ e ∈ s.actor.effects, e.isKill = true → s.child.lock = some .actor
  solo : ∀ e ∈ s.actor.effects.tail, e.isKill = false
  kills : ∀ k ∈ s.child.kills, k.collected = false ∧ s.child.pid = some k.pid

private theorem not_kill_handle {a : Actor} (h : a.effects = []) (c : Command) :
    ∀ e ∈ (a.handle c).effects, e.isKill = false := by
  cases c with
  | request session kind reply =>
    cases hr : (a.check session >>= fun _ ↦ a.isRunning) <;> cases kind <;>
      simp [Actor.handle, hr, Actor.accept, Actor.emit, h, Effect.isKill]
  | query session reply =>
    cases hr : a.check session <;> simp [Actor.handle, hr, Actor.emit, h, Effect.isKill]
  | attach session attachment reply =>
    cases hr : a.check session <;> simp [Actor.handle, hr, Actor.emit, h, Effect.isKill]
  | output bytes =>
    by_cases ho : a.outputClosed <;> simp [Actor.handle, ho, Actor.emit, h, Effect.isKill]
  | reaped status =>
    by_cases hl : a.lifecycle = .running <;> by_cases ho : a.outputClosed <;>
      by_cases hp : a.published = .exited status <;>
      simp [Actor.handle, hl, ho, hp, Actor.publishLifecycle, Actor.emit, h, Effect.isKill]
  | readerClosed =>
    by_cases hp : a.published = a.lifecycle <;>
      simp [Actor.handle, hp, Actor.publishLifecycle, Actor.emit, h, Effect.isKill]
  | ownerLost =>
    by_cases hl : a.lifecycle = .running <;> by_cases hp : a.published = .ownerLost <;>
      simp [Actor.handle, hl, hp, Actor.publishLifecycle, Actor.emit, h, Effect.isKill]

private theorem not_kill_finish {a : Actor} (h : a.effects = []) :
    (∀ e ∈ a.publishLifecycle.effects, e.isKill = false) ∧
      ∀ e ∈ a.finish.effects, e.isKill = false := by
  by_cases hp : a.published = a.lifecycle <;>
    simp [Actor.finish, Actor.publishLifecycle, Actor.emit, hp, h, Effect.isKill]

private theorem not_kill_answerTo (reply : Option Nat) (error : Option SessionError) :
    ∀ e ∈ answerTo reply error, e.isKill = false := by
  cases reply <;> simp [answerTo, Effect.isKill]

/-- The actor does something else than to send a signal. -/
private theorem Fenced.calm (h : Fenced s) (hc : t.child = s.child)
    (he : ∀ e ∈ t.actor.effects, e.isKill = false) : Fenced t where
  collected := hc ▸ h.collected
  locked := hc ▸ h.locked
  held := hc ▸ h.held
  kill e hm hk := by rw [he e hm] at hk; cases hk
  solo e hm := he e (List.mem_of_mem_tail hm)
  kills := hc ▸ h.kills

/-- The next of the actor's effects is done. -/
private theorem Fenced.advance (h : Fenced s) {e : Effect} {rest : List Effect}
    (hq : s.actor.effects = e :: rest) (es : List Effect) (hes : t.actor.effects = es ++ rest)
    (hc : t.child = s.child) (hk : ∀ e ∈ es, e.isKill = false) : Fenced t := by
  refine h.calm hc fun f hf ↦ ?_
  rw [hes, List.mem_append] at hf
  exact hf.elim (hk f) fun hf ↦ h.solo f (by rw [hq]; exact hf)

/-- The lock is given back after a signal, or after it was not sent. -/
private theorem Fenced.unlock (h : Fenced s) {e : Effect} {rest : List Effect}
    (hq : s.actor.effects = e :: rest) (he : e.isKill = true) (es : List Effect)
    (hes : t.actor.effects = es ++ rest) (kills : List Kill)
    (hc : t.child = { s.child with lock := none, kills := s.child.kills ++ kills })
    (hk : ∀ e ∈ es, e.isKill = false)
    (hnew : ∀ k ∈ kills, k.collected = false ∧ s.child.pid = some k.pid) : Fenced t := by
  have hlock := h.kill e (by rw [hq]; exact List.mem_cons_self ..) he
  have hcalm : ∀ f ∈ t.actor.effects, f.isKill = false := by
    intro f hf
    rw [hes, List.mem_append] at hf
    exact hf.elim (hk f) fun hf ↦ h.solo f (by rw [hq]; exact hf)
  constructor
  · rw [hc]
    intro hcol hpid
    rcases h.collected hcol hpid with hl | hr
    · rw [hlock] at hl
      cases hl
    · exact .inr hr
  · rw [hc]
    intro hl
    have := h.locked hl
    rw [hlock] at this
    cases this
  · rw [hc]
    intro status hst hpid
    have := h.held status hst hpid
    rw [hlock] at this
    cases this
  · intro f hf hkf
    rw [hcalm f hf] at hkf
    cases hkf
  · exact fun f hf ↦ hcalm f (List.mem_of_mem_tail hf)
  · rw [hc]
    intro k hm
    exact (List.mem_append.mp hm).elim (h.kills k) (hnew k)

private theorem ReaperStep.fenced (h : Fenced s) (hs : ReaperStep s t) : Fenced t := by
  obtain ⟨hcol, hloc, hheld, hkill, hsolo, hkills⟩ := h
  cases hs with
  | exited hr =>
    exact ⟨hcol, fun he ↦ (by cases he), fun _ he ↦ (by cases he), hkill, hsolo, hkills⟩
  | lock hr free =>
    refine ⟨fun hc hp ↦ .inl rfl, fun _ ↦ rfl, fun _ he ↦ (by cases he), fun e he hk ↦ ?_, hsolo,
      hkills⟩
    have := hkill e he hk
    rw [free] at this
    cases this
  | collect status hr =>
    exact ⟨fun _ _ ↦ .inl (hloc hr), fun he ↦ (by cases he), fun _ _ _ ↦ hloc hr, hkill, hsolo,
      hkills⟩
  | wait status hr pid =>
    exact ⟨fun _ hp ↦ absurd pid hp, fun he ↦ (by cases he), fun _ _ hp ↦ absurd pid hp, hkill,
      hsolo, hkills⟩
  | mark status hr own =>
    refine ⟨fun _ _ ↦ .inr rfl, fun he ↦ (by cases he), fun _ he ↦ (by cases he), fun e he hk ↦ ?_,
      hsolo, hkills⟩
    exact absurd (hkill e he hk) own
  | report status hr =>
    exact ⟨hcol, fun he ↦ (by cases he), fun _ he ↦ (by cases he), hkill, hsolo, hkills⟩

private theorem ActorStep.fenced (h : Fenced s) (hs : ActorStep size s t) : Fenced t := by
  cases hs with
  | receive c rest idle => exact h.calm rfl (not_kill_handle idle c)
  | timeout idle => exact h.calm rfl (not_kill_finish idle).1
  | disconnected idle => exact h.calm rfl (not_kill_finish idle).2
  | broadcast _ rest hq | tell _ _ _ rest _ hq | refuse _ rest _ hq | full _ _ rest hq
  | gone _ _ rest hq | resize _ _ rest _ hq =>
    exact h.advance hq [_] rfl rfl (by simp [Effect.isKill])
  | told _ rest hq | enrol _ rest _ hq | forget _ rest _ hq | closeGate _ rest hq
  | submit _ _ rest hq | answer _ _ rest hq => exact h.advance hq [] rfl rfl (by simp)
  | detach _ _ _ rest _ hq => exact h.advance hq [_, _] rfl rfl (by simp [Effect.isKill])
  | nobody _ _ reply rest hq => exact h.advance hq _ rfl rfl (not_kill_answerTo _ _)
  | leave rest hq => exact h.advance hq _ rfl rfl (by simp [Effect.isKill])
  | lock _ _ _ rest hq _ free =>
    obtain ⟨hcol, hloc, hheld, hkill, hsolo, hkills⟩ := h
    refine ⟨fun hc hp ↦ ?_, fun he ↦ ?_, fun st he hp ↦ ?_, fun _ _ _ ↦ rfl, ?_, hkills⟩
    · rcases hcol hc hp with hl | hr
      · rw [free] at hl
        cases hl
      · exact .inr hr
    · have := hloc he
      rw [free] at this
      cases this
    · have := hheld st he hp
      rw [free] at this
      cases this
    · rw [hq] at hsolo
      exact hsolo
  | late _ _ reply rest hq =>
    exact h.unlock hq rfl _ rfl [] (by simp) (not_kill_answerTo _ _) (by simp)
  | kill signal group reply rest pid message hq live target =>
    refine h.unlock hq rfl _ rfl [⟨pid, group, signal, s.child.collected⟩] rfl
      (not_kill_answerTo _ _) fun k hk ↦ ?_
    cases List.mem_singleton.mp hk
    refine ⟨?_, target⟩
    by_contra hc
    have hlock := h.kill _ (by rw [hq]; exact List.mem_cons_self ..) rfl
    rcases h.collected (by simpa using hc) (by simp [target]) with hl | hr
    · rw [hlock] at hl
      cases hl
    · rw [live] at hr
      cases hr

/-- Signals stay apart from the collection of the child in every step. -/
theorem Step.fenced (h : Fenced s) (hs : Step size s t) : Fenced t := by
  have of_eq : t.child = s.child → t.actor.effects = s.actor.effects → Fenced t := by
    intro hc he
    obtain ⟨h1, h2, h3, h4, h5, h6⟩ := h
    exact ⟨hc ▸ h1, hc ▸ h2, hc ▸ h3, by rw [he, hc]; exact h4, by rw [he]; exact h5, hc ▸ h6⟩
  cases hs with
  | reader hs =>
    cases hs with
    | reserve chunk =>
      refine of_eq ?_ ?_ <;>
        (unfold System.reserve; split <;> [rfl; skip]; split <;> rfl)
    | room | read | retry | send | close => exact of_eq rfl rfl
  | reaper hs => exact hs.fenced h
  | writer hs => cases hs <;> exact of_eq rfl rfl
  | client hs => cases hs <;> exact of_eq rfl rfl
  | actor hs => exact hs.fenced h

/-! ### Every run -/

variable {session : SessionRef} {pid capacity : Option Nat}

theorem Reachable.accounted (h : Reachable size session pid capacity s) : Accounted s := by
  induction h with
  | refl => exact ⟨List.nodup_nil, fun r ↦ rfl⟩
  | tail _ hs ih => exact hs.accounted ih

theorem Reachable.proper (h : Reachable size session pid capacity s) : Proper s := by
  induction h with
  | refl =>
    refine ⟨fun c hc ↦ ?_, ?_, ?_, ?_, ?_⟩
    · cases capacity with
      | none => simp [System.start] at hc
      | some n => simpa [System.start, Actor.start] using hc
    all_goals simp [System.start]
  | tail hr hs ih => exact hs.proper ih (Reachable.accounted hr)

theorem Reachable.written (h : Reachable size session pid capacity s) : Written s := by
  induction h with
  | refl =>
    refine ⟨rfl, rfl, ?_, trivial, by simp [System.start], ?_, ?_, ?_, ?_⟩
    all_goals simp [System.start, Actor.start]
  | tail hr hs ih => exact hs.written ih (Reachable.accounted hr)

theorem Reachable.fenced (h : Reachable size session pid capacity s) : Fenced s := by
  induction h with
  | refl =>
    refine ⟨?_, ?_, ?_, ?_, ?_, ?_⟩
    all_goals simp [System.start, Actor.start, Effect.isKill]
  | tail _ hs ih => exact hs.fenced ih

/-- The lifecycle is final once the child is not running. -/
private theorem Step.lifecycle (hs : Step size s t) (h : s.actor.lifecycle ≠ .running) :
    t.actor.lifecycle = s.actor.lifecycle := by
  cases hs with
  | reader hs =>
    cases hs with
    | reserve =>
      unfold System.reserve
      split <;> [rfl; skip]
      split <;> rfl
    | room | read | retry | send | close => rfl
  | reaper hs => cases hs <;> rfl
  | writer hs => cases hs <;> rfl
  | client hs => cases hs <;> rfl
  | actor hs =>
    cases hs with
    | receive c => exact Actor.lifecycle_handle c h
    | timeout => exact Actor.lifecycle_publishLifecycle
    | disconnected => exact Actor.lifecycle_finish
    | broadcast | told | tell | detach | enrol | refuse | forget | closeGate | submit | full
    | gone | resize | nobody | lock | late | kill | answer | leave => rfl

/-- A request is taken up with the lifecycle of that moment. -/
private theorem Step.taken (hs : Step size s t) {r : Nat} {l : Lifecycle}
    (h : (r, l) ∈ t.desk.taken) : (r, l) ∈ s.desk.taken ∨ l = s.actor.lifecycle := by
  cases hs with
  | reader hs =>
    cases hs with
    | reserve chunk =>
      rw [(reserve_desk (s.withReader (.reserved chunk)) chunk.length).1] at h
      exact .inl h
    | room | read | retry | send | close => exact .inl h
  | reaper hs => cases hs <;> exact .inl h
  | writer hs => cases hs <;> exact .inl h
  | client hs => cases hs <;> exact .inl h
  | actor hs =>
    cases hs with
    | receive c rest =>
      cases c with
      | request session kind reply =>
        rcases List.mem_cons.mp h with h | h
        · cases h
          exact .inr rfl
        · exact .inl h
      | query | attach | output | reaped | readerClosed | ownerLost => exact .inl h
    | timeout | disconnected | broadcast | told | tell | detach | enrol | refuse | forget
    | closeGate | submit | full | gone | resize | nobody | lock | late | kill | answer
    | leave => exact .inl h

private theorem Steps.final (h : Steps size s t) (hl : s.actor.lifecycle ≠ .running) :
    t.actor.lifecycle = s.actor.lifecycle ∧
      ∀ r l, (r, l) ∈ t.desk.taken → (r, l) ∈ s.desk.taken ∨ l = s.actor.lifecycle := by
  induction h with
  | refl => exact ⟨rfl, fun _ _ h ↦ .inl h⟩
  | tail _ hs ih =>
    obtain ⟨h1, h2⟩ := ih
    refine ⟨(hs.lifecycle (by rw [h1]; exact hl)).trans h1, fun r l hm ↦ ?_⟩
    rcases hs.taken hm with hm | rfl
    · exact h2 r l hm
    · exact .inr h1

private theorem Steps.seen (hr : Reachable size session pid capacity s) (h : Steps size s t)
    (hc : s.input.seenClosed = true) :
    t.input.seenClosed = true ∧ t.input.written = s.input.written := by
  induction h with
  | refl => exact ⟨hc, rfl⟩
  | tail hst hs ih =>
    obtain ⟨h1, h2⟩ := ih
    obtain ⟨h3, h4⟩ := hs.seen (Reachable.written (hr.trans hst)) h1
    exact ⟨h3, h4.trans h2⟩

/-- What a session promises about its lifecycle, its requests, its input and its signals, from
one state of a run to any later one. -/
structure Contract (s t : System) : Prop where
  final : s.actor.lifecycle ≠ .running → t.actor.lifecycle = s.actor.lifecycle
  refused : ∀ e, s.actor.lifecycle.outcome = some e → ∀ r ∈ t.desk.requests,
    (∀ l, (r, l) ∉ s.desk.taken) → ∀ a, (r, a) ∈ t.desk.answers → a = .refused e
  once : ∀ r ∈ t.desk.issued,
    t.unanswered.count r + (t.desk.answers.map Prod.fst).count r = 1
  jobs : ∀ job ∈ t.input.accepted, job.reply ∈ t.desk.issued
  answered : (∀ u, ¬ WriterStep t u) →
    ∀ job ∈ t.input.accepted, ∃ a, (job.reply, a) ∈ t.desk.answers
  ends : t.input.gate ≠ none → ∀ u, WriterStep t u → u.input.rank < t.input.rank
  accepted : t.input.accepted =
    t.input.done.map Done.job ++ t.input.writer.jobs ++ t.input.jobs
  written : t.input.written = (t.input.done.map Done.part).flatten ++ t.input.writer.part
  parts : ∀ d ∈ t.input.done, d.part <+: d.job.bytes ∧ (d.answer = .ok → d.part = d.job.bytes) ∧
    (d.job.reply, d.answer) ∈ t.desk.answers
  backpressure : ∀ r, (r, .refused .inputBackpressure) ∈ t.desk.answers →
    ∀ job ∈ t.input.accepted, job.reply ≠ r
  closed : s.input.seenClosed = true → t.input.written = s.input.written
  kills : ∀ k ∈ t.child.kills, k.collected = false ∧ t.child.pid = some k.pid

/-- Over every run the lifecycle leaves running at most once; every request taken up after that
is refused with the outcome; every reply is answered at most once and never lost, and with the
gate closed the writer answers all jobs in finitely many steps; the jobs are written in the
order they were accepted, none that was refused for backpressure, and nothing once the gate was
seen closed; and the child is signalled only while it is not collected. -/
theorem session_contract (h : Reachable size session pid capacity s) (hst : Steps size s t) :
    Contract s t := by
  have ht : Reachable size session pid capacity t := h.trans hst
  have ha := ht.accounted
  have hw := ht.written
  constructor
  · intro hl
    exact (Steps.final hst hl).1
  · intro e he r hr hnew a hans
    have hl : s.actor.lifecycle ≠ .running := by
      intro hl
      rw [hl] at he
      cases he
    rcases ht.proper.asked r hr with ⟨session', kind, hk⟩ | ⟨l, hl'⟩
    · exact absurd hans (ha.not_answered (mem_unanswered_of_inbox hk (by simp [Command.replies])) a)
    · rcases (Steps.final hst hl).2 r l hl' with hm | rfl
      · exact absurd hm (hnew l)
      · exact (ht.proper.taken r _ e hl' he).answer ha hans
  · intro r hr
    rw [ha.count r]
    exact List.count_eq_one_of_mem ha.nodup hr
  · intro job hj
    refine List.count_pos_iff.mp ?_
    rw [← ha.count job.reply]
    rcases hw.place hj with ⟨a, hans⟩ | hm
    · have := List.count_pos_iff.mpr (List.mem_map_of_mem (f := Prod.fst) hans)
      simp only at this
      omega
    · have : 0 < t.unanswered.count job.reply :=
        List.count_pos_iff.mpr (List.mem_append_right _ hm)
      omega
  · intro hstuck job hj
    exact hw.answered hstuck hj
  · exact fun hg u hu ↦ hu.rank hg
  · exact hw.accepted
  · exact hw.written
  · exact fun d hd ↦ ⟨(hw.done d hd).1.start, (hw.done d hd).1.ok, (hw.done d hd).2⟩
  · exact fun r hr ↦ hw.full r (.inr hr)
  · exact fun hc ↦ (Steps.seen h hst hc).2
  · exact ht.fenced.kills

private theorem steps_self (_ : Reachable size session pid capacity s) : Steps size s s :=
  .refl

/-- A session whose client has written one byte of input. -/
theorem session_contract_input :
    ∃ s t : System, Contract s t ∧ t.input.written = [97] ∧ t.desk.answers = [(0, .ok)] := by
  have h₀ : Reachable 24 ⟨"/private", "a", "g"⟩ (some 7) (some 65536) _ := .refl
  have h₁ := h₀.tail (.actor (.broadcast _ _ rfl))
  have h₂ := h₁.tail (.actor (.tell _ _ _ _ _ rfl rfl rfl))
  have h₃ := h₂.tail (.actor (.told _ _ rfl))
  have g₁ := (steps_self h₃).tail (.client (.request _ (.input [97])
    0 (List.mem_singleton_self _) List.not_mem_nil))
  have g₂ := g₁.tail (.actor (.receive _ _ rfl rfl rfl))
  have g₃ := g₂.tail (.actor (.submit _ _ _ rfl (nofun) (by decide)))
  have g₄ := g₃.tail (.writer (.take _ _ rfl rfl))
  have g₅ := g₄.tail (.writer (.look _ rfl rfl))
  have g₆ := g₅.tail (.writer (.write _ _ [97] [] rfl (by simp)))
  have g₇ := g₆.tail (.writer (.finished _ _ rfl))
  have g₈ := g₇.tail (.writer (.reply _ _ _ rfl))
  exact ⟨_, _, session_contract h₃ g₈, rfl, rfl⟩

end PtySpec.Substrate
