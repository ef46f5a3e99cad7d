import PtySpec.Substrate.Routing

/-!
# Requests and their answers

Every reply that a client waits for is in one place: on its way to the actor, with the actor,
with a job, or answered. A request comes from a client of the actor's own session, and one
taken up after the end of the child is refused with that end.
-/

namespace PtySpec.Substrate

variable {size : Nat} {s t : System}

/-! ### Where a reply is -/

/-- The reply that a command asks for. -/
def Command.replies : Command → List Nat
  | .request _ _ reply | .query _ reply | .attach _ _ reply => [reply]
  | _ => []

/-- The reply that an effect leads to. -/
def Effect.replies : Effect → List Nat
  | .submit _ reply | .resize _ reply | .answer reply _ => [reply]
  | .signal _ _ reply | .kill _ _ reply => reply.toList
  | _ => []

/-- The job that the writer is at. -/
def WriterPhase.jobs : WriterPhase → List InputJob
  | .checking job | .writing job _ _ | .waiting job _ _ | .replying job _ _ => [job]
  | _ => []

/-- The replies that are not answered yet. -/
def System.unanswered (s : System) : List Nat :=
  s.inbox.flatMap Command.replies ++ s.actor.effects.flatMap Effect.replies ++
    (s.input.writer.jobs ++ s.input.jobs).map InputJob.reply

/-- Every reply that was issued is unanswered or answered, once. -/
structure Accounted (s : System) : Prop where
  nodup : s.desk.issued.Nodup
  count : ∀ r, s.unanswered.count r + (s.desk.answers.map Prod.fst).count r =
    s.desk.issued.count r

@[simp] theorem replies_answerTo (reply : Option Nat) (error : Option SessionError) :
    (answerTo reply error).flatMap Effect.replies = reply.toList := by
  cases reply <;> rfl

@[simp] theorem replies_forgets (is : List Nat) :
    (is.map Effect.forget).flatMap Effect.replies = [] := by
  induction is with
  | nil => rfl
  | cons i is ih => simp [Effect.replies]

theorem Actor.replies_handle {a : Actor} (h : a.effects = []) (c : Command) :
    (a.handle c).effects.flatMap Effect.replies = c.replies := by
  cases c with
  | request session kind reply =>
    cases hr : (a.check session >>= fun _ ↦ a.isRunning) <;> cases kind <;>
      simp [handle, hr, accept, emit, h, Effect.replies, Command.replies]
  | query session reply =>
    cases hr : a.check session <;>
      simp [handle, hr, emit, h, Effect.replies, Command.replies]
  | attach session attachment reply =>
    cases hr : a.check session <;>
      simp [handle, hr, emit, h, Effect.replies, Command.replies]
  | output bytes =>
    by_cases ho : a.outputClosed <;>
      simp [handle, ho, emit, h, Effect.replies, Command.replies]
  | reaped status =>
    by_cases hl : a.lifecycle = .running <;> by_cases ho : a.outputClosed <;>
      by_cases hp : a.published = .exited status <;>
      simp [handle, hl, ho, hp, publishLifecycle, emit, h, Effect.replies, Command.replies]
  | readerClosed =>
    by_cases hp : a.published = a.lifecycle <;>
      simp [handle, hp, publishLifecycle, emit, h, Effect.replies, Command.replies]
  | ownerLost =>
    by_cases hl : a.lifecycle = .running <;> by_cases hp : a.published = .ownerLost <;>
      simp [handle, hl, hp, publishLifecycle, emit, h, Effect.replies, Command.replies]

private theorem replies_finish {a : Actor} (h : a.effects = []) :
    a.publishLifecycle.effects.flatMap Effect.replies = [] ∧
      a.finish.effects.flatMap Effect.replies = [] := by
  by_cases hp : a.published = a.lifecycle <;>
    simp [Actor.finish, Actor.publishLifecycle, Actor.emit, hp, h, Effect.replies]

theorem reserve_desk (u : System) (n : Nat) : (u.reserve n).desk = u.desk ∧
    (u.reserve n).inbox = u.inbox ∧ (u.reserve n).actor = u.actor ∧
    (u.reserve n).input = u.input := by
  unfold System.reserve
  split <;> [exact ⟨rfl, rfl, rfl, rfl⟩; skip]
  split <;> exact ⟨rfl, rfl, rfl, rfl⟩

/-- The replies stay where they are. -/
private theorem Accounted.of_eq (h : Accounted s) (hu : t.unanswered = s.unanswered)
    (hi : t.desk.issued = s.desk.issued) (ha : t.desk.answers = s.desk.answers) :
    Accounted t where
  nodup := hi ▸ h.nodup
  count r := by rw [hu, hi, ha, h.count]

/-- A reply is issued. -/
private theorem Accounted.issue (h : Accounted s) {reply : Nat} (fresh : reply ∉ s.desk.issued)
    (hu : ∀ r, t.unanswered.count r = s.unanswered.count r + [reply].count r)
    (hi : t.desk.issued = reply :: s.desk.issued) (ha : t.desk.answers = s.desk.answers) :
    Accounted t where
  nodup := by
    rw [hi]
    exact List.nodup_cons.mpr ⟨fresh, h.nodup⟩
  count r := by
    have := h.count r
    rw [hu, hi, ha]
    simp only [List.count_cons, List.count_nil]
    omega

/-- A reply is answered. -/
private theorem Accounted.answer (h : Accounted s) {reply : Nat} {answer : Answer}
    (hu : ∀ r, s.unanswered.count r = t.unanswered.count r + [reply].count r)
    (hd : t.desk = s.desk.answer reply answer) : Accounted t where
  nodup := by
    rw [hd]
    exact h.nodup
  count r := by
    have := h.count r
    rw [hu] at this
    rw [hd]
    simp only [Desk.answer, List.map_cons, List.count_cons, List.count_nil] at this ⊢
    omega

private theorem ClientStep.accounted (h : Accounted s) (hs : ClientStep size s t) :
    Accounted t := by
  cases hs with
  | request _ _ _ _ fresh | query _ _ _ fresh | attach _ _ _ _ _ _ fresh =>
    refine h.issue fresh (fun r ↦ ?_) rfl rfl
    simp only [System.unanswered, System.withStream, List.flatMap_append, List.flatMap_cons,
      List.flatMap_nil, Command.replies, List.count_append, List.append_nil]
    omega
  | loseOwnership | dropOwner =>
    refine h.of_eq ?_ rfl rfl
    simp [System.unanswered, Command.replies]
  | attached | rejected | clone | drop | recv | dropStream => exact h.of_eq rfl rfl rfl

private theorem WriterStep.accounted (h : Accounted s) (hs : WriterStep s t) : Accounted t := by
  cases hs with
  | take job rest hw hj =>
    refine h.of_eq ?_ rfl rfl
    simp [System.unanswered, hw, hj, WriterPhase.jobs]
  | look job hw | lookClosed job reason hw | finished job part hw | failed job part rest m hw
  | wouldBlock job part rest hw | retry job part rest hw | waitClosed job part rest reason hw =>
    refine h.of_eq ?_ rfl rfl
    simp [System.unanswered, System.withWriter, System.seen, hw, WriterPhase.jobs]
  | write job part new rest hw =>
    refine h.of_eq ?_ rfl rfl
    simp [System.unanswered, hw, WriterPhase.jobs]
  | reply job part answer hw =>
    refine h.answer (fun r ↦ ?_) rfl
    simp only [System.unanswered, hw, WriterPhase.jobs, List.map_append, List.map_cons,
      List.map_nil, List.count_append, List.count_nil]
    omega
  | leave hw hj =>
    refine h.of_eq ?_ rfl rfl
    simp [System.unanswered, System.withWriter, hw, WriterPhase.jobs]

private theorem ActorStep.accounted (h : Accounted s) (hs : ActorStep size s t) :
    Accounted t := by
  cases hs with
  | receive c rest idle _ hi =>
    have hd : (s.take c rest).desk.issued = s.desk.issued ∧
        (s.take c rest).desk.answers = s.desk.answers := by
      cases c <;> exact ⟨rfl, rfl⟩
    constructor
    · rw [hd.1]
      exact h.nodup
    · intro r
      rw [hd.1, hd.2, ← h.count r]
      congr 1
      simp only [System.unanswered, System.take, Actor.replies_handle idle, idle, hi,
        List.flatMap_cons, List.flatMap_nil, List.append_nil, List.count_append]
      omega
  | timeout idle =>
    refine h.of_eq ?_ rfl rfl
    simp [System.unanswered, (replies_finish idle).1, idle]
  | disconnected idle =>
    refine h.of_eq ?_ rfl rfl
    simp [System.unanswered, (replies_finish idle).2, idle]
  | broadcast e rest hq =>
    exact h.of_eq (by simp [System.unanswered, System.proceed, hq, Effect.replies]) rfl rfl
  | told e rest hq =>
    exact h.of_eq (by simp [System.unanswered, System.proceed, hq, Effect.replies]) rfl rfl
  | tell e i todo rest st hq | refuse i rest st hq | forget i rest st hq =>
    refine h.of_eq ?_ rfl rfl
    simp [System.unanswered, System.proceed, System.withStream, hq, Effect.replies]
  | detach e i todo rest st hq | enrol i rest st hq =>
    refine h.of_eq ?_ rfl rfl
    simp [System.unanswered, System.withStream, hq, Effect.replies]
  | closeGate reason rest hq =>
    refine h.of_eq ?_ rfl rfl
    simp [System.unanswered, System.proceed, Input.close, hq, Effect.replies]
  | submit bytes reply rest hq =>
    constructor
    · exact h.nodup
    · intro r
      have := h.count r
      simp only [System.unanswered, System.proceed, hq, Effect.replies, List.flatMap_cons,
        List.count_append, List.map_append, List.map_cons, List.map_nil] at this ⊢
      omega
  | full _ _ rest hq | gone _ _ rest hq | resize _ _ rest _ hq =>
    exact h.of_eq (by simp [System.unanswered, System.proceed, hq, Effect.replies]) rfl rfl
  | nobody _ _ reply rest hq | late _ _ reply rest hq | kill _ _ reply rest _ _ hq =>
    exact h.of_eq (by simp [System.unanswered, System.proceed, hq, Effect.replies]) rfl rfl
  | lock _ _ reply rest hq =>
    exact h.of_eq (by simp [System.unanswered, System.proceed, hq, Effect.replies]) rfl rfl
  | answer reply answer rest hq =>
    refine h.answer (fun r ↦ ?_) rfl
    simp only [System.unanswered, System.proceed, hq, Effect.replies, List.flatMap_cons,
      List.count_append]
    omega
  | leave rest hq =>
    refine h.of_eq ?_ rfl rfl
    simp [System.unanswered, hq, Effect.replies]

/-- Every reply stays in one place in every step. -/
theorem Step.accounted (h : Accounted s) (hs : Step size s t) : Accounted t := by
  cases hs with
  | reader hs =>
    cases hs with
    | reserve chunk =>
      obtain ⟨h1, h2, h3, h4⟩ := reserve_desk (s.withReader (.reserved chunk)) chunk.length
      refine h.of_eq ?_ (by rw [h1]; rfl) (by rw [h1]; rfl)
      rw [System.unanswered, h2, h3, h4]
      rfl
    | send | close =>
      refine h.of_eq ?_ rfl rfl
      simp [System.unanswered, System.withReader, Command.replies]
    | room | read | retry => exact h.of_eq rfl rfl rfl
  | reaper hs =>
    cases hs with
    | report =>
      refine h.of_eq ?_ rfl rfl
      simp [System.unanswered, Command.replies]
    | exited | lock | collect | wait | mark => exact h.of_eq rfl rfl rfl
  | writer hs => exact hs.accounted h
  | client hs => exact hs.accounted h
  | actor hs => exact hs.accounted h

namespace Accounted

/-- A reply is answered at most once. -/
theorem unique (h : Accounted s) {r : Nat} {a b : Answer} (ha : (r, a) ∈ s.desk.answers)
    (hb : (r, b) ∈ s.desk.answers) : a = b := by
  have hle : (s.desk.answers.map Prod.fst).count r ≤ 1 := by
    have := h.count r
    have := List.nodup_iff_count_le_one.mp h.nodup r
    omega
  obtain ⟨xs, ys, hxy⟩ := List.append_of_mem ha
  rw [hxy] at hb hle
  simp only [List.map_append, List.map_cons, List.count_append, List.count_cons_self] at hle
  rcases List.mem_append.mp hb with hb | hb
  · have := List.count_pos_iff.mpr (List.mem_map_of_mem (f := Prod.fst) hb)
    simp only at this
    omega
  · rcases List.mem_cons.mp hb with hb | hb
    · cases hb
      rfl
    · have := List.count_pos_iff.mpr (List.mem_map_of_mem (f := Prod.fst) hb)
      simp only at this
      omega

/-- A reply that is not answered yet has no answer. -/
theorem not_answered (h : Accounted s) {r : Nat} (hr : r ∈ s.unanswered) (a : Answer) :
    (r, a) ∉ s.desk.answers := by
  intro ha
  have h1 := List.count_pos_iff.mpr hr
  have h2 := List.count_pos_iff.mpr (List.mem_map_of_mem (f := Prod.fst) ha)
  have h3 := h.count r
  have h4 := List.nodup_iff_count_le_one.mp h.nodup r
  simp only at h2
  omega

end Accounted

/-! ### Who asks, and who is refused -/

/-- A reply is refused with this error, or about to be. -/
def Refused (s : System) (r : Nat) (e : SessionError) : Prop :=
  .answer r (.refused e) ∈ s.actor.effects ∨ (r, .refused e) ∈ s.desk.answers

/-- Clients and their requests are of the actor's session; an attach to another one is refused,
and so is a request that was taken up after the end of the child. -/
structure Proper (s : System) : Prop where
  clients : ∀ c ∈ s.desk.clients, c = s.actor.session
  requests : ∀ session kind r, .request session kind r ∈ s.inbox → session = s.actor.session
  asked : ∀ r ∈ s.desk.requests,
    (∃ session kind, .request session kind r ∈ s.inbox) ∨ ∃ l, (r, l) ∈ s.desk.taken
  calls : ∀ r session i, (r, session, i) ∈ s.desk.calls → session ≠ s.actor.session →
    (∃ k, .attach session k r ∈ s.inbox) ∨ ∃ e, Refused s r e
  taken : ∀ r l e, (r, l) ∈ s.desk.taken → l.outcome = some e → Refused s r e

@[simp] theorem Actor.session_handle (a : Actor) (c : Command) :
    (a.handle c).session = a.session := by
  cases c with
  | request session kind reply =>
    simp only [handle]
    split
    · cases kind <;> rfl
    · rfl
  | query => simp only [handle]; split <;> rfl
  | attach => simp only [handle]; split <;> rfl
  | output => simp only [handle]; split <;> rfl
  | reaped status =>
    simp only [handle]
    split
    · split
      · simp [emit]
      · rfl
    · rfl
  | readerClosed => simp [handle, emit]
  | ownerLost =>
    simp only [handle]
    split
    · simp [emit]
    · rfl

@[simp] theorem Actor.session_finish (a : Actor) : a.finish.session = a.session := by
  simp [finish, emit]

private theorem mem_answer_of_ne {e f : Effect} {es rest : List Effect} (fs : List Effect)
    (hq : es = f :: rest) (hf : e ≠ f) (h : e ∈ es) : e ∈ fs ++ rest := by
  rw [hq] at h
  rcases List.mem_cons.mp h with h | h
  · exact absurd h hf
  · exact List.mem_append_right _ h

/-- What is refused stays refused. -/
theorem Step.refused {r : Nat} {e : SessionError} (h : Refused s r e) (hs : Step size s t) :
    Refused t r e := by
  cases hs with
  | reader hs =>
    cases hs with
    | reserve chunk =>
      obtain ⟨h1, _, h3, _⟩ := reserve_desk (s.withReader (.reserved chunk)) chunk.length
      rw [Refused, h1, h3]
      exact h
    | room | read | retry | send | close => exact h
  | reaper hs => cases hs <;> exact h
  | writer hs =>
    cases hs with
    | reply job part answer => exact h.imp id (List.mem_cons_of_mem _)
    | take | look | lookClosed | write | finished | failed | wouldBlock | retry | waitClosed
    | leave => exact h
  | client hs => cases hs <;> exact h
  | actor hs =>
    cases hs with
    | receive c rest idle =>
      refine .inr ?_
      have hd : (s.take c rest).desk.answers = s.desk.answers := by cases c <;> rfl
      rw [hd]
      rcases h with h | h
      · rw [idle] at h
        cases h
      · exact h
    | timeout idle | disconnected idle =>
      rcases h with h | h
      · rw [idle] at h
        cases h
      · exact .inr h
    | answer r' answer rest hq =>
      rcases h with h | h
      · rw [hq] at h
        rcases List.mem_cons.mp h with h | h
        · cases h
          exact .inr (List.mem_cons_self ..)
        · exact .inl h
      · exact .inr (List.mem_cons_of_mem _ h)
    | told _ rest hq | submit _ _ rest hq | closeGate _ rest hq | forget _ rest _ hq
    | enrol _ rest _ hq => exact h.imp (mem_answer_of_ne [] hq (by simp)) id
    | broadcast _ rest hq | tell _ _ _ rest _ hq | refuse _ rest _ hq | full _ _ rest hq
    | gone _ _ rest hq | resize _ _ rest _ hq | lock _ _ _ rest hq =>
      exact h.imp (mem_answer_of_ne [_] hq (by simp)) id
    | detach _ _ _ rest _ hq => exact h.imp (mem_answer_of_ne [_, _] hq (by simp)) id
    | nobody _ _ _ rest hq | late _ _ _ rest hq | kill _ _ _ rest _ _ hq
    | leave rest hq => exact h.imp (mem_answer_of_ne _ hq (by simp)) id

private theorem Proper.frame (h : Proper s)
    (hr : ∀ r e, Refused s r e → Refused t r e)
    (hses : t.actor.session = s.actor.session)
    (hreq : ∀ session kind r,
      .request session kind r ∈ t.inbox ↔ .request session kind r ∈ s.inbox)
    (hatt : ∀ session k r, .attach session k r ∈ s.inbox → .attach session k r ∈ t.inbox)
    (hc : ∀ c ∈ t.desk.clients, c ∈ s.desk.clients)
    (hrs : t.desk.requests = s.desk.requests) (htaken : t.desk.taken = s.desk.taken)
    (hcalls : ∀ x ∈ t.desk.calls, x ∈ s.desk.calls) : Proper t where
  clients c hm := by rw [hses, h.clients c (hc c hm)]
  requests session kind r hm := by rw [hses, h.requests session kind r ((hreq ..).mp hm)]
  asked r hm := by
    rw [hrs] at hm
    rw [htaken]
    exact (h.asked r hm).imp (fun ⟨a, b, hab⟩ ↦ ⟨a, b, (hreq ..).mpr hab⟩) id
  calls r session i hm hne := by
    rw [hses] at hne
    exact (h.calls r session i (hcalls _ hm) hne).imp (fun ⟨k, hk⟩ ↦ ⟨k, hatt _ _ _ hk⟩)
      (fun ⟨e, he⟩ ↦ ⟨e, hr r e he⟩)
  taken r l e hm ho := hr r e (h.taken r l e (htaken ▸ hm) ho)

theorem mem_unanswered_of_inbox {c : Command} (h : c ∈ s.inbox) {r : Nat}
    (hr : r ∈ c.replies) : r ∈ s.unanswered :=
  List.mem_append_left _ (List.mem_append_left _ (List.mem_flatMap.mpr ⟨c, h, hr⟩))

theorem mem_unanswered_of_effects {e : Effect} (h : e ∈ s.actor.effects) {r : Nat}
    (hr : r ∈ e.replies) : r ∈ s.unanswered :=
  List.mem_append_left _ (List.mem_append_right _ (List.mem_flatMap.mpr ⟨e, h, hr⟩))

/-- What is refused has no other answer. -/
theorem Refused.answer (ha : Accounted s) {r : Nat} {e : SessionError} (h : Refused s r e)
    {a : Answer} (hm : (r, a) ∈ s.desk.answers) : a = .refused e := by
  rcases h with h | h
  · exact absurd hm (ha.not_answered (mem_unanswered_of_effects h (by simp [Effect.replies])) a)
  · exact ha.unique hm h

private theorem ClientStep.proper (h : Proper s) (ha : Accounted s)
    (hs : ClientStep size s t) : Proper t := by
  have hr : ∀ r e, Refused s r e → Refused t r e := fun r e hre ↦
    Step.refused hre (.client hs)
  cases hs with
  | request session kind reply hc =>
    constructor
    · exact h.clients
    · intro session' kind' r hm
      rcases List.mem_append.mp hm with hm | hm
      · exact h.requests session' kind' r hm
      · cases List.mem_singleton.mp hm
        exact h.clients session hc
    · intro r hm
      rcases List.mem_cons.mp hm with rfl | hm
      · exact .inl ⟨session, kind, by simp⟩
      · exact (h.asked r hm).imp (fun ⟨a, b, hab⟩ ↦ ⟨a, b, List.mem_append_left _ hab⟩) id
    · intro r session' i hm hne
      exact (h.calls r session' i hm hne).imp (fun ⟨k, hk⟩ ↦ ⟨k, List.mem_append_left _ hk⟩)
        (fun ⟨e, he⟩ ↦ ⟨e, hr r e he⟩)
    · intro r l e hm ho
      exact hr r e (h.taken r l e hm ho)
  | query | loseOwnership | dropOwner =>
    exact h.frame hr rfl (by simp) (fun _ _ _ hm ↦ List.mem_append_left _ hm) (fun _ hm ↦ hm)
      rfl rfl (fun _ hm ↦ hm)
  | attach session capacity i reply _ free =>
    constructor
    · exact h.clients
    · intro session' kind' r hm
      exact h.requests session' kind' r (by simpa using hm)
    · intro r hm
      exact (h.asked r hm).imp (fun ⟨a, b, hab⟩ ↦ ⟨a, b, List.mem_append_left _ hab⟩) id
    · intro r session' i' hm hne
      rcases List.mem_cons.mp hm with hm | hm
      · cases hm
        exact .inl ⟨i, by simp⟩
      · exact (h.calls r session' i' hm hne).imp
          (fun ⟨k, hk⟩ ↦ ⟨k, List.mem_append_left _ hk⟩) (fun ⟨e, he⟩ ↦ ⟨e, hr r e he⟩)
    · intro r l e hm ho
      exact hr r e (h.taken r l e hm ho)
  | attached session i reply st hcall hans =>
    have hsession : session = s.actor.session := by
      by_contra hne
      rcases h.calls reply session i hcall hne with ⟨k, hk⟩ | ⟨e, he⟩
      · exact ha.not_answered (mem_unanswered_of_inbox hk (by simp [Command.replies])) _ hans
      · cases he.answer ha hans
    constructor
    · intro c hm
      rcases List.mem_cons.mp hm with rfl | hm
      · exact hsession
      · exact h.clients c hm
    · exact h.requests
    · exact h.asked
    · intro r session' i' hm hne
      exact (h.calls r session' i' (List.mem_of_mem_erase hm) hne).imp id
        (fun ⟨e, he⟩ ↦ ⟨e, hr r e he⟩)
    · intro r l e hm ho
      exact hr r e (h.taken r l e hm ho)
  | rejected =>
    exact h.frame hr rfl (by simp) (fun _ _ _ hm ↦ hm) (fun _ hm ↦ hm) rfl rfl
      (fun _ hm ↦ List.mem_of_mem_erase hm)
  | clone session hc =>
    exact h.frame hr rfl (by simp) (fun _ _ _ hm ↦ hm)
      (fun c hm ↦ (List.mem_cons.mp hm).elim (fun he ↦ he ▸ hc) id) rfl rfl (fun _ hm ↦ hm)
  | drop =>
    exact h.frame hr rfl (by simp) (fun _ _ _ hm ↦ hm) (fun _ hm ↦ List.mem_of_mem_erase hm)
      rfl rfl (fun _ hm ↦ hm)
  | recv | dropStream =>
    exact h.frame hr rfl (fun _ _ _ ↦ .rfl) (fun _ _ _ hm ↦ hm) (fun _ hm ↦ hm) rfl rfl
      (fun _ hm ↦ hm)

private theorem check_eq {a : Actor} {session : SessionRef} :
    a.check session = .ok () ↔ session = a.session := by
  unfold Actor.check
  split
  · next h => simp [h]
  · next h => simpa using h

/-- A request of the session after the end of the child is refused with that end. -/
theorem Actor.handle_request {a : Actor} {kind : CommandKind} {r : Nat} {e : SessionError}
    (h : a.lifecycle.outcome = some e) :
    a.handle (.request a.session kind r) = a.emit (.answer r (.refused e)) := by
  have hc : a.check a.session = .ok () := check_eq.mpr rfl
  have hr : a.isRunning = .error e := by
    unfold Actor.isRunning
    unfold Lifecycle.outcome at h
    cases hl : a.lifecycle <;> simp_all
  have hb : (a.check a.session >>= fun _ ↦ a.isRunning) = .error e := by
    rw [hc, hr]
    rfl
  simp only [handle, hb]

private theorem proper_receive (h : Proper s) (idle : s.actor.effects = []) {c : Command}
    {rest : List Command} (hi : s.inbox = c :: rest)
    (hr : ∀ r e, Refused s r e → Refused (s.take c rest) r e) : Proper (s.take c rest) := by
  have hses : (s.take c rest).actor.session = s.actor.session := Actor.session_handle ..
  have hcl : (s.take c rest).desk.clients = s.desk.clients := by cases c <;> rfl
  have hca : (s.take c rest).desk.calls = s.desk.calls := by cases c <;> rfl
  have hre : (s.take c rest).desk.requests = s.desk.requests := by cases c <;> rfl
  have htk : ∀ r l, (r, l) ∈ (s.take c rest).desk.taken →
      (r, l) ∈ s.desk.taken ∨ l = s.actor.lifecycle ∧
        ∃ session kind, c = .request session kind r := by
    intro r l hm
    cases c with
    | request session kind reply =>
      rcases List.mem_cons.mp hm with hm | hm
      · cases hm
        exact .inr ⟨rfl, session, kind, rfl⟩
      · exact .inl hm
    | query | attach | output | reaped | readerClosed | ownerLost => exact .inl hm
  constructor
  · rw [hcl, hses]
    exact h.clients
  · intro session kind r hm
    rw [hses]
    exact h.requests session kind r (by rw [hi]; exact List.mem_cons_of_mem _ hm)
  · intro r hm
    rw [hre] at hm
    rcases h.asked r hm with ⟨session, kind, hk⟩ | ⟨l, hl⟩
    · rw [hi] at hk
      rcases List.mem_cons.mp hk with hk | hk
      · right
        subst hk
        exact ⟨s.actor.lifecycle, List.mem_cons_self ..⟩
      · exact .inl ⟨session, kind, hk⟩
    · right
      refine ⟨l, ?_⟩
      cases c with
      | request => exact List.mem_cons_of_mem _ hl
      | query | attach | output | reaped | readerClosed | ownerLost => exact hl
  · intro r session i hm hne
    rw [hca] at hm
    rw [hses] at hne
    rcases h.calls r session i hm hne with ⟨k, hk⟩ | ⟨e, he⟩
    · rw [hi] at hk
      rcases List.mem_cons.mp hk with hk | hk
      · right
        subst hk
        have hcheck : s.actor.check session =
            .error (.staleGeneration session.generation s.actor.session.generation) := by
          rw [Actor.check, if_pos hne]
        refine ⟨.staleGeneration session.generation s.actor.session.generation, .inl ?_⟩
        simp only [System.take, Actor.handle, hcheck, Actor.emit, idle, List.nil_append]
        simp
      · exact .inl ⟨k, hk⟩
    · exact .inr ⟨e, hr r e he⟩
  · intro r l e hm ho
    rcases htk r l hm with hm | ⟨rfl, session, kind, rfl⟩
    · exact hr r e (h.taken r l e hm ho)
    · have hsession := h.requests session kind r (by rw [hi]; simp)
      subst hsession
      left
      simp only [System.take, Actor.handle_request ho, Actor.emit]
      simp

/-- Who asks and who is refused is kept in every step. -/
theorem Step.proper (h : Proper s) (ha : Accounted s) (hs : Step size s t) : Proper t := by
  have hr : ∀ r e, Refused s r e → Refused t r e := fun r e hre ↦ Step.refused hre hs
  cases hs with
  | reader hs =>
    cases hs with
    | reserve chunk =>
      obtain ⟨h1, h2, h3, _⟩ := reserve_desk (s.withReader (.reserved chunk)) chunk.length
      refine h.frame hr (by rw [h3]; rfl) (by rw [h2]; simp [System.withReader])
        (by rw [h2]; exact fun _ _ _ hm ↦ hm) (by rw [h1]; exact fun _ hm ↦ hm)
        (by rw [h1]; rfl) (by rw [h1]; rfl) (by rw [h1]; exact fun _ hm ↦ hm)
    | send | close =>
      exact h.frame hr rfl (by simp) (fun _ _ _ hm ↦ List.mem_append_left _ hm) (fun _ hm ↦ hm)
        rfl rfl (fun _ hm ↦ hm)
    | room | read | retry =>
      exact h.frame hr rfl (fun _ _ _ ↦ .rfl) (fun _ _ _ hm ↦ hm) (fun _ hm ↦ hm) rfl rfl
        (fun _ hm ↦ hm)
  | reaper hs =>
    cases hs with
    | report =>
      exact h.frame hr rfl (by simp) (fun _ _ _ hm ↦ List.mem_append_left _ hm) (fun _ hm ↦ hm)
        rfl rfl (fun _ hm ↦ hm)
    | exited | lock | collect | wait | mark =>
      exact h.frame hr rfl (fun _ _ _ ↦ .rfl) (fun _ _ _ hm ↦ hm) (fun _ hm ↦ hm) rfl rfl
        (fun _ hm ↦ hm)
  | writer hs =>
    cases hs <;> exact h.frame hr rfl (fun _ _ _ ↦ .rfl) (fun _ _ _ hm ↦ hm) (fun _ hm ↦ hm)
      rfl rfl (fun _ hm ↦ hm)
  | client hs => exact hs.proper h ha
  | actor hs =>
    cases hs with
    | receive c rest idle _ hi => exact proper_receive h idle hi hr
    | timeout =>
      exact h.frame hr Actor.session_publishLifecycle (fun _ _ _ ↦ .rfl) (fun _ _ _ hm ↦ hm)
        (fun _ hm ↦ hm) rfl rfl (fun _ hm ↦ hm)
    | disconnected =>
      exact h.frame hr (Actor.session_finish _) (fun _ _ _ ↦ .rfl) (fun _ _ _ hm ↦ hm)
        (fun _ hm ↦ hm) rfl rfl (fun _ hm ↦ hm)
    | broadcast | told | tell | detach | enrol | refuse | forget | closeGate | submit | full
    | gone | resize | nobody | lock | late | kill | answer | leave =>
      exact h.frame hr rfl (fun _ _ _ ↦ .rfl) (fun _ _ _ hm ↦ hm) (fun _ hm ↦ hm) rfl rfl
        (fun _ hm ↦ hm)

end PtySpec.Substrate
