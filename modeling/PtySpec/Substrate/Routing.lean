import PtySpec.Substrate.Streams

/-!
# The order of the actor's work

A broadcast is carried out before anything else, a stream is attached between broadcasts, and
nothing follows the end of the actor.
-/

namespace PtySpec.Substrate

variable {size : Nat} {s t : System}

/-! ### The actor's effects in order -/

/-- The streams that are to be attached. -/
def admitted : List Effect → List Nat
  | [] => []
  | .enrol i :: rest => i :: admitted rest
  | _ :: rest => admitted rest

/-- The streams whose attaches the actor has not taken up. -/
def attaching : List Command → List Nat
  | [] => []
  | .attach _ i _ :: rest => i :: attaching rest
  | _ :: rest => attaching rest

/-- The streams that are opened and not yet attached. -/
def System.admits (s : System) : List Nat := admitted s.actor.effects ++ attaching s.inbox

/-- A broadcast under way is the first thing to do, but for dropping what it has detached. -/
def Orderly : List Effect → Prop
  | [] => True
  | e :: rest => tells rest = [] ∨ (∃ i, e = .forget i) ∧ Orderly rest

/-- Nothing is left to do behind the end of the actor. -/
def Closing (effects : List Effect) : Prop :=
  ∀ front back, effects = front ++ .leave :: back → back = []

/-- The order in which the actor works. -/
structure Routed (s : System) : Prop where
  orderly : Orderly s.actor.effects
  last : ∀ e todo, .tell e todo ∈ s.actor.effects → ∃ front, s.tape.log = front ++ [e]
  admitting : admitted s.actor.effects ≠ [] → pending s.actor.effects = []
  closing : Closing s.actor.effects
  leaving : .leave ∈ s.actor.effects → s.ended = true
  left : s.input.hungUp = true →
    s.ended = true ∧ ∀ e ∈ s.actor.effects, ∃ i, e = .forget i

@[simp] theorem admitted_append (es fs : List Effect) :
    admitted (es ++ fs) = admitted es ++ admitted fs := by
  induction es with
  | nil => rfl
  | cons e es ih => cases e <;> simp [admitted, ih]

@[simp] theorem attaching_append (cs ds : List Command) :
    attaching (cs ++ ds) = attaching cs ++ attaching ds := by
  induction cs with
  | nil => rfl
  | cons c cs ih => cases c <;> simp [attaching, ih]

@[simp] theorem admitted_forgets (is : List Nat) : admitted (is.map .forget) = [] := by
  induction is with
  | nil => rfl
  | cons i is ih => simpa [admitted] using ih

@[simp] theorem admitted_answerTo (reply : Option Nat) (error : Option SessionError) :
    admitted (answerTo reply error) = [] := by
  cases reply <;> rfl

private theorem orderly_of_tells {es : List Effect} (h : tells es = []) : Orderly es := by
  cases es with
  | nil => trivial
  | cons e es =>
    left
    cases e <;> simp_all [tells]

private theorem mem_tells {es : List Effect} {e : SessionEvent} {todo : List Nat}
    (h : .tell e todo ∈ es) : tells es ≠ [] := by
  induction es with
  | nil => cases h
  | cons x es ih =>
    rcases List.mem_cons.mp h with rfl | hm
    · simp [tells]
    · have hne := ih hm
      cases x <;> simp [tells, hne]

theorem closing_of_not_mem {es : List Effect} (h : .leave ∉ es) : Closing es := by
  intro front back he
  exact absurd (he ▸ by simp) h

private theorem closing_tail {e : Effect} {es : List Effect} (h : Closing (e :: es)) :
    Closing es := by
  intro front back he
  exact h (e :: front) back (by rw [he, List.cons_append])

private theorem closing_append {es fs : List Effect} (h : Closing fs) (he : .leave ∉ es) :
    Closing (es ++ fs) := by
  intro front back hfb
  rw [List.append_eq_append_iff] at hfb
  rcases hfb with ⟨as, _, ha⟩ | ⟨bs, hb, hc⟩
  · exact h as back ha
  · cases bs with
    | nil => exact h [] back hc.symm
    | cons b bs =>
      simp only [List.cons_append, List.cons.injEq] at hc
      exact absurd (by rw [hb, ← hc.1]; simp) he

private theorem not_leave_answerTo (reply : Option Nat) (error : Option SessionError) :
    .leave ∉ answerTo reply error := by
  cases reply <;> simp [answerTo]

/-- What a command gives the actor to do: it ends nothing, and it attaches at most the stream
that the command asks for, without a broadcast. -/
theorem Actor.effects_handle {a : Actor} (h : a.effects = []) (c : Command) :
    .leave ∉ (a.handle c).effects ∧
      (admitted (a.handle c).effects).Sublist (attaching [c]) ∧
      (admitted (a.handle c).effects ≠ [] → pending (a.handle c).effects = []) := by
  cases c with
  | request session kind reply =>
    cases hr : (a.check session >>= fun _ ↦ a.isRunning) <;> cases kind <;>
      simp [handle, hr, accept, emit, h, admitted]
  | query session reply => cases hr : a.check session <;> simp [handle, hr, emit, h, admitted]
  | attach session attachment reply =>
    cases hr : a.check session <;> simp [handle, hr, emit, h, admitted, attaching, pending]
  | output bytes => by_cases ho : a.outputClosed <;> simp [handle, ho, emit, h, admitted]
  | reaped status =>
    by_cases hl : a.lifecycle = .running <;> by_cases ho : a.outputClosed <;>
      by_cases hp : a.published = .exited status <;>
      simp [handle, hl, ho, hp, publishLifecycle, emit, h, admitted]
  | readerClosed =>
    by_cases hp : a.published = a.lifecycle <;>
      simp [handle, hp, publishLifecycle, emit, h, admitted]
  | ownerLost =>
    by_cases hl : a.lifecycle = .running <;> by_cases hp : a.published = .ownerLost <;>
      simp [handle, hl, hp, publishLifecycle, emit, h, admitted]

theorem Actor.effects_publishLifecycle {a : Actor} (h : a.effects = []) :
    .leave ∉ a.publishLifecycle.effects ∧ admitted a.publishLifecycle.effects = [] := by
  by_cases hp : a.published = a.lifecycle <;>
    simp [Actor.publishLifecycle, hp, h, admitted]

theorem Actor.effects_finish {a : Actor} (h : a.effects = []) :
    Closing a.finish.effects ∧ admitted a.finish.effects = [] := by
  have hp := Actor.effects_publishLifecycle h
  refine ⟨?_, by simp [Actor.finish, Actor.emit, hp.2, admitted]⟩
  rw [Actor.finish, Actor.emit, Actor.emit]
  refine closing_append ?_ (by simp [hp.1])
  intro front back he
  cases front with
  | nil => simpa using he.symm
  | cons f front => simp at he

/-- No broadcast is under way behind anything else. -/
theorem Routed.silent (h : Routed s) {e : Effect} {rest : List Effect}
    (hq : s.actor.effects = e :: rest) (he : ∀ i, e ≠ .forget i) : tells rest = [] := by
  have hor := h.orderly
  rw [hq] at hor
  rcases hor with hr | ⟨⟨i, hi⟩, _⟩
  · exact hr
  · exact absurd hi (he i)

/-- The end of the actor is not among other effects. -/
private theorem Closing.cons {e f : Effect} {es : List Effect} (h : Closing (e :: es))
    (fs : List Effect) (hf : .leave ∉ f :: fs) : Closing (f :: fs ++ es) :=
  closing_append (closing_tail h) hf

/-- The next of the actor's effects is done, and others may be to do in its place. -/
private theorem Routed.advance (h : Routed s) {e : Effect} {rest : List Effect}
    (hq : s.actor.effects = e :: rest) (he : ∀ i, e ≠ .forget i) (es : List Effect)
    (hes : t.actor.effects = es ++ rest) (ho : tells es = []) (hl : .leave ∉ es)
    (hp : pending es = []) (ha : admitted es = []) (hended : t.ended = s.ended)
    (hh : t.input.hungUp = s.input.hungUp) : Routed t := by
  have hrest := h.silent hq he
  have hleft : t.input.hungUp ≠ true := by
    intro hu
    obtain ⟨i, hi⟩ := (h.left (hh ▸ hu)).2 e (by rw [hq]; simp)
    exact he i hi
  constructor
  · rw [hes]
    exact orderly_of_tells (by rw [tells_append, ho, hrest]; rfl)
  · intro ev todo hm
    have := mem_tells hm
    rw [hes, tells_append, ho, hrest] at this
    exact absurd rfl this
  · rw [hes, admitted_append, pending_append, ha, hp]
    intro hne
    have := h.admitting (by rw [hq]; cases e <;> simp_all [admitted])
    rw [hq] at this
    cases e <;> simp_all [pending]
  · rw [hes]
    exact closing_append (closing_tail (hq ▸ h.closing)) hl
  · rw [hes, hended]
    intro hm
    exact h.leaving (by rw [hq]; simp_all)
  · intro hu
    exact absurd hu hleft

private theorem Routed.of_eq (h : Routed s) (ha : t.actor.effects = s.actor.effects)
    (hlog : t.tape.log = s.tape.log) (he : t.ended = s.ended)
    (hh : t.input.hungUp = s.input.hungUp) : Routed t := by
  obtain ⟨h1, h2, h3, h4, h5, h6⟩ := h
  exact ⟨ha ▸ h1, by rw [ha, hlog]; exact h2, ha ▸ h3, ha ▸ h4, by rw [ha, he]; exact h5,
    by rw [ha, he, hh]; exact h6⟩

/-- A transition of an actor that has nothing else to do. -/
private theorem Routed.act (h : Routed s) (alive : s.ended = false)
    (htells : tells t.actor.effects = [])
    (hadm : admitted t.actor.effects ≠ [] → pending t.actor.effects = [])
    (hclose : Closing t.actor.effects) (hleave : .leave ∈ t.actor.effects → t.ended = true)
    (hh : t.input.hungUp = s.input.hungUp) : Routed t := by
  refine ⟨orderly_of_tells htells, ?_, hadm, hclose, hleave, ?_⟩
  · intro e todo hm
    exact absurd htells (mem_tells hm)
  · intro hu
    have := (h.left (hh ▸ hu)).1
    simp [alive] at this

private theorem ActorStep.routed (h : Routed s) (hs : ActorStep size s t) : Routed t := by
  cases hs with
  | receive c rest idle alive hi =>
    obtain ⟨hl, _, hadm⟩ := Actor.effects_handle idle c
    exact h.act alive (Actor.tells_handle idle c) hadm (closing_of_not_mem hl)
      (fun hm ↦ absurd hm hl) rfl
  | timeout idle alive =>
    obtain ⟨hl, hadm⟩ := Actor.effects_publishLifecycle idle
    exact h.act alive (Actor.tells_publishLifecycle idle) (fun hne ↦ absurd hadm hne)
      (closing_of_not_mem hl) (fun hm ↦ absurd hm hl) rfl
  | disconnected idle alive =>
    obtain ⟨hc, hadm⟩ := Actor.effects_finish idle
    exact h.act alive (Actor.tells_finish idle) (fun hne ↦ absurd hadm hne) hc (fun _ ↦ rfl) rfl
  | broadcast e rest hq =>
    have hrest := h.silent hq (by simp)
    refine ⟨.inl hrest, ?_, ?_, ?_, ?_, ?_⟩
    · intro ev todo hm
      rcases List.mem_cons.mp hm with hm | hm
      · cases hm
        exact ⟨s.tape.log, rfl⟩
      · exact absurd hrest (mem_tells hm)
    · intro hne
      have := h.admitting (by rw [hq]; exact hne)
      rw [hq] at this
      cases this
    · exact (hq ▸ h.closing).cons [] (by simp)
    · intro hm
      exact h.leaving (by rw [hq]; simpa [System.proceed] using hm)
    · intro hu
      obtain ⟨i, hi⟩ := (h.left hu).2 (.broadcast e) (by rw [hq]; simp)
      cases hi
  | told e rest hq =>
    exact h.advance hq (by simp) [] rfl rfl (by simp) rfl rfl rfl rfl
  | tell e i todo rest st hq =>
    have hrest := h.silent hq (by simp)
    refine ⟨.inl hrest, ?_, ?_, ?_, ?_, ?_⟩
    · intro ev todo' hm
      rcases List.mem_cons.mp hm with hm | hm
      · cases hm
        exact h.last e (i :: todo) (by rw [hq]; simp)
      · exact absurd hrest (mem_tells hm)
    · intro hne
      have := h.admitting (by rw [hq]; exact hne)
      rw [hq] at this
      exact this
    · exact (hq ▸ h.closing).cons [] (by simp)
    · intro hm
      exact h.leaving (by rw [hq]; simpa [System.proceed] using hm)
    · intro hu
      obtain ⟨k, hk⟩ := (h.left hu).2 (.tell e (i :: todo)) (by rw [hq]; simp)
      cases hk
  | detach e i todo rest st hq =>
    have hrest := h.silent hq (by simp)
    refine ⟨.inr ⟨⟨i, rfl⟩, .inl hrest⟩, ?_, ?_, ?_, ?_, ?_⟩
    · intro ev todo' hm
      rcases List.mem_cons.mp hm with hm | hm
      · cases hm
      · rcases List.mem_cons.mp hm with hm | hm
        · cases hm
          exact h.last e (i :: todo) (by rw [hq]; simp)
        · exact absurd hrest (mem_tells hm)
    · intro hne
      have := h.admitting (by rw [hq]; exact hne)
      rw [hq] at this
      exact this
    · exact (hq ▸ h.closing).cons [.tell e todo] (by simp)
    · intro hm
      exact h.leaving (by rw [hq]; simpa using hm)
    · intro hu
      obtain ⟨k, hk⟩ := (h.left hu).2 (.tell e (i :: todo)) (by rw [hq]; simp)
      cases hk
  | enrol i rest st hq =>
    exact h.advance hq (by simp) [] rfl rfl (by simp) rfl rfl rfl rfl
  | refuse i rest st hq =>
    exact h.advance hq (by simp) [.forget i] rfl rfl (by simp) rfl rfl rfl rfl
  | forget i rest st hq =>
    have hor : Orderly rest := by
      have := h.orderly
      rw [hq] at this
      rcases this with hr | ⟨_, hr⟩
      · exact orderly_of_tells hr
      · exact hr
    refine ⟨hor, ?_, ?_, closing_tail (hq ▸ h.closing), ?_, ?_⟩
    · intro ev todo hm
      exact h.last ev todo (by rw [hq]; exact List.mem_cons_of_mem _ hm)
    · intro hne
      have := h.admitting (by rw [hq]; exact hne)
      rw [hq] at this
      exact this
    · intro hm
      exact h.leaving (by rw [hq]; exact List.mem_cons_of_mem _ hm)
    · intro hu
      obtain ⟨h1, h2⟩ := h.left hu
      exact ⟨h1, fun e he ↦ h2 e (by rw [hq]; exact List.mem_cons_of_mem _ he)⟩
  | closeGate _ rest hq | submit _ _ rest hq =>
    exact h.advance hq (by simp) [] rfl rfl (by simp) rfl rfl rfl rfl
  | full _ _ rest hq | gone _ _ rest hq | resize _ _ rest _ hq =>
    exact h.advance hq (by simp) [_] rfl rfl (by simp) rfl rfl rfl rfl
  | nobody _ _ reply rest hq | late _ _ reply rest hq =>
    exact h.advance hq (by simp) _ rfl (tells_answerTo _ _) (not_leave_answerTo _ _)
      (pending_answerTo _ _) (admitted_answerTo _ _) rfl rfl
  | kill _ _ reply rest _ _ hq =>
    exact h.advance hq (by simp) _ rfl (tells_answerTo _ _) (not_leave_answerTo _ _)
      (pending_answerTo _ _) (admitted_answerTo _ _) rfl rfl
  | lock _ _ _ rest hq =>
    exact h.advance hq (by simp) [_] rfl rfl (by simp) rfl rfl rfl rfl
  | answer _ _ rest hq =>
    exact h.advance hq (by simp) [] rfl rfl (by simp) rfl rfl rfl rfl
  | leave rest hq =>
    have hrest : rest = [] := h.closing [] rest hq
    have hall : ∀ e ∈ s.actor.attachments.map Effect.forget ++ rest, ∃ i, e = .forget i := by
      intro e he
      rw [hrest, List.append_nil, List.mem_map] at he
      obtain ⟨i, _, rfl⟩ := he
      exact ⟨i, rfl⟩
    have hno : Effect.leave ∉ s.actor.attachments.map Effect.forget ++ rest := by
      intro hm
      obtain ⟨i, hi⟩ := hall _ hm
      cases hi
    have ht : tells (s.actor.attachments.map Effect.forget ++ rest) = [] := by simp [hrest]
    have hended := h.leaving (by rw [hq]; simp)
    refine ⟨orderly_of_tells ht, ?_, ?_, closing_of_not_mem hno, fun hm ↦ absurd hm hno,
      fun _ ↦ ⟨hended, hall⟩⟩
    · intro ev todo hm
      exact absurd ht (mem_tells hm)
    · intro _
      simp [hrest]

/-- The actor keeps its order in every step. -/
theorem Step.routed (h : Routed s) (hs : Step size s t) : Routed t := by
  cases hs with
  | reader hs =>
    cases hs with
    | reserve chunk =>
      have hr : ∀ u : System, ∀ n, (u.reserve n).actor = u.actor ∧
          (u.reserve n).tape = u.tape ∧ (u.reserve n).ended = u.ended ∧
          (u.reserve n).input = u.input := by
        intro u n
        unfold System.reserve
        split
        · exact ⟨rfl, rfl, rfl, rfl⟩
        · split <;> exact ⟨rfl, rfl, rfl, rfl⟩
      obtain ⟨h1, h2, h3, h4⟩ := hr (s.withReader (.reserved chunk)) chunk.length
      exact h.of_eq (by rw [h1]; rfl) (by rw [h2]; rfl) (by rw [h3]; rfl) (by rw [h4]; rfl)
    | room | read | retry | send | close => exact h.of_eq rfl rfl rfl rfl
  | reaper hs => cases hs <;> exact h.of_eq rfl rfl rfl rfl
  | writer hs => cases hs <;> exact h.of_eq rfl rfl rfl rfl
  | client hs => cases hs <;> exact h.of_eq rfl rfl rfl rfl
  | actor hs => exact hs.routed h

end PtySpec.Substrate
