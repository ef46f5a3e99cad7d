import PtySpec.Handle.Frames

/-!
# A watched frame is up to date

A lease is counted before its wake-up is sent, and the thread looks at the count before it
clears its mark. So at every moment one of them knows of the other: no one watches, a wake-up is
to be sent, queued or being handled, the mark is set, or the frame shows the terminal as it is.
-/

namespace PtySpec.Handle

open Lib Vt

/-- The thread will look at the terminal again. -/
def Op.marks {ν : Type} : Op ν → Bool
  | .effect .dirty | .effect .observe => true
  | _ => false

/-- A part of `flush_frame`. -/
def Op.flushes {ν : Type} : Op ν → Bool
  | .store | .clear => true
  | _ => false

/-- The last published frame is that of the revision. -/
def Stored {ν : Type} (seen : List (Seen ν)) (rev : Nat) : Prop :=
  ∃ before after, seen = before ++ .frame rev :: after ∧ ∀ r, .frame r ∉ after

/-- The last published frame is that of the revision, and a `Dirty` with it came after. -/
def Told {ν : Type} (seen : List (Seen ν)) (rev : Nat) : Prop :=
  ∃ before after, seen = before ++ .frame rev :: after ∧ (∀ r, .frame r ∉ after) ∧
    .dirty rev ∈ after

section Seen

variable {ν : Type} {seen : List (Seen ν)} {rev : Nat}

theorem stored_store (seen : List (Seen ν)) (rev : Nat) : Stored (seen ++ [.frame rev]) rev :=
  ⟨seen, [], rfl, fun _ ↦ List.not_mem_nil⟩

theorem Stored.told (h : Stored seen rev) : Told (seen ++ [.dirty rev]) rev := by
  obtain ⟨before, after, rfl, hn⟩ := h
  refine ⟨before, after ++ [.dirty rev], by simp, fun r ↦ ?_, by simp⟩
  simpa using hn r

theorem Told.event (h : Told seen rev) (event : HandleEvent ν) :
    Told (seen ++ [.event event]) rev := by
  obtain ⟨before, after, rfl, hn, hd⟩ := h
  refine ⟨before, after ++ [.event event], by simp, fun r ↦ ?_, by simp [hd]⟩
  simpa using hn r

end Seen

namespace System

variable {G ν : Type} [Emulator G] {s t : System G ν}

/-- The frame shows the terminal as it is. -/
def Current (s : System G ν) : Prop := s.frame = ⟨s.rev, some s.core.shown⟩

/-- No one watches, or it is still to come that the thread looks again. -/
def Owed (s : System G ν) (todo : List (Op ν)) : Prop :=
  s.observers = 0 ∨ 0 < s.waking ∨ .msg .observeFrames ∈ s.queue ∨ todo.any Op.marks = true

/-- What the thread owes to those who watch, by what it has to do. -/
inductive Due (s : System G ν) : List (Op ν) → Prop where
  | store (rest : List (Op ν)) (h : rest.all (!·.flushes) = true) :
    Due s (.store :: .clear :: rest)
  | clear (rest : List (Op ν)) (h : rest.all (!·.flushes) = true)
    (hd : s.Owed rest ∨ s.Current ∧ Stored s.seen s.rev) : Due s (.clear :: rest)
  | idle (todo : List (Op ν)) (h : todo.all (!·.flushes) = true)
    (hd : s.Owed todo ∨ s.dirty = true ∨ s.Current ∧ Told s.seen s.rev) : Due s todo

/-- The invariant of the count, the queue, the mark and the frame. -/
structure Watched (s : System G ν) : Prop where
  count : s.observers = s.waking + s.held
  marked : ∀ pre post, s.todo = pre ++ .effect .publish :: post → .effect .dirty ∈ post
  due : s.phase = .busy ∨ s.phase = .settling → s.Due s.todo
  ends : s.phase = .settling → (s.todo = [] ∧ s.dirty = false) ∨
    s.todo.getLast? = some .clear ∨ s.todo.getLast? = some (.effect (.flush false))

private theorem marked_tail {o : Op ν} {rest : List (Op ν)}
    (h : ∀ pre post, o :: rest = pre ++ .effect .publish :: post → .effect .dirty ∈ post) :
    ∀ pre post, rest = pre ++ .effect .publish :: post → .effect .dirty ∈ post :=
  fun pre post he ↦ h (o :: pre) post (he ▸ rfl)

private theorem marked_cons {o : Op ν} {rest : List (Op ν)} (ho : o ≠ .effect .publish)
    (h : ∀ pre post, rest = pre ++ .effect .publish :: post → .effect .dirty ∈ post) :
    ∀ pre post, o :: rest = pre ++ .effect .publish :: post → .effect .dirty ∈ post := by
  intro pre post he
  cases pre with
  | nil => exact absurd (List.cons.inj he).1 ho
  | cons x pre => exact h pre post (List.cons.inj he).2

/-- A flush leaves to do what it is made of. -/
theorem flushFrame_cases (s : System G ν) (force : Bool) :
    (s.flushFrame force = s ∧ s.dirty = false) ∨
      s.flushFrame force = { s with todo := .store :: .clear :: s.todo } ∨
      (s.flushFrame force = { s with todo := .clear :: s.todo } ∧ s.observers = 0) := by
  unfold flushFrame
  split
  · next h =>
    rw [Bool.and_eq_true, Bool.not_eq_true'] at h
    exact .inl ⟨rfl, h.1⟩
  · split
    · exact .inr (.inl rfl)
    · next h => exact .inr (.inr ⟨rfl, by omega⟩)

private theorem Due.flush {force : Bool} {rest : List (Op ν)} (ht : s.todo = rest)
    (hr : rest.all (!·.flushes) = true)
    (h : s.Owed rest ∨ s.dirty = true ∨ s.Current ∧ Told s.seen s.rev) :
    (s.flushFrame force).Due (s.flushFrame force).todo := by
  subst ht
  rcases flushFrame_cases s force with ⟨he, -⟩ | he | ⟨he, h0⟩ <;> rw [he]
  · exact .idle _ hr h
  · exact .store _ hr
  · exact .clear _ hr (.inl (.inl h0))

private theorem any_marks_of_dirty {todo : List (Op ν)} (h : .effect .dirty ∈ todo) :
    todo.any Op.marks = true := List.any_eq_true.mpr ⟨_, h, rfl⟩

/-- What the thread has to do first does not mark, so what it owes stays. -/
private theorem Owed.tail {o : Op ν} {rest : List (Op ν)} (ho : o.marks = false)
    (h : s.Owed (o :: rest)) : s.Owed rest := by
  rcases h with h | h | h | h
  · exact .inl h
  · exact .inr (.inl h)
  · exact .inr (.inr (.inl h))
  · rw [List.any_cons, ho, Bool.false_or] at h
    exact .inr (.inr (.inr h))

private theorem Due.idle_of {todo : List (Op ν)} {o : Op ν} (h : s.Due (o :: todo))
    (ho : o.flushes = false) : (o :: todo).all (!·.flushes) = true ∧
      (s.Owed (o :: todo) ∨ s.dirty = true ∨ s.Current ∧ Told s.seen s.rev) := by
  cases h with
  | store => cases ho
  | clear => cases ho
  | idle _ h hd => exact ⟨h, hd⟩

private theorem Due.effect {e : Effect ν} {rest : List (Op ν)} (h : s.Due (.effect e :: rest))
    (hm : e = .publish → .effect .dirty ∈ rest) :
    ({ s with todo := rest }.effect e).Due ({ s with todo := rest }.effect e).todo := by
  obtain ⟨hall, hd⟩ := h.idle_of rfl
  have hrest : rest.all (!·.flushes) = true := by
    rw [List.all_cons] at hall
    exact (Bool.and_eq_true _ _ ▸ hall).2
  have hkeep : (Op.effect e).marks = false →
      s.Owed rest ∨ s.dirty = true ∨ s.Current ∧ Told s.seen s.rev := fun hn ↦
    hd.imp_left (Owed.tail hn)
  cases e with
  | publish => exact .idle _ hrest (.inl (.inr (.inr (.inr (any_marks_of_dirty (hm rfl))))))
  | emit event =>
    refine .idle _ hrest ?_
    rcases hkeep rfl with h | h | ⟨hc, ht⟩
    · exact .inl h
    · exact .inr (.inl h)
    · exact .inr (.inr ⟨hc, ht.event event⟩)
  | dirty => exact .idle _ hrest (.inr (.inl rfl))
  | flush force => exact Due.flush (s := { s with todo := rest }) rfl hrest (hkeep rfl)
  | observe =>
    unfold System.effect
    dsimp only
    split
    · exact .idle _ hrest (.inr (.inl rfl))
    · next h0 => exact .idle _ hrest (.inl (.inl (by simpa using h0)))
  | input w => exact .idle _ hrest (hkeep rfl)
  | packet p => exact .idle _ hrest (hkeep rfl)
  | snapshot offset reply => exact .idle _ hrest (hkeep rfl)
  | capture offset reply => exact .idle _ hrest (hkeep rfl)
  | answer attempt target packet result => exact .idle _ hrest (hkeep rfl)

/-- Whatever the thread does first, it goes on owing what it must. -/
private theorem Due.op {o : Op ν} {rest : List (Op ν)} (h : s.Due (o :: rest))
    (hm : o = .effect .publish → .effect .dirty ∈ rest) :
    ({ s with todo := rest }.op o).Due ({ s with todo := rest }.op o).todo := by
  cases o with
  | effect e => exact h.effect fun he ↦ hm (he ▸ rfl)
  | due =>
    obtain ⟨hall, hd⟩ := h.idle_of rfl
    rw [List.all_cons] at hall
    exact .idle _ (Bool.and_eq_true _ _ ▸ hall).2 (hd.imp_left (Owed.tail rfl))
  | store =>
    cases h with
    | store rest h => exact .clear _ h (.inr ⟨rfl, stored_store _ _⟩)
    | idle _ h => simp [Op.flushes] at h
  | clear =>
    cases h with
    | clear _ h hd => exact .idle _ h (hd.imp_right fun hc ↦ .inr ⟨hc.1, hc.2.told⟩)
    | idle _ h => simp [Op.flushes] at h

/-- What one thing to do leaves alone, and what it adds to be done. -/
private theorem op_fields (s : System G ν) (o : Op ν) :
    (s.op o).observers = s.observers ∧ (s.op o).waking = s.waking ∧ (s.op o).held = s.held ∧
      (s.op o).phase = s.phase ∧ ∃ more, (s.op o).todo = more ++ s.todo ∧
        .effect .publish ∉ more := by
  have hflush : ∀ force, (s.flushFrame force).observers = s.observers ∧
      (s.flushFrame force).waking = s.waking ∧ (s.flushFrame force).held = s.held ∧
      (s.flushFrame force).phase = s.phase ∧ ∃ more, (s.flushFrame force).todo = more ++ s.todo ∧
        .effect .publish ∉ more := by
    intro force
    rcases flushFrame_cases s force with ⟨he, -⟩ | he | ⟨he, -⟩ <;> rw [he]
    · exact ⟨rfl, rfl, rfl, rfl, [], rfl, by simp⟩
    · exact ⟨rfl, rfl, rfl, rfl, [.store, .clear], rfl, by simp⟩
    · exact ⟨rfl, rfl, rfl, rfl, [.clear], rfl, by simp⟩
  cases o with
  | effect e =>
    cases e with
    | flush force => exact hflush force
    | observe =>
      unfold System.op System.effect
      dsimp only
      split <;> exact ⟨rfl, rfl, rfl, rfl, [], rfl, by simp⟩
    | _ => exact ⟨rfl, rfl, rfl, rfl, [], rfl, by simp⟩
  | _ => exact ⟨rfl, rfl, rfl, rfl, [], rfl, by simp⟩

/-- A step that changes neither the frames nor their observers. -/
structure Elsewhere (s t : System G ν) : Prop where
  core : t.core = s.core
  todo : t.todo = s.todo
  phase : t.phase = s.phase
  published : t.published = s.published
  dirty : t.dirty = s.dirty
  frame : t.frame = s.frame
  seen : t.seen = s.seen
  observers : t.observers = s.observers
  waking : t.waking = s.waking
  held : t.held = s.held
  queue : s.queue ⊆ t.queue

theorem Elsewhere.refl (s : System G ν) : Elsewhere s s :=
  ⟨rfl, rfl, rfl, rfl, rfl, rfl, rfl, rfl, rfl, rfl, List.Subset.refl _⟩

private theorem elsewhere_send (s : System G ν) (mail : Mail G) : Elsewhere s (s.send mail) := by
  unfold send
  split
  · exact .refl s
  · exact { Elsewhere.refl s with queue := List.subset_append_left _ _ }

private theorem elsewhere_answered (s : System G ν) (i began offset : Nat)
    (pane : Option PaneKey) (grid : Option (Emulator.CellGrid G)) :
    Elsewhere s (s.answered i began offset pane grid) := by
  unfold answered
  split <;> exact { Elsewhere.refl s with }

/-- A reader changes neither the frames nor their observers. -/
theorem elsewhere_call (s : System G ν) (i : Nat) : Elsewhere s (s.call i) := by
  have hstay : ∀ c, Elsewhere s (s.withCaller i c) := fun _ ↦ { Elsewhere.refl s with }
  have hreturn : ∀ b o g, Elsewhere s (s.return_ i b o g) := fun _ _ _ ↦ { Elsewhere.refl s with }
  unfold call
  split
  · exact .refl s
  · exact hstay _
  · exact hstay _
  · exact hstay _
  · split
    · split
      · exact hreturn _ _ _
      · exact hstay _
    · exact hstay _
  · split
    · split
      · exact elsewhere_answered _ _ _ _ _ _
      · exact hstay _
    · exact hstay _
  · split
    · exact elsewhere_answered _ _ _ _ _ _
    · exact { elsewhere_send { s.withCaller i _ with asks := s.asks + 1 } _ with }
  · split
    · unfold remember
      split
      · exact { elsewhere_answered { s with snapCache := _ } _ _ _ _ _ with }
      · exact elsewhere_answered _ _ _ _ _ _
    · split
      · exact elsewhere_answered _ _ _ _ _ _
      · exact .refl s
  · exact { Elsewhere.refl s with }

private theorem Due.imp {todo : List (Op ν)} (h : s.Due todo)
    (howed : ∀ todo, s.Owed todo → t.Owed todo) (hdirty : t.dirty = s.dirty)
    (hcurrent : s.Current → t.Current) (hseen : t.seen = s.seen) (hrev : t.rev = s.rev) :
    t.Due todo := by
  cases h with
  | store rest h => exact .store rest h
  | clear rest h hd =>
    refine .clear rest h (hd.imp (howed rest) fun hc ↦ ⟨hcurrent hc.1, ?_⟩)
    rw [hseen, hrev]
    exact hc.2
  | idle _ h hd =>
    refine .idle _ h (hd.imp (howed todo) (Or.imp (hdirty.trans ·) fun hc ↦ ⟨hcurrent hc.1, ?_⟩))
    rw [hseen, hrev]
    exact hc.2

/-- Only those who watch, and the queue, have changed. -/
private theorem Watched.imp (h : s.Watched) (hcount : t.observers = t.waking + t.held)
    (howed : ∀ todo, s.Owed todo → t.Owed todo) (hcore : t.core = s.core)
    (htodo : t.todo = s.todo) (hphase : t.phase = s.phase) (hpub : t.published = s.published)
    (hdirty : t.dirty = s.dirty) (hframe : t.frame = s.frame) (hseen : t.seen = s.seen) :
    t.Watched := by
  have hrev : t.rev = s.rev := by
    unfold rev
    rw [hpub]
  constructor
  · exact hcount
  · rw [htodo]
    exact h.marked
  · rw [hphase, htodo]
    intro hp
    refine (h.due hp).imp howed hdirty (fun hc ↦ ?_) hseen hrev
    unfold Current
    rw [hframe, hrev, hcore]
    exact hc
  · rw [hphase, htodo, hdirty]
    exact h.ends

private theorem Watched.elsewhere (h : s.Watched) (he : Elsewhere s t) : t.Watched := by
  refine h.imp ?_ (fun todo ho ↦ ?_) he.core he.todo he.phase he.published he.dirty he.frame
    he.seen
  · rw [he.observers, he.waking, he.held]
    exact h.count
  · unfold Owed at ho ⊢
    rw [he.observers, he.waking]
    exact ho.imp_right (Or.imp_right (Or.imp_left (he.queue ·)))

/-- Doing the first thing keeps the end of what is to be done, or gets to it. -/
private theorem ends_op {o : Op ν} {rest : List (Op ν)} (ht : s.todo = o :: rest)
    (h : (s.todo = [] ∧ s.dirty = false) ∨ s.todo.getLast? = some .clear ∨
      s.todo.getLast? = some (.effect (.flush false))) :
    let t := { s with todo := rest }.op o
    (t.todo = [] ∧ t.dirty = false) ∨ t.todo.getLast? = some .clear ∨
      t.todo.getLast? = some (.effect (.flush false)) := by
  have hlast : s.todo.getLast? = some .clear ∨
      s.todo.getLast? = some (.effect (.flush false)) := by
    rcases h with ⟨h, -⟩ | h
    · cases ht.symm.trans h
    · exact h
  rw [ht] at hlast
  obtain ⟨-, -, -, -, more, hmore, -⟩ := op_fields { s with todo := rest } o
  cases rest with
  | cons x rest =>
    right
    rw [hmore, List.getLast?_append_of_ne_nil _ (List.cons_ne_nil x rest)]
    exact hlast
  | nil =>
    rcases hlast with hl | hl
    · obtain rfl := Option.some.inj hl
      exact .inl ⟨rfl, rfl⟩
    · obtain rfl := Option.some.inj hl
      dsimp only [System.op, System.effect]
      rcases flushFrame_cases { s with todo := [] } false with ⟨he, hd⟩ | he | ⟨he, -⟩ <;> rw [he]
      · exact .inl ⟨rfl, hd⟩
      · exact .inr (.inl rfl)
      · exact .inr (.inl rfl)

omit [Emulator G] in
/-- What a message leaves to be done marks whatever it publishes. -/
private theorem marked_effects {es tail : List (Op ν)} {effects : List (Effect ν)}
    (h : ∀ pre post, effects = pre ++ .publish :: post → .dirty ∈ post)
    (he : es = effects.map .effect ++ tail) (htail : .effect .publish ∉ tail) :
    ∀ pre post, es = pre ++ .effect .publish :: post → .effect .dirty ∈ post := by
  subst he
  intro pre post he
  rcases List.append_eq_append_iff.mp he with ⟨l, ha, hl⟩ | ⟨l, ha, hl⟩
  · refine absurd ?_ htail
    rw [hl]
    exact List.mem_append_right _ List.mem_cons_self
  · cases l with
    | nil =>
      refine absurd ?_ htail
      rw [← List.nil_append tail, ← hl]
      exact List.mem_cons_self
    | cons x l =>
      obtain ⟨rfl, rfl⟩ := List.cons.inj hl
      obtain ⟨a, b, rfl, rfl, hb⟩ := List.map_eq_append_iff.mp ha
      obtain ⟨e, b, rfl, hx, rfl⟩ := List.map_eq_cons_iff.mp hb
      obtain rfl := Op.effect.inj hx
      exact List.mem_append_left _ (List.mem_map_of_mem (h a b rfl))

private theorem all_flushes_effects (es : List (Effect ν)) (tail : List (Op ν)) :
    (es.map Op.effect ++ tail).all (!·.flushes) = tail.all (!·.flushes) := by
  have hes : (es.map Op.effect).all (!·.flushes) = true :=
    List.all_eq_true.mpr fun o ho ↦ by
      obtain ⟨e, -, rfl⟩ := List.mem_map.mp ho
      rfl
  rw [List.all_append, hes, Bool.true_and]

variable [NotificationTap ν]

/-- A message that changes the terminal marks it, and the wake-up is a message. -/
private theorem Due.handle (h : s.Due []) (m : Msg G) {rest : List (Mail G)}
    (hq : s.queue = .msg m :: rest) : (s.handle m rest).Due (s.handle m rest).todo := by
  refine .idle _ (all_flushes_effects _ _) ?_
  have hmarks : .dirty ∈ (s.core.dispatch m).2 → (s.handle m rest).Owed (s.handle m rest).todo :=
    fun hd ↦ .inr (.inr (.inr (any_marks_of_dirty
      (List.mem_append_left _ (List.mem_map_of_mem hd)))))
  cases h with
  | idle _ _ hd =>
    rcases hd with (h | h | h | h) | h | ⟨hc, ht⟩
    · exact .inl (.inl h)
    · exact .inl (.inr (.inl h))
    · rw [hq] at h
      rcases List.mem_cons.mp h with h | h
      · obtain rfl := Mail.msg.inj h
        exact .inl (.inr (.inr (.inr rfl)))
      · exact .inl (.inr (.inr (.inl h)))
    · cases h
    · exact .inr (.inl h)
    · by_cases hp : .publish ∈ (s.core.dispatch m).2
      · obtain ⟨a, b, hab⟩ := List.append_of_mem hp
        refine .inl (hmarks ?_)
        rw [hab]
        exact List.mem_append_right _ (List.mem_cons_of_mem _ (dispatch_marked s.core m a b hab))
      · refine .inr (.inr ⟨?_, ht⟩)
        unfold Current at hc ⊢
        rw [show (s.handle m rest).core.shown = s.core.shown from dispatch_kept hp]
        exact hc

omit [NotificationTap ν] in
private theorem Watched.stop (h : s.Watched) (rest : List (Mail G)) : (s.stop rest).Watched := by
  refine ⟨h.count, fun pre post he ↦ ?_, fun hp ↦ ?_, fun hp ↦ by cases hp⟩
  · have hm : (.effect .publish : Op ν) ∈ (s.stop rest).todo :=
      he ▸ List.mem_append_right _ List.mem_cons_self
    obtain ⟨e, hmem, he⟩ := List.mem_map.mp hm
    obtain rfl := Op.effect.inj he
    unfold Core.shutdown at hmem
    dsimp only at hmem
    split at hmem <;> simp at hmem
  · rcases hp with hp | hp <;> cases hp

/-- Every step keeps the invariant. -/
theorem Watched.step (h : s.Watched) (hs : Step s t) : t.Watched := by
  cases hs with
  | op o rest ht =>
    obtain ⟨ho, hw, hh, hp, more, hmore, hn⟩ := op_fields { s with todo := rest } o
    refine ⟨?_, fun pre post he ↦ ?_, fun hrun ↦ ?_, fun hset ↦ ?_⟩
    · rw [ho, hw, hh]
      exact h.count
    · have hm := marked_tail (ht ▸ h.marked)
      rw [hmore] at he
      rcases List.append_eq_append_iff.mp he with ⟨l, -, hl⟩ | ⟨l, ha, hl⟩
      · exact hm l post hl
      · cases l with
        | nil => exact hm [] post hl.symm
        | cons x l =>
          obtain ⟨rfl, -⟩ := List.cons.inj hl
          refine absurd ?_ hn
          rw [ha]
          exact List.mem_append_right _ List.mem_cons_self
    · rw [hp] at hrun
      refine Due.op (ht ▸ h.due hrun) fun he ↦ ?_
      exact h.marked [] rest (by rw [ht, he]; rfl)
    · rw [hp] at hset
      exact ends_op ht (h.ends hset)
  | due rest ht dirty observed =>
    refine ⟨h.count, marked_cons (by simp) (marked_tail (ht ▸ h.marked)), fun hrun ↦ ?_,
      fun hset ↦ ?_⟩
    · obtain ⟨hall, -⟩ := (ht ▸ h.due hrun : s.Due (.due :: rest)).idle_of rfl
      exact .idle _ hall (.inr (.inl dirty))
    · have hends := h.ends hset
      rw [ht] at hends
      cases rest with
      | nil => exact .inr (.inr rfl)
      | cons x rest =>
        rcases hends with ⟨he, -⟩ | he
        · cases he
        · exact .inr he
  | receive m rest ht running hq =>
    refine ⟨h.count, marked_effects (dispatch_marked s.core m) rfl (by simp), fun _ ↦ ?_,
      fun hp ↦ by cases hp⟩
    exact Due.handle (ht ▸ h.due running) m hq
  | close rest ht running hq => exact h.stop rest
  | drained ht busy hq =>
    refine ⟨h.count, fun pre post he ↦ ?_, fun _ ↦ ?_, fun _ ↦ .inr (.inr rfl)⟩
    · have hm : (.effect .publish : Op ν) ∈ [(.effect (.flush false) : Op ν)] := by
        rw [show [(.effect (.flush false) : Op ν)] = _ from he]
        exact List.mem_append_right _ List.mem_cons_self
      simp at hm
    · obtain hd := h.due (.inl busy)
      rw [ht] at hd
      cases hd with
      | idle _ _ hd => exact .idle _ rfl hd
  | hangUp ht settled hq gone => exact h.stop []
  | stopped ht stopping =>
    refine ⟨h.count, h.marked, fun hp ↦ ?_, fun hp ↦ by cases hp⟩
    rcases hp with hp | hp <;> cases hp
  | acquire =>
    unfold acquire
    split
    · next h0 =>
      refine h.imp ?_ (fun todo _ ↦ .inr (.inl (Nat.succ_pos _))) rfl rfl rfl rfl rfl rfl rfl
      have := h.count
      dsimp only
      omega
    · next h0 =>
      refine h.imp ?_ (fun todo ho ↦ ?_) rfl rfl rfl rfl rfl rfl rfl
      · have := h.count
        dsimp only
        omega
      · exact ho.elim (absurd · h0) .inr
  | wake hw =>
    unfold send
    split
    · next hstop =>
      -- nothing is owed any more
      refine ⟨?_, h.marked, fun hp ↦ ?_, fun hp ↦ by cases hstop.symm.trans hp⟩
      · have := h.count
        dsimp only at this ⊢
        omega
      · rcases hp with hp | hp <;> cases hstop.symm.trans hp
    · refine h.imp ?_ (fun todo _ ↦ .inr (.inr (.inl ?_))) rfl rfl rfl rfl rfl rfl rfl
      · have := h.count
        dsimp only
        omega
      · exact List.mem_append_right _ (List.mem_singleton_self _)
  | drop hh =>
    refine h.imp ?_ (fun todo ho ↦ ?_) rfl rfl rfl rfl rfl rfl rfl
    · have := h.count
      dsimp only
      omega
    · refine ho.imp (fun h0 ↦ ?_) id
      dsimp only
      omega
  | post m hm => exact h.elsewhere (elsewhere_send s _)
  | postClose => exact h.elsewhere (elsewhere_send s _)
  | snapshot i offset hi => exact h.elsewhere { Elsewhere.refl s with }
  | cachedGrid i offset hi => exact h.elsewhere { Elsewhere.refl s with }
  | call i => exact h.elsewhere (elsewhere_call s i)
  | clearCache => exact h.elsewhere { Elsewhere.refl s with }

omit [NotificationTap ν] in
private theorem watched_start (c : Core G ν) : (start c : System G ν).Watched := by
  refine ⟨rfl, marked_effects (Handled.publish c).marked rfl (by simp), fun _ ↦ ?_, fun _ ↦ ?_⟩
  · exact .idle _ (all_flushes_effects _ _) (.inl (.inl rfl))
  · exact .inr (.inr List.getLast?_concat)

/-- While a lease is held and no other is between its count and its wake-up, a thread that is
about to wait has published the terminal as it is, and said so. -/
theorem current_of_waits {c : Core G ν} (h : Relation.ReflTransGen Step (start c) s)
    (hw : s.Waits) (hheld : 0 < s.held) (hwaking : s.waking = 0) :
    s.Current ∧ Told s.seen s.rev := by
  have hwatched : s.Watched := by
    clear hw hheld hwaking
    induction h with
    | refl => exact watched_start c
    | tail _ hs ih => exact ih.step hs
  obtain ⟨hphase, htodo, hqueue⟩ := hw
  have hdirty : s.dirty = false := by
    rcases hwatched.ends hphase with ⟨-, h⟩ | h | h
    · exact h
    · rw [htodo] at h
      cases h
    · rw [htodo] at h
      cases h
  have hdue := hwatched.due (.inr hphase)
  rw [htodo] at hdue
  cases hdue with
  | idle _ _ hd =>
    rcases hd with (h | h | h | h) | h | h
    · have := hwatched.count
      omega
    · omega
    · rw [hqueue] at h
      cases h
    · cases h
    · rw [hdirty] at h
      cases h
    · exact h

end System

end PtySpec.Handle
