import PtySpec.Substrate.Routing

/-!
# What reaches a stream

A stream is given what was published when it was attached and then every broadcast, in their
order, up to the one that finds it full.
-/

namespace PtySpec.Substrate

variable {size : Nat} {s t : System}

/-! ### What a stream is given -/

/-- What a stream found when it was attached. -/
def Joined.Marks (j : Joined) (front : List SessionEvent) : Prop :=
  (front = [] ∧ j.greeting = [] ∧ j.published = .running ∧ j.handled = 0) ∨
  (j.greeting = .lifecycle j.published ::
      (if .outputClosed ∈ front then [.outputClosed] else []) ∧
    (datas front).length = j.handled ∧
    lifecycles front = .running :: if j.published = .running then [] else [j.published])

/-- The streams that the broadcast under way has not reached. -/
def System.todo (s : System) : List Nat := (tells s.actor.effects).flatten

/-- The broadcasts that have reached a stream, or passed it. -/
def System.told (s : System) (i : Nat) : List SessionEvent :=
  if i ∈ s.todo then s.tape.log.dropLast else s.tape.log

/-- An attached stream was given the greeting and the broadcasts since, all of them if it is
neither full nor dropped. -/
structure Linked (s : System) (i : Nat) (st : Stream) (j : Joined) : Prop where
  here : j.position ≤ (s.told i).length
  marks : j.Marks (s.tape.log.take j.position)
  taken : st.enqueued <+: j.greeting ++ s.tape.log.drop j.position
  whole : st.queue.overflowed = false → st.queue.receiverGone = false →
    st.enqueued = j.greeting ++ (s.told i).drop j.position
  member : st.queue.overflowed = false → st.queue.receiverGone = false →
    s.input.hungUp = false → i ∈ s.actor.attachments

/-- The attached streams and those to be attached. -/
structure Fed (s : System) : Prop where
  nodup : s.actor.attachments.Nodup
  todo : s.todo.Nodup
  reaching : ∀ i ∈ s.todo, i ∈ s.actor.attachments
  entered : ∀ i ∈ s.actor.attachments, ∃ st, s.streams i = some st ∧ st.joined ≠ none
  fresh : ∀ i ∈ s.admits, ∃ st, s.streams i = some st ∧ st.joined = none ∧ st.enqueued = []
  distinct : s.admits.Nodup
  linked : ∀ i st j, s.streams i = some st → st.joined = some j → Linked s i st j

/-- The streams only change in ways that queue nothing. -/
def KeptAll (s t : System) : Prop :=
  (∀ k, s.streams k = none → t.streams k = none) ∧
    ∀ k st, s.streams k = some st → ∃ st', t.streams k = some st' ∧ st.Kept st'

private theorem keptAll_of_eq (h : t.streams = s.streams) : KeptAll s t := by
  refine ⟨fun k hk ↦ by rw [h, hk], fun k st hk ↦ ⟨st, by rw [h, hk], .refl st⟩⟩

private theorem keptAll_withStream {i : Nat} {st new : Stream} (hi : s.streams i = some st)
    (ht : t.streams = (s.withStream i new).streams) (hk : st.Kept new) : KeptAll s t := by
  constructor
  · intro k hn
    have hne : k ≠ i := by
      rintro rfl
      rw [hi] at hn
      cases hn
    rw [ht, s.streams_withStream_of_ne new hne, hn]
  · intro k st' hs
    by_cases h : k = i
    · subst h
      rw [hi] at hs
      cases hs
      exact ⟨new, by rw [ht, s.streams_withStream_self], hk⟩
    · exact ⟨st', by rw [ht, s.streams_withStream_of_ne new h, hs], .refl st'⟩

private theorem Linked.frame {i : Nat} {st st' : Stream} {j : Joined} (h : Linked s i st j)
    (hk : st.Kept st') (hlog : t.tape.log = s.tape.log) (htodo : t.todo = s.todo)
    (ha : t.actor.attachments = s.actor.attachments)
    (hh : t.input.hungUp = s.input.hungUp) : Linked t i st' j := by
  have htold : t.told i = s.told i := by
    rw [System.told, htodo, hlog]
    rfl
  have hov : st'.queue.overflowed = false → st.queue.overflowed = false := by
    intro hf
    by_contra hc
    rw [hk.overflowed (by simpa using hc)] at hf
    cases hf
  have hrg : st'.queue.receiverGone = false → st.queue.receiverGone = false := by
    intro hf
    by_contra hc
    rw [hk.receiverGone (by simpa using hc)] at hf
    cases hf
  constructor
  · rw [htold]
    exact h.here
  · rw [hlog]
    exact h.marks
  · rw [hlog, hk.enqueued]
    exact h.taken
  · intro h1 h2
    rw [htold, hk.enqueued]
    exact h.whole (hov h1) (hrg h2)
  · intro h1 h2 h3
    rw [ha]
    exact h.member (hov h1) (hrg h2) (hh ▸ h3)

private theorem KeptAll.back (hk : KeptAll s t) {i : Nat} {st' : Stream}
    (h : t.streams i = some st') : ∃ st, s.streams i = some st ∧ st.Kept st' := by
  cases hs : s.streams i with
  | none =>
    rw [hk.1 i hs] at h
    cases h
  | some st =>
    obtain ⟨st₁, h₁, hkept⟩ := hk.2 i st hs
    rw [h] at h₁
    cases h₁
    exact ⟨st, rfl, hkept⟩

/-- A step without a broadcast or an attach. -/
private theorem Fed.frame (h : Fed s) (hk : KeptAll s t) (hlog : t.tape.log = s.tape.log)
    (htodo : t.todo = s.todo) (ha : t.actor.attachments = s.actor.attachments)
    (hh : t.input.hungUp = s.input.hungUp) (had : (t.admits).Sublist s.admits) : Fed t := by
  constructor
  · rw [ha]
    exact h.nodup
  · rw [htodo]
    exact h.todo
  · rw [htodo, ha]
    exact h.reaching
  · intro i hi
    obtain ⟨st, hst, hj⟩ := h.entered i (ha ▸ hi)
    obtain ⟨st', hst', hkept⟩ := hk.2 i st hst
    exact ⟨st', hst', by rw [hkept.joined]; exact hj⟩
  · intro i hi
    obtain ⟨st, hst, hj, he⟩ := h.fresh i (had.subset hi)
    obtain ⟨st', hst', hkept⟩ := hk.2 i st hst
    exact ⟨st', hst', by rw [hkept.joined, hj], by rw [hkept.enqueued, he]⟩
  · exact h.distinct.sublist had
  · intro i st' j hst' hj
    obtain ⟨st, hst, hkept⟩ := hk.back hst'
    exact (h.linked i st j hst (by rw [← hkept.joined, hj])).frame hkept hlog htodo ha hh

private theorem reserve_fields (u : System) (n : Nat) :
    (u.reserve n).actor = u.actor ∧ (u.reserve n).inbox = u.inbox ∧
      (u.reserve n).tape = u.tape ∧ (u.reserve n).input = u.input ∧ KeptAll u (u.reserve n) := by
  unfold System.reserve
  split
  · exact ⟨rfl, rfl, rfl, rfl, keptAll_of_eq rfl⟩
  · split
    · exact ⟨rfl, rfl, rfl, rfl, keptAll_of_eq rfl⟩
    · next st hst =>
      exact ⟨rfl, rfl, rfl, rfl, keptAll_withStream hst rfl ⟨rfl, rfl, rfl, rfl, id, id⟩⟩

private theorem ReaderStep.fed (h : Fed s) (hs : ReaderStep s t) : Fed t := by
  cases hs with
  | room | retry | read =>
    exact h.frame (keptAll_of_eq rfl) rfl rfl rfl rfl (List.Sublist.refl _)
  | reserve chunk =>
    obtain ⟨h1, h2, h3, h4, h5⟩ := reserve_fields (s.withReader (.reserved chunk)) chunk.length
    refine h.frame h5 (by rw [h3]; rfl) ?_ (by rw [h1]; rfl) (by rw [h4]; rfl) ?_
    · rw [System.todo, h1]
      rfl
    · rw [System.admits, h1, h2]
      exact List.Sublist.refl _
  | send | close =>
    refine h.frame (keptAll_of_eq rfl) rfl rfl rfl rfl ?_
    simp [System.admits, attaching, System.withReader]

private theorem ReaperStep.fed (h : Fed s) (hs : ReaperStep s t) : Fed t := by
  cases hs with
  | report =>
    refine h.frame (keptAll_of_eq rfl) rfl rfl rfl rfl ?_
    simp [System.admits, attaching]
  | exited | lock | collect | wait | mark =>
    exact h.frame (keptAll_of_eq rfl) rfl rfl rfl rfl (List.Sublist.refl _)

private theorem WriterStep.fed (h : Fed s) (hs : WriterStep s t) : Fed t := by
  cases hs <;> exact h.frame (keptAll_of_eq rfl) rfl rfl rfl rfl (List.Sublist.refl _)

private theorem ClientStep.fed (h : Fed s) (hs : ClientStep size s t) : Fed t := by
  cases hs with
  | request | query | loseOwnership | dropOwner =>
    refine h.frame (keptAll_of_eq rfl) rfl rfl rfl rfl ?_
    simp [System.admits, attaching]
  | rejected | clone | drop =>
    exact h.frame (keptAll_of_eq rfl) rfl rfl rfl rfl (List.Sublist.refl _)
  | attached session i reply st _ _ hst =>
    exact h.frame (keptAll_withStream hst rfl ⟨rfl, rfl, rfl, rfl, id, id⟩) rfl rfl rfl rfl
      (List.Sublist.refl _)
  | recv i st r hst _ _ hr =>
    exact h.frame (keptAll_withStream hst rfl (Stream.kept_received hr)) rfl rfl rfl rfl
      (List.Sublist.refl _)
  | dropStream i st hst =>
    exact h.frame (keptAll_withStream hst rfl ⟨rfl, rfl, rfl, rfl, id, fun _ ↦ rfl⟩) rfl rfl rfl rfl
      (List.Sublist.refl _)
  | attach session capacity i reply _ free =>
    have hfree : i ∉ s.admits := by
      intro hi
      obtain ⟨st, hst, _⟩ := h.fresh i hi
      rw [free] at hst
      cases hst
    have hadm : System.admits
        { s.withStream i (.new capacity .detach) with
          inbox := s.inbox ++ [.attach session i reply]
          desk :=
            { s.desk with
              issued := reply :: s.desk.issued
              calls := (reply, session, i) :: s.desk.calls } } = s.admits ++ [i] := by
      simp [System.admits, System.withStream, attaching]
    have hother : ∀ k st, s.streams k = some st →
        (s.withStream i (.new capacity .detach)).streams k = some st := by
      intro k st hst
      have hne : k ≠ i := by
        rintro rfl
        rw [free] at hst
        cases hst
      rw [s.streams_withStream_of_ne _ hne, hst]
    constructor
    · exact h.nodup
    · exact h.todo
    · exact h.reaching
    · intro k hk
      obtain ⟨st, hst, hj⟩ := h.entered k hk
      exact ⟨st, hother k st hst, hj⟩
    · intro k hk
      rw [hadm, List.mem_append, List.mem_singleton] at hk
      rcases hk with hk | rfl
      · obtain ⟨st, hst, hj⟩ := h.fresh k hk
        exact ⟨st, hother k st hst, hj⟩
      · exact ⟨_, Function.update_self .., rfl, rfl⟩
    · rw [hadm]
      exact List.nodup_append.mpr ⟨h.distinct, List.nodup_singleton i, by
        rintro a ha b hb rfl
        exact hfree (List.mem_singleton.mp hb ▸ ha)⟩
    · intro k st j hst hj
      by_cases hki : k = i
      · subst hki
        simp only [System.streams_withStream_self, Option.some.injEq] at hst
        subst hst
        cases hj
      · rw [s.streams_withStream_of_ne _ hki] at hst
        exact (h.linked k st j hst hj).frame (.refl st) rfl rfl rfl rfl

/-- A stream that a broadcast has to reach is attached. -/
private theorem Fed.not_fresh (h : Fed s) {i : Nat} (hi : i ∈ s.todo) {st : Stream}
    (hj : st.joined = none) : s.streams i ≠ some st := by
  intro hst
  obtain ⟨st', hst', hne⟩ := h.entered i (h.reaching i hi)
  rw [hst] at hst'
  cases hst'
  exact hne hj

/-- A broadcast begins: every attached stream is to be reached. -/
private theorem fed_broadcast (h : Fed s) (hr : Routed s) {e : SessionEvent} {rest : List Effect}
    (hq : s.actor.effects = .broadcast e :: rest) :
    Fed
      { s.proceed (.tell e s.actor.attachments :: rest) with
        tape := { s.tape with log := s.tape.log ++ [e] } } := by
  have hrest := hr.silent hq (by simp)
  have htodo : s.todo = [] := by simp [System.todo, hq, tells, hrest]
  have hleft : s.input.hungUp = false := by
    by_contra hu
    obtain ⟨i, hi⟩ := (hr.left (by simpa using hu)).2 (.broadcast e) (by rw [hq]; simp)
    cases hi
  set t : System :=
    { s.proceed (.tell e s.actor.attachments :: rest) with
      tape := { s.tape with log := s.tape.log ++ [e] } } with ht
  have htodo' : t.todo = s.actor.attachments := by
    simp [ht, System.todo, System.proceed, tells, hrest]
  constructor
  · exact h.nodup
  · rw [htodo']
    exact h.nodup
  · rw [htodo']
    exact fun i hi ↦ hi
  · exact h.entered
  · have hsub : t.admits = s.admits := by
      simp [ht, System.admits, System.proceed, hq, admitted]
    rw [hsub]
    exact h.fresh
  · have hsub : t.admits = s.admits := by
      simp [ht, System.admits, System.proceed, hq, admitted]
    rw [hsub]
    exact h.distinct
  · intro i st j hst hj
    obtain ⟨here, marks, taken, whole, member⟩ := h.linked i st j hst hj
    simp only [System.told, htodo, List.not_mem_nil, if_false] at here whole
    have hdrop : (s.tape.log ++ [e]).drop j.position = s.tape.log.drop j.position ++ [e] :=
      List.drop_append_of_le_length here
    constructor
    · rw [System.told, htodo']
      split
      · simpa [ht] using here
      · simpa [ht] using Nat.le_succ_of_le here
    · rw [show t.tape.log = s.tape.log ++ [e] from rfl, List.take_append_of_le_length here]
      exact marks
    · rw [show t.tape.log = s.tape.log ++ [e] from rfl, hdrop, ← List.append_assoc]
      exact taken.trans (List.prefix_append _ _)
    · intro h1 h2
      rw [System.told, htodo', if_pos (member h1 h2 hleft)]
      simpa [ht] using whole h1 h2
    · exact member

/-- The broadcast under way reaches a stream. -/
private theorem fed_tell (h : Fed s) (hr : Routed s) {e : SessionEvent} {i : Nat}
    {todo : List Nat} {rest : List Effect} {st : Stream}
    (hq : s.actor.effects = .tell e (i :: todo) :: rest) (hi : s.streams i = some st)
    (live : (st.push size e).2 = true) :
    Fed ((s.withStream i (st.push size e).1).proceed (.tell e todo :: rest)) := by
  have hrest := hr.silent hq (by simp)
  have htodo : s.todo = i :: todo := by simp [System.todo, hq, tells, hrest]
  have hnd := htodo ▸ h.todo
  rw [List.nodup_cons] at hnd
  obtain ⟨front, hfront⟩ := hr.last e (i :: todo) (by rw [hq]; simp)
  set t := (s.withStream i (st.push size e).1).proceed (.tell e todo :: rest) with ht
  have htodo' : t.todo = todo := by simp [ht, System.todo, System.proceed, tells, hrest]
  have hadm : t.admits = s.admits := by
    simp [ht, System.admits, System.proceed, System.withStream, hq, admitted]
  have hself : t.streams i = some (st.push size e).1 := Function.update_self ..
  have hother : ∀ k, k ≠ i → t.streams k = s.streams k := fun k hk ↦ Function.update_of_ne hk ..
  have hin : ∀ {st₀ : Stream}, st₀.joined = none → s.streams i ≠ some st₀ :=
    h.not_fresh (by rw [htodo]; simp)
  constructor
  · exact h.nodup
  · rw [htodo']
    exact hnd.2
  · intro k hk
    exact h.reaching k (by rw [htodo]; exact List.mem_cons_of_mem _ (htodo' ▸ hk))
  · intro k hk
    obtain ⟨st₀, hst₀, hj⟩ := h.entered k hk
    by_cases hki : k = i
    · subst hki
      rw [hi] at hst₀
      cases hst₀
      exact ⟨_, hself, hj⟩
    · exact ⟨st₀, by rw [hother k hki, hst₀], hj⟩
  · intro k hk
    obtain ⟨st₀, hst₀, hj, he⟩ := h.fresh k (hadm ▸ hk)
    have hki : k ≠ i := by
      rintro rfl
      exact hin hj hst₀
    exact ⟨st₀, by rw [hother k hki, hst₀], hj, he⟩
  · rw [hadm]
    exact h.distinct
  · intro k st' j hst' hj
    by_cases hki : k = i
    · subst hki
      rw [hself] at hst'
      cases hst'
      obtain ⟨here, marks, taken, whole, member⟩ := h.linked k st j hi hj
      simp only [System.told, htodo, List.mem_cons, true_or, if_true] at here whole
      rcases Stream.push_cases size st e with ⟨_, hp⟩ | ⟨_, _, _, hp⟩ | ⟨hrg, hov, _, hp⟩
      · simp [hp] at live
      · simp [hp] at live
      · have hw := whole hov hrg
        rw [hfront, List.dropLast_concat] at hw here
        have heq : (st.push size e).1.enqueued = j.greeting ++ s.tape.log.drop j.position := by
          rw [hp, hfront, List.drop_append_of_le_length here, ← List.append_assoc, ← hw]
        constructor
        · rw [System.told, htodo', if_neg hnd.1]
          change _ ≤ s.tape.log.length
          rw [hfront, List.length_append]
          omega
        · exact marks
        · rw [heq]
          exact List.prefix_rfl
        · intro _ _
          rw [heq, System.told, htodo', if_neg hnd.1]
          rfl
        · intro _ _ h3
          exact member hov hrg h3
    · rw [hother k hki] at hst'
      have hl := h.linked k st' j hst' hj
      have htold : t.told k = s.told k := by
        simp only [System.told, htodo, htodo', List.mem_cons, hki, false_or]
        rfl
      exact ⟨htold ▸ hl.here, hl.marks, hl.taken, fun h1 h2 ↦ htold ▸ hl.whole h1 h2, hl.member⟩

/-- The broadcast under way finds a stream that is full or dropped, and it is detached. -/
private theorem fed_detach (h : Fed s) (hr : Routed s) {e : SessionEvent} {i : Nat}
    {todo : List Nat} {rest : List Effect} {st : Stream}
    (hq : s.actor.effects = .tell e (i :: todo) :: rest) (hi : s.streams i = some st)
    (dead : (st.push size e).2 = false) :
    Fed
      { s.withStream i (st.push size e).1 with
        actor :=
          { s.actor with
            attachments := s.actor.attachments.erase i
            effects := .forget i :: .tell e todo :: rest } } := by
  have hrest := hr.silent hq (by simp)
  have htodo : s.todo = i :: todo := by simp [System.todo, hq, tells, hrest]
  have hnd := htodo ▸ h.todo
  rw [List.nodup_cons] at hnd
  have hin : ∀ {st₀ : Stream}, st₀.joined = none → s.streams i ≠ some st₀ :=
    h.not_fresh (by rw [htodo]; simp)
  have hdone : (st.push size e).1.queue.receiverGone = true ∨
      (st.push size e).1.queue.overflowed = true := by
    rcases Stream.push_cases size st e with ⟨hd, hp⟩ | ⟨_, _, _, hp⟩ | ⟨_, _, _, hp⟩
    · rw [hp]
      exact hd
    · rw [hp]
      exact .inr rfl
    · simp [hp] at dead
  have henq : (st.push size e).1.enqueued = st.enqueued := by
    change (if (st.push size e).2 then st.enqueued ++ [e] else st.enqueued) = st.enqueued
    rw [dead]
    rfl
  set t : System :=
    { s.withStream i (st.push size e).1 with
      actor :=
        { s.actor with
          attachments := s.actor.attachments.erase i
          effects := .forget i :: .tell e todo :: rest } } with ht
  have htodo' : t.todo = todo := by simp [ht, System.todo, tells, hrest]
  have hadm : t.admits = s.admits := by
    simp [ht, System.admits, System.withStream, hq, admitted]
  have hself : t.streams i = some (st.push size e).1 := Function.update_self ..
  have hother : ∀ k, k ≠ i → t.streams k = s.streams k := fun k hk ↦ Function.update_of_ne hk ..
  constructor
  · exact h.nodup.erase i
  · rw [htodo']
    exact hnd.2
  · intro k hk
    rw [htodo'] at hk
    have hki : k ≠ i := by
      rintro rfl
      exact hnd.1 hk
    exact (List.mem_erase_of_ne hki).mpr
      (h.reaching k (by rw [htodo]; exact List.mem_cons_of_mem _ hk))
  · intro k hk
    obtain ⟨st₀, hst₀, hj⟩ := h.entered k (List.mem_of_mem_erase hk)
    by_cases hki : k = i
    · subst hki
      rw [hi] at hst₀
      cases hst₀
      exact ⟨_, hself, hj⟩
    · exact ⟨st₀, by rw [hother k hki, hst₀], hj⟩
  · intro k hk
    obtain ⟨st₀, hst₀, hj, he⟩ := h.fresh k (hadm ▸ hk)
    have hki : k ≠ i := by
      rintro rfl
      exact hin hj hst₀
    exact ⟨st₀, by rw [hother k hki, hst₀], hj, he⟩
  · rw [hadm]
    exact h.distinct
  · intro k st' j hst' hj
    by_cases hki : k = i
    · subst hki
      rw [hself] at hst'
      cases hst'
      obtain ⟨here, marks, taken, _, _⟩ := h.linked k st j hi hj
      refine ⟨?_, marks, by rw [henq]; exact taken, ?_, ?_⟩
      · simp only [System.told, htodo, List.mem_cons, true_or, if_true, List.length_dropLast]
          at here
        rw [System.told, htodo', if_neg hnd.1]
        exact here.trans (Nat.sub_le _ _)
      · intro h1 h2
        simp [h1, h2] at hdone
      · intro h1 h2
        simp [h1, h2] at hdone
    · rw [hother k hki] at hst'
      have hl := h.linked k st' j hst' hj
      have htold : t.told k = s.told k := by
        simp only [System.told, htodo, htodo', List.mem_cons, hki, false_or]
        rfl
      exact ⟨htold ▸ hl.here, hl.marks, hl.taken, fun h1 h2 ↦ htold ▸ hl.whole h1 h2,
        fun h1 h2 h3 ↦ (List.mem_erase_of_ne hki).mpr (hl.member h1 h2 h3)⟩

/-- A stream is attached. -/
private theorem fed_admit (h : Fed s) (hr : Routed s) (ht : Tracks s) {i : Nat}
    {rest : List Effect} {st : Stream} (hq : s.actor.effects = .enrol i :: rest)
    (hi : s.streams i = some st) (live : (st.pushAll size s.actor.greeting).2 = true) :
    Fed
      { s.withStream i
          { (st.pushAll size s.actor.greeting).1 with
            joined :=
              some ⟨s.tape.log.length, s.tape.handled.length, s.actor.published,
                s.actor.greeting⟩ } with
        actor :=
          { s.actor with attachments := s.actor.attachments ++ [i], effects := rest } } := by
  have hrest := hr.silent hq (by simp)
  have htodo : s.todo = [] := by simp [System.todo, hq, tells, hrest]
  have hadm : s.admits = i :: (admitted rest ++ attaching s.inbox) := by
    simp [System.admits, hq, admitted]
  have hlog : s.notices = s.tape.log := by
    rw [System.notices, hr.admitting (by simp [hq, admitted]), List.append_nil]
  obtain ⟨st₀, hst₀, hjoined, henq⟩ := h.fresh i (by rw [hadm]; simp)
  rw [hi] at hst₀
  cases hst₀
  have hnot : i ∉ s.actor.attachments := by
    intro hm
    obtain ⟨st', hst', hne⟩ := h.entered i hm
    rw [hi] at hst'
    cases hst'
    exact hne hjoined
  have hnd := hadm ▸ h.distinct
  rw [List.nodup_cons] at hnd
  set j : Joined := ⟨s.tape.log.length, s.tape.handled.length, s.actor.published,
    s.actor.greeting⟩ with hj
  set t : System :=
    { s.withStream i { (st.pushAll size s.actor.greeting).1 with joined := some j } with
      actor :=
        { s.actor with attachments := s.actor.attachments ++ [i], effects := rest } } with htdef
  have htodo' : t.todo = [] := by simp [htdef, System.todo, hrest]
  have hadm' : t.admits = admitted rest ++ attaching s.inbox := rfl
  have hself : t.streams i =
      some { (st.pushAll size s.actor.greeting).1 with joined := some j } :=
    Function.update_self ..
  have hother : ∀ k, k ≠ i → t.streams k = s.streams k := fun k hk ↦ Function.update_of_ne hk ..
  constructor
  · exact List.nodup_append.mpr ⟨h.nodup, List.nodup_singleton i, by
      rintro a ha b hb rfl
      exact hnot (List.mem_singleton.mp hb ▸ ha)⟩
  · rw [htodo']
    exact List.nodup_nil
  · rw [htodo']
    simp
  · intro k hk
    rcases List.mem_append.mp hk with hold | hnew
    · have hki : k ≠ i := by
        rintro rfl
        exact hnot hold
      obtain ⟨st₁, hst₁, hne⟩ := h.entered k hold
      exact ⟨st₁, by rw [hother k hki, hst₁], hne⟩
    · rw [List.mem_singleton.mp hnew]
      exact ⟨_, hself, by simp⟩
  · intro k hk
    rw [hadm'] at hk
    have hki : k ≠ i := by
      rintro rfl
      exact hnd.1 hk
    obtain ⟨st₁, hst₁, hne⟩ := h.fresh k (by rw [hadm]; exact List.mem_cons_of_mem _ hk)
    exact ⟨st₁, by rw [hother k hki, hst₁], hne⟩
  · rw [hadm']
    exact hnd.2
  · intro k st' j' hst' hj'
    by_cases hki : k = i
    · subst hki
      rw [hself] at hst'
      cases hst'
      cases hj'
      have heq : (st.pushAll size s.actor.greeting).1.enqueued = s.actor.greeting := by
        rw [Stream.pushAll_live _ live, henq, List.nil_append]
      constructor
      · rw [System.told, htodo', if_neg (by simp)]
        exact Nat.le_refl _
      · right
        rw [show t.tape.log.take j.position = s.notices by rw [hlog]; simp [htdef, hj,
          System.withStream]]
        refine ⟨?_, ?_, ht.lifecycles⟩
        · simp only [hj, Actor.greeting]
          congr 1
          by_cases hc : s.actor.outputClosed = true
          · rw [if_pos hc, if_pos (ht.closed.mp hc)]
          · rw [if_neg hc, if_neg (fun hm ↦ hc (ht.closed.mpr hm))]
        · rw [← ht.handled]
      · rw [heq]
        exact List.prefix_append _ _
      · intro _ _
        rw [heq, System.told, htodo', if_neg (by simp)]
        simp [htdef, hj, System.withStream]
      · intro _ _ _
        exact List.mem_append_right _ (List.mem_singleton_self k)
    · rw [hother k hki] at hst'
      have hl := h.linked k st' j' hst' hj'
      have htold : t.told k = s.told k := by
        rw [System.told, System.told, htodo, htodo']
        rfl
      exact ⟨htold ▸ hl.here, hl.marks, hl.taken, fun h1 h2 ↦ htold ▸ hl.whole h1 h2,
        fun h1 h2 h3 ↦ List.mem_append_left _ (hl.member h1 h2 h3)⟩

/-- A stream whose greeting does not go through is not attached. -/
private theorem fed_refuse (h : Fed s) (hr : Routed s) {i : Nat} {rest : List Effect}
    {st new : Stream} (hq : s.actor.effects = .enrol i :: rest) (hi : s.streams i = some st)
    (hnew : new.joined = st.joined) :
    Fed ((s.withStream i new).proceed (.forget i :: rest)) := by
  have hrest := hr.silent hq (by simp)
  have htodo : s.todo = [] := by simp [System.todo, hq, tells, hrest]
  have hadm : s.admits = i :: (admitted rest ++ attaching s.inbox) := by
    simp [System.admits, hq, admitted]
  obtain ⟨st₀, hst₀, hjoined, _⟩ := h.fresh i (by rw [hadm]; simp)
  rw [hi] at hst₀
  cases hst₀
  have hnd := hadm ▸ h.distinct
  rw [List.nodup_cons] at hnd
  set t := (s.withStream i new).proceed (.forget i :: rest) with htdef
  have htodo' : t.todo = [] := by simp [htdef, System.todo, System.proceed, tells, hrest]
  have hadm' : t.admits = admitted rest ++ attaching s.inbox := rfl
  have hself : t.streams i = some new := Function.update_self ..
  have hother : ∀ k, k ≠ i → t.streams k = s.streams k := fun k hk ↦ Function.update_of_ne hk ..
  constructor
  · exact h.nodup
  · rw [htodo']
    exact List.nodup_nil
  · rw [htodo']
    simp
  · intro k hk
    obtain ⟨st₁, hst₁, hne⟩ := h.entered k hk
    have hki : k ≠ i := by
      rintro rfl
      rw [hi] at hst₁
      cases hst₁
      exact hne hjoined
    exact ⟨st₁, by rw [hother k hki, hst₁], hne⟩
  · intro k hk
    rw [hadm'] at hk
    have hki : k ≠ i := by
      rintro rfl
      exact hnd.1 hk
    obtain ⟨st₁, hst₁, hne⟩ := h.fresh k (by rw [hadm]; exact List.mem_cons_of_mem _ hk)
    exact ⟨st₁, by rw [hother k hki, hst₁], hne⟩
  · rw [hadm']
    exact hnd.2
  · intro k st' j hst' hj
    have hki : k ≠ i := by
      rintro rfl
      rw [hself] at hst'
      cases hst'
      rw [hnew, hjoined] at hj
      cases hj
    rw [hother k hki] at hst'
    have hl := h.linked k st' j hst' hj
    have htold : t.told k = s.told k := by
      rw [System.told, System.told, htodo, htodo']
      rfl
    exact ⟨htold ▸ hl.here, hl.marks, hl.taken, fun h1 h2 ↦ htold ▸ hl.whole h1 h2, hl.member⟩

private theorem joined_pushAll (st : Stream) (es : List SessionEvent) :
    (st.pushAll size es).1.joined = st.joined := by
  induction es generalizing st with
  | nil => rfl
  | cons e es ih =>
    unfold Stream.pushAll
    split
    · rw [ih]
      rfl
    · rfl

private theorem ActorStep.fed (h : Fed s) (hr : Routed s) (ht : Tracks s)
    (hs : ActorStep size s t) : Fed t := by
  cases hs with
  | receive c rest idle _ hi =>
    obtain ⟨_, hsub, _⟩ := Actor.effects_handle idle c
    have hlog : ((s.tape.take c).note s.actor (s.actor.handle c)).log = s.tape.log := by
      unfold Tape.note
      split <;> cases c <;> rfl
    refine h.frame (keptAll_of_eq rfl) hlog ?_ (Actor.attachments_handle c) rfl ?_
    · simp [System.todo, System.take, Actor.tells_handle idle c, idle, tells]
    · rw [System.admits, System.admits, idle, hi, ← List.singleton_append, attaching_append]
      exact hsub.append (List.Sublist.refl _)
  | timeout idle =>
    have hlog : (s.tape.note s.actor s.actor.publishLifecycle).log = s.tape.log := by
      unfold Tape.note
      split <;> rfl
    refine h.frame (keptAll_of_eq rfl) hlog ?_ Actor.attachments_publishLifecycle rfl ?_
    · simp [System.todo, Actor.tells_publishLifecycle idle, idle, tells]
    · simp [System.admits, (Actor.effects_publishLifecycle idle).2]
  | disconnected idle =>
    have hlog : (s.tape.note s.actor s.actor.finish).log = s.tape.log := by
      unfold Tape.note
      split <;> rfl
    refine h.frame (keptAll_of_eq rfl) hlog ?_ Actor.attachments_finish rfl ?_
    · simp [System.todo, Actor.tells_finish idle, idle, tells]
    · simp [System.admits, (Actor.effects_finish idle).2]
  | broadcast e rest hq => exact fed_broadcast h hr hq
  | tell e i todo rest st hq hi live => exact fed_tell h hr hq hi live
  | detach e i todo rest st hq hi dead => exact fed_detach h hr hq hi dead
  | enrol i rest st hq hi live => exact fed_admit h hr ht hq hi live
  | refuse i rest st hq hi => exact fed_refuse h hr hq hi (joined_pushAll st _)
  | forget i rest st hq hi =>
    refine h.frame (keptAll_withStream hi rfl ⟨rfl, rfl, rfl, rfl, id, id⟩) rfl ?_ rfl rfl ?_
    · simp [System.todo, System.proceed, hq, tells]
    · simp [System.admits, System.proceed, System.withStream, hq, admitted]
  | told e rest hq =>
    refine h.frame (keptAll_of_eq rfl) rfl ?_ rfl rfl ?_
    · simp [System.todo, System.proceed, hq, tells]
    · simp [System.admits, System.proceed, hq, admitted]
  | closeGate _ rest hq | submit _ _ rest hq | full _ _ rest hq | gone _ _ rest hq
  | resize _ _ rest _ hq | nobody _ _ _ rest hq | lock _ _ _ rest hq | late _ _ _ rest hq
  | kill _ _ _ rest _ _ hq | answer _ _ rest hq =>
    refine h.frame (keptAll_of_eq rfl) rfl ?_ rfl rfl ?_
    · simp [System.todo, System.proceed, hq, tells]
    · simp [System.admits, System.proceed, hq, admitted]
  | leave rest hq =>
    have hrest := hr.silent hq (by simp)
    have htodo : s.todo = [] := by simp [System.todo, hq, tells, hrest]
    set t : System :=
      { s with
        actor :=
          { s.actor with
            attachments := []
            effects := s.actor.attachments.map .forget ++ rest }
        input := { s.input with hungUp := true } } with htdef
    have htodo' : t.todo = [] := by simp [htdef, System.todo, hrest]
    have hadm : t.admits = s.admits := by simp [htdef, System.admits, hq, admitted]
    refine ⟨List.nodup_nil, by rw [htodo']; exact List.nodup_nil, by rw [htodo']; simp,
      by simp [htdef], by rw [hadm]; exact h.fresh, by rw [hadm]; exact h.distinct, ?_⟩
    intro k st j hst hj
    have hl := h.linked k st j hst hj
    have htold : t.told k = s.told k := by
      rw [System.told, System.told, htodo, htodo']
    exact ⟨htold ▸ hl.here, hl.marks, hl.taken, fun h1 h2 ↦ htold ▸ hl.whole h1 h2,
      fun _ _ h3 ↦ by simp [htdef] at h3⟩

/-- Every stream is given its broadcasts in every step. -/
theorem Step.fed (h : Fed s) (hr : Routed s) (ht : Tracks s) (hs : Step size s t) : Fed t := by
  cases hs with
  | reader hs => exact hs.fed h
  | reaper hs => exact hs.fed h
  | writer hs => exact hs.fed h
  | client hs => exact hs.fed h
  | actor hs => exact hs.fed h hr ht

variable {session : SessionRef} {pid capacity : Option Nat}

/-- The invariants of every run. -/
theorem Reachable.tracks (h : Reachable size session pid capacity s) : Tracks s := by
  induction h with
  | refl => exact tracks_start session pid capacity
  | tail _ hs ih => exact hs.tracks ih

theorem Reachable.routed (h : Reachable size session pid capacity s) : Routed s := by
  induction h with
  | refl =>
    refine ⟨.inl rfl, ?_, fun hne ↦ absurd rfl hne, closing_of_not_mem ?_, ?_, ?_⟩
    · intro e todo hm
      simp [System.start, Actor.start] at hm
    · simp [System.start, Actor.start]
    · intro hm
      simp [System.start, Actor.start] at hm
    · intro hu
      cases hu
  | tail _ hs ih => exact hs.routed ih

theorem Reachable.fed (h : Reachable size session pid capacity s) : Fed s := by
  induction h with
  | refl =>
    refine ⟨?_, List.nodup_nil, by simp [System.start, Actor.start, System.todo, tells], ?_, ?_,
      List.nodup_nil, ?_⟩
    · cases capacity <;> simp [System.start, Actor.start]
    · cases capacity with
      | none => simp [System.start, Actor.start]
      | some c => simp [System.start, Actor.start]
    · simp [System.start, Actor.start, System.admits, admitted, attaching]
    · intro i st j hst hj
      cases capacity with
      | none => simp [System.start] at hst
      | some c =>
        simp only [System.start] at hst
        split at hst
        · next hi =>
          subst hi
          cases hst
          cases hj
          refine ⟨Nat.zero_le _, .inl ⟨rfl, rfl, rfl, rfl⟩, List.nil_prefix, fun _ _ ↦ rfl, ?_⟩
          intro _ _ _
          exact List.mem_singleton_self 0
        · cases hst
  | tail hr hs ih => exact hs.fed ih (Reachable.routed hr) (Reachable.tracks hr)

end PtySpec.Substrate
