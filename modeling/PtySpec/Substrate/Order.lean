import PtySpec.Substrate.Delivery

/-!
# The order of a stream

What every stream gives its client, over every run: the lifecycle published when it was
attached, the output from then on, the end of the output and the end of the child, each at
most once and in this order.
-/

namespace PtySpec.Substrate

variable {size : Nat} {s : System}

/-- The events of a stream behind its first one. -/
structure Follows (tape : Tape) (j : Joined) (rest : List SessionEvent) : Prop where
  data : datas rest = tape.handled.drop j.handled
  read : tape.handled <+: tape.reads
  whole : .outputClosed ∈ rest → tape.handled = tape.reads
  closed : ∀ xs ys, rest = xs ++ .outputClosed :: ys → datas ys = [] ∧ .outputClosed ∉ ys
  lifecycle : lifecycles rest = [] ∨
    j.published = .running ∧ ∃ state, state ≠ .running ∧ lifecycles rest = [state]
  exit : ∀ status xs ys, rest = xs ++ .lifecycle (.exited status) :: ys →
    ∃ handled, tape.exit = some handled ∧ datas xs = handled.drop j.handled ∧
      (tape.timedOut = false → .outputClosed ∈ xs)
  geometry : ∀ area, .geometry area ∉ rest

/-! ### The notices -/

/-- Two splits at a lifecycle event with as many of them before are the same. -/
private theorem split_unique {xs ys xs' ys' : List SessionEvent} {l l' : Lifecycle}
    (h : xs ++ .lifecycle l :: ys = xs' ++ .lifecycle l' :: ys')
    (hl : (lifecycles xs).length = (lifecycles xs').length) : xs = xs' := by
  induction xs generalizing xs' with
  | nil =>
    cases xs' with
    | nil => rfl
    | cons x xs' =>
      simp only [List.nil_append, List.cons_append, List.cons.injEq] at h
      rw [← h.1] at hl
      simp [lifecycles] at hl
  | cons x xs ih =>
    cases xs' with
    | nil =>
      simp only [List.nil_append, List.cons_append, List.cons.injEq] at h
      rw [h.1] at hl
      simp [lifecycles] at hl
    | cons x' xs' =>
      simp only [List.cons_append, List.cons.injEq] at h
      obtain ⟨rfl, h⟩ := h
      rw [ih h]
      cases x <;> simpa [lifecycles] using hl

theorem datas_map_data (ds : List (List UInt8)) : datas (ds.map .data) = ds := by
  induction ds with
  | nil => rfl
  | cons d ds ih => simp [datas, ih]

theorem handled_prefix_reads (h : Tracks s) : s.tape.handled <+: s.tape.reads := by
  have hp := congrArg datas h.plain
  rw [datas_append, datas_append, datas_plain, ← h.handled, System.said, datas_append,
    datas_map_data] at hp
  refine ⟨datas (wire s.inbox) ++ datas s.reader.phase.hand, ?_⟩
  rw [← List.append_assoc, hp]
  split <;> simp [datas]

/-- Behind the end of the output there are neither data nor another end, and everything read
was handled. -/
private theorem sealed (h : Tracks s) {xs ys : List SessionEvent}
    (hs : s.notices = xs ++ .outputClosed :: ys) :
    plain ys = [] ∧ s.tape.handled = s.tape.reads := by
  have hp := h.plain
  rw [hs, plain_append, List.append_assoc, List.append_assoc, plain, List.cons_append] at hp
  · have hnil := (eq_nil_of_closing ⟨[], (List.append_nil _).trans hp⟩).1
    simp only [List.append_eq_nil_iff] at hnil
    obtain ⟨h1, h2, h3⟩ := hnil
    refine ⟨h1, ?_⟩
    have hd := congrArg datas h.plain
    rw [h2, h3, List.append_nil, List.append_nil, datas_plain, ← h.handled, System.said,
      datas_append, datas_map_data] at hd
    rw [hd]
    split <;> simp [datas]
  · simp

private theorem datas_of_plain {es : List SessionEvent} (h : plain es = []) :
    datas es = [] ∧ .outputClosed ∉ es := by
  refine ⟨by rw [← datas_plain, h]; rfl, fun hm ↦ ?_⟩
  rw [← mem_plain, h] at hm
  cases hm

theorem not_geometry (h : Tracks s) (area : PtySize) : .geometry area ∉ s.notices := by
  have hpl : ∀ es : List SessionEvent, .geometry area ∈ es → .geometry area ∈ plain es := by
    intro es
    induction es with
    | nil => simp
    | cons e es ih =>
      cases e <;> simp only [plain, List.mem_cons] <;> grind
  intro hm
  have := h.prefix_said.subset (hpl _ hm)
  simp only [System.said, List.mem_append, List.mem_map] at this
  rcases this with ⟨b, _, hb⟩ | hb
  · cases hb
  · split at hb <;> simp at hb

/-- The lifecycle events before the terminal one. -/
private theorem length_lifecycles (h : Tracks s) {xs ys : List SessionEvent} {l : Lifecycle}
    (hs : s.notices = xs ++ .lifecycle l :: ys) (hl : l ≠ .running) :
    (lifecycles xs).length = 1 ∧ l = s.actor.published := by
  have hlc := h.lifecycles
  rw [hs, lifecycles_append] at hlc
  cases hx : lifecycles xs with
  | nil =>
    rw [hx] at hlc
    simp only [lifecycles, List.nil_append, List.cons.injEq] at hlc
    exact absurd hlc.1 hl
  | cons a as =>
    rw [hx] at hlc
    simp only [lifecycles, List.cons_append, List.cons.injEq] at hlc
    obtain ⟨rfl, hlc⟩ := hlc
    split at hlc
    · simp at hlc
    · cases as with
      | nil =>
        simp only [List.nil_append, List.cons.injEq] at hlc
        exact ⟨rfl, hlc.1⟩
      | cons b bs => simp at hlc

/-- What follows a point of the notices: the greeting there and all that is behind it. -/
private theorem follows (h : Tracks s) {j : Joined} {front back : List SessionEvent}
    (hs : s.notices = front ++ back) (hj : (datas front).length = j.handled)
    (hl : lifecycles front = .running :: if j.published = .running then [] else [j.published]) :
    Follows s.tape j ((if .outputClosed ∈ front then [.outputClosed] else []) ++ back) := by
  have hg : ∀ {es : List SessionEvent}, es = (if .outputClosed ∈ front then [.outputClosed] else
      [] : List SessionEvent) → datas es = [] ∧ lifecycles es = [] := by
    rintro es rfl
    split <;> exact ⟨rfl, rfl⟩
  generalize hgr : (if .outputClosed ∈ front then [.outputClosed] else [] :
    List SessionEvent) = g at hg ⊢
  obtain ⟨hgd, hgl⟩ := hg rfl
  have hclosed : ∀ xs ys, g ++ back = xs ++ .outputClosed :: ys → plain ys = [] := by
    intro xs ys hxy
    by_cases hf : SessionEvent.outputClosed ∈ front
    · rw [if_pos hf] at hgr
      obtain ⟨f₁, f₂, hf₁⟩ := List.append_of_mem hf
      have hb : plain back = [] := by
        have hsplit : s.notices = f₁ ++ .outputClosed :: (f₂ ++ back) := by
          rw [hs, hf₁]
          simp
        have := (sealed h hsplit).1
        rw [plain_append, List.append_eq_nil_iff] at this
        exact this.2
      subst hgr
      cases xs with
      | nil =>
        simp only [List.cons_append, List.nil_append, List.cons.injEq, true_and] at hxy
        rw [← hxy, hb]
      | cons x xs =>
        simp only [List.cons_append, List.nil_append, List.cons.injEq] at hxy
        rw [hxy.2] at hb
        exact absurd (mem_plain.mpr (by simp)) (hb ▸ List.not_mem_nil)
    · rw [if_neg hf] at hgr
      subst hgr
      have hsplit : s.notices = (front ++ xs) ++ .outputClosed :: ys := by
        rw [hs, show back = xs ++ .outputClosed :: ys from hxy, List.append_assoc]
      exact (sealed h hsplit).1
  constructor
  · rw [datas_append, hgd, List.nil_append, h.handled, hs, datas_append, ← hj,
      List.drop_left]
  · exact handled_prefix_reads h
  · intro hm
    have hmem : SessionEvent.outputClosed ∈ s.notices := by
      rw [hs]
      rcases List.mem_append.mp hm with hm | hm
      · rw [← hgr] at hm
        split at hm
        · next hf => exact List.mem_append_left _ hf
        · cases hm
      · exact List.mem_append_right _ hm
    obtain ⟨xs, ys, hxy⟩ := List.append_of_mem hmem
    exact (sealed h hxy).2
  · intro xs ys hxy
    exact datas_of_plain (hclosed xs ys hxy)
  · rw [lifecycles_append, hgl, List.nil_append]
    have hlc := h.lifecycles
    rw [hs, lifecycles_append, hl, List.cons_append, List.cons.injEq] at hlc
    have hlc := hlc.2
    by_cases hjp : j.published = .running
    · rw [if_pos hjp, List.nil_append] at hlc
      by_cases hp : s.actor.published = .running
      · rw [if_pos hp] at hlc
        exact .inl hlc
      · rw [if_neg hp] at hlc
        exact .inr ⟨hjp, _, hp, hlc⟩
    · rw [if_neg hjp] at hlc
      split at hlc
      · simp at hlc
      · simp only [List.cons_append, List.nil_append, List.cons.injEq] at hlc
        exact .inl hlc.2
  · intro status xs ys hxy
    have hback : ∃ xs', xs = g ++ xs' ∧ back = xs' ++ .lifecycle (.exited status) :: ys := by
      rw [List.append_eq_append_iff] at hxy
      rcases hxy with ⟨as, ha, hb⟩ | ⟨bs, hb, hc⟩
      · exact ⟨as, ha, hb⟩
      · cases bs with
        | nil => exact ⟨[], by rw [hb]; simp, by simpa using hc.symm⟩
        | cons b bs =>
          simp only [List.cons_append, List.cons.injEq] at hc
          rw [hb, ← hc.1, lifecycles_append] at hgl
          simp [lifecycles] at hgl
    obtain ⟨xs', rfl, hxs'⟩ := hback
    have hsplit : s.notices = (front ++ xs') ++ .lifecycle (.exited status) :: ys := by
      rw [hs, hxs', List.append_assoc]
    obtain ⟨hlen, hpub⟩ := length_lifecycles h hsplit (by simp)
    obtain ⟨pre, post, hpre, hexit, hout⟩ := h.exit status hpub.symm
    rw [← hpub] at hpre
    have heq : front ++ xs' = pre :=
      split_unique (hsplit.symm.trans hpre)
        (hlen.trans (length_lifecycles h hpre (by simp)).1.symm)
    refine ⟨datas pre, hexit, ?_, fun ht ↦ ?_⟩
    · rw [← heq, datas_append, datas_append, hgd, List.nil_append, ← hj, List.drop_left]
    · have hm := hout ht
      rw [← heq, List.mem_append] at hm
      rw [List.mem_append, ← hgr]
      rcases hm with hm | hm
      · exact .inl (by rw [if_pos hm]; simp)
      · exact .inr hm
  · intro area hm
    rcases List.mem_append.mp hm with hm | hm
    · rw [← hgr] at hm
      split at hm <;> simp at hm
    · exact not_geometry h area (by rw [hs]; exact List.mem_append_right _ hm)

/-- The events of an attached stream. -/
private theorem line_follows (h : Tracks s) {j : Joined} {front back : List SessionEvent}
    (hs : s.notices = front ++ back) (hm : j.Marks front) :
    ∃ rest, j.greeting ++ back = .lifecycle j.published :: rest ∧ Follows s.tape j rest := by
  rcases hm with ⟨rfl, hg, hp, hd⟩ | ⟨hg, hd, hl⟩
  · obtain ⟨rest, hrest⟩ := h.head
    rw [List.nil_append] at hs
    refine ⟨rest, by rw [hg, hp, List.nil_append, ← hs, hrest], ?_⟩
    have hsplit : s.notices = [.lifecycle .running] ++ rest := hrest
    have hf : Follows s.tape j _ := follows h hsplit (by rw [hd]; rfl) (by rw [hp]; rfl)
    simpa using hf
  · exact ⟨_, by rw [hg, List.cons_append], follows h hs hd hl⟩

/-! ### Every stream of every run -/

variable {session : SessionRef} {pid capacity : Option Nat}

/-- Every attached stream gives its client, in an unbroken line, the lifecycle published when it
was attached and then the output handled since, in order, whole and once; at most one end of
the output, with no output behind it; and at most one more lifecycle, a terminal one, which for
an exit stands behind the output handled before it and, unless the drain timer has fired,
behind the end of the output. A stream that is neither overflowed nor dropped holds all of this
line that has been broadcast, and one that reports an overflow has given all it was sent. -/
theorem stream_in_order (h : Reachable size session pid capacity s) {i : Nat} {st : Stream}
    {j : Joined} (hi : s.streams i = some st) (hj : st.joined = some j) :
    ∃ rest, Follows s.tape j rest ∧ st.delivered <+: .lifecycle j.published :: rest ∧
      (s.actor.effects = [] → st.queue.overflowed = false → st.queue.receiverGone = false →
        st.delivered ++ st.queue.events = .lifecycle j.published :: rest) ∧
      (∀ bound, st.failure = some (.overflowed bound) →
        bound = st.queue.capacity ∧ st.delivered = st.enqueued) := by
  have ht := h.tracks
  obtain ⟨here, marks, taken, whole, _⟩ := h.fed.linked i st j hi hj
  have hs := sound h hi
  have hpos : j.position ≤ s.tape.log.length := by
    refine here.trans ?_
    unfold System.told
    split
    · simp
    · exact Nat.le_refl _
  have hn : s.notices = s.tape.log.take j.position ++
      (s.tape.log.drop j.position ++ pending s.actor.effects) := by
    rw [System.notices, ← List.append_assoc, List.take_append_drop]
  obtain ⟨rest, hline, hf⟩ := line_follows ht hn marks
  refine ⟨rest, hf, ?_, fun hidle hov hrg ↦ ?_, fun bound hb ↦ ?_⟩
  · rw [← hline, ← List.append_assoc]
    exact hs.given.trans (taken.trans (List.prefix_append _ _))
  · rw [hs.waiting hrg, whole hov hrg, ← hline, System.told, System.todo, hidle]
    simp [tells, pending]
  · exact ⟨(hs.failure bound hb).1, (hs.failure bound hb).2.2⟩

/-- A session whose stream has received its first output. -/
theorem stream_in_order_output :
    ∃ (s : System) (st : Stream) (j : Joined), s.streams 0 = some st ∧
      st.delivered = [.lifecycle .running, .data [104]] ∧
      ∃ rest, Follows s.tape j rest ∧ st.delivered <+: .lifecycle j.published :: rest := by
  have h₀ : Reachable 24 ⟨"/private", "a", "g"⟩ (some 7) (some 65536) _ := .refl
  have h₁ := h₀.tail (.actor (.broadcast _ _ rfl))
  have h₂ := h₁.tail (.actor (.tell _ _ _ _ _ rfl rfl rfl))
  have h₃ := h₂.tail (.actor (.told _ _ rfl))
  have h₄ := h₃.tail (.reader (.room rfl (by
    intro i st hi hs
    cases hi
    cases hs
    rfl)))
  have h₅ := h₄.tail (.reader (.read [104] rfl (by simp) (by decide)))
  have h₆ := h₅.tail (.reader (.reserve _ rfl))
  have h₇ := h₆.tail (.reader (.send _ rfl))
  have h₈ := h₇.tail (.actor (.receive _ _ rfl rfl rfl))
  have h₉ := h₈.tail (.actor (.broadcast _ _ rfl))
  have h₁₀ := h₉.tail (.actor (.tell _ _ _ _ _ rfl rfl rfl))
  have h₁₁ := h₁₀.tail (.client (.recv 0 _ _ rfl rfl rfl rfl))
  have h₁₂ := h₁₁.tail (.client (.recv 0 _ _ rfl rfl rfl rfl))
  obtain ⟨rest, hf, hd, _⟩ := stream_in_order h₁₂ (i := 0) rfl rfl
  exact ⟨_, _, _, rfl, rfl, rest, hf, hd⟩

end PtySpec.Substrate
