import PtySpec.Handle.Watch

/-!
# Grids are not older than their call

Two caches and the thread's answers are all tagged with a revision. What a call of `snapshot` or
`cached_grid` returns shows a terminal that was published no earlier than the revision at its
beginning, unless the handle has stopped and there is nothing to show.
-/

namespace PtySpec.Handle

open Lib Vt

/-- The revision from which on a reader's answer must be. -/
def since (began : Nat) (pane : Option PaneKey) : Nat := (pane.map (·.rev)).getD began

namespace System

variable {G ν : Type} [Emulator G] {s t : System G ν}

/-- The view of a terminal at an offset into its history. -/
def view (offset : Nat) (x : Shown G) : Emulator.CellGrid G := Emulator.snapshot x.term offset

/-- A grid shows a terminal at least as new as a revision; the default grid shows that the
handle has stopped. -/
def Good (s : System G ν) (rev offset : Nat) : Option (Emulator.CellGrid G) → Prop
  | some grid => Fresh s.published rev (view offset) grid
  | none => s.phase = .stopped

/-- What a reader was told when it asks. -/
structure Begun (s : System G ν) (began offset : Nat) (pane : Option PaneKey) : Prop where
  order : began ≤ since began pane
  seen : since began pane ≤ s.rev
  key : ∀ key, pane = some key → key.offset = offset

/-- What a reader knows, by where it is. -/
def Knows (s : System G ν) : Caller (Emulator.CellGrid G) → Prop
  | .idle => True
  | .paneRev began _ => began ≤ s.rev
  | .paneCols began rev _ | .paneRows began rev _ _ => began ≤ rev ∧ rev ≤ s.rev
  | .paneLookup began key => began ≤ key.rev ∧ key.rev ≤ s.rev
  | .lookup began offset pane | .request began offset pane => s.Begun began offset pane
  | .asked began offset reply pane => s.Begun began offset pane ∧ reply < s.asks ∧
      ∀ rev grid, s.replies reply = some (rev, grid) →
        since began pane ≤ rev ∧ Shows s.published rev (view offset) grid
  | .insert began key grid => began ≤ key.rev ∧ s.Good key.rev key.offset grid

/-- An answer is under way for a reader, and it is the one the reader has asked for. -/
def Routed (s : System G ν) (offset reply : Nat) : Prop :=
  reply < s.asks ∧ ∀ i began o pane, s.callers i = .asked began o reply pane → o = offset

/-- The invariant of the revisions, the answers and the caches. -/
structure Honest (s : System G ν) : Prop where
  synced : .effect .publish ∉ s.todo → s.published.getLast? = some s.core.shown
  alone : ∀ offset reply, .effect (.snapshot offset reply) ∈ s.todo → .effect .publish ∉ s.todo
  queued : ∀ offset reply, .msg (.snapshot offset reply) ∈ s.queue → s.Routed offset reply
  doing : ∀ offset reply, .effect (.snapshot offset reply) ∈ s.todo → s.Routed offset reply
  unasked : ∀ reply, s.asks ≤ reply → s.replies reply = none
  cached : ∀ rev grid, s.snapCache = some (rev, grid) → Shows s.published rev (view 0) grid
  known : ∀ i, s.Knows (s.callers i)
  entry : ∀ key grid, s.entry = some (key, grid) → s.Good key.rev key.offset grid
  returned : ∀ r ∈ s.returned, s.Good r.began r.offset r.grid

/-! ### What stays true as the handle goes on -/

/-- The handle goes on: it publishes more, and once stopped it stays so. -/
structure Grows (s t : System G ν) : Prop where
  published : s.published <+: t.published
  stopped : s.phase = .stopped → t.phase = .stopped
  asks : s.asks ≤ t.asks
  replies : ∀ reply < s.asks, t.replies reply = s.replies reply

theorem Grows.refl (s : System G ν) : Grows s s :=
  ⟨List.prefix_refl _, id, le_rfl, fun _ _ ↦ rfl⟩

theorem Grows.rev_le (h : Grows s t) : s.rev ≤ t.rev :=
  Nat.sub_le_sub_right h.published.length_le 1

theorem Good.grow {rev offset : Nat} {grid : Option (Emulator.CellGrid G)}
    (h : s.Good rev offset grid) (hg : Grows s t) : t.Good rev offset grid := by
  cases grid with
  | none => exact hg.stopped h
  | some g => exact Fresh.grow h hg.published

theorem Good.earlier {rev began offset : Nat} {grid : Option (Emulator.CellGrid G)}
    (h : s.Good rev offset grid) (hb : began ≤ rev) : s.Good began offset grid := by
  cases grid with
  | none => exact h
  | some g => exact Fresh.earlier h hb

theorem Begun.grow {began offset : Nat} {pane : Option PaneKey} (h : s.Begun began offset pane)
    (hg : Grows s t) : t.Begun began offset pane := { h with seen := h.seen.trans hg.rev_le }

/-- What a reader knows stays true. -/
theorem Knows.grow {c : Caller (Emulator.CellGrid G)} (h : s.Knows c) (hg : Grows s t) :
    t.Knows c := by
  cases c with
  | idle => trivial
  | paneRev began offset => exact le_trans (show began ≤ s.rev from h) hg.rev_le
  | paneCols began rev offset => exact ⟨h.1, h.2.trans hg.rev_le⟩
  | paneRows began rev offset cols => exact ⟨h.1, h.2.trans hg.rev_le⟩
  | paneLookup began key => exact ⟨h.1, h.2.trans hg.rev_le⟩
  | lookup began offset pane => exact Begun.grow h hg
  | request began offset pane => exact Begun.grow h hg
  | asked began offset reply pane =>
    obtain ⟨hb, hr, ha⟩ := h
    refine ⟨hb.grow hg, hr.trans_le hg.asks, fun rev grid he ↦ ?_⟩
    rw [hg.replies reply hr] at he
    exact (ha rev grid he).imp_right (·.grow hg.published)
  | insert began key grid => exact ⟨h.1, h.2.grow hg⟩

/-! ### The thread -/

/-- A step that changes nothing of what the readers look at. -/
structure Aside (s t : System G ν) : Prop where
  published : t.published = s.published
  asks : t.asks = s.asks
  replies : t.replies = s.replies
  snapCache : t.snapCache = s.snapCache
  callers : t.callers = s.callers
  entry : t.entry = s.entry
  returned : t.returned = s.returned
  stopped : s.phase = .stopped → t.phase = .stopped

theorem Aside.refl (s : System G ν) : Aside s s := ⟨rfl, rfl, rfl, rfl, rfl, rfl, rfl, id⟩

theorem Aside.grows (h : Aside s t) : Grows s t where
  published := h.published ▸ List.prefix_refl _
  stopped := h.stopped
  asks := h.asks.ge
  replies _ _ := congrFun h.replies _

private theorem Aside.routed {offset reply : Nat} (h : Aside s t) (hr : s.Routed offset reply) :
    t.Routed offset reply := by
  unfold Routed
  rw [h.asks, h.callers]
  exact hr

private theorem Honest.aside (h : s.Honest) (ha : Aside s t)
    (hsynced : .effect .publish ∉ t.todo → t.published.getLast? = some t.core.shown)
    (halone : ∀ offset reply, .effect (.snapshot offset reply) ∈ t.todo →
      .effect .publish ∉ t.todo)
    (hqueued : ∀ offset reply, .msg (.snapshot offset reply) ∈ t.queue → s.Routed offset reply)
    (hdoing : ∀ offset reply, .effect (.snapshot offset reply) ∈ t.todo →
      s.Routed offset reply) : t.Honest where
  synced := hsynced
  alone := halone
  queued offset reply hm := ha.routed (hqueued offset reply hm)
  doing offset reply hm := ha.routed (hdoing offset reply hm)
  unasked reply hr := by
    rw [ha.replies]
    exact h.unasked reply (ha.asks ▸ hr)
  cached rev grid hc := by
    rw [ha.published]
    exact h.cached rev grid (ha.snapCache ▸ hc)
  known i := by
    rw [ha.callers]
    exact (h.known i).grow ha.grows
  entry key grid he := (h.entry key grid (ha.entry ▸ he)).grow ha.grows
  returned r hr := (h.returned r (ha.returned ▸ hr)).grow ha.grows

/-- Something is done that neither publishes nor answers. -/
private theorem op_aside (s : System G ν) {o : Op ν} (hp : o ≠ .effect .publish)
    (hs : ∀ offset reply, o ≠ .effect (.snapshot offset reply)) :
    Aside s (s.op o) ∧ (s.op o).core = s.core ∧ (s.op o).queue = s.queue ∧
      ∃ more, (s.op o).todo = more ++ s.todo ∧ ∀ e, .effect e ∉ more := by
  have hplain : ∀ t : System G ν, Aside s t → t.core = s.core → t.queue = s.queue →
      t.todo = s.todo → Aside s t ∧ t.core = s.core ∧ t.queue = s.queue ∧
        ∃ more, t.todo = more ++ s.todo ∧ ∀ e, .effect e ∉ more :=
    fun t h1 h2 h3 h4 ↦ ⟨h1, h2, h3, [], h4, by simp⟩
  cases o with
  | effect e =>
    cases e with
    | publish => exact absurd rfl hp
    | snapshot offset reply => exact absurd rfl (hs offset reply)
    | flush force =>
      dsimp only [System.op, System.effect]
      rcases flushFrame_cases s force with ⟨he, -⟩ | he | ⟨he, -⟩ <;> rw [he]
      · exact hplain s (.refl s) rfl rfl rfl
      · exact ⟨{ Aside.refl s with }, rfl, rfl, [.store, .clear], rfl, by simp⟩
      · exact ⟨{ Aside.refl s with }, rfl, rfl, [.clear], rfl, by simp⟩
    | observe =>
      unfold System.op System.effect
      dsimp only
      split <;> exact hplain _ { Aside.refl s with } rfl rfl rfl
    | _ => exact hplain _ { Aside.refl s with } rfl rfl rfl
  | _ => exact hplain _ { Aside.refl s with } rfl rfl rfl

/-- A publication: what was cached is dropped, and what the readers know is of the past. -/
private theorem Honest.publish {rest : List (Op ν)} (h : s.Honest)
    (ht : s.todo = .effect .publish :: rest) :
    ({ s with todo := rest }.effect .publish).Honest := by
  have hg : Grows s ({ s with todo := rest }.effect .publish) :=
    { Grows.refl s with published := List.prefix_append _ _ }
  have hsub : ∀ o ∈ rest, o ∈ s.todo := fun o ho ↦ ht ▸ List.mem_cons_of_mem _ ho
  constructor
  · exact fun _ ↦ List.getLast?_concat
  · intro offset reply hm
    refine absurd ?_ (h.alone offset reply (hsub _ hm))
    rw [ht]
    exact List.mem_cons_self
  · exact fun offset reply hm ↦ h.queued offset reply hm
  · exact fun offset reply hm ↦ h.doing offset reply (hsub _ hm)
  · exact h.unasked
  · exact fun rev grid hc ↦ by cases hc
  · exact fun i ↦ (h.known i).grow hg
  · exact fun key grid he ↦ (h.entry key grid he).grow hg
  · exact fun r hr ↦ (h.returned r hr).grow hg

/-- An answer: it shows the terminal as it was last published. -/
private theorem Honest.answer {rest : List (Op ν)} {offset reply : Nat} (h : s.Honest)
    (ht : s.todo = .effect (.snapshot offset reply) :: rest) :
    ({ s with todo := rest }.effect (.snapshot offset reply)).Honest := by
  have hmem : .effect (.snapshot offset reply) ∈ s.todo := ht ▸ List.mem_cons_self
  have hnone : .effect .publish ∉ s.todo := h.alone offset reply hmem
  obtain ⟨hlt, hroute⟩ := h.doing offset reply hmem
  have hsub : ∀ o ∈ rest, o ∈ s.todo := fun o ho ↦ ht ▸ List.mem_cons_of_mem _ ho
  constructor
  · exact fun _ ↦ h.synced hnone
  · exact fun _ _ _ hp ↦ hnone (hsub _ hp)
  · exact fun o r hm ↦ h.queued o r hm
  · exact fun o r hm ↦ h.doing o r (hsub _ hm)
  · intro r hr
    have hne : r ≠ reply := (Nat.ne_of_lt (hlt.trans_le hr)).symm
    exact (Function.update_of_ne hne _ _).trans (h.unasked r hr)
  · exact h.cached
  · intro i
    have hk := h.known i
    dsimp only [System.effect] at hk ⊢
    cases hc : s.callers i with
    | asked began o r pane =>
      rw [hc] at hk
      obtain ⟨hb, hr, ha⟩ := hk
      refine ⟨{ hb with }, hr, fun rev grid he ↦ ?_⟩
      dsimp only at he
      by_cases hreply : r = reply
      · subst hreply
        obtain rfl := hroute i began o pane hc
        rw [Function.update_self] at he
        obtain ⟨rfl, rfl⟩ := Prod.mk.inj (Option.some.inj he)
        exact ⟨hb.seen, shows_last (h.synced hnone) (view o)⟩
      · rw [Function.update_of_ne hreply] at he
        exact ha rev grid he
    | lookup began o pane =>
      rw [hc] at hk
      exact ⟨hk.order, hk.seen, hk.key⟩
    | request began o pane =>
      rw [hc] at hk
      exact ⟨hk.order, hk.seen, hk.key⟩
    | insert began key grid =>
      rw [hc] at hk
      refine ⟨hk.1, ?_⟩
      cases grid with
      | none => exact hk.2
      | some g => exact hk.2
    | _ =>
      rw [hc] at hk
      exact hk
  · intro key grid he
    have hg := h.entry key grid he
    cases grid with
    | none => exact hg
    | some g => exact hg
  · intro r hr
    have hg := h.returned r hr
    unfold Good at hg ⊢
    split at hg <;> exact hg

private theorem Honest.op {o : Op ν} {rest : List (Op ν)} (h : s.Honest)
    (ht : s.todo = o :: rest) : ({ s with todo := rest }.op o).Honest := by
  by_cases hp : o = .effect .publish
  · subst hp
    exact h.publish ht
  · by_cases hs : ∃ offset reply, o = .effect (.snapshot offset reply)
    · obtain ⟨offset, reply, rfl⟩ := hs
      exact h.answer ht
    · obtain ⟨ha, hcore, hqueue, more, hmore, hn⟩ :=
        op_aside { s with todo := rest } hp fun offset reply he ↦ hs ⟨offset, reply, he⟩
      have hback : ∀ e, .effect e ∈ ({ s with todo := rest }.op o).todo → .effect e ∈ rest := by
        intro e he
        rw [hmore] at he
        exact (List.mem_append.mp he).resolve_left (hn e)
      have hsub : ∀ o ∈ rest, o ∈ s.todo := fun o ho ↦ ht ▸ List.mem_cons_of_mem _ ho
      have haside : Aside s ({ s with todo := rest }.op o) := { ha with }
      refine h.aside haside (fun hnp ↦ ?_) (fun offset reply hm hpub ↦ ?_)
        (fun offset reply hm ↦ ?_) fun offset reply hm ↦ ?_
      · rw [haside.published, hcore]
        refine h.synced fun hm ↦ hnp ?_
        rw [ht] at hm
        rw [hmore]
        exact List.mem_append_right _ ((List.mem_cons.mp hm).resolve_left fun he ↦ hp he.symm)
      · exact h.alone offset reply (hsub _ (hback _ hm)) (hsub _ (hback _ hpub))
      · rw [hqueue] at hm
        exact h.queued offset reply hm
      · exact h.doing offset reply (hsub _ (hback _ hm))

/-! ### The readers -/

/-- A reader goes on to where it asks for nothing. -/
private theorem Honest.withCaller (h : s.Honest) (i : Nat) (c : Caller (Emulator.CellGrid G))
    (hk : s.Knows c) (hn : ∀ began offset reply pane, c ≠ .asked began offset reply pane) :
    (s.withCaller i c).Honest := by
  have hg : Grows s (s.withCaller i c) := { Grows.refl s with }
  have hroute : ∀ offset reply, s.Routed offset reply → (s.withCaller i c).Routed offset reply := by
    intro offset reply ⟨hlt, hr⟩
    refine ⟨hlt, fun j began o pane hj ↦ ?_⟩
    by_cases hij : j = i
    · subst hij
      exact absurd ((Function.update_self _ _ _).symm.trans hj) (hn _ _ _ _)
    · exact hr j began o pane ((Function.update_of_ne hij _ _).symm.trans hj)
  refine { h with
    queued := fun offset reply hm ↦ hroute _ _ (h.queued offset reply hm)
    doing := fun offset reply hm ↦ hroute _ _ (h.doing offset reply hm)
    known := fun j ↦ ?_
    entry := fun key grid he ↦ (h.entry key grid he).grow hg
    returned := fun r hr ↦ (h.returned r hr).grow hg }
  by_cases hij : j = i
  · subst hij
    unfold System.withCaller
    dsimp only
    rw [Function.update_self]
    exact hk.grow hg
  · unfold System.withCaller
    dsimp only
    rw [Function.update_of_ne hij]
    exact (h.known j).grow hg

/-- A call returns a good grid. -/
private theorem Honest.return_ (h : s.Honest) (i : Nat) {began offset : Nat}
    {grid : Option (Emulator.CellGrid G)} (hgood : s.Good began offset grid) :
    (s.return_ i began offset grid).Honest := by
  have hidle := h.withCaller i .idle trivial nofun
  have hg : Grows s (s.return_ i began offset grid) := { Grows.refl s with }
  have hg' : Grows (s.withCaller i .idle) (s.return_ i began offset grid) :=
    { Grows.refl (s.withCaller i .idle) with }
  refine { hidle with
    known := fun j ↦ (hidle.known j).grow hg'
    entry := fun key grid he ↦ (h.entry key grid he).grow hg
    returned := fun r hr ↦ ?_ }
  rcases List.mem_append.mp hr with hr | hr
  · exact (h.returned r hr).grow hg
  · obtain rfl := List.mem_singleton.mp hr
    exact hgood.grow hg

private theorem Honest.answered (h : s.Honest) (i : Nat) {began offset : Nat}
    {pane : Option PaneKey} {grid : Option (Emulator.CellGrid G)}
    (hb : s.Begun began offset pane) (hgood : s.Good (since began pane) offset grid) :
    (s.answered i began offset pane grid).Honest := by
  unfold System.answered
  cases pane with
  | none => exact h.return_ i hgood
  | some key =>
    obtain rfl := hb.key key rfl
    exact h.withCaller i _ ⟨hb.order, hgood⟩ nofun

private theorem Honest.remember (h : s.Honest) {offset rev : Nat} {grid : Emulator.CellGrid G}
    (hs : Shows s.published rev (view offset) grid) : (s.remember offset rev grid).Honest := by
  unfold System.remember
  split
  · next hc =>
    obtain ⟨rfl, -⟩ := hc
    have hg : Grows s { s with snapCache := some (rev, grid) } := { Grows.refl s with }
    refine { h with
      cached := fun r g he ↦ ?_
      known := fun i ↦ (h.known i).grow hg
      entry := fun key g he ↦ (h.entry key g he).grow hg
      returned := fun r hr ↦ (h.returned r hr).grow hg }
    obtain ⟨rfl, rfl⟩ := Prod.mk.inj (Option.some.inj he)
    exact hs
  · exact h

/-- A reader asks: the answer will have a new channel. -/
private theorem Honest.ask (h : s.Honest) (i : Nat) {began offset : Nat} {pane : Option PaneKey}
    (hb : s.Begun began offset pane) (hp : s.phase ≠ .stopped) :
    ({ s.withCaller i (.asked began offset s.asks pane) with asks := s.asks + 1 }.send
      (.msg (.snapshot offset s.asks))).Honest := by
  let t : System G ν := { s.withCaller i (.asked began offset s.asks pane) with
    asks := s.asks + 1
    queue := s.queue ++ [.msg (.snapshot offset s.asks)] }
  suffices ht : t.Honest by
    unfold System.send
    split
    · next hs => exact absurd hs hp
    · exact ht
  have hg : Grows s t := { Grows.refl s with asks := Nat.le_succ _ }
  -- no other reader waits for this channel
  have hother : ∀ j b o p, s.callers j ≠ .asked b o s.asks p := by
    intro j b o p hj
    have hk := h.known j
    rw [hj] at hk
    exact Nat.lt_irrefl _ hk.2.1
  have hroute : ∀ o reply, s.Routed o reply → t.Routed o reply := by
    intro o reply ⟨hlt, hr⟩
    refine ⟨Nat.lt_succ_of_lt hlt, fun j b o' p hj ↦ ?_⟩
    by_cases hij : j = i
    · subst hij
      have he := (Function.update_self _ _ _).symm.trans hj
      injection he with _ _ he _
      exact absurd he (Nat.ne_of_gt hlt)
    · exact hr j b o' p ((Function.update_of_ne hij _ _).symm.trans hj)
  constructor
  · exact h.synced
  · exact h.alone
  · intro o reply hm
    rcases List.mem_append.mp hm with hm | hm
    · exact hroute o reply (h.queued o reply hm)
    · injection List.mem_singleton.mp hm with he
      injection he with ho hreply
      subst ho hreply
      refine ⟨Nat.lt_succ_self _, fun j b o' p hj ↦ ?_⟩
      by_cases hij : j = i
      · subst hij
        have he := (Function.update_self _ _ _).symm.trans hj
        injection he with _ he _ _
        exact he.symm
      · exact absurd ((Function.update_of_ne hij _ _).symm.trans hj) (hother j b o' p)
  · exact fun o reply hm ↦ hroute o reply (h.doing o reply hm)
  · exact fun reply hr ↦ h.unasked reply (Nat.le_of_succ_le hr)
  · exact h.cached
  · intro j
    by_cases hij : j = i
    · subst hij
      dsimp only [t, System.withCaller]
      rw [Function.update_self]
      refine ⟨hb.grow hg, Nat.lt_succ_self _, fun rev grid he ↦ ?_⟩
      cases (h.unasked s.asks le_rfl).symm.trans he
    · dsimp only [t, System.withCaller]
      rw [Function.update_of_ne hij]
      exact (h.known j).grow hg
  · exact fun key grid he ↦ (h.entry key grid he).grow hg
  · exact fun r hr ↦ (h.returned r hr).grow hg

/-- A call goes one step on. -/
private theorem Honest.call (h : s.Honest) (i : Nat) : (s.call i).Honest := by
  have hk := h.known i
  unfold System.call
  split <;> rename_i hc <;> rw [hc] at hk
  · exact h
  · exact h.withCaller i _ ⟨hk, le_rfl⟩ nofun
  · exact h.withCaller i _ hk nofun
  · exact h.withCaller i _ hk nofun
  · next began key =>
    have hb : s.Begun began key.offset (some key) :=
      ⟨hk.1, hk.2, fun k he ↦ by rw [Option.some.inj he]⟩
    split
    · next k grid he =>
      split
      · next heq =>
        subst heq
        exact h.return_ i ((h.entry k grid he).earlier hk.1)
      · exact h.withCaller i _ hb nofun
    · exact h.withCaller i _ hb nofun
  · next began offset pane =>
    split
    · next rev grid he =>
      split
      · next hcond =>
        obtain ⟨rfl, rfl⟩ := hcond
        exact h.answered i hk ((h.cached _ _ he).fresh hk.seen)
      · exact h.withCaller i _ hk nofun
    · exact h.withCaller i _ hk nofun
  · next began offset pane =>
    split
    · next hp => exact h.answered i hk hp
    · next hp => exact h.ask i hk hp
  · next began offset reply pane =>
    obtain ⟨hb, -, ha⟩ := hk
    split
    · next rev grid he =>
      obtain ⟨hr, hs⟩ := ha rev grid he
      have hg : Grows s (s.remember offset rev grid) := by
        unfold System.remember
        split <;> exact { Grows.refl s with }
      refine (h.remember hs).answered i (hb.grow hg) ?_
      have hgood : s.Good (since began pane) offset (some grid) := hs.fresh hr
      exact hgood.grow hg
    · split
      · next hp => exact h.answered i hb hp
      · exact h
  · next began key grid =>
    have hr := h.return_ i (hk.2.earlier hk.1)
    have hg : Grows s (s.return_ i began key.offset grid) := { Grows.refl s with }
    have hg' : Grows (s.return_ i began key.offset grid)
        { s.return_ i began key.offset grid with entry := some (key, grid) } :=
      { Grows.refl (s.return_ i began key.offset grid) with }
    refine { hr with
      known := fun j ↦ (hr.known j).grow hg'
      entry := fun k g he ↦ ?_
      returned := fun r hm ↦ (hr.returned r hm).grow hg' }
    obtain ⟨rfl, rfl⟩ := Prod.mk.inj (Option.some.inj he)
    exact (hk.2.grow hg).grow hg'

/-! ### Runs -/

private theorem Honest.send (h : s.Honest) {mail : Mail G}
    (hm : ∀ offset reply, mail ≠ .msg (.snapshot offset reply)) : (s.send mail).Honest := by
  unfold System.send
  split
  · exact h
  · refine h.aside { Aside.refl s with } h.synced h.alone (fun offset reply hq ↦ ?_) h.doing
    rcases List.mem_append.mp hq with hq | hq
    · exact h.queued offset reply hq
    · exact absurd (List.mem_singleton.mp hq).symm (hm offset reply)

private theorem Honest.stop (h : s.Honest) (ht : s.todo = []) (rest : List (Mail G))
    (hp : s.phase ≠ .stopped) (hrest : ∀ m ∈ rest, m ∈ s.queue) : (s.stop rest).Honest := by
  have hlook : ∀ e, .effect e ∈ (s.stop rest).todo → e.plain = true := by
    intro e he
    obtain ⟨e', hmem, he⟩ := List.mem_map.mp he
    obtain rfl := Op.effect.inj he
    unfold Core.shutdown at hmem
    dsimp only at hmem
    split at hmem
    · simp only [List.mem_cons, List.not_mem_nil, or_false] at hmem
      rcases hmem with rfl | rfl <;> rfl
    · simp only [List.mem_cons, List.not_mem_nil, or_false] at hmem
      rw [hmem]
      rfl
  have hshown : (s.stop rest).core.shown = s.core.shown := rfl
  refine h.aside { Aside.refl s with stopped := fun hs ↦ absurd hs hp } (fun _ ↦ ?_)
    (fun offset reply hm ↦ ?_) (fun offset reply hm ↦ h.queued offset reply (hrest _ hm))
    fun offset reply hm ↦ ?_
  · rw [hshown]
    exact h.synced (by rw [ht]; exact List.not_mem_nil)
  · cases hlook _ hm
  · cases hlook _ hm

variable [NotificationTap ν]

private theorem Honest.handle (h : s.Honest) (ht : s.todo = []) (m : Msg G)
    {rest : List (Mail G)} (hp : s.phase ≠ .stopped) (hq : s.queue = .msg m :: rest) :
    (s.handle m rest).Honest := by
  have hback : ∀ e, .effect e ∈ (s.handle m rest).todo → e ∈ (s.core.dispatch m).2 := by
    intro e he
    rcases List.mem_append.mp he with he | he
    · obtain ⟨e', hmem, he⟩ := List.mem_map.mp he
      rwa [← Op.effect.inj he]
    · simp at he
  have hqueue : ∀ x ∈ rest, x ∈ s.queue := fun x hx ↦ hq ▸ List.mem_cons_of_mem _ hx
  refine h.aside { Aside.refl s with stopped := fun hs ↦ absurd hs hp } (fun hn ↦ ?_)
    (fun offset reply hm hpub ↦ ?_) (fun offset reply hm ↦ h.queued offset reply (hqueue _ hm))
    fun offset reply hm ↦ ?_
  · have hkept : (s.core.dispatch m).1.shown = s.core.shown := dispatch_kept fun hm ↦
      hn (List.mem_append_left _ (List.mem_map_of_mem hm))
    rw [show (s.handle m rest).core.shown = s.core.shown from hkept]
    exact h.synced (by rw [ht]; exact List.not_mem_nil)
  · rcases dispatch_cases s.core m with hd | ⟨o, r, -, hd⟩
    · exact hd.silent offset reply (hback _ hm)
    · have := hback _ hpub
      rw [hd] at this
      simp at this
  · rcases dispatch_cases s.core m with hd | ⟨o, r, rfl, hd⟩
    · exact absurd (hback _ hm) (hd.silent offset reply)
    · have hmem := hback _ hm
      rw [hd] at hmem
      obtain ⟨rfl, rfl⟩ := Effect.snapshot.inj (List.mem_singleton.mp hmem)
      exact h.queued offset reply (hq ▸ List.mem_cons_self)

/-- Every step keeps the invariant. -/
theorem Honest.step (h : s.Honest) (hs : Step s t) : t.Honest := by
  cases hs with
  | op o rest ht => exact h.op ht
  | due rest ht dirty observed =>
    refine h.aside { Aside.refl s with } (fun hn ↦ h.synced fun hm ↦ hn ?_)
      (fun offset reply hm ↦ ?_) h.queued fun offset reply hm ↦ h.doing offset reply ?_
    · rw [ht] at hm
      exact List.mem_cons_of_mem _ ((List.mem_cons.mp hm).resolve_left (by simp))
    · have hm := (List.mem_cons.mp hm).resolve_left (by simp)
      have hn := h.alone offset reply (ht ▸ List.mem_cons_of_mem _ hm)
      rw [ht] at hn
      simpa using hn
    · rw [ht]
      exact List.mem_cons_of_mem _ ((List.mem_cons.mp hm).resolve_left (by simp))
  | receive m rest ht running hq =>
    exact h.handle ht m (by rcases running with hp | hp <;> simp [hp]) hq
  | close rest ht running hq =>
    exact h.stop ht rest (by rcases running with hp | hp <;> simp [hp]) fun m hm ↦
      hq ▸ List.mem_cons_of_mem _ hm
  | drained ht busy hq =>
    refine h.aside { Aside.refl s with stopped := fun hp ↦ by cases busy.symm.trans hp }
      (fun _ ↦ h.synced (by rw [ht]; exact List.not_mem_nil)) (fun offset reply hm ↦ ?_) h.queued
      fun offset reply hm ↦ ?_
    · simp at hm
    · simp at hm
  | hangUp ht settled hq gone =>
    exact h.stop ht [] (by simp [settled]) fun m hm ↦ absurd hm List.not_mem_nil
  | stopped ht stopping =>
    refine h.aside { Aside.refl s with stopped := fun _ ↦ rfl } h.synced h.alone
      (fun offset reply hm ↦ ?_) h.doing
    cases hm
  | acquire =>
    unfold acquire
    split <;>
      exact h.aside { Aside.refl s with } h.synced h.alone h.queued h.doing
  | wake hw =>
    refine Honest.send ?_ fun _ _ he ↦ by simp at he
    exact h.aside { Aside.refl s with } h.synced h.alone h.queued h.doing
  | drop hh => exact h.aside { Aside.refl s with } h.synced h.alone h.queued h.doing
  | post m hm => exact h.send fun offset reply he ↦ hm offset reply (Mail.msg.inj he)
  | postClose => exact h.send fun _ _ he ↦ by cases he
  | snapshot i offset hi =>
    exact h.withCaller i _ ⟨le_rfl, le_rfl, fun key he ↦ by cases he⟩ nofun
  | cachedGrid i offset hi => exact h.withCaller i _ (le_refl s.rev) nofun
  | call i => exact h.call i
  | clearCache =>
    have hg : Grows s { s with entry := none } := { Grows.refl s with }
    exact { h with
      known := fun i ↦ (h.known i).grow hg
      entry := fun key grid he ↦ by cases he
      returned := fun r hr ↦ (h.returned r hr).grow hg }

omit [NotificationTap ν] in
private theorem honest_start (c : Core G ν) : (start c : System G ν).Honest := by
  have hback : ∀ e, .effect e ∈ (start c : System G ν).todo →
      e ∈ c.publish.2 ∨ e = .flush false := by
    intro e he
    rcases List.mem_append.mp he with he | he
    · obtain ⟨e', hmem, he⟩ := List.mem_map.mp he
      exact .inl (Op.effect.inj he ▸ hmem)
    · exact .inr (Op.effect.inj (List.mem_singleton.mp he))
  have hsilent : ∀ offset reply,
      .effect (.snapshot offset reply) ∉ (start c : System G ν).todo := by
    intro offset reply hm
    rcases hback _ hm with hm | hm
    · exact (Handled.publish c).silent offset reply hm
    · cases hm
  exact {
    synced := fun hn ↦ by
      have hk := (Handled.publish c).kept fun hm ↦
        hn (List.mem_append_left _ (List.mem_map_of_mem hm))
      exact congrArg some hk.symm
    alone := fun offset reply hm ↦ absurd hm (hsilent offset reply)
    queued := fun _ _ hm ↦ by cases hm
    doing := fun offset reply hm ↦ absurd hm (hsilent offset reply)
    unasked := fun _ _ ↦ rfl
    cached := fun _ _ hc ↦ by cases hc
    known := fun _ ↦ trivial
    entry := fun _ _ he ↦ by cases he
    returned := fun _ hr ↦ by cases hr }

/-- Frames and grids are up to date for those who look at them: where a lease is held and no
other is between its count and its wake-up, the frame of a thread that is about to wait; and
every grid that a call returned. -/
structure NeverStale (s : System G ν) : Prop where
  frame : s.Waits → 0 < s.held → s.waking = 0 →
    s.frame = ⟨s.rev, some s.core.shown⟩ ∧ Told s.seen s.rev
  grid : ∀ r ∈ s.returned, s.Good r.began r.offset r.grid

/-- In every run of a handle and the threads around it, frames and grids are up to date. -/
theorem never_stale {c : Core G ν} (h : Relation.ReflTransGen Step (start c) s) :
    s.NeverStale := by
  have hhonest : s.Honest := by
    induction h with
    | refl => exact honest_start c
    | tail _ hs ih => exact ih.step hs
  exact ⟨fun hw hheld hwaking ↦ current_of_waits h hw hheld hwaking, hhonest.returned⟩

/-- A handle on a terminal that shows nothing. -/
def blank : Core Blank Empty := { actor := { term := ⟨⟩, cell := ⟨0, 0⟩ }, backend := .spawn }

/-- The blank handle has published and waits for its first message. -/
def settled : System Blank Empty :=
  { start blank with
    todo := []
    published := [blank.shown, blank.shown]
    seen := [.dirty 1] }

private theorem settled_reached : Relation.ReflTransGen Step (start blank) settled := by
  have h₁ := Relation.ReflTransGen.refl.tail (Step.op (start blank) _ _ rfl)
  have h₂ := h₁.tail (.op _ _ _ rfl)
  have h₃ := h₂.tail (.op _ _ _ rfl)
  exact h₃.tail (.op _ .clear [] rfl)

/-- A lease wakes the blank handle, and a reader asks it for a grid. -/
theorem never_stale_blank : ∃ s : System Blank Empty, s.NeverStale ∧ s.Waits ∧ 0 < s.held ∧
    s.waking = 0 ∧ s.frame.rev = 1 ∧ s.returned = [⟨1, 0, some ()⟩] := by
  -- the lease, its wake-up and the frame
  have h₁ := settled_reached.tail (.acquire _)
  have h₂ := h₁.tail (.wake _ Nat.one_pos)
  have h₃ := h₂.tail (.receive _ .observeFrames [] rfl (.inr rfl) rfl)
  have h₄ := h₃.tail (.op _ _ _ rfl)
  have h₅ := h₄.tail (.op _ .due [] rfl)
  have h₆ := h₅.tail (.drained _ rfl rfl rfl)
  have h₇ := h₆.tail (.op _ _ _ rfl)
  have h₈ := h₇.tail (.op _ .store [.clear] rfl)
  have h₉ := h₈.tail (.op _ .clear [] rfl)
  -- the reader's question and the answer
  have k₁ := h₉.tail (.snapshot _ 0 0 rfl)
  have k₂ := k₁.tail (.call _ 0)
  have k₃ := k₂.tail (.call _ 0)
  have k₄ := k₃.tail (.receive _ (.snapshot 0 0) [] rfl (.inr rfl) rfl)
  have k₅ := k₄.tail (.op _ _ _ rfl)
  have k₆ := k₅.tail (.op _ .due [] rfl)
  have k₇ := k₆.tail (.call _ 0)
  have k₈ := k₇.tail (.drained _ rfl rfl rfl)
  have k₉ := k₈.tail (.op _ _ _ rfl)
  exact ⟨_, never_stale k₉, ⟨rfl, rfl, rfl⟩, Nat.one_pos, rfl, rfl, rfl⟩

/-- A second lease is held while the first has not sent its wake-up, and the frame was never
captured. A stopped handle has no grid. -/
theorem never_stale_refuted :
    (∃ s : System Blank Empty, Relation.ReflTransGen Step (start blank) s ∧ s.Waits ∧
      0 < s.held ∧ s.frame.rev ≠ s.rev) ∧
    (∃ s : System Blank Empty, Relation.ReflTransGen Step (start blank) s ∧
      ∃ r ∈ s.returned, r.grid = none) := by
  constructor
  · have h := (settled_reached.tail (.acquire _)).tail (.acquire _)
    exact ⟨_, h, ⟨rfl, rfl, rfl⟩, Nat.one_pos, by decide⟩
  · have h₁ := settled_reached.tail (.postClose _)
    have h₂ := h₁.tail (.close _ [] rfl (.inr rfl) rfl)
    have h₃ := h₂.tail (.op _ _ _ rfl)
    have h₄ := h₃.tail (.stopped _ rfl rfl)
    have h₅ := h₄.tail (.snapshot _ 0 0 rfl)
    have h₆ := h₅.tail (.call _ 0)
    have h₇ := h₆.tail (.call _ 0)
    exact ⟨_, h₇, ⟨1, 0, none⟩, List.mem_singleton_self _, rfl⟩

end System

end PtySpec.Handle
