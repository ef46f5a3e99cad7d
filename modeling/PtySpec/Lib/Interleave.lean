import PtySpec.Lib.Program

/-!
# Threads that share a world

Programs that run side by side over one world, which answers one question of one of them at a
time and which the surroundings move as well. If every program keeps its contract, and every
answer the world gives to a question that a contract allows is one the contract promises, then
an invariant of the world and the ghost states holds along every run.
-/

namespace PtySpec.Lib

universe u

variable {W Tid : Type u} {Op : Type} {Ans : Op → Type} {M : Type u} {α : Type}

/-- A world and the threads under way. -/
structure Crowd (W Tid : Type u) (Op : Type) (Ans : Op → Type) (M : Type u) (α : Type) where
  world : W
  thread : Tid → Option (Thread Op Ans M α)

/-- The ghost states of the threads under way. -/
def Crowd.ghost (s : Crowd W Tid Op Ans M α) (t : Tid) : Option M :=
  (s.thread t).map Thread.ghost

/-- How threads and a world go on: the programs that threads begin, the answers of the world,
and the moves of the surroundings, which may end threads. -/
structure Setting (W Tid : Type u) (Op : Type) (Ans : Op → Type) (M : Type u) (α : Type) where
  contract : Tid → Contract Op Ans M
  start : M
  begins : W → Tid → Prog Op Ans α → W → Prop
  answers : Tid → W → (o : Op) → Ans o → W → Prop
  moves : W → (Tid → Bool) → W → Prop

namespace Setting

variable [DecidableEq Tid] (S : Setting W Tid Op Ans M α)

/-- One step of one thread, or of the surroundings. -/
inductive Step (s : Crowd W Tid Op Ans M α) : Crowd W Tid Op Ans M α → Prop where
  | begin {t : Tid} {p : Prog Op Ans α} {w : W} : s.thread t = none →
      S.begins s.world t p w →
      Step s ⟨w, Function.update s.thread t (some ⟨S.start, p⟩)⟩
  | answer {t : Tid} {m : M} {o : Op} {k : Ans o → Prog Op Ans α} {r : Ans o} {w : W} :
      s.thread t = some ⟨m, .ask o k⟩ → S.answers t s.world o r w →
      Step s ⟨w, Function.update s.thread t (some ⟨(S.contract t).next m o r, k r⟩)⟩
  | move {ends : Tid → Bool} {w : W} : S.moves s.world ends w →
      Step s ⟨w, fun t ↦ if ends t then none else s.thread t⟩

/-- An invariant of the world and the ghost states that every step keeps, as long as the
threads keep their contracts; with what a program establishes when it ends. -/
structure Sound (I : W → (Tid → Option M) → Prop) (Q : Tid → M → α → Prop) : Prop where
  begins : ∀ {w g t p w'}, I w g → g t = none → S.begins w t p w' →
    p.Keeps (S.contract t) S.start (Q t) ∧ I w' (Function.update g t (some S.start))
  answers : ∀ {w g t m o r w'}, I w g → g t = some m → (S.contract t).asks m o →
    S.answers t w o r w' → (S.contract t).answers m o r ∧
      I w' (Function.update g t (some ((S.contract t).next m o r)))
  moves : ∀ {w g ends w'}, I w g → S.moves w ends w' →
    I w' fun t ↦ if ends t then none else g t

variable {S} {I : W → (Tid → Option M) → Prop} {Q : Tid → M → α → Prop}

/-- The invariant holds, and every thread keeps its contract from here on. -/
structure Holds (S : Setting W Tid Op Ans M α) (I : W → (Tid → Option M) → Prop)
    (Q : Tid → M → α → Prop) (s : Crowd W Tid Op Ans M α) : Prop where
  inv : I s.world s.ghost
  keeps : ∀ t th, s.thread t = some th → th.Keeps (S.contract t) (Q t)

private theorem ghost_update (f : Tid → Option (Thread Op Ans M α)) (t : Tid)
    (th : Thread Op Ans M α) (w : W) :
    Crowd.ghost ⟨w, Function.update f t (some th)⟩ =
      Function.update (fun u ↦ (f u).map Thread.ghost) t (some th.ghost) := by
  funext u
  by_cases hu : u = t
  · subst hu
    simp [Crowd.ghost]
  · simp [Crowd.ghost, hu]

/-- One step keeps the invariant and the contracts. -/
theorem Holds.step (hS : S.Sound I Q) {s s' : Crowd W Tid Op Ans M α} (h : Holds S I Q s)
    (hs : S.Step s s') : Holds S I Q s' := by
  -- the thread that has moved keeps its contract, and the others have not changed
  have hothers : ∀ {t : Tid} {th : Thread Op Ans M α}, th.Keeps (S.contract t) (Q t) →
      ∀ u th', Function.update s.thread t (some th) u = some th' →
        th'.Keeps (S.contract u) (Q u) := by
    intro t th hth u th' hu
    by_cases hut : u = t
    · subst hut
      rw [Function.update_self] at hu
      cases hu
      exact hth
    · rw [Function.update_of_ne hut] at hu
      exact h.keeps u th' hu
  cases hs with
  | @begin t p w hnone hbegins =>
    have hg : s.ghost t = none := by rw [Crowd.ghost, hnone, Option.map_none]
    obtain ⟨hkeeps, hI⟩ := hS.begins h.inv hg hbegins
    refine ⟨?_, hothers hkeeps⟩
    rw [ghost_update]
    exact hI
  | @answer t m o k r w ht hanswer =>
    have hg : s.ghost t = some m := by rw [Crowd.ghost, ht, Option.map_some]
    obtain ⟨hasks, hk⟩ := h.keeps t _ ht
    obtain ⟨hr, hI⟩ := hS.answers h.inv hg hasks hanswer
    refine ⟨?_, hothers (hk r hr)⟩
    rw [ghost_update]
    exact hI
  | @move ends w hmove =>
    refine ⟨?_, fun t th ht ↦ ?_⟩
    · have heq : Crowd.ghost ⟨w, fun t ↦ if ends t then none else s.thread t⟩ =
          fun t ↦ if ends t then none else s.ghost t := by
        funext t
        simp only [Crowd.ghost]
        split <;> rfl
      rw [heq]
      exact hS.moves h.inv hmove
    · dsimp only at ht
      split at ht
      · cases ht
      · exact h.keeps t th ht

/-- The invariant and the contracts hold along every run. -/
theorem Sound.holds (hS : S.Sound I Q) {init : Crowd W Tid Op Ans M α → Prop}
    (hinit : ∀ s, init s → Holds S I Q s) {s : Crowd W Tid Op Ans M α}
    (hs : Reachable init S.Step s) : Holds S I Q s :=
  hs.induct hinit fun _ _ _ h hst ↦ h.step hS hst

/-- A thread has an answer. -/
theorem answered {init : Crowd W Tid Op Ans M α → Prop} {s : Crowd W Tid Op Ans M α} {t : Tid}
    {m : M} {o : Op} {k : Ans o → Prog Op Ans α} {w' : W} (hs : Reachable init S.Step s)
    (ht : s.thread t = some ⟨m, .ask o k⟩) (r : Ans o) (ha : S.answers t s.world o r w') :
    ∃ s', Reachable init S.Step s' ∧ s'.world = w' ∧
      s'.thread t = some ⟨(S.contract t).next m o r, k r⟩ :=
  ⟨_, hs.tail (.answer ht ha), rfl, Function.update_self ..⟩

end Setting

end PtySpec.Lib
