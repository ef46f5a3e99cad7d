import PtySpec.Lib.Program

/-!
# Programs against a world

A program whose questions are answered by a world that the answers change. A run may stop
anywhere. `Safe` is the judgement that an invariant of the world holds at every point of every
run, and that what a run gives at its end is so.
-/

namespace PtySpec.Lib.Prog

universe u

variable {Op : Type} {Ans : Op → Type} {α β : Type} {W : Type u}

/-- `p` has been answered some questions and has come to `q`, in the worlds `w` and `v`. -/
inductive Comes (serves : W → (o : Op) → Ans o → W → Prop) :
    Prog Op Ans α → W → Prog Op Ans α → W → Prop
  | here (p : Prog Op Ans α) (w : W) : Comes serves p w p w
  | ask {o : Op} {k : Ans o → Prog Op Ans α} {r : Ans o} {q : Prog Op Ans α} {w w' v : W}
      (hr : serves w o r w') (hq : Comes serves (k r) w' q v) : Comes serves (.ask o k) w q v

variable {serves : W → (o : Op) → Ans o → W → Prop} {I : W → Prop}

/-- A run goes on with an answer. -/
theorem Comes.tail {p : Prog Op Ans α} {o : Op} {k : Ans o → Prog Op Ans α} {w v v' : W}
    (h : Comes serves p w (Prog.ask o k) v) (r : Ans o) (hr : serves v o r v') :
    Comes serves p w (k r) v' := by
  generalize hq : Prog.ask o k = q at h
  induction h with
  | here p w =>
    subst hq
    exact .ask hr (.here _ _)
  | ask hr' _ ih => exact .ask hr' (ih hr hq)

/-- The invariant holds from `w` on, whatever the answers, and every result satisfies `Q`. -/
def Safe (serves : W → (o : Op) → Ans o → W → Prop) (I : W → Prop) :
    Prog Op Ans α → W → (W → α → Prop) → Prop
  | ret a, w, Q => I w ∧ Q w a
  | ask o k, w, Q => I w ∧ ∀ r w', serves w o r w' → (k r).Safe serves I w' Q

/-- One question: the invariant holds before and after it. -/
theorem safe_query {o : Op} {w : W} {Q : W → Ans o → Prop} (hI : I w)
    (h : ∀ r w', serves w o r w' → I w' ∧ Q w' r) :
    (query o : Prog Op Ans (Ans o)).Safe serves I w Q := ⟨hI, h⟩

/-- The invariant holds where a run begins. -/
theorem Safe.inv {p : Prog Op Ans α} {w : W} {Q : W → α → Prop} (h : p.Safe serves I w Q) :
    I w := by
  cases p with
  | ret a => exact h.1
  | ask o k => exact h.1

/-- Sequencing: the second program starts from what the first one gives. -/
theorem Safe.seq {p : Prog Op Ans α} {f : α → Prog Op Ans β} {w : W} {Q : W → α → Prop}
    {R : W → β → Prop} (hp : p.Safe serves I w Q)
    (hf : ∀ w' a, I w' → Q w' a → (f a).Safe serves I w' R) :
    (p >>= f).Safe serves I w R := by
  induction p generalizing w with
  | ret a => exact hf w a hp.1 hp.2
  | ask o k ih => exact ⟨hp.1, fun r w' hr ↦ ih r (hp.2 r w' hr)⟩

/-- What is safe is safe wherever a run has come to. -/
theorem Safe.comes {p q : Prog Op Ans α} {w v : W} {Q : W → α → Prop}
    (h : p.Safe serves I w Q) (hc : Comes serves p w q v) : q.Safe serves I v Q := by
  induction hc with
  | here p w => exact h
  | ask hr _ ih => exact ih (h.2 _ _ hr)

/-- A run that has ended has its result. -/
theorem Safe.result {p : Prog Op Ans α} {a : α} {w v : W} {Q : W → α → Prop}
    (h : p.Safe serves I w Q) (hc : Comes serves p w (ret a) v) : I v ∧ Q v a := h.comes hc

end PtySpec.Lib.Prog
