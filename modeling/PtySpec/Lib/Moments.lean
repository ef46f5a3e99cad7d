import PtySpec.Lib.Program

/-!
# Programs in time

A program whose questions are answered one after the other, each at an instant, while the
surroundings move on in between. A run is the list of its questions with their answers and
instants; which of them may be is the surroundings' to say. `Upholds` is the judgement that every
question meets an obligation, given what was answered before it.
-/

namespace PtySpec.Lib

/-- A question, its answer, and the instant of the answer. -/
structure Moment (Op : Type) (Ans : Op → Type) where
  instant : Nat
  op : Op
  answer : Ans op

namespace Prog

variable {Op : Type} {Ans : Op → Type} {α β ε δ : Type}

/-! ### Programs that fail -/

/-- `p`, and `f` on what it gives if it does not fail. -/
def thenOk (p : Prog Op Ans (Except ε α)) (f : α → Prog Op Ans (Except ε β)) :
    Prog Op Ans (Except ε β) :=
  p.bind fun r ↦
    match r with
    | .ok a => f a
    | .error e => ret (.error e)

/-- `p` with its failure told in other words. -/
def mapError (p : Prog Op Ans (Except ε α)) (f : ε → δ) : Prog Op Ans (Except δ α) :=
  p.bind fun r ↦ ret (r.mapError f)

/-! ### Runs -/

/-- `p`, from an instant on, is answered some moments and has come to `q`. -/
inductive Goes (may : Moment Op Ans → Prop) :
    Nat → Prog Op Ans α → List (Moment Op Ans) → Nat → Prog Op Ans α → Prop
  | here (t : Nat) (p : Prog Op Ans α) : Goes may t p [] t p
  | ask {t u v : Nat} {o : Op} {r : Ans o} {k : Ans o → Prog Op Ans α}
      {es : List (Moment Op Ans)} {q : Prog Op Ans α} (hle : t ≤ u) (hmay : may ⟨u, o, r⟩)
      (hgoes : Goes may u (k r) es v q) : Goes may t (.ask o k) (⟨u, o, r⟩ :: es) v q

variable {may : Moment Op Ans → Prop} {must : List (Moment Op Ans) → Moment Op Ans → Prop}

theorem Goes.le {t v : Nat} {p q : Prog Op Ans α} {es : List (Moment Op Ans)}
    (h : Goes may t p es v q) : t ≤ v ∧ ∀ m ∈ es, t ≤ m.instant := by
  induction h with
  | here t p => exact ⟨Nat.le_refl t, by simp⟩
  | ask hle _ _ ih =>
    refine ⟨Nat.le_trans hle ih.1, fun m hm ↦ ?_⟩
    obtain rfl | hm := List.mem_cons.1 hm
    · exact hle
    · exact Nat.le_trans hle (ih.2 m hm)

/-- The moments of a run are in order. -/
theorem Goes.sorted {t v : Nat} {p q : Prog Op Ans α} {es : List (Moment Op Ans)}
    (h : Goes may t p es v q) : es.Pairwise (·.instant ≤ ·.instant) := by
  induction h with
  | here t p => exact .nil
  | ask _ _ hgoes ih => exact .cons hgoes.le.2 ih

/-- Every moment of a run is one that may be. -/
theorem Goes.allowed {t v : Nat} {p q : Prog Op Ans α} {es : List (Moment Op Ans)}
    (h : Goes may t p es v q) : ∀ m ∈ es, may m := by
  induction h with
  | here t p => simp
  | ask _ hmay _ ih => exact List.forall_mem_cons.2 ⟨hmay, ih⟩

/-! ### What a program upholds -/

/-- After some moments, every question that `p` is answered meets the obligation, and what it
gives satisfies `Q`. -/
def Upholds (may : Moment Op Ans → Prop) (must : List (Moment Op Ans) → Moment Op Ans → Prop) :
    Prog Op Ans α → List (Moment Op Ans) → (List (Moment Op Ans) → α → Prop) → Prop
  | ret a, past, Q => Q past a
  | ask o k, past, Q => ∀ u r, may ⟨u, o, r⟩ →
      must past ⟨u, o, r⟩ ∧ (k r).Upholds may must (past ++ [⟨u, o, r⟩]) Q

@[simp] theorem upholds_ret {past : List (Moment Op Ans)} {Q : List (Moment Op Ans) → α → Prop}
    {a : α} : (ret a : Prog Op Ans α).Upholds may must past Q ↔ Q past a := Iff.rfl

/-- Consequence: a weaker result is upheld too. -/
theorem Upholds.mono {p : Prog Op Ans α} {past : List (Moment Op Ans)}
    {Q R : List (Moment Op Ans) → α → Prop} (h : p.Upholds may must past Q)
    (hq : ∀ past a, Q past a → R past a) : p.Upholds may must past R := by
  induction p generalizing past with
  | ret a => exact hq past a h
  | ask o k ih => exact fun u r hr ↦ ⟨(h u r hr).1, ih r (h u r hr).2⟩

/-- Sequencing through an intermediate assertion. -/
theorem Upholds.bind {p : Prog Op Ans α} {f : α → Prog Op Ans β} {past : List (Moment Op Ans)}
    {Q : List (Moment Op Ans) → α → Prop} {R : List (Moment Op Ans) → β → Prop}
    (h : p.Upholds may must past Q)
    (hf : ∀ past a, Q past a → (f a).Upholds may must past R) :
    (p.bind f).Upholds may must past R := by
  induction p generalizing past with
  | ret a => exact hf past a h
  | ask o k ih => exact fun u r hr ↦ ⟨(h u r hr).1, ih r (h u r hr).2⟩

/-- A failure ends a sequence, a success goes on. -/
theorem Upholds.thenOk {p : Prog Op Ans (Except ε α)} {f : α → Prog Op Ans (Except ε β)}
    {past : List (Moment Op Ans)} {Q : List (Moment Op Ans) → Except ε α → Prop}
    {R : List (Moment Op Ans) → Except ε β → Prop} (h : p.Upholds may must past Q)
    (herror : ∀ past e, Q past (.error e) → R past (.error e))
    (hok : ∀ past a, Q past (.ok a) → (f a).Upholds may must past R) :
    (p.thenOk f).Upholds may must past R := by
  refine h.bind fun past r hr ↦ ?_
  cases r with
  | error e => exact herror past e hr
  | ok a => exact hok past a hr

theorem Upholds.mapError {p : Prog Op Ans (Except ε α)} {f : ε → δ}
    {past : List (Moment Op Ans)} {Q : List (Moment Op Ans) → Except ε α → Prop}
    {R : List (Moment Op Ans) → Except δ α → Prop} (h : p.Upholds may must past Q)
    (herror : ∀ past e, Q past (.error e) → R past (.error (f e)))
    (hok : ∀ past a, Q past (.ok a) → R past (.ok a)) :
    (p.mapError f).Upholds may must past R := by
  refine h.bind fun past r hr ↦ ?_
  cases r with
  | error e => exact herror past e hr
  | ok a => exact hok past a hr

/-- What a program upholds, its runs do: every moment meets the obligation, given those before
it, and the rest of the program upholds what is left. -/
theorem Upholds.goes {t v : Nat} {p q : Prog Op Ans α} {past es : List (Moment Op Ans)}
    {Q : List (Moment Op Ans) → α → Prop} (h : p.Upholds may must past Q)
    (hgoes : Goes may t p es v q) :
    (∀ before m after, es = before ++ m :: after → must (past ++ before) m) ∧
      q.Upholds may must (past ++ es) Q := by
  induction hgoes generalizing past with
  | here t p => exact ⟨fun before m after he ↦ by simp at he, by simpa using h⟩
  | @ask t u v o r k es q hle hmay hgoes ih =>
    obtain ⟨hmust, hrest⟩ := h u r hmay
    obtain ⟨hall, hend⟩ := ih hrest
    have hassoc (xs : List (Moment Op Ans)) :
        past ++ [⟨u, o, r⟩] ++ xs = past ++ ⟨u, o, r⟩ :: xs := by simp
    refine ⟨fun before m after he ↦ ?_, hassoc es ▸ hend⟩
    cases before with
    | nil =>
      obtain ⟨rfl, rfl⟩ := List.cons.inj he
      simpa using hmust
    | cons first before =>
      obtain ⟨rfl, rfl⟩ := List.cons.inj he
      exact hassoc before ▸ hall before m after rfl

end Prog
end PtySpec.Lib
