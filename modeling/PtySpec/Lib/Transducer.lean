import Mathlib

/-!
# Transducers

A reader that keeps a state between the pieces of a stream and puts something out for each
of them. What it puts out is joined; a run over a whole stream is the run over its chunks,
however they are cut. An implementation that works chunk by chunk and agrees with a
transducer on every single chunk therefore agrees with it on every way of cutting.
-/

namespace PtySpec.Lib

universe u v w x

/-- One step per piece, with outputs that can be joined. -/
structure Transducer (σ : Type u) (α : Type v) (ω : Type w) where
  nil : ω
  join : ω → ω → ω
  next : σ → α → σ × ω
  nil_join : ∀ a, join nil a = a
  join_nil : ∀ a, join a nil = a
  join_assoc : ∀ a b c, join (join a b) c = join a (join b c)

namespace Transducer

variable {σ : Type u} {α : Type v} {ω : Type w}

/-- The run over a stream. -/
def run (t : Transducer σ α ω) : σ → List α → σ × ω
  | s, [] => (s, t.nil)
  | s, x :: xs =>
    let r := t.run (t.next s x).1 xs
    (r.1, t.join (t.next s x).2 r.2)

/-- The run over a stream, continued. -/
def andThen (t : Transducer σ α ω) (r : σ × ω) (xs : List α) : σ × ω :=
  ((t.run r.1 xs).1, t.join r.2 (t.run r.1 xs).2)

@[simp] theorem run_nil (t : Transducer σ α ω) (s : σ) : t.run s [] = (s, t.nil) := rfl

theorem run_singleton (t : Transducer σ α ω) (s : σ) (x : α) : t.run s [x] = t.next s x := by
  simp [run, t.join_nil]

/-- A run over two streams in a row is the run over the second from where the first ends. -/
theorem run_append (t : Transducer σ α ω) (s : σ) (xs ys : List α) :
    t.run s (xs ++ ys) = t.andThen (t.run s xs) ys := by
  induction xs generalizing s with
  | nil => simp [andThen, t.nil_join]
  | cons x xs ih =>
    rw [List.cons_append, run, ih]
    simp [andThen, run, t.join_assoc]

/-- What one transducer puts out, read by a second one. -/
def comp {τ : Type x} {γ : Type v} (t : Transducer σ α (List γ)) (k : Transducer τ γ ω) :
    Transducer (σ × τ) α ω where
  nil := k.nil
  join := k.join
  next s x :=
    let r := k.run s.2 (t.next s.1 x).2
    (((t.next s.1 x).1, r.1), r.2)
  nil_join := k.nil_join
  join_nil := k.join_nil
  join_assoc := k.join_assoc

/-- A composition runs the second transducer over what the first one puts out. -/
theorem run_comp {τ : Type x} {γ : Type v} {t : Transducer σ α (List γ)}
    (hnil : t.nil = []) (hjoin : ∀ a b, t.join a b = a ++ b) (k : Transducer τ γ ω)
    (s : σ) (p : τ) (xs : List α) :
    (t.comp k).run (s, p) xs =
      (((t.run s xs).1, (k.run p (t.run s xs).2).1), (k.run p (t.run s xs).2).2) := by
  induction xs generalizing s p with
  | nil =>
    rw [run_nil, run_nil, hnil, run_nil]
    rfl
  | cons x xs ih =>
    simp only [run, hjoin, run_append, andThen]
    rw [show (t.comp k).next (s, p) x = (((t.next s x).1, (k.run p (t.next s x).2).1),
      (k.run p (t.next s x).2).2) from rfl, ih]
    rfl

/-- An implementation that takes a chunk at a time and agrees with a transducer on each. -/
structure Chunked {S : Type x} (t : Transducer σ α ω) (feed : S → List α → S × ω)
    (view : S → σ) : Prop where
  agrees : ∀ s chunk, (view (feed s chunk).1, (feed s chunk).2) = t.run (view s) chunk

/-- Feed the chunks one after the other and join what they put out. -/
def feedAll {S : Type x} (t : Transducer σ α ω) (feed : S → List α → S × ω) :
    S → List (List α) → S × ω
  | s, [] => (s, t.nil)
  | s, chunk :: rest =>
    let r := feedAll t feed (feed s chunk).1 rest
    (r.1, t.join (feed s chunk).2 r.2)

/-- However a stream is cut, its chunks give what the transducer makes of the stream. -/
theorem Chunked.feedAll_eq {S : Type x} {t : Transducer σ α ω} {feed : S → List α → S × ω}
    {view : S → σ} (h : t.Chunked feed view) (s : S) (chunks : List (List α)) :
    (view (t.feedAll feed s chunks).1, (t.feedAll feed s chunks).2) =
      t.run (view s) chunks.flatten := by
  induction chunks generalizing s with
  | nil => rfl
  | cons chunk rest ih =>
    have hc := h.agrees s chunk
    have hr := ih (feed s chunk).1
    rw [List.flatten_cons, run_append, ← hc]
    simp only [feedAll, andThen, ← hr]

end Transducer
end PtySpec.Lib
