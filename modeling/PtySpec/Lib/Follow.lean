import Mathlib

/-!
# Following a stream from a snapshot

A source appends to one stream until it ends. A follower is handed snapshots, each taken
at a position of the stream, and after a snapshot what the stream goes on with; while it
waits for another snapshot it is paused. `Exact` says that what a follower was handed
misses nothing and repeats nothing, whatever the other followers do.
-/

namespace PtySpec.Lib

/-- One thing a follower was handed, or the moment from which it waits. -/
inductive Handed (σ α : Type) where
  /-- A snapshot, taken when the stream was that long. -/
  | snapshot (x : σ) (position : Nat)
  /-- A piece of the stream. -/
  | chunk (xs : List α)
  /-- The end of the stream. -/
  | ending (x : σ)
  /-- From here the follower waits; the stream was that long, and had ended or not. -/
  | paused (position : Nat) (ended : Bool)
  /-- Something that is not of the stream. -/
  | other (x : σ)

namespace Handed

variable {σ α : Type}

def isPaused : Handed σ α → Bool
  | paused _ _ => true
  | _ => false

def isSnapshot : Handed σ α → Bool
  | snapshot _ _ => true
  | _ => false

/-- A piece of the stream or its end. -/
def isStream : Handed σ α → Bool
  | chunk _ | ending _ => true
  | _ => false

def isEnding : Handed σ α → Bool
  | ending _ => true
  | _ => false

/-- The items up to the next pause. -/
def turn (items : List (Handed σ α)) : List (Handed σ α) := items.takeWhile (!·.isPaused)

/-- The pieces of the stream, joined. -/
def chunks (items : List (Handed σ α)) : List α :=
  items.flatMap fun i ↦
    match i with
    | chunk xs => xs
    | _ => []

/-- How often the end was handed over. -/
def endings (items : List (Handed σ α)) : Nat := items.countP isEnding

/-- How far the stream is at the next pause, or now. -/
def reach (now : Nat) : List (Handed σ α) → Nat
  | [] => now
  | paused position _ :: _ => position
  | _ :: rest => reach now rest

/-- Whether the stream has ended at the next pause, or now. -/
def endedBy (now : Bool) : List (Handed σ α) → Bool
  | [] => now
  | paused _ ended :: _ => ended
  | _ :: rest => endedBy now rest

/-- Whether the follower waits: it was paused after its last snapshot. -/
def waiting (items : List (Handed σ α)) : Bool :=
  (items.reverse.find? fun i ↦ i.isPaused || i.isSnapshot).any isPaused

/-! ### One more item -/

@[simp] theorem chunks_append (l k : List (Handed σ α)) : chunks (l ++ k) = chunks l ++ chunks k :=
  List.flatMap_append

@[simp] theorem endings_append (l k : List (Handed σ α)) :
    endings (l ++ k) = endings l + endings k := List.countP_append

theorem turn_append_of_paused {l : List (Handed σ α)} (h : l.any isPaused = true)
    (k : List (Handed σ α)) : turn (l ++ k) = turn l := by
  induction l with
  | nil => cases h
  | cons i l ih =>
    cases hi : i.isPaused with
    | true => simp [turn, hi]
    | false =>
      have hl : l.any isPaused = true := by simpa [hi] using h
      simpa [turn, hi] using ih hl

theorem turn_append_of_open {l : List (Handed σ α)} (h : l.any isPaused = false)
    (k : List (Handed σ α)) : turn (l ++ k) = l ++ turn k := by
  refine List.takeWhile_append_of_pos fun i hi ↦ ?_
  simpa using List.any_eq_false.mp h i hi

theorem reach_append_of_paused {l : List (Handed σ α)} (h : l.any isPaused = true)
    (now now' : Nat) (k : List (Handed σ α)) : reach now' (l ++ k) = reach now l := by
  induction l with
  | nil => cases h
  | cons i l ih =>
    cases i with
    | paused position ended => rfl
    | _ => exact ih h

theorem reach_append_of_open {now : Nat} {l : List (Handed σ α)} (h : l.any isPaused = false)
    (k : List (Handed σ α)) : reach now (l ++ k) = reach now k := by
  induction l with
  | nil => rfl
  | cons i l ih =>
    cases i with
    | paused position ended => cases h
    | _ => exact ih h

theorem endedBy_append_of_paused {l : List (Handed σ α)} (h : l.any isPaused = true)
    (now now' : Bool) (k : List (Handed σ α)) : endedBy now' (l ++ k) = endedBy now l := by
  induction l with
  | nil => cases h
  | cons i l ih =>
    cases i with
    | paused position ended => rfl
    | _ => exact ih h

theorem endedBy_append_of_open {now : Bool} {l : List (Handed σ α)} (h : l.any isPaused = false)
    (k : List (Handed σ α)) : endedBy now (l ++ k) = endedBy now k := by
  induction l with
  | nil => rfl
  | cons i l ih =>
    cases i with
    | paused position ended => cases h
    | _ => exact ih h

@[simp] theorem waiting_append_singleton (l : List (Handed σ α)) (i : Handed σ α) :
    waiting (l ++ [i]) = (i.isPaused || (!i.isSnapshot && waiting l)) := by
  cases i <;> simp [waiting, isPaused, isSnapshot]

/-- After a snapshot a waiting follower was paused again. -/
theorem any_isPaused_of_waiting {pre post : List (Handed σ α)} {x : σ} {p : Nat}
    (h : waiting (pre ++ snapshot x p :: post) = true) : post.any isPaused = true := by
  induction post using List.reverseRecOn with
  | nil => simp [isPaused, isSnapshot] at h
  | append_singleton post i ih =>
    rw [← List.cons_append, ← List.append_assoc, waiting_append_singleton] at h
    cases hi : i.isPaused with
    | true => simp [hi]
    | false =>
      have hw : i.isSnapshot = false ∧ waiting (pre ++ snapshot x p :: post) = true := by
        simpa [hi] using h
      simp [ih hw.2]

/-- After a pause a follower that does not wait has its snapshot. -/
theorem any_isSnapshot_of_not_waiting {pre post : List (Handed σ α)} {p : Nat} {e : Bool}
    (h : waiting (pre ++ paused p e :: post) = false) : post.any isSnapshot = true := by
  induction post using List.reverseRecOn with
  | nil => simp [isPaused] at h
  | append_singleton post i ih =>
    rw [← List.cons_append, ← List.append_assoc, waiting_append_singleton] at h
    cases hi : i.isSnapshot with
    | true => simp [hi]
    | false =>
      have hw : i.isPaused = false ∧ waiting (pre ++ paused p e :: post) = false := by
        simpa [hi] using h
      simp [ih hw.2]

/-! ### What a follower was handed is exact -/

/-- What follows each snapshot until the next pause is what the stream went on with, and
its end once if it has ended; a paused follower is handed nothing of the stream before
its snapshot. -/
structure Exact (stream : List α) (ended : Bool) (items : List (Handed σ α)) : Prop where
  follows : ∀ pre x p post, items = pre ++ snapshot x p :: post →
    p ≤ reach stream.length post ∧ reach stream.length post ≤ stream.length ∧
      chunks (turn post) = (stream.take (reach stream.length post)).drop p ∧
      endings (turn post) = (endedBy ended post).toNat
  waits : ∀ pre p e post, items = pre ++ paused p e :: post →
    ∀ i ∈ post.takeWhile (!·.isSnapshot), i.isStream = false

/-- What a follower may be handed next, and how far the stream is then: its pieces and
its end while the follower does not wait, a snapshot of its present state when it does. -/
inductive Next (stream : List α) (ended : Bool) : Bool → Handed σ α → List α → Bool → Prop where
  | chunk (xs : List α) : Next stream ended false (.chunk xs) (stream ++ xs) ended
  | ending (x : σ) (h : ended = false) : Next stream ended false (.ending x) stream true
  | snapshot (x : σ) : Next stream ended true (.snapshot x stream.length) stream false
  | paused (waiting : Bool) : Next stream ended waiting (.paused stream.length ended) stream ended
  | other (waiting : Bool) (x : σ) : Next stream ended waiting (.other x) stream ended

private theorem split_append_singleton {pre post l : List (Handed σ α)} {i j : Handed σ α}
    (h : l ++ [j] = pre ++ i :: post) :
    (pre = l ∧ i = j ∧ post = []) ∨ ∃ post', post = post' ++ [j] ∧ l = pre ++ i :: post' := by
  cases post using List.reverseRecOn with
  | nil =>
    obtain ⟨rfl, hj⟩ := List.append_inj' h rfl
    cases hj
    exact .inl ⟨rfl, rfl, rfl⟩
  | append_singleton post k =>
    rw [← List.cons_append, ← List.append_assoc] at h
    obtain ⟨hl, hj⟩ := List.append_inj' h rfl
    cases hj
    exact .inr ⟨post, rfl, hl⟩

private theorem mem_takeWhile_append_singleton {f : Handed σ α → Bool} {l : List (Handed σ α)}
    {i j : Handed σ α} (h : j ∈ (l ++ [i]).takeWhile f) :
    j ∈ l.takeWhile f ∨ (j = i ∧ ∀ k ∈ l, f k = true) := by
  rw [List.takeWhile_append] at h
  split at h
  · next hl =>
    have hall : l.takeWhile f = l := (List.takeWhile_prefix f).eq_of_length hl
    rcases List.mem_append.mp h with h | h
    · exact .inl (hall.symm ▸ h)
    · have hj : j = i := List.mem_singleton.mp ((List.takeWhile_prefix f).subset h)
      exact .inr ⟨hj, List.takeWhile_eq_self_iff.mp hall⟩
  · exact .inl h

namespace Exact

variable {stream : List α} {ended : Bool} {items : List (Handed σ α)}

theorem nil : Exact stream ended ([] : List (Handed σ α)) :=
  ⟨fun pre _ _ _ h ↦ by simp at h, fun pre _ _ _ h ↦ by simp at h⟩

/-- A turn that a pause ended stays as it is, whatever the stream does. -/
private theorem follows_of_paused (h : Exact stream ended items)
    {pre post : List (Handed σ α)} {x : σ} {p : Nat} (heq : items = pre ++ snapshot x p :: post)
    (hp : post.any isPaused = true) {stream' : List α} (hs : stream <+: stream') (ended' : Bool)
    (more : List (Handed σ α)) :
    p ≤ reach stream'.length (post ++ more) ∧
      reach stream'.length (post ++ more) ≤ stream'.length ∧
      chunks (turn (post ++ more)) = (stream'.take (reach stream'.length (post ++ more))).drop p ∧
      endings (turn (post ++ more)) = (endedBy ended' (post ++ more)).toNat := by
  obtain ⟨hle, hlen, hc, he⟩ := h.follows pre x p post heq
  obtain ⟨rest, rfl⟩ := hs
  rw [reach_append_of_paused hp stream.length,
    endedBy_append_of_paused hp ended, turn_append_of_paused hp]
  refine ⟨hle, hlen.trans (by simp), ?_, he⟩
  rw [hc, List.take_append_of_le_length hlen]

/-- The stream goes on, or ends, while the follower waits. -/
theorem of_waiting (h : Exact stream ended items) (hw : waiting items = true)
    {stream' : List α} (hs : stream <+: stream') (ended' : Bool) :
    Exact stream' ended' items := by
  refine ⟨fun pre x p post heq ↦ ?_, h.waits⟩
  have hp := any_isPaused_of_waiting (heq ▸ hw)
  simpa using h.follows_of_paused heq hp hs ended' []

/-- A turn that is still open goes on with the new item. -/
private theorem follows_of_open (h : Exact stream ended items)
    {pre post : List (Handed σ α)} {x : σ} {p : Nat} (heq : items = pre ++ snapshot x p :: post)
    (hp : post.any isPaused = false) {stream' : List α} {ended' : Bool} {i : Handed σ α}
    (hn : Next stream ended false i stream' ended') :
    p ≤ reach stream'.length (post ++ [i]) ∧ reach stream'.length (post ++ [i]) ≤ stream'.length ∧
      chunks (turn (post ++ [i])) = (stream'.take (reach stream'.length (post ++ [i]))).drop p ∧
      endings (turn (post ++ [i])) = (endedBy ended' (post ++ [i])).toNat := by
  have hnow : p ≤ stream.length ∧ chunks post = stream.drop p ∧
      endings post = ended.toNat := by
    obtain ⟨hle, -, hc, he⟩ := h.follows pre x p post heq
    rw [← List.append_nil post] at hle hc he
    rw [reach_append_of_open hp] at hle hc
    rw [endedBy_append_of_open hp] at he
    rw [turn_append_of_open hp] at hc he
    simpa [reach, endedBy, turn] using And.intro hle (And.intro hc he)
  obtain ⟨hle, hc, he⟩ := hnow
  rw [reach_append_of_open hp, endedBy_append_of_open hp, turn_append_of_open hp,
    chunks_append, endings_append, hc, he]
  cases hn with
  | chunk xs =>
    rw [List.take_of_length_le (by simp [reach]), List.drop_append_of_le_length hle]
    refine ⟨?_, ?_, ?_, ?_⟩
    · simp only [reach, List.length_append]
      omega
    · simp [reach]
    · simp [turn, isPaused, chunks]
    · simp [turn, isPaused, endings, isEnding, endedBy]
  | ending y hnot =>
    simp [reach, endedBy, turn, isPaused, chunks, endings, isEnding, hle, hnot]
  | paused => simp [reach, endedBy, turn, isPaused, chunks, endings, hle]
  | other _ y => simp [reach, endedBy, turn, isPaused, chunks, endings, isEnding, hle]

/-- What a follower may be handed next keeps it exact. -/
theorem next (h : Exact stream ended items) {w : Bool} (hw : waiting items = w) {i : Handed σ α}
    {stream' : List α} {ended' : Bool} (hn : Next stream ended w i stream' ended') :
    Exact stream' ended' (items ++ [i]) := by
  have hs : stream <+: stream' := by
    cases hn with
    | chunk xs => exact List.prefix_append _ _
    | _ => exact List.prefix_refl _
  refine ⟨fun pre x p post heq ↦ ?_, fun pre p e post heq j hj ↦ ?_⟩
  · rcases split_append_singleton heq with ⟨-, rfl, rfl⟩ | ⟨post, rfl, hl⟩
    · cases hn with
      | snapshot => simp [reach, endedBy, turn, chunks, endings]
    · cases hp : post.any isPaused with
      | true => exact h.follows_of_paused hl hp hs ended' [i]
      | false =>
        have hw' : w = false := by
          cases w with
          | false => rfl
          | true => exact absurd (any_isPaused_of_waiting (hl ▸ hw)) (by simp [hp])
        exact h.follows_of_open hl hp (hw' ▸ hn)
  · rcases split_append_singleton heq with ⟨-, rfl, rfl⟩ | ⟨post, rfl, hl⟩
    · simp at hj
    · rcases mem_takeWhile_append_singleton hj with hj | ⟨rfl, hall⟩
      · exact h.waits pre p e post hl j hj
      · cases hstr : j.isStream with
        | false => rfl
        | true =>
          have hw' : w = false := by
            cases hn <;> first | rfl | cases hstr
          obtain ⟨k, hk, hsnap⟩ := List.any_eq_true.mp
            (any_isSnapshot_of_not_waiting (hl ▸ hw.trans hw'))
          have hnot := hall k hk
          simp [hsnap] at hnot

end Exact
end Handed

end PtySpec.Lib
