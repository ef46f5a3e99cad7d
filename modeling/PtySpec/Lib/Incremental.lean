import Mathlib

/-!
# Incremental decoders

A decoder takes items off the front of a buffer that grows as reads arrive.
The laws below say what a buffer has to satisfy for the decoded items to depend
only on the bytes, never on how the reads cut them.
-/

namespace PtySpec.Lib

universe u v w

/-- What one look at the front of a buffer says. -/
inductive Next (β : Type u) (α : Type v) (ε : Type w) where
  | more
  | item (a : α) (rest : List β)
  | fail (e : ε)

/-- One-item decoding that later bytes can neither change nor undo. -/
structure Decoder (β : Type u) (α : Type v) (ε : Type w) where
  next : List β → Next β α ε
  length_lt : ∀ {b : List β} {a : α} {r : List β}, next b = .item a r → r.length < b.length
  item_append : ∀ {b : List β} {a : α} {r : List β} (c : List β),
    next b = .item a r → next (b ++ c) = .item a (r ++ c)
  fail_append : ∀ {b : List β} {e : ε} (c : List β), next b = .fail e → next (b ++ c) = .fail e

/-- Every item a buffer holds, what is left of it, and the error that stopped it. -/
structure Drained (β : Type u) (α : Type v) (ε : Type w) where
  items : List α
  rest : List β
  error : Option ε

namespace Decoder

variable {β : Type u} {α : Type v} {ε : Type w}

/-- Take items until the buffer needs more bytes or fails. -/
def drain (d : Decoder β α ε) (b : List β) : Drained β α ε :=
  match h : d.next b with
  | .more => ⟨[], b, none⟩
  | .fail e => ⟨[], b, some e⟩
  | .item a r =>
    have : r.length < b.length := d.length_lt h
    let t := d.drain r
    ⟨a :: t.items, t.rest, t.error⟩
termination_by b.length

/-- A buffer without a whole item is left as it is. -/
theorem drain_more (d : Decoder β α ε) {b : List β} (h : d.next b = .more) :
    d.drain b = ⟨[], b, none⟩ := by
  rw [drain]
  split
  · rfl
  · next e he => rw [h] at he; cases he
  · next a r he => rw [h] at he; cases he

/-- A failing buffer yields nothing and keeps its bytes. -/
theorem drain_fail (d : Decoder β α ε) {b : List β} {e : ε} (h : d.next b = .fail e) :
    d.drain b = ⟨[], b, some e⟩ := by
  rw [drain]
  split
  · next he => rw [h] at he; cases he
  · next e' he => rw [h] at he; cases he; rfl
  · next a r he => rw [h] at he; cases he

/-- An item in front is taken before the rest is drained. -/
theorem drain_item (d : Decoder β α ε) {b r : List β} {a : α} (h : d.next b = .item a r) :
    d.drain b = ⟨a :: (d.drain r).items, (d.drain r).rest, (d.drain r).error⟩ := by
  rw [drain]
  split
  · next he => rw [h] at he; cases he
  · next e' he => rw [h] at he; cases he
  · next a' r' he => rw [h] at he; cases he; rfl

/-- Draining more bytes is draining the rest of the first buffer with them,
after the items the first buffer already gave. -/
theorem drain_append (d : Decoder β α ε) (b c : List β) (hb : (d.drain b).error = none) :
    d.drain (b ++ c) =
      ⟨(d.drain b).items ++ (d.drain ((d.drain b).rest ++ c)).items,
        (d.drain ((d.drain b).rest ++ c)).rest, (d.drain ((d.drain b).rest ++ c)).error⟩ := by
  induction hn : b.length using Nat.strongRecOn generalizing b with
  | ind n ih =>
    cases h : d.next b with
    | more => simp only [drain_more d h, List.nil_append]
    | fail e => rw [drain_fail d h] at hb; cases hb
    | item a r =>
      rw [drain_item d h] at hb ⊢
      rw [drain_item d (d.item_append c h)]
      have hr := ih r.length (hn ▸ d.length_lt h) r hb rfl
      simp only [hr, List.cons_append]

/-- A buffer that failed still fails, with the same items before it, whatever follows. -/
theorem drain_append_of_error (d : Decoder β α ε) (b c : List β) (e : ε)
    (hb : (d.drain b).error = some e) :
    (d.drain (b ++ c)).items = (d.drain b).items ∧ (d.drain (b ++ c)).error = some e := by
  induction hn : b.length using Nat.strongRecOn generalizing b with
  | ind n ih =>
    cases h : d.next b with
    | more => rw [drain_more d h] at hb; cases hb
    | fail e' =>
      rw [drain_fail d h] at hb ⊢
      rw [drain_fail d (d.fail_append c h)]
      exact ⟨rfl, hb⟩
    | item a r =>
      rw [drain_item d h] at hb ⊢
      rw [drain_item d (d.item_append c h)]
      obtain ⟨hi, he⟩ := ih r.length (hn ▸ d.length_lt h) r hb rfl
      exact ⟨by simp only [hi], he⟩

/-- What is left after draining without an error needs more bytes. -/
theorem next_drain_rest (d : Decoder β α ε) (b : List β) (hb : (d.drain b).error = none) :
    d.next (d.drain b).rest = .more := by
  induction hn : b.length using Nat.strongRecOn generalizing b with
  | ind n ih =>
    cases h : d.next b with
    | more => rw [drain_more d h]; exact h
    | fail e => rw [drain_fail d h] at hb; cases hb
    | item a r =>
      rw [drain_item d h] at hb ⊢
      exact ih r.length (hn ▸ d.length_lt h) r hb rfl

end Decoder
end PtySpec.Lib
