import Mathlib

/-!
# Tailing a log that is cut

A log grows at its end and loses records at its front. A follower sees it from time to
time, and is handed what follows the log as it last saw it, or the whole log if that is
not how it starts any more. No record that is still there is missed, and none that was not
cut since is handed twice.
-/

namespace PtySpec.Lib

universe u

/-- A log and its follower: every record ever appended, how many of them are gone, how many
there were when the log was last cut; what the follower last saw, how many records there
were then, and what it was handed. -/
structure Tail (α : Type u) where
  history : List α
  dropped : Nat
  since : Nat
  seen : List α
  known : Nat
  delivered : List α

namespace Tail

variable {α : Type u}

/-- A follower that has seen a log of its own start, and is handed none of it. -/
def start (log : List α) : Tail α := ⟨log, 0, 0, log, log.length, []⟩

/-- The log as it is. -/
def log (s : Tail α) : List α := s.history.drop s.dropped

/-- Records are appended, and the oldest ones are cut. -/
def publish (s : Tail α) (records : List α) (cut : Nat) : Tail α :=
  { s with
    history := s.history ++ records
    dropped := min (s.dropped + cut) (s.history ++ records).length
    since := if cut = 0 then s.since else s.history.length }

/-- What the follower is handed of a log that it saw before. -/
def fresh [DecidableEq α] (seen log : List α) : List α :=
  if seen <+: log then log.drop seen.length else log

/-- The follower sees the log. -/
def poll [DecidableEq α] (s : Tail α) : Tail α :=
  { s with
    seen := s.log
    known := s.history.length
    delivered := s.delivered ++ fresh s.seen s.log }

/-- What the follower is handed is the end of the log. -/
theorem fresh_suffix [DecidableEq α] (seen log : List α) : fresh seen log <:+ log := by
  unfold fresh
  split
  · exact List.drop_suffix _ _
  · exact List.suffix_refl log

/-- What holds of a follower that started when there were `first` records. -/
structure Sound [DecidableEq α] (first : Nat) (s : Tail α) : Prop where
  dropped : s.dropped ≤ s.history.length
  known : s.known ≤ s.history.length
  started : first ≤ s.known
  seen : ∃ d, s.seen = (s.history.take s.known).drop d ∧ d ≤ s.dropped ∧ d ≤ s.known ∧
    (s.since < s.known → d = s.dropped)
  delivered : ∀ x ∈ s.delivered, x ∈ s.history.take s.known
  got : ∀ x ∈ s.seen, x ∉ s.history.take first → x ∈ s.delivered
  once : ∀ k x, s.history[k]? = some x → s.since ≤ k → first ≤ k → k < s.known →
    s.delivered.count x ≤ 1

variable [DecidableEq α] {first : Nat} {s : Tail α}

theorem Sound.start (log : List α) : (start log).Sound log.length where
  dropped := Nat.zero_le _
  known := Nat.le_refl _
  started := Nat.le_refl _
  seen := ⟨0, by simp [Tail.start], Nat.le_refl _, Nat.zero_le _, fun _ ↦ rfl⟩
  delivered x hx := by cases hx
  got x hx hn := absurd (by simpa [Tail.start] using hx) hn
  once k x _ _ hk hl := absurd hk (Nat.not_le.mpr hl)

theorem Sound.publish (h : s.Sound first) (records : List α) (cut : Nat) :
    (s.publish records cut).Sound first := by
  have ht : ∀ n ≤ s.history.length, (s.history ++ records).take n = s.history.take n :=
    fun n hn ↦ List.take_append_of_le_length hn
  have hlen : (s.history ++ records).length = s.history.length + records.length :=
    List.length_append
  have hd := h.dropped
  have hk := h.known
  refine ⟨Nat.min_le_right _ _, ?_, h.started, ?_, ?_, ?_, ?_⟩
  · change s.known ≤ (s.history ++ records).length
    omega
  · obtain ⟨d, hs, hle, hdk, heq⟩ := h.seen
    refine ⟨d, ?_, ?_, hdk, ?_⟩
    · change s.seen = ((s.history ++ records).take s.known).drop d
      rw [ht _ hk]
      exact hs
    · change d ≤ min (s.dropped + cut) (s.history ++ records).length
      omega
    · change (if cut = 0 then s.since else s.history.length) < s.known →
        d = min (s.dropped + cut) (s.history ++ records).length
      split
      · intro hlt
        have he := heq hlt
        omega
      · intro hlt
        omega
  · change ∀ x ∈ s.delivered, x ∈ (s.history ++ records).take s.known
    rw [ht _ hk]
    exact h.delivered
  · change ∀ x ∈ s.seen, x ∉ (s.history ++ records).take first → x ∈ s.delivered
    rw [ht _ (h.started.trans hk)]
    exact h.got
  · intro k x hx hsince hf hlt
    have hx' : s.history[k]? = some x := by
      rw [← hx]
      exact (List.getElem?_append_left (Nat.lt_of_lt_of_le hlt hk)).symm
    refine h.once k x hx' ?_ hf hlt
    change (if cut = 0 then s.since else s.history.length) ≤ k at hsince
    change k < s.known at hlt
    split at hsince
    · exact hsince
    · omega

/-- Seeing a log whose records are pairwise distinct. -/
theorem Sound.poll (h : s.Sound first) (hn : s.history.Nodup) : s.poll.Sound first := by
  obtain ⟨d, hs, hle, hdk, heq⟩ := h.seen
  have hd := h.dropped
  have hk := h.known
  have hlog : s.log <:+ s.history := List.drop_suffix _ _
  have hfresh : ∀ x ∈ fresh s.seen s.log, x ∈ s.history :=
    fun x hx ↦ hlog.mem ((fresh_suffix _ _).mem hx)
  have htake : s.history.take s.history.length = s.history := List.take_length
  refine ⟨hd, Nat.le_refl _, h.started.trans hk, ⟨s.dropped, ?_, Nat.le_refl _, hd, fun _ ↦ rfl⟩,
    ?_, ?_, ?_⟩
  · change s.log = (s.history.take s.history.length).drop s.dropped
    rw [htake]
    rfl
  · change ∀ x ∈ s.delivered ++ fresh s.seen s.log, x ∈ s.history.take s.history.length
    rw [htake]
    intro x hx
    obtain hx | hx := List.mem_append.mp hx
    · exact List.mem_of_mem_take (h.delivered x hx)
    · exact hfresh x hx
  · intro x hx hf
    refine List.mem_append.mpr ?_
    by_cases hp : s.seen <+: s.log
    · obtain ⟨rest, hr⟩ := hp
      have hfr : fresh s.seen s.log = rest := by
        rw [fresh, if_pos ⟨rest, hr⟩, ← hr, List.drop_left]
      change x ∈ s.log at hx
      rw [← hr] at hx
      obtain hx | hx := List.mem_append.mp hx
      · exact .inl (h.got x hx hf)
      · exact .inr (hfr ▸ hx)
    · rw [fresh, if_neg hp]
      exact .inr hx
  · intro k x hx hsince hf hlt
    change s.history[k]? = some x at hx
    change (s.delivered ++ fresh s.seen s.log).count x ≤ 1
    rw [List.count_append]
    by_cases hkn : k < s.known
    · -- Seen before, and nothing was cut: what is fresh comes after it.
      have hdd : d = s.dropped := heq (Nat.lt_of_le_of_lt hsince hkn)
      have hsplit : s.log = s.seen ++ s.history.drop s.known := by
        have ht := List.take_append_drop s.known s.history
        rw [log, hs, ← hdd]
        nth_rewrite 1 [← ht]
        rw [List.drop_append_of_le_length]
        rw [List.length_take]
        omega
      have hfr : fresh s.seen s.log = s.history.drop s.known := by
        rw [fresh, if_pos ⟨_, hsplit.symm⟩, hsplit, List.drop_left]
      have hnot : x ∉ s.history.drop s.known := by
        intro hm
        obtain ⟨j, hj⟩ := List.mem_iff_getElem?.mp hm
        rw [List.getElem?_drop] at hj
        have he := (List.nodup_iff_getElem?_ne_getElem?.mp hn) k (s.known + j) (by omega)
        have hl : s.known + j < s.history.length := (List.getElem?_eq_some_iff.mp hj).1
        exact he hl (hx.trans hj.symm)
      rw [hfr, List.count_eq_zero_of_not_mem hnot]
      exact h.once k x hx hsince hf hkn
    · have hnot : x ∉ s.delivered := by
        intro hm
        obtain ⟨j, hj⟩ := List.mem_iff_getElem?.mp (h.delivered x hm)
        have hjk : j < s.known := by
          have hl := (List.getElem?_eq_some_iff.mp hj).1
          rw [List.length_take] at hl
          omega
        rw [List.getElem?_take_of_lt hjk] at hj
        have hl : k < s.history.length := (List.getElem?_eq_some_iff.mp hx).1
        exact (List.nodup_iff_getElem?_ne_getElem?.mp hn) j k (by omega) hl (hj.trans hx.symm)
      rw [List.count_eq_zero_of_not_mem hnot, Nat.zero_add]
      have hnd : (fresh s.seen s.log).Nodup :=
        hn.sublist ((fresh_suffix _ _).sublist.trans hlog.sublist)
      exact List.nodup_iff_count_le_one.mp hnd x

end Tail
end PtySpec.Lib
