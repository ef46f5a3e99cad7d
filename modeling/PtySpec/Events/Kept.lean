import PtySpec.Events.Log

/-!
# What retention keeps

A log of whole records is cut at a record boundary, and whatever the writers do in their
turns it keeps the newest records and stays under its limit.
-/

namespace PtySpec.Events

open Lib

/-! ### Records as bytes -/

theorem fromUtf8_toUtf8 (text : List Char) : fromUtf8 (toUtf8 text) = some text := by
  have h : (text.utf8Encode).utf8Decode? = some text.toArray := List.utf8Decode?_utf8Encode
  unfold fromUtf8 toUtf8
  rw [show (text.flatMap String.utf8EncodeChar).toByteArray = text.utf8Encode from rfl, h]
  rfl

theorem toUtf8_append (s t : List Char) : toUtf8 (s ++ t) = toUtf8 s ++ toUtf8 t :=
  List.flatMap_append

@[simp] theorem render_nil : render [] = [] := rfl

@[simp] theorem render_append (xs ys : List Record) : render (xs ++ ys) = render xs ++ render ys :=
  List.flatMap_append

@[simp] theorem render_singleton (event : Record) : render [event] = line event :=
  List.append_nil _

/-- A log is the text of its lines. -/
theorem render_eq (rs : List Record) : render rs = toUtf8 (unlines '\n' (rs.map Record.json)) := by
  induction rs with
  | nil => rfl
  | cons r rs ih =>
    have hr : render (r :: rs) = line r ++ render rs := rfl
    have hn : toUtf8 ['\n'] = [0x0a] := by decide
    rw [hr, ih, List.map_cons, unlines_cons, line, ← hn, ← toUtf8_append, ← toUtf8_append,
      List.append_assoc, List.singleton_append]

theorem length_line (event : Record) : 40 ≤ (line event).length := by
  have h := event.long
  rw [line, List.length_append, List.length_singleton]
  exact h

theorem length_render (rs : List Record) : 40 * rs.length ≤ (render rs).length := by
  induction rs with
  | nil => simp
  | cons r rs ih =>
    have hr : render (r :: rs) = line r ++ render rs := rfl
    have hl := length_line r
    rw [hr, List.length_append, List.length_cons]
    omega

/-- Only the last newline is trimmed off a log. -/
private theorem rdropWhile_unlines (init : List (List Char)) (r : Record) :
    (unlines '\n' (init ++ [r.json])).rdropWhile isWhitespace = unlines '\n' init ++ r.json := by
  obtain ⟨body, hb⟩ : ∃ body, r.json = body ++ ['\x7d'] := by
    have hc := r.closed
    rw [List.getLast?_eq_some_iff] at hc
    exact hc
  have hw : isWhitespace '\n' = true := by decide
  have hb' : isWhitespace '\x7d' = false := by decide
  rw [unlines_append, unlines_cons, unlines_nil, hb, ← List.append_assoc, ← List.append_assoc,
    List.rdropWhile_concat_pos _ _ _ hw, List.rdropWhile_concat_neg]
  rw [hb']
  exact Bool.false_ne_true

/-- The retention of a log of whole records: its newest ones, if there are too many. -/
theorem retainedSuffix_render (rs : List Record) :
    retainedSuffix (render rs) =
      if rs.length < maxLines then none else some (render (newest keepLines rs)) := by
  obtain rfl | ⟨init, r, rfl⟩ := List.eq_nil_or_concat' rs
  · rfl
  have hl : (unlines '\n' ((init ++ [r]).map Record.json)).rdropWhile isWhitespace =
      unlines '\n' (init.map Record.json) ++ r.json := by
    rw [List.map_append]
    exact rdropWhile_unlines _ r
  have hs : (unlines '\n' (init.map Record.json) ++ r.json).splitOn '\n' =
      (init ++ [r]).map Record.json := by
    rw [splitOn_unlines_append ?_ r.oneLine, List.map_append]
    · rfl
    · intro l hm
      obtain ⟨e, -, rfl⟩ := List.mem_map.mp hm
      exact e.oneLine
  generalize hrs : init ++ [r] = rs at hl hs
  unfold retainedSuffix
  rw [render_eq, fromUtf8_toUtf8, Option.bind_some]
  dsimp only
  rw [hl, hs, List.length_map]
  by_cases hm : rs.length < maxLines
  · rw [if_pos hm, if_pos hm]
  · rw [if_neg hm, if_neg hm]
    refine congrArg some ?_
    rw [render_eq, newest, List.map_drop]
    generalize rs.map Record.json = ls
    generalize rs.length - keepLines = n
    have hu := unlines_append '\n' (ls.take n) (ls.drop n)
    rw [List.take_append_drop] at hu
    rw [hu, toUtf8_append, List.drop_left]

/-! ### One operation -/

/-- A snapshot of whole records that keeps the newest of `appended`, under a limit. -/
def Kept (appended : List Record) (limit : Nat) (content : Bytes) : Prop :=
  ∃ rs, content = render rs ∧ Keeps keepLines appended rs ∧ rs.length < limit

theorem Kept.mono {appended : List Record} {m n : Nat} {content : Bytes}
    (h : Kept appended m content) (hl : m ≤ n) : Kept appended n content := by
  obtain ⟨rs, hc, hk, hr⟩ := h
  exact ⟨rs, hc, hk, by omega⟩

/-- After a one-shot append there are fewer than `maxLines` records. -/
theorem kept_appendLine {appended : List Record} {file : Option Bytes} {limit : Nat}
    (h : Kept appended limit (file.getD [])) (event : Record) :
    Kept (appended ++ [event]) maxLines (appendLine file event) := by
  obtain ⟨rs, hc, hk, -⟩ := h
  have hr : render rs ++ line event = render (rs ++ [event]) := by
    rw [render_append, render_singleton]
  have hl := length_render (rs ++ [event])
  unfold appendLine
  dsimp only
  rw [hc, hr, retainedSuffix_render]
  split
  · by_cases hm : (rs ++ [event]).length < maxLines
    · rw [if_pos hm, Option.getD_none]
      exact ⟨_, rfl, hk.append _, hm⟩
    · rw [if_neg hm, Option.getD_some]
      have hn : keepLines ≤ (rs ++ [event]).length := by
        unfold keepLines
        unfold maxLines at hm
        omega
      refine ⟨_, rfl, (hk.append _).newest hn, ?_⟩
      rw [length_newest hn]
      decide
  · next hs =>
    refine ⟨_, rfl, hk.append _, ?_⟩
    unfold truncateSizeThreshold at hs
    omega

theorem interval_pos : 0 < truncateCheckInterval := by
  decide

/-- What an attempt comes to, when it succeeds or when it fails. -/
def Outcome (P Q : Batch → Prop) : Except Batch Batch → Prop
  | .ok b => P b
  | .error b => Q b

theorem Outcome.bind {P P' Q : Batch → Prop} {x : Except Batch Batch}
    {f : Batch → Except Batch Batch} (hx : Outcome P Q x)
    (hf : ∀ b, P b → Outcome P' Q (f b)) : Outcome P' Q (x >>= f) := by
  cases x with
  | ok b => exact hf b hx
  | error b => exact hx

theorem Outcome.mono {P P' Q : Batch → Prop} {x : Except Batch Batch} (hx : Outcome P Q x)
    (hf : ∀ b, P b → P' b) : Outcome P' Q x := by
  cases x with
  | ok b => exact hf b hx
  | error b => exact hx

section Batches

variable {base events : List Record} {room : Nat} {start : Bytes} {fails : Option Nat}

/-- What a batch has published so far. -/
def Published (base events : List Record) (room : Nat) (b : Batch) : Prop :=
  ∀ p ∈ b.snapshots, Kept (base ++ events.take p.1) (room + truncateCheckInterval) p.2

/-- A batch under way. There is `room` for the records that other writers and failed batches
left; its own count makes up for the rest. -/
structure Batch.Sound (base events : List Record) (room : Nat) (start : Bytes) (b : Batch) :
    Prop where
  log : Kept (base ++ events.take b.taken) (room + b.appendCount) b.content
  count : b.appendCount < truncateCheckInterval
  published : Published base events room b
  clean : b.dirty = false → b.snapshots.getLast? = some (b.taken, b.content) ∨
    b.snapshots = [] ∧ b.taken = 0 ∧ b.content = start

private theorem publish_outcome {b : Batch} (hp : Published base events room b)
    (hk : Kept (base ++ events.take b.taken) (room + truncateCheckInterval) b.content) :
    Outcome
      (fun c ↦ c = { b with snapshots := b.snapshots ++ [(b.taken, b.content)] } ∧
        Published base events room c)
      (Published base events room) (publishBatchSnapshot fails b) := by
  unfold publishBatchSnapshot
  split
  · exact hp
  · refine ⟨rfl, fun p hm ↦ ?_⟩
    obtain hm | hm := List.mem_append.mp hm
    · exact hp p hm
    · rw [List.mem_singleton.mp hm]
      exact hk

/-- The retention check leaves few enough records for the count to start again. -/
private theorem checkRetention_outcome {b : Batch} (hroom : maxLines ≤ room)
    (hp : Published base events room b) (hd : b.dirty = true)
    (hk : Kept (base ++ events.take b.taken) (room + truncateCheckInterval) b.content) :
    Outcome (fun c ↦ c.Sound base events room start ∧ c.taken = b.taken)
      (Published base events room) (checkRetention fails b) := by
  obtain ⟨rs, hc, hkeeps, -⟩ := id hk
  have hs := retainedSuffix_render rs
  rw [← hc] at hs
  unfold checkRetention
  by_cases hm : rs.length < maxLines
  · rw [if_pos hm] at hs
    rw [hs]
    refine ⟨⟨⟨rs, hc, hkeeps, ?_⟩, interval_pos, hp, ?_⟩, rfl⟩
    · dsimp only
      omega
    · exact fun hf ↦ absurd (hd.symm.trans hf) (by decide)
  · rw [if_neg hm] at hs
    rw [hs]
    have hl : keepLines ≤ rs.length := by
      unfold keepLines
      unfold maxLines at hm
      omega
    have hsk : Kept (base ++ events.take b.taken) room (render (newest keepLines rs)) := by
      refine ⟨_, rfl, hkeeps.newest hl, ?_⟩
      rw [length_newest hl]
      unfold keepLines
      unfold maxLines at hroom
      omega
    dsimp only
    refine Outcome.bind (P := fun c ↦ c.taken = b.taken ∧ Published base events room c) ?_ ?_
    · unfold publishFull
      split
      · refine (publish_outcome hp hk).mono ?_
        rintro c ⟨rfl, hcp⟩
        exact ⟨rfl, hcp⟩
      · exact ⟨rfl, hp⟩
    · rintro c ⟨ht, hcp⟩
      have hcut : Published base events room
          { c with content := render (newest keepLines rs) } := fun p hm ↦ hcp p hm
      refine Outcome.bind (publish_outcome hcut ?_) ?_
      · dsimp only
        rw [ht]
        exact hsk.mono (Nat.le_add_right room truncateCheckInterval)
      · rintro d ⟨rfl, hdp⟩
        refine ⟨⟨?_, interval_pos, fun p hm ↦ hdp p hm, fun _ ↦ .inl ?_⟩, ht⟩
        · dsimp only
          rw [ht]
          exact hsk
        · dsimp only
          rw [List.getLast?_concat]

private theorem appendOne_outcome {b : Batch} (hroom : maxLines ≤ room)
    (hb : b.Sound base events room start) {event : Record}
    (he : events[b.taken]? = some event) :
    Outcome (fun c ↦ c.Sound base events room start ∧ c.taken = b.taken + 1)
      (fun c ↦ Published base events room c) (appendOne fails b event) := by
  have ht : base ++ events.take (b.taken + 1) = base ++ events.take b.taken ++ [event] := by
    rw [List.take_add_one, he, Option.toList_some, List.append_assoc]
  obtain ⟨rs, hc, hk, hr⟩ := hb.log
  have hcount := hb.count
  have hk' : Kept (base ++ events.take (b.taken + 1)) (room + b.appendCount + 1)
      (b.content ++ line event) := by
    refine ⟨rs ++ [event], ?_, ?_, ?_⟩
    · rw [hc, render_append, render_singleton]
    · rw [ht]
      exact hk.append [event]
    · rw [List.length_append, List.length_singleton]
      omega
  unfold appendOne
  dsimp only
  split
  · exact checkRetention_outcome hroom (fun p hm ↦ hb.published p hm) rfl (hk'.mono (by omega))
  · next hn =>
    exact ⟨⟨hk', Nat.lt_of_not_le hn, fun p hm ↦ hb.published p hm, fun hf ↦ by cases hf⟩, rfl⟩

private theorem foldlM_outcome (start : Bytes) (hroom : maxLines ≤ room) {rest : List Record}
    {b : Batch}
    (hb : b.Sound base events room start) (hr : events.drop b.taken = rest) :
    Outcome (fun c ↦ c.Sound base events room start ∧ events.length ≤ c.taken)
      (fun c ↦ Published base events room c) (rest.foldlM (appendOne fails) b) := by
  induction rest generalizing b with
  | nil => exact ⟨hb, List.drop_eq_nil_iff.mp hr⟩
  | cons event rest ih =>
    have he : events[b.taken]? = some event := by
      rw [← List.head?_drop, hr]
      rfl
    have hd : events.drop (b.taken + 1) = rest := by
      rw [← List.drop_drop, hr, List.drop_one, List.tail_cons]
    rw [List.foldlM_cons]
    refine (appendOne_outcome hroom hb he).bind ?_
    rintro c ⟨hc, ht⟩
    exact ih hc (ht ▸ hd)

/-- A batch that succeeds has published what it has, unless it had no events. -/
structure Batch.Done (base events : List Record) (room : Nat) (start : Bytes) (b : Batch) :
    Prop where
  log : Kept (base ++ events) (room + b.appendCount) b.content
  count : b.appendCount < truncateCheckInterval
  published : Published base events room b
  last : (∃ taken, events.length ≤ taken ∧ b.snapshots.getLast? = some (taken, b.content)) ∨
    b.snapshots = [] ∧ events = [] ∧ b.content = start

private theorem publishRest_outcome {b : Batch} (hb : b.Sound base events room start)
    (ht : events.length ≤ b.taken) :
    Outcome (fun c ↦ c.Done base events room start)
      (fun c ↦ Published base events room c) (publishRest fails b) := by
  have hlog := hb.log
  have hcount := hb.count
  unfold publishRest
  split
  · refine (publish_outcome hb.published (hlog.mono (by omega))).mono ?_
    rintro c ⟨rfl, hp⟩
    rw [List.take_of_length_le ht] at hlog
    exact ⟨hlog, hcount, fun p hm ↦ hp p hm, .inl ⟨b.taken, ht, List.getLast?_concat⟩⟩
  · next hd =>
    rw [Bool.not_eq_true] at hd
    have hclean := hb.clean hd
    rw [List.take_of_length_le ht] at hlog
    refine ⟨hlog, hcount, hb.published, ?_⟩
    obtain hl | ⟨hs, h0, hc⟩ := hclean
    · exact .inl ⟨b.taken, ht, hl⟩
    · refine .inr ⟨hs, ?_, hc⟩
      rw [h0] at ht
      exact List.eq_nil_of_length_eq_zero (Nat.le_zero.mp ht)

/-- What a batch does to a log that leaves it some room. -/
theorem appendBatch_outcome {file : Option Bytes} {count : Nat} (hroom : maxLines ≤ room)
    (h : Kept base (room + count) (file.getD [])) (hc : count < truncateCheckInterval) :
    Outcome (fun c ↦ c.Done base events room (file.getD []))
      (fun c ↦ Published base events room c) (appendBatch fails file events count) := by
  unfold appendBatch
  refine (foldlM_outcome (file.getD []) hroom ⟨?_, hc, ?_, ?_⟩ rfl).bind ?_
  · rw [List.take_zero, List.append_nil]
    exact h
  · intro p hm
    cases hm
  · exact fun _ ↦ .inr ⟨rfl, rfl, rfl⟩
  · rintro c ⟨hs, ht⟩
    exact publishRest_outcome hs ht

end Batches

/-! ### Runs -/

namespace Log

/-- What the counters of some writers add up to. -/
def total (s : Log) (writers : List Nat) : Nat := (writers.map s.appendCount).sum

/-- The room that a writer's batch has: what the other writers and failed batches left. -/
def room (s : Log) (writer : Nat) : Nat :=
  maxLines + s.total (s.writers.erase writer) + truncateCheckInterval * s.failures

/-- What holds of a log between operations. -/
structure Inv (s : Log) : Prop where
  kept : Kept s.appended
    (maxLines + s.total s.writers + truncateCheckInterval * s.failures) (s.file.getD [])
  count : ∀ writer, s.appendCount writer < truncateCheckInterval
  nodup : s.writers.Nodup

private theorem insert_perm (w : Nat) (ws : List Nat) : (ws.insert w).Perm (w :: ws.erase w) := by
  by_cases hw : w ∈ ws
  · rw [List.insert_of_mem hw]
    exact List.perm_cons_erase hw
  · rw [List.insert_of_not_mem hw, List.erase_of_not_mem hw]

private theorem total_insert (s : Log) (w : Nat) (ws : List Nat) :
    s.total (ws.insert w) = s.appendCount w + s.total (ws.erase w) :=
  ((insert_perm w ws).map s.appendCount).sum_eq

private theorem total_le_insert (s : Log) (w : Nat) (ws : List Nat) :
    s.total ws ≤ s.total (ws.insert w) := by
  by_cases hw : w ∈ ws
  · rw [List.insert_of_mem hw]
  · rw [List.insert_of_not_mem hw]
    exact Nat.le_add_left _ _

private theorem total_le {s : Log} (hs : ∀ w, s.appendCount w < truncateCheckInterval)
    (ws : List Nat) : s.total ws ≤ truncateCheckInterval * ws.length := by
  induction ws with
  | nil => simp [total]
  | cons w ws ih =>
    have hw := hs w
    have ht : s.total (w :: ws) = s.appendCount w + s.total ws := rfl
    rw [ht, List.length_cons, Nat.mul_succ]
    omega

/-- A batch's snapshots stay under the limit of the log after it. -/
private theorem room_le {s : Log} (hs : s.Inv) (w : Nat) :
    s.room w + truncateCheckInterval ≤
      maxLines + truncateCheckInterval * ((s.writers.insert w).length + s.failures) := by
  have ht := total_le hs.count (s.writers.erase w)
  have hl := (insert_perm w s.writers).length_eq
  rw [List.length_cons] at hl
  unfold room
  rw [hl, Nat.mul_add, Nat.mul_succ]
  omega

private theorem Inv.batch {s : Log} (hs : s.Inv) (w : Nat) (events : List Record)
    (fails : Option Nat) :
    Outcome (fun c ↦ c.Done s.appended events (s.room w) (s.file.getD []))
      (fun c ↦ Published s.appended events (s.room w) c)
      (appendBatch fails s.file events (s.appendCount w)) := by
  refine appendBatch_outcome (by unfold room; omega) (hs.kept.mono ?_) (hs.count w)
  have hl := total_le_insert s w s.writers
  rw [total_insert] at hl
  unfold room
  omega

/-- The records and the file after what a batch published. -/
private theorem published_cases (s : Log) (w : Nat) (events : List Record) (b : Batch) :
    (b.snapshots.getLast? = none ∧ s.published w events b =
        { s with writers := s.writers.insert w }) ∨
      ∃ taken content, b.snapshots.getLast? = some (taken, content) ∧
        s.published w events b = { s with
          writers := s.writers.insert w
          file := some content
          appended := s.appended ++ events.take taken } := by
  unfold published
  split
  · next h => exact .inl ⟨h, rfl⟩
  · next taken content h => exact .inr ⟨taken, content, h, rfl⟩

private theorem Inv.error {s : Log} (hs : s.Inv) {w : Nat} {events : List Record} {b : Batch}
    (hb : Published s.appended events (s.room w) b) :
    (s.publish w events (.error b)).Inv := by
  have hi := total_insert s w s.writers
  have hl := total_le_insert s w s.writers
  have hf : truncateCheckInterval * (s.failures + 1) =
      truncateCheckInterval * s.failures + truncateCheckInterval := Nat.mul_succ _ _
  unfold publish
  obtain ⟨-, hp⟩ | ⟨taken, content, hlast, hp⟩ := published_cases s w events b
  · dsimp only
    rw [hp]
    refine ⟨hs.kept.mono ?_, hs.count, hs.nodup.insert⟩
    change _ ≤ maxLines + s.total (s.writers.insert w) + truncateCheckInterval * (s.failures + 1)
    omega
  · dsimp only
    rw [hp]
    refine ⟨(hb _ (List.mem_of_getLast? hlast)).mono ?_, hs.count, hs.nodup.insert⟩
    change _ ≤ maxLines + s.total (s.writers.insert w) + truncateCheckInterval * (s.failures + 1)
    unfold room
    omega

private theorem Inv.ok {s : Log} (hs : s.Inv) {w : Nat} {events : List Record} {b : Batch}
    (hb : b.Done s.appended events (s.room w) (s.file.getD [])) :
    (s.publish w events (.ok b)).Inv := by
  -- The other writers' counts are as they were, and the own one is what the batch ends with.
  have hsum : ((s.writers.insert w).map (Function.update s.appendCount w b.appendCount)).sum =
      b.appendCount + s.total (s.writers.erase w) := by
    have hp := ((insert_perm w s.writers).map
      (Function.update s.appendCount w b.appendCount)).sum_eq
    have hm : (s.writers.erase w).map (Function.update s.appendCount w b.appendCount) =
        (s.writers.erase w).map s.appendCount := by
      refine List.map_congr_left fun v hv ↦ Function.update_of_ne ?_ _ _
      rintro rfl
      exact hs.nodup.not_mem_erase hv
    rw [hp, List.map_cons, List.sum_cons, Function.update_self, hm]
    rfl
  have hlog := hb.log
  have hcount : ∀ v, Function.update s.appendCount w b.appendCount v < truncateCheckInterval := by
    intro v
    by_cases hv : v = w
    · rw [hv, Function.update_self]
      exact hb.count
    · rw [Function.update_of_ne hv]
      exact hs.count v
  have hlimit : s.room w + b.appendCount =
      maxLines + ((s.writers.insert w).map
        (Function.update s.appendCount w b.appendCount)).sum +
          truncateCheckInterval * s.failures := by
    rw [hsum]
    unfold room
    omega
  rw [hlimit] at hlog
  unfold publish
  obtain ⟨hlast, hp⟩ | ⟨taken, content, hlast, hp⟩ := published_cases s w events b
  · dsimp only
    rw [hp]
    refine ⟨?_, hcount, hs.nodup.insert⟩
    obtain ⟨t, -, hl⟩ | ⟨-, he, hc⟩ := hb.last
    · rw [hlast] at hl
      cases hl
    · rw [he, List.append_nil, hc] at hlog
      exact hlog
  · dsimp only
    rw [hp]
    refine ⟨?_, hcount, hs.nodup.insert⟩
    obtain ⟨t, ht, hl⟩ | ⟨hn, -, -⟩ := hb.last
    · rw [hlast, Option.some_inj, Prod.mk.injEq] at hl
      obtain ⟨rfl, rfl⟩ := hl
      dsimp only
      rw [List.take_of_length_le ht]
      exact hlog
    · rw [hn] at hlast
      cases hlast

theorem Inv.step {s : Log} (hs : s.Inv) (op : Op) : (s.step op).Inv := by
  have hempty : Kept [] (maxLines + s.total [] + truncateCheckInterval * 0) [] :=
    ⟨[], rfl, .nil _, Nat.lt_of_lt_of_le (by decide : 0 < maxLines) (by omega)⟩
  cases op with
  | clear => exact ⟨hempty, hs.count, List.nodup_nil⟩
  | remove => exact ⟨hempty, hs.count, List.nodup_nil⟩
  | append event ok =>
    unfold Log.step
    dsimp only
    split
    · refine ⟨(kept_appendLine hs.kept event).mono ?_, hs.count, hs.nodup⟩
      dsimp only
      omega
    · exact hs
  | batch w events fails =>
    have hb := hs.batch w events fails
    unfold Log.step
    dsimp only
    revert hb
    cases appendBatch fails s.file events (s.appendCount w) with
    | ok b => exact fun hb ↦ hs.ok hb
    | error b => exact fun hb ↦ hs.error hb

theorem Inv.init : Log.init.Inv where
  kept := ⟨[], rfl, .nil _, by decide⟩
  count _ := interval_pos
  nodup := List.nodup_nil

theorem inv_run (ops : List Op) : (run ops).Inv := by
  induction ops using List.reverseRecOn with
  | nil => exact .init
  | append_singleton ops op ih =>
    rw [run, List.foldl_concat]
    exact ih.step op

/-- A snapshot that an operation publishes keeps the newest records and stays under the limit
of the log after it. -/
theorem Inv.snapshots {s : Log} (hs : s.Inv) (op : Op) :
    ∀ p ∈ s.snapshots op, Kept p.1 (s.step op).limit p.2 := by
  cases op with
  | clear =>
    intro p hp
    rw [List.mem_singleton.mp hp]
    exact ⟨[], rfl, .nil _, Nat.lt_of_lt_of_le (by decide : 0 < maxLines) (Nat.le_add_right _ _)⟩
  | remove =>
    intro p hp
    cases hp
  | append event ok =>
    intro p hp
    unfold Log.snapshots at hp
    dsimp only at hp
    split at hp
    · rw [List.mem_singleton.mp hp]
      exact (kept_appendLine hs.kept event).mono (Nat.le_add_right _ _)
    · cases hp
  | batch w events fails =>
    have hb := hs.batch w events fails
    have hr := room_le hs w
    intro p hp
    unfold Log.snapshots at hp
    unfold Log.step Log.limit
    dsimp only at hp ⊢
    revert hb hp
    cases appendBatch fails s.file events (s.appendCount w) with
    | ok b =>
      intro hb hp
      obtain ⟨q, hq, rfl⟩ := List.mem_map.mp hp
      refine (hb.published q hq).mono (hr.trans ?_)
      unfold publish
      obtain ⟨-, hpub⟩ | ⟨_, _, -, hpub⟩ := published_cases s w events b
      all_goals dsimp only; rw [hpub]
    | error b =>
      intro hb hp
      obtain ⟨q, hq, rfl⟩ := List.mem_map.mp hp
      refine (hb q hq).mono (hr.trans ?_)
      unfold publish
      obtain ⟨-, hpub⟩ | ⟨_, _, -, hpub⟩ := published_cases s w events b
      all_goals
        dsimp only
        rw [hpub]
        dsimp only
        exact Nat.add_le_add_left (Nat.mul_le_mul_left _ (by omega)) _

/-- Whatever the writers have done in their turns since the log was last cleared, the log is
whole records: a suffix of those appended, with at least the newest `keepLines` of them, and
with fewer than `maxLines` and `truncateCheckInterval` for each daemon writer and each batch
that failed. So is every snapshot that the next turn publishes. -/
theorem kept_of_run (ops : List Op) (op : Op) :
    Kept (run ops).appended (run ops).limit ((run ops).file.getD []) ∧
      ∀ p ∈ (run ops).snapshots op, Kept p.1 ((run ops).step op).limit p.2 := by
  have hs := inv_run ops
  refine ⟨hs.kept.mono ?_, hs.snapshots op⟩
  have ht := total_le hs.count (run ops).writers
  unfold limit
  rw [Nat.mul_add]
  omega

/-! ### Two writers -/

private theorem appendLine_short {file : Option Bytes} {rs : List Record}
    (hf : file.getD [] = render rs) (event : Record) (h : rs.length + 1 < maxLines) :
    appendLine file event = render (rs ++ [event]) := by
  have hr : render rs ++ line event = render (rs ++ [event]) := by
    rw [render_append, render_singleton]
  unfold appendLine
  dsimp only
  rw [hf, hr, retainedSuffix_render, List.length_append, List.length_singleton, if_pos h,
    Option.getD_none, ite_self]

private theorem run_appends (event : Record) {n : Nat} (h : n < maxLines) :
    (run (List.replicate n (.append event true))).file.getD [] =
        render (List.replicate n event) ∧
      (run (List.replicate n (.append event true))).appendCount = fun _ ↦ 0 := by
  induction n with
  | zero => exact ⟨rfl, rfl⟩
  | succ n ih =>
    obtain ⟨hf, hc⟩ := ih (Nat.lt_of_succ_lt h)
    rw [List.replicate_succ', run, List.foldl_concat]
    refine ⟨?_, hc⟩
    have ha := appendLine_short hf event (by rw [List.length_replicate]; exact h)
    rw [← List.replicate_succ'] at ha
    exact ha

private theorem foldlM_few (fails : Option Nat) (b : Batch) {events : List Record}
    (h : b.appendCount + events.length < truncateCheckInterval) (he : events ≠ []) :
    events.foldlM (appendOne fails) b = .ok { b with
      content := b.content ++ render events
      dirty := true
      appendCount := b.appendCount + events.length
      taken := b.taken + events.length } := by
  induction events generalizing b with
  | nil => exact absurd rfl he
  | cons event events ih =>
    rw [List.length_cons] at h
    have ho : appendOne fails b event = .ok { b with
        content := b.content ++ line event
        dirty := true
        appendCount := b.appendCount + 1
        taken := b.taken + 1 } := by
      unfold appendOne
      dsimp only
      rw [if_neg (show ¬ truncateCheckInterval ≤ b.appendCount + 1 by omega)]
    rw [List.foldlM_cons, ho]
    change events.foldlM _ _ = _
    by_cases hn : events = []
    · subst hn
      rw [render_singleton]
      rfl
    · rw [ih _ (by dsimp only; omega) hn]
      have hr : render (event :: events) = line event ++ render events := rfl
      rw [hr, List.length_cons, ← List.append_assoc]
      dsimp only
      rw [Nat.add_right_comm b.appendCount, Nat.add_right_comm b.taken]
      rfl

private theorem step_batch_few {s : Log} {w : Nat} {events : List Record}
    (h : s.appendCount w + events.length < truncateCheckInterval) (he : events ≠ []) :
    (s.step (.batch w events none)).file = some (s.file.getD [] ++ render events) ∧
      (s.step (.batch w events none)).appendCount =
        Function.update s.appendCount w (s.appendCount w + events.length) := by
  have hf := foldlM_few none ⟨s.file.getD [], (s.file.getD []).length, false,
    s.appendCount w, 0, []⟩ h he
  have ha : appendBatch none s.file events (s.appendCount w) =
      .ok ⟨s.file.getD [] ++ render events, (s.file.getD []).length, true,
        s.appendCount w + events.length, 0 + events.length,
        [(0 + events.length, s.file.getD [] ++ render events)]⟩ := by
    unfold appendBatch
    dsimp only
    rw [hf]
    rfl
  unfold step
  dsimp only
  rw [ha]
  exact ⟨rfl, rfl⟩

/-- A bell. -/
def bell : Record where
  json := "\x7b\"session\":\"a\",\"type\":\"bell\",\"ts\":\"2026-04-05T00:00:00.000Z\"\x7d".toList
  oneLine := by decide
  closed := by decide
  long := by decide

/-- 999 one-shot appends, and a batch of 99 from each of two daemon writers. -/
def twoWriters : List Op :=
  List.replicate 999 (.append bell true) ++
    [.batch 0 (List.replicate 99 bell) none, .batch 1 (List.replicate 99 bell) none]

private theorem twoBatches {s : Log} {n m : Nat} (hc : s.appendCount = fun _ ↦ 0)
    (h0 : 0 < m) (hm : m < truncateCheckInterval)
    (hf : s.file.getD [] = render (List.replicate n bell)) :
    ((s.step (.batch 0 (List.replicate m bell) none)).step
      (.batch 1 (List.replicate m bell) none)).file =
        some (render (List.replicate (n + m + m) bell)) := by
  have hne : List.replicate m bell ≠ [] :=
    List.ne_nil_of_length_pos (by rw [List.length_replicate]; exact h0)
  have hlen : 0 + (List.replicate m bell).length < truncateCheckInterval := by
    rw [List.length_replicate, Nat.zero_add]
    exact hm
  have hs := step_batch_few (s := s) (w := 0) (by rw [hc]; exact hlen) hne
  have ht := step_batch_few (w := 1) (by rw [hs.2, hc]; exact hlen) hne
  rw [ht.1, hs.1, hf, Option.getD_some, ← render_append, ← render_append, List.replicate_add,
    List.replicate_add]

/-- With two daemon writers the log can have 1197 records. -/
theorem twoWriters_file :
    (run twoWriters).file = some (render (List.replicate 1197 bell)) ∧
      maxLines + truncateCheckInterval ≤ (List.replicate 1197 bell).length := by
  obtain ⟨hf, hc⟩ := run_appends bell (show 999 < maxLines by decide)
  refine ⟨?_, by rw [List.length_replicate]; decide⟩
  have h := twoBatches hc (show 0 < 99 by decide) (show 99 < truncateCheckInterval by decide) hf
  rw [run, twoWriters, List.foldl_append, List.foldl_cons, List.foldl_cons, List.foldl_nil]
  exact h

end Log
end PtySpec.Events
