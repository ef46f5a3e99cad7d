import PtySpec.Events.Kept

/-!
# Batches and single appends

`append_batch` against `append_line`, `crates/pty-core/src/events/mod.rs:397-456`. However
events are split into batches, the log is the one that appending them one at a time leaves;
and every retention inside a batch is a publication that shrinks the file.
-/

namespace PtySpec.Events

open Lib

/-! ### One at a time -/

/-- `append_line`, `mod.rs:397`: what is published. -/
def appendLineChecked (shouldCheckRetention : Nat → Bool) (file : Option Bytes) (event : Record) :
    Bytes :=
  let content := file.getD [] ++ line event
  if shouldCheckRetention content.length then (retainedSuffix content).getD content else content

/-- Records appended one at a time, with retention after every `TRUNCATE_CHECK_INTERVAL` of
them, when `count` have been appended since the last check; the reference of the test at
`mod.rs:919`. -/
def appendSingly (count : Nat) (file : Option Bytes) : List Record → Option Bytes
  | [] => file
  | event :: events =>
    appendSingly (count + 1)
      (some (appendLineChecked (fun _ ↦ (count + 1) % truncateCheckInterval = 0) file event))
      events

theorem appendSingly_append (count : Nat) (file : Option Bytes) (xs ys : List Record) :
    appendSingly count file (xs ++ ys) =
      appendSingly (count + xs.length) (appendSingly count file xs) ys := by
  induction xs generalizing count file with
  | nil => rfl
  | cons x xs ih =>
    rw [List.cons_append, appendSingly, ih, List.length_cons, appendSingly,
      Nat.add_right_comm count 1, Nat.add_assoc]

/-- Only the phase of the count matters. -/
theorem appendSingly_mod (count : Nat) (file : Option Bytes) (xs : List Record) :
    appendSingly (count % truncateCheckInterval) file xs = appendSingly count file xs := by
  induction xs generalizing count file with
  | nil => rfl
  | cons x xs ih =>
    have hc : (count % truncateCheckInterval + 1) % truncateCheckInterval =
        (count + 1) % truncateCheckInterval := Nat.mod_add_mod count _ 1
    rw [appendSingly, appendSingly, ← ih, hc, ih]

/-! ### Retention shrinks -/

private theorem length_toUtf8_unlines {ls : List (List Char)} (h : ls ≠ []) :
    0 < (toUtf8 (unlines '\n' ls)).length := by
  cases ls with
  | nil => exact absurd rfl h
  | cons l ls =>
    have hn : (toUtf8 ['\n']).length = 1 := by decide
    rw [unlines_cons, ← List.singleton_append, toUtf8_append, toUtf8_append, List.length_append,
      List.length_append, hn]
    omega

theorem length_retainedSuffix {content suffix : Bytes} (h : retainedSuffix content = some suffix) :
    suffix.length < content.length := by
  cases content with
  | nil => cases h
  | cons b content =>
    obtain ⟨text, -, ht⟩ := Option.bind_eq_some_iff.mp h
    dsimp only at ht
    generalize (text.rdropWhile isWhitespace).splitOn '\n' = lines at ht
    split at ht
    · exact absurd ht (by simp)
    · next hl =>
      obtain rfl := Option.some.inj ht
      have hlt : 0 < lines.length - keepLines := by
        unfold maxLines at hl
        unfold keepLines
        omega
      have hne : lines.take (lines.length - keepLines) ≠ [] := by
        rw [← List.length_pos_iff, List.length_take]
        omega
      rw [List.length_drop]
      exact Nat.sub_lt (Nat.succ_pos _) (length_toUtf8_unlines hne)

/-! ### One batch -/

/-- What the file holds after some publications. -/
def lastPublished (file : Option Bytes) (snapshots : List (Nat × Bytes)) : Bytes :=
  (snapshots.getLast?.map (·.2)).getD (file.getD [])

/-- Appending one at a time, the log is cut to `suffix` after the event of index `i`. -/
def CutAt (count : Nat) (file : Option Bytes) (events : List Record) (i : Nat) (suffix : Bytes) :
    Prop :=
  (count + i + 1) % truncateCheckInterval = 0 ∧
    ∃ event, events[i]? = some event ∧
      retainedSuffix ((appendSingly count file (events.take i)).getD [] ++ line event) = some suffix

/-- A cut that was published, after a longer file. -/
def PublishedCut (file : Option Bytes) (snapshots : List (Nat × Bytes)) (i : Nat)
    (suffix : Bytes) : Prop :=
  ∃ before after, snapshots = before ++ (i + 1, suffix) :: after ∧
    suffix.length < (lastPublished file before).length

theorem lastPublished_concat (file : Option Bytes) (snapshots : List (Nat × Bytes))
    (p : Nat × Bytes) : lastPublished file (snapshots ++ [p]) = p.2 := by
  rw [lastPublished, List.getLast?_concat]
  rfl

theorem PublishedCut.append {file : Option Bytes} {snapshots : List (Nat × Bytes)} {i : Nat}
    {suffix : Bytes} (h : PublishedCut file snapshots i suffix) (more : List (Nat × Bytes)) :
    PublishedCut file (snapshots ++ more) i suffix := by
  obtain ⟨before, after, rfl, hlt⟩ := h
  exact ⟨before, after ++ more, by rw [List.append_assoc, List.cons_append], hlt⟩

/-- A batch that has appended some of its events. -/
structure Batch.Tracks (start : Nat) (file : Option Bytes) (events : List Record) (n : Nat)
    (b : Batch) : Prop where
  content : b.content = (appendSingly start file (events.take n)).getD []
  count : b.appendCount = (start + n) % truncateCheckInterval
  taken : b.taken = n
  len : b.publishedLen = (lastPublished file b.snapshots).length
  clean : b.dirty = false → b.content = lastPublished file b.snapshots ∧ (b.snapshots = [] → n = 0)
  cuts : ∀ i < n, ∀ suffix, CutAt start file events i suffix →
    PublishedCut file b.snapshots i suffix

section Batch

variable {start : Nat} {file : Option Bytes} {events : List Record} {n : Nat} {b : Batch}

/-- The log after one event more, before any retention. -/
private theorem appendSingly_take_succ {event : Record} (he : events[n]? = some event) :
    appendSingly start file (events.take (n + 1)) =
      some (appendLineChecked (fun _ ↦ (start + n + 1) % truncateCheckInterval = 0)
        (appendSingly start file (events.take n)) event) := by
  have hn : n < events.length := (List.getElem?_eq_some_iff.mp he).1
  rw [List.take_add_one, he, Option.toList_some, appendSingly_append, List.length_take,
    Nat.min_eq_left hn.le]
  rfl

/-- An event more, before the retention check. -/
def Batch.extended (b : Batch) (event : Record) : Batch :=
  { b with
    content := b.content ++ line event
    dirty := true
    appendCount := b.appendCount + 1
    taken := b.taken + 1 }

/-- What is published before a retained suffix is longer than it. -/
private theorem publishFull_spec {c : Batch} {suffix : Bytes}
    (hl : c.publishedLen = (lastPublished file c.snapshots).length)
    (hs : suffix.length < c.content.length) :
    ∃ before, publishFull none suffix.length c = .ok { c with snapshots := c.snapshots ++ before } ∧
      suffix.length < (lastPublished file (c.snapshots ++ before)).length := by
  unfold publishFull
  split
  · exact ⟨[(c.taken, c.content)], rfl, by rw [lastPublished_concat]; exact hs⟩
  · next hlt =>
    refine ⟨[], by rw [List.append_nil], ?_⟩
    rw [List.append_nil, ← hl]
    exact Nat.lt_of_not_le hlt

/-- The retention check keeps the log what single appends make it, and publishes each cut. -/
private theorem Batch.Tracks.checkRetention {event : Record} (h : b.Tracks start file events n)
    (he : events[n]? = some event) (hc : (start + n + 1) % truncateCheckInterval = 0) :
    ∃ c, checkRetention none (b.extended event) = .ok c ∧ c.Tracks start file events (n + 1) := by
  have hstep := @appendSingly_take_succ start file events n event he
  rw [appendLineChecked, ← h.content, decide_eq_true hc, if_pos rfl] at hstep
  have hcut : ∀ {suffix}, CutAt start file events n suffix →
      retainedSuffix (b.content ++ line event) = some suffix := by
    rintro suffix ⟨-, e, he', hr⟩
    obtain rfl := Option.some.inj (he.symm.trans he')
    rwa [h.content]
  unfold Events.checkRetention
  cases hr : retainedSuffix (b.content ++ line event) with
  | none =>
    rw [hr, Option.getD_none] at hstep
    refine ⟨_, by rw [Batch.extended, hr], ?_⟩
    refine ⟨by rw [hstep]; rfl, hc.symm, congrArg (· + 1) h.taken, h.len,
      fun hd ↦ absurd hd Bool.noConfusion, fun i hi suffix hs ↦ ?_⟩
    obtain hlt | rfl := Nat.lt_succ_iff_lt_or_eq.mp hi
    · exact h.cuts i hlt suffix hs
    · rw [hcut hs] at hr
      cases hr
  | some suffix =>
    rw [hr, Option.getD_some] at hstep
    obtain ⟨before, hfull, hlt⟩ := @publishFull_spec file (b.extended event) suffix h.len
      (length_retainedSuffix hr)
    refine ⟨{ b.extended event with
        content := suffix
        snapshots := (b.snapshots ++ before) ++ [(n + 1, suffix)]
        publishedLen := suffix.length
        dirty := false
        appendCount := 0 }, ?_, ?_⟩
    · rw [show (b.extended event).content = b.content ++ line event from rfl, hr]
      dsimp only
      rw [hfull]
      simp only [publishBatchSnapshot, Batch.extended, h.taken]
      rfl
    · refine ⟨by rw [hstep]; rfl, hc.symm, congrArg (· + 1) h.taken,
        by rw [lastPublished_concat], fun _ ↦ ⟨by rw [lastPublished_concat], ?_⟩,
        fun i hi suffix' hs ↦ ?_⟩
      · exact fun hnil ↦ absurd hnil (List.concat_ne_nil _ _)
      · obtain hl | rfl := Nat.lt_succ_iff_lt_or_eq.mp hi
        · exact ((h.cuts i hl suffix' hs).append before).append _
        · obtain rfl := Option.some.inj ((hcut hs).symm.trans hr)
          exact ⟨_, [], rfl, hlt⟩

private theorem Batch.Tracks.appendOne {event : Record} (h : b.Tracks start file events n)
    (he : events[n]? = some event) :
    ∃ c, appendOne none b event = .ok c ∧ c.Tracks start file events (n + 1) := by
  have hcount := h.count
  have hphase : truncateCheckInterval ≤ b.appendCount + 1 ↔
      (start + n + 1) % truncateCheckInterval = 0 := by
    unfold truncateCheckInterval at hcount ⊢
    omega
  unfold Events.appendOne
  by_cases hc : (start + n + 1) % truncateCheckInterval = 0
  · rw [if_pos (hphase.mpr hc)]
    exact h.checkRetention he hc
  · rw [if_neg (mt hphase.mp hc)]
    have hstep := @appendSingly_take_succ start file events n event he
    rw [appendLineChecked, ← h.content, decide_eq_false hc, if_neg Bool.false_ne_true] at hstep
    refine ⟨b.extended event, rfl, by rw [hstep]; rfl, ?_, congrArg (· + 1) h.taken, h.len,
      fun hd ↦ absurd hd Bool.noConfusion, fun i hi suffix hs ↦ ?_⟩
    · have hl : (b.extended event).appendCount = b.appendCount + 1 := rfl
      rw [hl]
      unfold truncateCheckInterval at hcount hc ⊢
      omega
    · obtain hlt | rfl := Nat.lt_succ_iff_lt_or_eq.mp hi
      · exact h.cuts i hlt suffix hs
      · exact absurd hs.1 hc

private theorem Batch.Tracks.foldlM {rest : List Record} (h : b.Tracks start file events n)
    (hr : events.drop n = rest) :
    ∃ c, rest.foldlM (Events.appendOne none) b = .ok c ∧
      c.Tracks start file events (n + rest.length) := by
  induction rest generalizing b n with
  | nil => exact ⟨b, rfl, h⟩
  | cons event rest ih =>
    have he : events[n]? = some event := by
      rw [← List.head?_drop, hr]
      rfl
    have hd : events.drop (n + 1) = rest := by
      rw [← List.drop_drop, hr, List.drop_one, List.tail_cons]
    obtain ⟨c, hc, htc⟩ := h.appendOne he
    obtain ⟨d, hd, htd⟩ := ih htc hd
    refine ⟨d, ?_, ?_⟩
    · rw [List.foldlM_cons, hc]
      exact hd
    · rw [List.length_cons, ← Nat.add_assoc, Nat.add_right_comm]
      exact htd

end Batch

/-- The file after some publications. -/
def fileAfter (file : Option Bytes) (snapshots : List (Nat × Bytes)) : Option Bytes :=
  (snapshots.getLast?.map (·.2)).or file

private theorem isSome_appendSingly (count : Nat) (file : Option Bytes) {events : List Record}
    (h : events ≠ []) : (appendSingly count file events).isSome = true := by
  induction events generalizing count file with
  | nil => exact absurd rfl h
  | cons event events ih =>
    rw [appendSingly]
    cases events with
    | nil => rfl
    | cons e es => exact ih _ _ (List.cons_ne_nil e es)

private theorem appendSingly_eq_some {count : Nat} {file : Option Bytes} {events : List Record}
    {content : Bytes} (hne : events ≠ [])
    (h : content = (appendSingly count file events).getD []) :
    appendSingly count file events = some content := by
  obtain ⟨c, hc⟩ := Option.isSome_iff_exists.mp (isSome_appendSingly count file hne)
  rw [hc, Option.getD_some] at h
  rw [hc, h]

/-- What the last publication of a batch leaves in the file. -/
private theorem publishRest_spec {file : Option Bytes} {b : Batch}
    (hclean : b.dirty = false → b.content = lastPublished file b.snapshots ∧ b.snapshots ≠ []) :
    ∃ more, publishRest none b = .ok { b with snapshots := b.snapshots ++ more } ∧
      fileAfter file (b.snapshots ++ more) = some b.content := by
  unfold publishRest
  split
  · refine ⟨[(b.taken, b.content)], rfl, ?_⟩
    rw [fileAfter, List.getLast?_concat]
    rfl
  · next hd =>
    obtain ⟨hc, hne⟩ := hclean (Bool.eq_false_of_not_eq_true hd)
    refine ⟨[], by rw [List.append_nil], ?_⟩
    rw [List.append_nil, fileAfter, hc, lastPublished, List.getLast?_eq_some_getLast hne]
    rfl

/-- What a batch comes to whose publications all succeed. -/
theorem appendBatch_spec (file : Option Bytes) (events : List Record) {count : Nat}
    (h : count < truncateCheckInterval) :
    ∃ b, appendBatch none file events count = .ok b ∧
      b.appendCount = (count + events.length) % truncateCheckInterval ∧
      fileAfter file b.snapshots = appendSingly count file events ∧
      ∀ i suffix, CutAt count file events i suffix → PublishedCut file b.snapshots i suffix := by
  by_cases hne : events = []
  · subst hne
    refine ⟨_, rfl, (Nat.mod_eq_of_lt h).symm, rfl, fun i suffix hs ↦ ?_⟩
    obtain ⟨e, he, -⟩ := hs.2
    cases he
  have hstart : Batch.Tracks count file events 0
      ⟨file.getD [], (file.getD []).length, false, count, 0, []⟩ :=
    ⟨rfl, (Nat.mod_eq_of_lt h).symm, rfl, rfl, fun _ ↦ ⟨rfl, fun _ ↦ rfl⟩,
      fun i hi ↦ absurd hi (Nat.not_lt_zero i)⟩
  obtain ⟨b, hb, ht⟩ := hstart.foldlM (List.drop_zero (l := events))
  rw [Nat.zero_add] at ht
  have hcontent := ht.content
  rw [List.take_length] at hcontent
  have hlast : b.dirty = false → b.content = lastPublished file b.snapshots ∧ b.snapshots ≠ [] := by
    intro hd
    obtain ⟨hc, hnil⟩ := ht.clean hd
    exact ⟨hc, fun hs ↦ hne (List.eq_nil_of_length_eq_zero (hnil hs))⟩
  obtain ⟨more, hrest, hfile⟩ := publishRest_spec hlast
  refine ⟨{ b with snapshots := b.snapshots ++ more }, ?_, ht.count, ?_, fun i suffix hs ↦ ?_⟩
  · unfold appendBatch
    dsimp only
    rw [hb]
    exact hrest
  · rw [hfile, appendSingly_eq_some hne hcontent]
  · obtain ⟨e, he, -⟩ := hs.2
    exact (ht.cuts i (List.getElem?_eq_some_iff.mp he).1 suffix hs).append more

/-! ### Any batches -/

/-- A writer's batches, none of whose publications fail. -/
def batches (writer : Nat) (bs : List (List Record)) : List Op :=
  bs.map fun events ↦ .batch writer events none

private theorem file_published (s : Log) (writer : Nat) (events : List Record) (b : Batch) :
    (s.published writer events b).file = fileAfter s.file b.snapshots := by
  unfold Log.published fileAfter
  dsimp only
  split
  · next hl => rw [hl]; rfl
  · next hl => rw [hl]; rfl

/-- A batch leaves the log and the count as its events appended one at a time do. -/
private theorem step_batch {s : Log} {writer : Nat}
    (h : s.appendCount writer < truncateCheckInterval) (events : List Record) :
    (s.step (.batch writer events none)).file =
        appendSingly (s.appendCount writer) s.file events ∧
      (s.step (.batch writer events none)).appendCount writer =
        (s.appendCount writer + events.length) % truncateCheckInterval := by
  obtain ⟨b, hb, hcount, hfile, -⟩ := appendBatch_spec s.file events h
  rw [Log.step, hb]
  refine ⟨(file_published s writer events b).trans hfile, ?_⟩
  change Function.update s.appendCount writer b.appendCount writer = _
  rw [Function.update_self, hcount]

/-- However events are split into batches, the log ends up as if they had been appended one at
a time, cut after every `TRUNCATE_CHECK_INTERVAL` of them; and each cut inside a batch is
published as a file of its own, shorter than the one published before it. -/
theorem batches_singly {s : Log} {writer : Nat}
    (h : s.appendCount writer < truncateCheckInterval) (bs : List (List Record)) :
    ((batches writer bs).foldl Log.step s).file =
        appendSingly (s.appendCount writer) s.file bs.flatten ∧
      ∀ before events after, bs = before ++ events :: after →
        let t := (batches writer before).foldl Log.step s
        ∃ b, appendBatch none t.file events (t.appendCount writer) = .ok b ∧
          ∀ i suffix, CutAt (t.appendCount writer) t.file events i suffix →
            PublishedCut t.file b.snapshots i suffix := by
  have hrun : ∀ {s : Log}, s.appendCount writer < truncateCheckInterval → ∀ bs,
      ((batches writer bs).foldl Log.step s).file =
          appendSingly (s.appendCount writer) s.file bs.flatten ∧
        ((batches writer bs).foldl Log.step s).appendCount writer < truncateCheckInterval := by
    intro s h bs
    induction bs generalizing s with
    | nil => exact ⟨rfl, h⟩
    | cons events bs ih =>
      obtain ⟨hfile, hcount⟩ := step_batch h events
      have hlt : (s.step (.batch writer events none)).appendCount writer <
          truncateCheckInterval := by
        rw [hcount]
        exact Nat.mod_lt _ interval_pos
      obtain ⟨hf, hc⟩ := ih hlt
      refine ⟨?_, hc⟩
      rw [batches, List.map_cons, List.foldl_cons]
      refine hf.trans ?_
      rw [hfile, hcount, appendSingly_mod, List.flatten_cons, appendSingly_append]
  refine ⟨(hrun h bs).1, fun before events after _ ↦ ?_⟩
  obtain ⟨b, hb, -, -, hcuts⟩ := appendBatch_spec
    ((batches writer before).foldl Log.step s).file events (hrun h before).2
  exact ⟨b, hb, hcuts⟩

/-- Three bells in three batches, one of them empty. -/
theorem batches_singly_bells :
    ((batches 0 [[Log.bell], [], [Log.bell, Log.bell]]).foldl Log.step Log.init).file =
      appendSingly 0 none [Log.bell, Log.bell, Log.bell] :=
  (@batches_singly Log.init 0 interval_pos [[Log.bell], [], [Log.bell, Log.bell]]).1

end PtySpec.Events
