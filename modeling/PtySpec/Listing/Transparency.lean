import PtySpec.Listing.MetadataCache

/-!
# The cache is transparent

Every entry of the cache has the identity of a file whose change time no later change can
give, so that a file with this identity has the content that was parsed. From this a read
through the cache gives what a plain read gives under the same changes, and a list gives what
an uncached list gives at its moment.
-/

namespace PtySpec.Listing

open Lib
open Registry (Text Host join)
open Metadata (SessionMetadata)

variable {devices : Nat → Device} {parse : List UInt8 → Except String SessionMetadata}

/-! ### Valid entries -/

/-- Files with this identity hold such bytes, now and later. -/
abbrev Pinned (fs : Files devices) (i : Identity) (P : List UInt8 → Prop) : Prop :=
  (Files.fence devices).Holds fs i P

/-- Every entry is what its identity's content is parsed to. -/
def Valid (parse : List UInt8 → Except String SessionMetadata) (fs : Files devices)
    (cache : Cache) : Prop :=
  ∀ e ∈ cache, Pinned fs e.2.identity fun c ↦ parse c = .ok e.2.metadata

theorem Valid.sub {fs : Files devices} {cache cache' : Cache} (h : Valid parse fs cache)
    (hs : ∀ e ∈ cache', e ∈ cache) : Valid parse fs cache' :=
  fun e he ↦ h e (hs e he)

theorem Valid.remove {fs : Files devices} {cache : Cache} (h : Valid parse fs cache)
    (path : Text) : Valid parse fs (cache.remove path) :=
  h.sub fun _ he ↦ List.mem_of_mem_filter he

theorem Valid.retain {fs : Files devices} {cache : Cache} (h : Valid parse fs cache)
    (root : Text) (names : List Text) : Valid parse fs (retain root names cache) :=
  h.sub fun _ he ↦ List.mem_of_mem_filter he

theorem Valid.insert {fs : Files devices} {cache : Cache} (h : Valid parse fs cache)
    {path : Text} {e : CacheEntry} (he : Pinned fs e.identity fun c ↦ parse c = .ok e.metadata) :
    Valid parse fs (cache.insert path e) := by
  intro p hp
  obtain rfl | hp := IndexMap.mem_insert hp
  · exact he
  · exact h p hp

theorem Valid.of_change {fs fs' : Files devices} {cache : Cache} (h : Valid parse fs cache)
    (hc : fs.Change fs') : Valid parse fs' cache :=
  fun e he ↦ (h e he).of_step hc

/-! ### One read -/

/-- An identity of a device whose tick its margin covers. -/
def Sized (devices : Nat → Device) (i : Identity) : Prop := (devices i.dev).tick ≤ i.margin

/-- What is known of the file that was opened: its identity is of this inode, and if it is
settled the bytes are pinned. -/
def OriginOk (fs : Files devices) (now : Int) (origin : Option (Inode × Identity))
    (P : List UInt8 → Prop) : Prop :=
  ∀ o, origin = some o → o.1 = (o.2.dev, o.2.ino) ∧ Sized devices o.2 ∧
    (o.2.settled now = true → Pinned fs o.2 P)

/-- What a read that began at `since` knows at a later time, phase by phase. -/
def PhaseOk (parse : List UInt8 → Except String SessionMetadata) (files : Nat → Files devices)
    (path : Text) (since : Nat) (now : Int) (t : Nat) : Phase → Prop
  | .begun | .missed none | .reopening | .broken _ => True
  | .opened inode => Reads files path since t (.reading inode [])
  | .stated inode before =>
    Reads files path since t (.reading inode []) ∧ inode = (before.dev, before.ino) ∧
      Sized devices before
  | .hit inode before metadata =>
    Reads files path since t (.reading inode []) ∧ inode = (before.dev, before.ino) ∧
      Sized devices before ∧ Pinned (files t) before fun c ↦ parse c = .ok metadata
  | .missed (some (inode, before)) =>
    Reads files path since t (.reading inode []) ∧ inode = (before.dev, before.ino) ∧
      Sized devices before
  | .reading origin inode bytes =>
    Reads files path since t (.reading inode bytes) ∧ (∀ o, origin = some o → o.1 = inode) ∧
      OriginOk (files t) now origin fun c ↦ bytes = c.take bytes.length
  | .ended origin bytes =>
    Reads files path since t (.finished (.ok bytes)) ∧ OriginOk (files t) now origin (bytes = ·)
  | .checked identity bytes =>
    Reads files path since t (.finished (.ok bytes)) ∧
      ∀ i, identity = some i → Pinned (files t) i (bytes = ·)
  | .done r => ReadAs parse files path since t r

theorem drop_eq_nil_of_nextChunk {fs : Files devices} {inode : Inode}
    {bytes : List UInt8} {n : Nat} (h : nextChunk fs inode bytes n = []) :
    (fs.file inode).content.length ≤ bytes.length := by
  unfold nextChunk at h
  rw [List.take_eq_nil_iff] at h
  obtain h | h := h
  · cases h
  · exact List.drop_eq_nil_iff.mp h

/-- The bytes read so far with the next ones are the beginning of the file. -/
theorem take_nextChunk {content bytes : List UInt8} (n : Nat)
    (h : bytes = content.take bytes.length) :
    bytes ++ (content.drop bytes.length).take (n + 1) =
      content.take (bytes ++ (content.drop bytes.length).take (n + 1)).length := by
  have hp : bytes ++ (content.drop bytes.length).take (n + 1) =
      content.take (bytes.length + (n + 1)) :=
    (congrArg (· ++ _) h).trans List.take_add.symm
  rw [hp, List.length_take, Nat.min_def]
  split
  · rfl
  · next hl => rw [List.take_of_length_le (Nat.le_of_not_le hl), List.take_length]

private theorem Reads.tail {files : Nat → Files devices} {path : Text} {since t : Nat}
    {p : Plain} (h : Reads files path since t p) : Reads files path since (t + 1) p :=
  .later (Nat.le_succ t) h

theorem Files.Change.refl (fs : Files devices) : fs.Change fs := .pass le_rfl rfl rfl

private theorem originOk_change {fs fs' : Files devices} {now : Int}
    {origin : Option (Inode × Identity)} {P : List UInt8 → Prop} (h : OriginOk fs now origin P)
    (hc : fs.Change fs') : OriginOk fs' now origin P :=
  fun o ho ↦ ⟨(h o ho).1, (h o ho).2.1, fun hs ↦ ((h o ho).2.2 hs).of_step hc⟩

private theorem originOk_none {fs : Files devices} {now : Int} {P : List UInt8 → Prop} :
    OriginOk fs now none P := by
  intro o ho
  cases ho

/-- A change leaves what a read knows. -/
private theorem phaseOk_change {files : Nat → Files devices} {path : Text} {since t : Nat}
    {now : Int} {phase : Phase} (h : PhaseOk parse files path since now t phase)
    (hc : (files t).Change (files (t + 1))) :
    PhaseOk parse files path since now (t + 1) phase := by
  cases phase with
  | begun => trivial
  | reopening => trivial
  | broken => trivial
  | opened inode => exact h.tail
  | stated inode before => exact ⟨h.1.tail, h.2⟩
  | hit inode before metadata => exact ⟨h.1.tail, h.2.1, h.2.2.1, h.2.2.2.of_step hc⟩
  | missed origin =>
    cases origin with
    | none => trivial
    | some o => exact ⟨h.1.tail, h.2⟩
  | reading origin inode bytes => exact ⟨h.1.tail, h.2.1, originOk_change h.2.2 hc⟩
  | ended origin bytes => exact ⟨h.1.tail, originOk_change h.2 hc⟩
  | checked identity bytes => exact ⟨h.1.tail, fun i hi ↦ (h.2 i hi).of_step hc⟩
  | done r =>
    obtain ⟨result, hr, he⟩ := h
    exact ⟨result, hr.tail, he⟩

private theorem pinned_of_get {fs : Files devices} {cache : Cache} (h : Valid parse fs cache)
    {path : Text} {e : CacheEntry} {before : Identity}
    (hg : (cache.get path).filter (·.identity = before) = some e) :
    Pinned fs before fun c ↦ parse c = .ok e.metadata := by
  obtain ⟨hg, hi⟩ := Option.filter_eq_some_iff.mp hg
  rw [← of_decide_eq_true hi]
  exact h _ (IndexMap.mem_of_get hg)

/-- A file that was read to its end. -/
private theorem Reads.whole {files : Nat → Files devices} {path : Text} {since t : Nat}
    {inode : Inode} (h : Reads files path since t (.reading inode [])) :
    Reads files path since t (.finished (.ok ((files t).file inode).content)) := by
  have hc := h.chunk ((files t).file inode).content.length
  have hn : [] ++ nextChunk (files t) inode [] ((files t).file inode).content.length =
      ((files t).file inode).content := by
    rw [List.nil_append, nextChunk, List.length_nil, List.drop_zero]
    exact List.take_of_length_le (Nat.le_succ _)
  rw [hn] at hc
  refine hc.eof (n := 0) ?_
  rw [nextChunk, List.drop_length]
  rfl

/-- Each step of a read keeps the cache valid and what the read knows true. -/
theorem phaseOk_advance {files : Nat → Files devices} {path : Text} {since t : Nat}
    {now : Int} {cache : Cache} {phase : Phase} (n : Nat) (hst : since ≤ t)
    (hnow : now ≤ (files t).clock) (hv : Valid parse (files t) cache)
    (h : PhaseOk parse files path since now t phase) :
    Valid parse (files t) (advance parse (files t) path now n cache phase).1 ∧
      PhaseOk parse files path since now t
        (advance parse (files t) path now n cache phase).2 := by
  cases phase with
  | begun =>
    unfold advance
    dsimp only
    split
    · next e he => exact ⟨hv.remove path, .error e, .openMissing hst he, rfl⟩
    · exact ⟨hv, trivial⟩
    · next inode hi => exact ⟨hv, .openFile hst hi⟩
  | opened inode => exact ⟨hv, h, rfl, Files.tick_le_margin (files t) inode⟩
  | stated inode before =>
    unfold advance
    dsimp only
    split
    · next e he => exact ⟨hv, h.1, h.2.1, h.2.2, pinned_of_get hv he⟩
    · exact ⟨hv, h⟩
  | hit inode before metadata =>
    obtain ⟨hr, hi, hs, hp⟩ := h
    unfold advance
    dsimp only
    split
    · next hid =>
      have hm : parse ((files t).file inode).content = .ok metadata := hp.2 inode hid
      refine ⟨hv, _, hr.whole, ?_⟩
      rw [outcome, parsed, hm]
    · exact ⟨hv, hr, hi, hs⟩
  | missed origin =>
    cases origin with
    | none => exact ⟨hv.remove path, trivial⟩
    | some o =>
      obtain ⟨hr, hi, hs⟩ := h
      refine ⟨hv.remove path, hr, ?_, ?_⟩
      · intro o' ho
        cases ho
        rfl
      · intro o' ho
        cases ho
        exact ⟨hi, hs, fun hset ↦ ⟨Files.fenced_of_settled hs hnow hset, fun _ _ ↦ rfl⟩⟩
  | reopening =>
    unfold advance
    dsimp only
    split
    · next e he => exact ⟨hv.remove path, .error e, .openMissing hst he, rfl⟩
    · next e he => exact ⟨hv.remove path, .error e, .openSpecial hst he, rfl⟩
    · next bytes he => exact ⟨hv, .openSpecial hst he, originOk_none⟩
    · next inode hi =>
      exact ⟨hv, .openFile hst hi, fun o ho ↦ (by cases ho), originOk_none⟩
  | reading origin inode bytes =>
    obtain ⟨hr, ho, hok⟩ := h
    have hcontent : ∀ o, origin = some o → ∀ k, (files t).identity k = o.2 → k = inode := by
      intro o hoo k hk
      rw [Files.identity_inj hk, ← ho o hoo, (hok o hoo).1]
    unfold advance
    dsimp only
    split
    · next he =>
      refine ⟨hv, hr.eof he, fun o hoo ↦ ⟨(hok o hoo).1, (hok o hoo).2.1, fun hs ↦ ?_⟩⟩
      obtain ⟨hf, hb⟩ := (hok o hoo).2.2 hs
      refine ⟨hf, fun k hk ↦ ?_⟩
      have hlen := drop_eq_nil_of_nextChunk he
      have hbk := hb k hk
      rw [hcontent o hoo k hk] at hbk ⊢
      change bytes = ((files t).file inode).content
      rw [hbk]
      exact List.take_of_length_le hlen
    · refine ⟨hv, hr.chunk n, ho,
        fun o hoo ↦ ⟨(hok o hoo).1, (hok o hoo).2.1, fun hs ↦ ?_⟩⟩
      obtain ⟨hf, hb⟩ := (hok o hoo).2.2 hs
      refine ⟨hf, fun k hk ↦ ?_⟩
      have hbk := hb k hk
      rw [hcontent o hoo k hk] at hbk ⊢
      exact take_nextChunk n hbk
  | ended origin bytes =>
    cases origin with
    | none => exact ⟨hv, h.1, fun i hi ↦ by cases hi⟩
    | some o =>
      refine ⟨hv, h.1, ?_⟩
      intro i hi
      split at hi
      · next hc =>
        cases hi
        rw [Bool.and_eq_true, decide_eq_true_eq] at hc
        exact (h.2 o rfl).2.2 hc.2
      · cases hi
  | checked identity bytes =>
    have hdone : PhaseOk parse files path since now t (.done (parsed parse bytes)) :=
      ⟨_, h.1, rfl⟩
    unfold advance
    dsimp only
    split
    · next i m hm =>
      refine ⟨hv.insert ((h.2 i rfl).imp ?_), ?_⟩
      · rintro _ rfl
        exact hm
      · rw [parsed, hm] at hdone
        exact hdone
    · exact ⟨hv, hdone⟩
  | done r => exact ⟨hv, h⟩
  | broken e => exact ⟨hv, trivial⟩

/-! ### A list at one moment -/

/-! ### A read alone -/

/-- A read alone is done after so many steps. -/
private def Finishes (parse : List UInt8 → Except String SessionMetadata) (fs : Files devices)
    (path : Text) (k : Nat) (phase : Phase) : Prop :=
  ∀ cache, ∃ r, (runAlone parse fs path k (cache, phase)).2 = .done r

variable {fs : Files devices} {path : Text}

private theorem finishes_done (k : Nat) (r : Outcome) : Finishes parse fs path k (.done r) := by
  intro cache
  induction k generalizing cache with
  | zero => exact ⟨r, rfl⟩
  | succ k ih => exact ih cache

private theorem finishes_checked (k : Nat) (identity : Option Identity) (bytes : List UInt8) :
    Finishes parse fs path (k + 1) (.checked identity bytes) := by
  intro cache
  unfold runAlone advance
  dsimp only
  split
  · exact finishes_done k _ _
  · exact finishes_done k _ _

private theorem finishes_ended (k : Nat) (origin : Option (Inode × Identity))
    (bytes : List UInt8) : Finishes parse fs path (k + 2) (.ended origin bytes) := by
  intro cache
  cases origin with
  | none => exact finishes_checked k none bytes cache
  | some o => exact finishes_checked k _ bytes cache

private theorem finishes_reading (k : Nat) (origin : Option (Inode × Identity)) (inode : Inode)
    (ht : fs.target path = .file inode) :
    Finishes parse fs path (k + 4) (.reading origin inode []) := by
  have hend : Finishes parse fs path (k + 3)
      (.reading origin inode (fs.file inode).content) := by
    intro cache
    unfold runAlone advance
    dsimp only
    rw [if_pos]
    · exact finishes_ended k origin _ cache
    · rw [nextChunk, List.drop_length]
      rfl
  intro cache
  unfold runAlone advance
  rw [ht]
  dsimp only
  split
  · exact finishes_ended (k + 1) origin _ cache
  · have hn : [] ++ nextChunk fs inode [] (fs.file inode).content.length =
        (fs.file inode).content := by
      rw [List.nil_append, nextChunk, List.length_nil, List.drop_zero]
      exact List.take_of_length_le (Nat.le_succ _)
    rw [hn]
    exact hend cache

private theorem finishes_stated (k : Nat) (inode : Inode) (ht : fs.target path = .file inode) :
    Finishes parse fs path (k + 6) (.stated inode (fs.identity inode)) := by
  intro cache
  unfold runAlone advance
  dsimp only
  split
  · unfold runAlone advance
    dsimp only
    rw [if_pos rfl]
    exact finishes_done (k + 4) _ _
  · exact finishes_reading k _ inode ht _

private theorem finishes_begun (parse : List UInt8 → Except String SessionMetadata)
    (fs : Files devices) (path : Text) : Finishes parse fs path 8 .begun := by
  intro cache
  unfold runAlone advance
  dsimp only
  cases ht : fs.target path with
  | missing e => exact finishes_done 7 _ _
  | file inode => exact finishes_stated 0 inode ht _
  | special content =>
    have hr : Finishes parse fs path 6 .reopening := by
      intro cache
      unfold runAlone advance
      dsimp only
      rw [ht]
      cases content with
      | error e => exact finishes_done 5 _ _
      | ok bytes => exact finishes_ended 3 none bytes _
    exact hr _

/-! ### Plain reads of files that do not change -/

/-- A plain read under no changes has the beginning of the file, or all of it. -/
private theorem Reads.of_const {since t : Nat} {p : Plain}
    (h : Reads (fun _ ↦ fs) path since t p) :
    (∀ inode bytes, p = .reading inode bytes →
        fs.target path = .file inode ∧ bytes = (fs.file inode).content.take bytes.length) ∧
      ∀ result, p = .finished result → outcome parse result = plainRead parse fs path := by
  induction h with
  | openFile ht h => exact ⟨by rintro _ _ ⟨⟩; exact ⟨h, rfl⟩, by rintro _ ⟨⟩⟩
  | openMissing ht h =>
    refine ⟨by rintro _ _ ⟨⟩, ?_⟩
    rintro _ ⟨⟩
    rw [plainRead, h]
    rfl
  | @openSpecial t content ht h =>
    refine ⟨by rintro _ _ ⟨⟩, ?_⟩
    rintro _ ⟨⟩
    rw [plainRead, h]
    cases content <;> rfl
  | later ht h ih => exact ih
  | chunk n h ih =>
    refine ⟨?_, by rintro _ ⟨⟩⟩
    rintro _ _ ⟨⟩
    obtain ⟨ht, hb⟩ := ih.1 _ _ rfl
    exact ⟨ht, take_nextChunk n hb⟩
  | @eof t n inode bytes h he ih =>
    refine ⟨by rintro _ _ ⟨⟩, ?_⟩
    rintro _ ⟨⟩
    obtain ⟨ht, hb⟩ := ih.1 _ _ rfl
    rw [List.take_of_length_le (drop_eq_nil_of_nextChunk he)] at hb
    rw [plainRead, ht, hb]
    rfl

/-- What a plain read under no changes gives. -/
theorem readAs_const {since t : Nat} {r : Outcome}
    (h : ReadAs parse (fun _ ↦ fs) path since t r) : r = plainRead parse fs path := by
  obtain ⟨result, hr, rfl⟩ := h
  exact hr.of_const.2 result rfl

private theorem runAlone_ok {cache : Cache} {phase : Phase} (k : Nat)
    (hv : Valid parse fs cache) (h : PhaseOk parse (fun _ ↦ fs) path 0 fs.clock 0 phase) :
    Valid parse fs (runAlone parse fs path k (cache, phase)).1 ∧
      PhaseOk parse (fun _ ↦ fs) path 0 fs.clock 0
        (runAlone parse fs path k (cache, phase)).2 := by
  induction k generalizing cache phase with
  | zero => exact ⟨hv, h⟩
  | succ k ih =>
    obtain ⟨hv', h'⟩ := phaseOk_advance _ le_rfl le_rfl hv h
    exact ih hv' h'

/-- A read through a valid cache, when nothing changes, gives what the plain read gives. -/
theorem cachedRead_spec {cache : Cache} (hv : Valid parse fs cache) (path : Text) :
    (cachedRead parse fs path cache).2 = some (plainRead parse fs path) ∧
      Valid parse fs (cachedRead parse fs path cache).1 := by
  obtain ⟨r, hr⟩ := finishes_begun parse fs path cache
  have hbegun : PhaseOk parse (fun _ ↦ fs) path 0 fs.clock 0 .begun := trivial
  have hok := runAlone_ok 8 hv hbegun
  refine ⟨?_, hok.1⟩
  rw [hr] at hok
  rw [cachedRead, hr, ← readAs_const hok.2]
  rfl

private theorem readAll_spec {cache : Cache} (hv : Valid parse fs cache) (paths : List Text) :
    (∀ path ∈ paths, IndexMap.get (readAll parse fs paths cache).2 path =
        some (some (plainRead parse fs path))) ∧
      Valid parse fs (readAll parse fs paths cache).1 := by
  induction paths generalizing cache with
  | nil => exact ⟨fun path hp ↦ absurd hp List.not_mem_nil, hv⟩
  | cons first paths ih =>
    obtain ⟨hr, hv'⟩ := cachedRead_spec hv first
    obtain ⟨hget, hv''⟩ := ih hv'
    refine ⟨fun path hp ↦ ?_, hv''⟩
    rw [readAll, IndexMap.get_cons]
    split
    · next he => rw [← he, hr]
    · next he => exact hget path ((List.mem_cons.mp hp).resolve_left (Ne.symm he))

/-! ### Lists -/

private theorem visit_congr (host : Host) (answers : Answers) (strict : Bool) (root name : Text)
    (entries : List Text) {f g : Text → Bool → Option SessionMetadata × List InventoryError}
    (h : ∀ observed, f (join root (name ++ ".json".toList)) observed =
      g (join root (name ++ ".json".toList)) observed) :
    visit host { answers with metadata := f } strict root entries name =
      visit host { answers with metadata := g } strict root entries name := by
  unfold visit
  simp only [h]
  rfl

/-- A listing asks for the records of the names that it reads. -/
private theorem entries_congr (host : Host) (answers : Answers) (root : Text)
    {f g : Text → Bool → Option SessionMetadata × List InventoryError}
    (h : ∀ name ∈ listedNames host answers root, ∀ observed,
      f (join root (name ++ ".json".toList)) observed =
        g (join root (name ++ ".json".toList)) observed) :
    (scanSessions host { answers with metadata := f } false root none).entries =
      (scanSessions host { answers with metadata := g } false root none).entries := by
  cases answers with
  | mk dir metadata pid recordIdentity absent probe =>
    cases dir with
    | error e => rfl
    | ok items =>
      have hv := List.map_congr_left fun name hn ↦
        visit_congr host ⟨.ok items, metadata, pid, recordIdentity, absent, probe⟩ false root
          name (scanEntries host root none items) (h name hn)
      exact congrArg (List.filterMap (·.session)) hv

/-- A list through a valid cache gives what an uncached one gives, and leaves the cache
valid. -/
theorem list_spec {cache : Cache} (hv : Valid parse fs cache) (host : Host) (answers : Answers)
    (root : Text) :
    (list parse fs cache host answers root).2 = listSessionsIn parse fs host answers root ∧
      Valid parse fs (list parse fs cache host answers root).1 := by
  obtain ⟨hget, hv'⟩ := readAll_spec (hv.retain root (listedNames host answers root))
    ((listedNames host answers root).map fun name ↦ join root (name ++ ".json".toList))
  refine ⟨entries_congr host answers root fun name hn _ ↦ ?_, hv'⟩
  rw [hget _ (List.mem_map_of_mem hn)]
  rfl

/-! ### Runs -/

/-- In every state of a run the cache is valid, and every read knows what its phase says. -/
theorem run_inv {S : Nat → System devices} (h : Run parse S) (t : Nat) :
    Valid parse (S t).files (S t).cache ∧
      ∀ i c, (S t).calls i = some c →
        c.since ≤ t ∧ c.now ≤ (S t).files.clock ∧
          PhaseOk parse (fun k ↦ (S k).files) c.path c.since c.now t c.phase := by
  induction t with
  | zero =>
    refine ⟨?_, fun i c hc ↦ ?_⟩
    · rw [h.cache]
      exact fun e he ↦ absurd he List.not_mem_nil
    · rw [h.calls] at hc
      cases hc
  | succ t ih =>
    obtain ⟨hv, hcalls⟩ := ih
    -- the reads that a step leaves alone, after a change or none
    have hkeep : (S t).files.Change (S (t + 1)).files → ∀ i c, (S t).calls i = some c →
        c.since ≤ t + 1 ∧ c.now ≤ (S (t + 1)).files.clock ∧
          PhaseOk parse (fun k ↦ (S k).files) c.path c.since c.now (t + 1) c.phase := by
      intro hch i c hc
      obtain ⟨hs, hn, hp⟩ := hcalls i c hc
      exact ⟨Nat.le_succ_of_le hs, hn.trans hch.clock_le, phaseOk_change hp hch⟩
    have hsame : (S (t + 1)).files = (S t).files → (S t).files.Change (S (t + 1)).files := by
      intro he
      rw [he]
      exact .refl _
    -- one read goes on, the others are left alone
    have hone : (S (t + 1)).files = (S t).files → ∀ i (c : Call) phase,
        (S (t + 1)).calls = Function.update (S t).calls i (some { c with phase := phase }) →
        c.since ≤ t → c.now ≤ (S t).files.clock →
        PhaseOk parse (fun k ↦ (S k).files) c.path c.since c.now t phase →
        ∀ j d, (S (t + 1)).calls j = some d →
          d.since ≤ t + 1 ∧ d.now ≤ (S (t + 1)).files.clock ∧
            PhaseOk parse (fun k ↦ (S k).files) d.path d.since d.now (t + 1) d.phase := by
      intro hf i c phase hu hs hn hp j d hd
      rw [hu, Function.update_apply] at hd
      split at hd
      · cases hd
        exact ⟨Nat.le_succ_of_le hs, hf ▸ hn, phaseOk_change hp (hsame hf)⟩
      · exact hkeep (hsame hf) j d hd
    cases h.step t with
    | change hch hc hcl =>
      rw [hc, hcl]
      exact ⟨hv.of_change hch, hkeep hch⟩
    | begin i path hf hc hcl =>
      refine ⟨by rw [hf, hc]; exact hv, ?_⟩
      exact hone hf i ⟨path, t, (S t).files.clock, .begun⟩ .begun hcl le_rfl le_rfl trivial
    | advance i n c hi hf hc hcl =>
      obtain ⟨hs, hn, hp⟩ := hcalls i c hi
      obtain ⟨hv', hp'⟩ := phaseOk_advance n hs hn hv hp
      exact ⟨by rw [hf, hc]; exact hv', hone hf i c _ hcl hs hn hp'⟩
    | interrupt i e c hi hf hc hcl =>
      obtain ⟨hs, hn, hp⟩ := hcalls i c hi
      have hint : Valid parse (S t).files (interrupt c.path e (S t).cache c.phase).1 ∧
          PhaseOk parse (fun k ↦ (S k).files) c.path c.since c.now t
            (interrupt c.path e (S t).cache c.phase).2 := by
        unfold interrupt
        split
        · exact ⟨hv.remove c.path, trivial⟩
        · exact ⟨hv, hp⟩
      exact ⟨by rw [hf, hc]; exact hint.1, hone hf i c _ hcl hs hn hint.2⟩
    | retain root names hf hc hcl =>
      rw [hc, hcl, hf]
      exact ⟨hv.retain root names, hf ▸ hkeep (hsame hf)⟩
    | list host answers root hf hc hcl =>
      rw [hc, hcl, hf]
      exact ⟨(list_spec hv host answers root).2, hf ▸ hkeep (hsame hf)⟩

/-- In every run, a read through the cache that is done gives what a plain read of the path
between its beginning and its end can give under the same changes, and a list gives at every
moment what an uncached list gives. -/
theorem cache_transparent {S : Nat → System devices} (h : Run parse S) (t : Nat) :
    (∀ i c r, (S t).calls i = some c → c.phase = .done r →
        ReadAs parse (fun k ↦ (S k).files) c.path c.since t r) ∧
      ∀ host answers root,
        (list parse (S t).files (S t).cache host answers root).2 =
          listSessionsIn parse (S t).files host answers root := by
  obtain ⟨hv, hcalls⟩ := run_inv h t
  refine ⟨fun i c r hc hd ↦ ?_, fun host answers root ↦ (list_spec hv host answers root).1⟩
  have hp := (hcalls i c hc).2.2
  rw [hd] at hp
  exact hp

/-- Devices with a tick of 4 ms. -/
def sampleDevices (_ : Nat) : Device := ⟨4000000, false, .inl (by decide)⟩

/-- One record, of a change long ago. -/
def sampleFiles : Files sampleDevices where
  clock := 10000000000
  target path := if path = "/r/a.json".toList then .file (0, 7) else .missing ⟨2, "not found"⟩
  file _ := ⟨[0x7b, 0x7d], (1, 5), (1, 5)⟩
  whole _ h := by cases h

/-- A parser that takes everything for an empty record. -/
def sampleParse (_ : List UInt8) : Except String SessionMetadata :=
  (SessionMetadata.fromMap []).elim (.error "no record") .ok

/-- A read of the record, step by step. -/
def sampleRun : Nat → System sampleDevices
  | 0 => ⟨sampleFiles, [], fun _ ↦ none⟩
  | 1 =>
    ⟨sampleFiles, [], Function.update (fun _ ↦ none) 0
      (some ⟨"/r/a.json".toList, 0, sampleFiles.clock, .begun⟩)⟩
  | t + 2 =>
    let s := sampleRun (t + 1)
    match s.calls 0 with
    | none => s
    | some c =>
      let next := advance sampleParse s.files c.path c.now 1 s.cache c.phase
      ⟨s.files, next.1, Function.update s.calls 0 (some { c with phase := next.2 })⟩

private theorem run_sampleRun : Run sampleParse sampleRun where
  cache := rfl
  calls _ := rfl
  step
    | 0 => .begin 0 _ rfl rfl rfl
    | t + 1 => by
      cases hc : (sampleRun (t + 1)).calls 0 with
      | none =>
        have hs : sampleRun (t + 1 + 1) = sampleRun (t + 1) := by
          simp only [sampleRun, hc]
        rw [hs]
        exact .change (.refl _) rfl rfl
      | some c =>
        exact .advance 0 1 c hc (by simp only [sampleRun, hc]) (by simp only [sampleRun, hc])
          (by simp only [sampleRun, hc])

/-- The read of the record is done after eight steps, with what a plain read gives. -/
theorem cache_transparent_sample :
    ∃ c r, (sampleRun 9).calls 0 = some c ∧ c.phase = .done r ∧
      ReadAs sampleParse (fun k ↦ (sampleRun k).files) c.path c.since 9 r ∧
      ∀ host answers root,
        (list sampleParse (sampleRun 9).files (sampleRun 9).cache host answers root).2 =
          listSessionsIn sampleParse (sampleRun 9).files host answers root := by
  have h := cache_transparent run_sampleRun 9
  exact ⟨_, _, rfl, rfl, h.1 0 _ _ rfl rfl, h.2⟩

end PtySpec.Listing
