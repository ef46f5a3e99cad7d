import PtySpec.Operation.Record

/-!
# The operation store

Model of `OperationStore` in `crates/pty-core/src/operation/record.rs:531-702`: the
exclusive creation of a record, reading it back, and the compare-and-swap that is
the only other way to change it. Every system call on the way may fail; `Io` says
which of them do in one call.
-/

namespace PtySpec.Operation

/-- What `<h>.json` holds: nothing, or a text with what `serde_json` makes of it. -/
inductive RecordFile where
  | absent
  | text (parsed : Except String OperationRecord)

/-- The record's file and the temporary file of the write under way, which is
missing, not fully written, or complete. -/
structure StoreDir where
  record : RecordFile
  tmp : Option (Option OperationRecord)

/-- The system calls of the store that can fail, in the order they are made. -/
inductive IoStep where
  | ensureDir
  | lockFile
  | read
  | encode
  | create
  | write
  | sync
  | link
  | rename
  | openDir
  | syncDir
  | removeTmp
  deriving DecidableEq, Repr

/-- One call's luck: the error text of each step that fails, the transition a
debug build was told to fail (`PTY_TEST_RECORD_WRITE_FAIL`), and the clock. -/
structure Io where
  fails : IoStep → Option String
  failLabel : Option String
  now : String

/-- Nothing fails. -/
def Io.quiet (now : String) : Io := ⟨fun _ ↦ none, none, now⟩

/-- Only `step` fails. -/
def Io.failing (step : IoStep) (error : String) (now : String) : Io :=
  ⟨fun s ↦ if s = step then some error else none, none, now⟩

/-- Why a record could not be read, `record.rs:449`. -/
inductive ReadError where
  | io (path error : String)
  | malformed (path error : String)
  deriving DecidableEq, Repr

/-- Why a compare-and-swap write was refused, `record.rs:465`. -/
inductive WriteError where
  | stale (observed : OperationRecord)
  | missing
  | read (e : ReadError)
  | io (error : String)
  deriving DecidableEq, Repr

/-- Why an exclusive create did not happen, `record.rs:493`. -/
inductive CreateError where
  | exists
  | io (error : String)
  deriving DecidableEq, Repr

/-- `OperationStore::read`, `record.rs:560`: `none` only when the file does not exist. -/
def readRecord (io : Io) (path : String) (file : RecordFile) :
    Except ReadError (Option OperationRecord) :=
  match io.fails .read with
  | some e => .error (.io path e)
  | none =>
    match file with
    | .absent => .ok none
    | .text (.error e) => .error (.malformed path e)
    | .text (.ok record) =>
      if record.schema ≠ RECORD_SCHEMA then
        .error (.malformed path s!"unsupported schema {reprStr record.schema}")
      else
        match record.check with
        | .error e => .error (.malformed path e)
        | .ok () => .ok (some record)

/-- `write_synced`, `record.rs:690`: a fresh temporary file, written and synced. -/
def writeSynced (io : Io) (dir : StoreDir) (record : OperationRecord) :
    Except String Unit × StoreDir :=
  match io.fails .create with
  | some e => (.error e, dir)
  | none =>
    match io.fails .write with
    | some e => (.error e, { dir with tmp := some none })
    | none =>
      match io.fails .sync with
      | some e => (.error e, { dir with tmp := some (some record) })
      | none => (.ok (), { dir with tmp := some (some record) })

/-- `fs::rename` of the complete temporary file over the record. -/
def renameTmp (io : Io) (dir : StoreDir) (record : OperationRecord) :
    Except String Unit × StoreDir :=
  match io.fails .rename with
  | some e => (.error e, dir)
  | none => (.ok (), ⟨.text (.ok record), none⟩)

/-- `fs::hard_link` of the complete temporary file to the record's name, which never
replaces a file. -/
def linkTmp (io : Io) (dir : StoreDir) (record : OperationRecord) :
    Except CreateError Unit × StoreDir :=
  match dir.record with
  | .text _ => (.error .exists, dir)
  | .absent =>
    match io.fails .link with
    | some e => (.error (.io e), dir)
    | none => (.ok (), { dir with record := .text (.ok record) })

/-- `sync_dir`, `record.rs:700`: open the directory and sync it. -/
def syncDir (io : Io) : Except String Unit :=
  match io.fails .openDir with
  | some e => .error e
  | none =>
    match io.fails .syncDir with
    | some e => .error e
    | none => .ok ()

/-- `let _ = fs::remove_file(&tmp)`: the failure is ignored. -/
def removeTmp (io : Io) (dir : StoreDir) : StoreDir :=
  match io.fails .removeTmp with
  | some _ => dir
  | none => { dir with tmp := none }

/-- The three steps of `write_cas_as` that touch the disk, `record.rs:674`: write the
temporary file, rename it over the record, sync the directory. -/
def publishTmp (io : Io) (dir : StoreDir) (record : OperationRecord) :
    Except String Unit × StoreDir :=
  match writeSynced io dir record with
  | (.error e, dir) => (.error e, dir)
  | (.ok (), dir) =>
    match renameTmp io dir record with
    | (.error e, dir) => (.error e, dir)
    | (.ok (), dir) => (syncDir io, dir)

/-- `OperationStore::create_exclusive`, `record.rs:586`. -/
def createExclusive (io : Io) (dir : StoreDir) (record : OperationRecord) :
    Except CreateError Unit × StoreDir :=
  match io.fails .ensureDir with
  | some e => (.error (.io e), dir)
  | none =>
    match io.fails .lockFile with
    | some e => (.error (.io e), dir)
    | none =>
      match io.fails .encode with
      | some e => (.error (.io e), dir)
      | none =>
        match writeSynced io dir record with
        | (.error e, dir) => (.error (.io e), removeTmp io dir)
        | (.ok (), dir) =>
          match linkTmp io dir record with
          | (.error e, dir) => (.error e, removeTmp io dir)
          | (.ok (), dir) =>
            match syncDir io with
            | .error e => (.error (.io e), removeTmp io dir)
            | .ok () => (.ok (), removeTmp io dir)

/-- The version a write publishes: `next` with the following revision and the time. -/
def OperationRecord.stamped (next expected : OperationRecord) (now : String) : OperationRecord :=
  { next with revision := expected.revision + 1, updatedAt := now }

/-- `OperationStore::write_cas_as`, `record.rs:639`. -/
def writeCasAs (io : Io) (path : String) (dir : StoreDir) (expected next : OperationRecord)
    (label : String) : Except WriteError OperationRecord × StoreDir :=
  if label ≠ "" ∧ io.failLabel = some label then
    (.error (.io s!"injected write failure at {label}"), dir)
  else
    match next.check with
    | .error e => (.error (.io e), dir)
    | .ok () =>
      match readRecord io path dir.record with
      | .error e => (.error (.read e), dir)
      | .ok none => (.error .missing, dir)
      | .ok (some current) =>
        if current ≠ expected then
          (.error (.stale current), dir)
        else
          match io.fails .encode with
          | some e => (.error (.io e), dir)
          | none =>
            match publishTmp io dir (next.stamped expected io.now) with
            | (.error e, dir) => (.error (.io e), removeTmp io dir)
            | (.ok (), dir) => (.ok (next.stamped expected io.now), dir)

/-! ### What one write can do -/

/-- Every step up to and including the rename succeeds, on a record file that
holds exactly `expected`. -/
structure RenameDone (io : Io) (path : String) (dir : StoreDir)
    (expected next : OperationRecord) (label : String) : Prop where
  notInjected : ¬(label ≠ "" ∧ io.failLabel = some label)
  checked : next.check = .ok ()
  current : readRecord io path dir.record = .ok (some expected)
  encoded : io.fails .encode = none
  created : io.fails .create = none
  written : io.fails .write = none
  synced : io.fails .sync = none
  renamed : io.fails .rename = none

/-- A write either leaves the record file alone and fails, or has renamed the next
version into place; then it succeeds exactly when the directory sync does. -/
theorem writeCasAs_cases (io : Io) (path : String) (dir : StoreDir)
    (expected next : OperationRecord) (label : String) :
    (∃ e dir', writeCasAs io path dir expected next label = (.error e, dir') ∧
        dir'.record = dir.record ∧ ¬RenameDone io path dir expected next label) ∨
      (RenameDone io path dir expected next label ∧
        (writeCasAs io path dir expected next label).2.record =
          .text (.ok (next.stamped expected io.now)) ∧
        (writeCasAs io path dir expected next label).1 =
          match syncDir io with
          | .error e => .error (.io e)
          | .ok () => .ok (next.stamped expected io.now)) := by
  unfold writeCasAs
  split
  · next h => exact .inl ⟨_, _, rfl, rfl, fun hr ↦ hr.notInjected h⟩
  · next hi =>
    split
    · next e h =>
      exact .inl ⟨_, _, rfl, rfl, fun hr ↦ by have := hr.checked; rw [h] at this; cases this⟩
    · next hc =>
      split
      · next e h =>
        exact .inl ⟨_, _, rfl, rfl, fun hr ↦ by have := hr.current; rw [h] at this; cases this⟩
      · next h =>
        exact .inl ⟨_, _, rfl, rfl, fun hr ↦ by have := hr.current; rw [h] at this; cases this⟩
      · next current h =>
        split
        · next hn =>
          refine .inl ⟨_, _, rfl, rfl, fun hr ↦ hn ?_⟩
          have := hr.current
          rw [h] at this
          exact Option.some.inj (Except.ok.inj this)
        · next hn =>
          simp only [ne_eq, Decidable.not_not] at hn
          subst hn
          split
          · next e he =>
            exact .inl ⟨_, _, rfl, rfl,
              fun hr ↦ by have := hr.encoded; rw [he] at this; cases this⟩
          · next he =>
            cases hcr : io.fails .create with
            | some e =>
              refine .inl ⟨.io e, removeTmp io dir, ?_, ?_, fun hr ↦ ?_⟩
              · simp only [publishTmp, writeSynced, hcr]
              · unfold removeTmp
                split <;> rfl
              · have := hr.created; rw [hcr] at this; cases this
            | none =>
              cases hw : io.fails .write with
              | some e =>
                refine .inl ⟨.io e, removeTmp io { dir with tmp := some none }, ?_, ?_,
                  fun hr ↦ ?_⟩
                · simp only [publishTmp, writeSynced, hcr, hw]
                · unfold removeTmp
                  split <;> rfl
                · have := hr.written; rw [hw] at this; cases this
              | none =>
                cases hy : io.fails .sync with
                | some e =>
                  refine .inl ⟨.io e, removeTmp io
                    { dir with tmp := some (some (next.stamped current io.now)) }, ?_, ?_,
                    fun hr ↦ ?_⟩
                  · simp only [publishTmp, writeSynced, hcr, hw, hy]
                  · unfold removeTmp
                    split <;> rfl
                  · have := hr.synced; rw [hy] at this; cases this
                | none =>
                  cases hr : io.fails .rename with
                  | some e =>
                    refine .inl ⟨.io e, removeTmp io
                      { dir with tmp := some (some (next.stamped current io.now)) }, ?_, ?_,
                      fun hd ↦ ?_⟩
                    · simp only [publishTmp, writeSynced, renameTmp, hcr, hw, hy, hr]
                    · unfold removeTmp
                      split <;> rfl
                    · have := hd.renamed; rw [hr] at this; cases this
                  | none =>
                    refine .inr ⟨⟨hi, hc, h, he, hcr, hw, hy, hr⟩, ?_, ?_⟩
                    · simp only [publishTmp, writeSynced, renameTmp, hcr, hw, hy, hr]
                      cases syncDir io with
                      | error e =>
                        simp only [removeTmp]
                        split <;> rfl
                      | ok => rfl
                    · simp only [publishTmp, writeSynced, renameTmp, hcr, hw, hy, hr]
                      cases syncDir io with
                      | error e => rfl
                      | ok => rfl

private theorem removeTmp_record (io : Io) (dir : StoreDir) :
    (removeTmp io dir).record = dir.record := by
  unfold removeTmp
  split <;> rfl

private theorem writeSynced_record (io : Io) (dir : StoreDir) (record : OperationRecord) :
    (writeSynced io dir record).2.record = dir.record := by
  unfold writeSynced
  split
  · rfl
  · split
    · rfl
    · split <;> rfl

/-- An exclusive creation leaves the record's name alone, or gives it the record when it
named nothing. -/
theorem createExclusive_cases (io : Io) (dir : StoreDir) (record : OperationRecord) :
    (createExclusive io dir record).2.record = dir.record ∨
      (dir.record = .absent ∧ (createExclusive io dir record).2.record = .text (.ok record)) := by
  unfold createExclusive
  split
  · exact .inl rfl
  · split
    · exact .inl rfl
    · split
      · exact .inl rfl
      · have hw := writeSynced_record io dir record
        split
        · next dir' heq =>
          rw [heq] at hw
          exact .inl ((removeTmp_record io dir').trans hw)
        · next dir' heq =>
          rw [heq] at hw
          unfold linkTmp
          cases hd : dir'.record with
          | text parsed => exact .inl (by simp [removeTmp_record, ← hw, hd])
          | absent =>
            cases io.fails .link with
            | some e => exact .inl (by simp [removeTmp_record, ← hw, hd])
            | none =>
              refine .inr ⟨by rw [← hw, hd], ?_⟩
              dsimp only
              split <;> simp [removeTmp_record]

/-! ### What a later reader sees -/

/-- What a reader that meets no I/O error sees of the record. -/
def seenRecord (path : String) (dir : StoreDir) : Except ReadError (Option OperationRecord) :=
  readRecord (.quiet "") path dir.record

/-- A failed write leaves a later reader with the record that was there before. -/
def FailureAtomic (io : Io) (path : String) (dir : StoreDir) (expected next : OperationRecord)
    (label : String) : Prop :=
  ∀ e dir', writeCasAs io path dir expected next label = (.error e, dir') →
    seenRecord path dir' = seenRecord path dir

/-- Reading returned a record: the file holds it, with a known schema, and it passes the check. -/
theorem readRecord_eq_some {io : Io} {path : String} {file : RecordFile} {r : OperationRecord}
    (h : readRecord io path file = .ok (some r)) :
    io.fails .read = none ∧ file = .text (.ok r) ∧ r.schema = RECORD_SCHEMA ∧
      r.check = .ok () := by
  unfold readRecord at h
  split at h
  · cases h
  · next hf =>
    split at h
    · cases h
    · cases h
    · next record =>
      split at h
      · cases h
      · next hs =>
        split at h
        · cases h
        · next hc =>
          cases h
          exact ⟨hf, rfl, Decidable.not_not.mp hs, hc⟩

private theorem seenRecord_text_ne {path : String} {dir dir' : StoreDir} {r r' : OperationRecord}
    (hd : seenRecord path dir = .ok (some r)) (hd' : dir'.record = .text (.ok r')) (hne : r' ≠ r) :
    seenRecord path dir' ≠ seenRecord path dir := by
  intro h
  rw [hd] at h
  obtain ⟨-, hf, -, -⟩ := readRecord_eq_some h
  rw [hd'] at hf
  cases hf
  exact hne rfl

private theorem stamped_ne (next expected : OperationRecord) (now : String) :
    next.stamped expected now ≠ expected := by
  intro h
  have := congrArg OperationRecord.revision h
  simp [OperationRecord.stamped] at this

/-- The directory cannot be opened or synced exactly when `sync_dir` fails. -/
private theorem syncDir_eq_ok_iff (io : Io) :
    syncDir io = .ok () ↔ io.fails .openDir = none ∧ io.fails .syncDir = none := by
  unfold syncDir
  cases h₁ : io.fails .openDir <;> cases h₂ : io.fails .syncDir <;> simp

/-- A write that fails in the directory sync has already replaced the record. -/
private theorem not_failureAtomic_of_syncDir {io : Io} {path : String} {dir : StoreDir}
    {expected next : OperationRecord} {label e : String}
    (hr : RenameDone io path dir expected next label) (hs : syncDir io = .error e) :
    ¬FailureAtomic io path dir expected next label := by
  intro h
  obtain ⟨_, _, _, _, hn⟩ | ⟨-, hd, hw⟩ := writeCasAs_cases io path dir expected next label
  · exact hn hr
  · rw [hs] at hw
    have hseen := h (.io e) (writeCasAs io path dir expected next label).2 (Prod.ext hw rfl)
    obtain ⟨-, hf, hschema, hcheck⟩ := readRecord_eq_some hr.current
    have hold : seenRecord path dir = .ok (some expected) := by
      simp [seenRecord, readRecord, Io.quiet, hf, hschema, hcheck]
    exact seenRecord_text_ne hold hd (stamped_ne _ _ _) hseen

/-- A failed write is atomic exactly when the failing step is not the directory sync
that follows the rename. -/
theorem failureAtomic_iff (io : Io) (path : String) (dir : StoreDir)
    (expected next : OperationRecord) (label : String) :
    FailureAtomic io path dir expected next label ↔
      ¬(RenameDone io path dir expected next label ∧
        ¬(io.fails .openDir = none ∧ io.fails .syncDir = none)) := by
  rw [← syncDir_eq_ok_iff]
  rcases writeCasAs_cases io path dir expected next label with
    ⟨e, dir', hw, hd, hr⟩ | ⟨hr, hd, hw⟩
  · refine iff_of_true ?_ fun h ↦ hr h.1
    intro e₂ dir₂ h
    rw [hw] at h
    cases h
    simp only [seenRecord, hd]
  · cases hs : syncDir io with
    | ok =>
      refine iff_of_true ?_ fun h ↦ h.2 rfl
      intro e dir' h
      rw [hs, h] at hw
      cases hw
    | error e =>
      exact iff_of_false (not_failureAtomic_of_syncDir hr hs) fun h ↦ h ⟨hr, by simp⟩

/-- The launcher's first write with only the directory sync failing: the caller gets an
error and a later reader the claimed record, not the reserved one. -/
theorem failureAtomic_claim_syncDir :
    ¬∀ io path dir expected next label, FailureAtomic io path dir expected next label := by
  intro h
  let envelope : Envelope := ⟨"sha", .null, "op", "rt", none⟩
  let launcher : ProcessId := ⟨7, "1:0", "boot", 501⟩
  let old := OperationRecord.reserved envelope "t0"
  let new : OperationRecord :=
    { old with
      state := .pending
      phase := .claimed
      writer := .of .launcher launcher
      participants := { launcher := some launcher } }
  have hr : RenameDone (.failing .syncDir "EIO" "t1") "op.json" ⟨.text (.ok old), none⟩ old new
      "pending" := ⟨by decide, rfl, rfl, rfl, rfl, rfl, rfl, rfl⟩
  exact not_failureAtomic_of_syncDir hr rfl (h _ _ _ _ _ _)

end PtySpec.Operation
