import PtySpec.Lib.Worlds
import PtySpec.Operation.Recovery

/-!
# What a retirement may do

Every run of `retire`, `crates/pty-core/src/operation/settle.rs:696`, on a record's file: the
grounds on which it writes, kills and removes, what its answers leave behind, and that an
interrupted retirement can be taken up again. The exclusive lock keeps other writers away.
-/

namespace PtySpec.Operation.Recovery

open Lib Prog

/-! ### Runs on a record's file -/

/-- What was asked and answered, newest first. -/
abbrev Past := List (Σ o : Op, o.Ans)

/-- The question was asked and so answered. -/
def Told (past : Past) (o : Op) (r : o.Ans) : Prop := ⟨o, r⟩ ∈ past

/-- The record's file, and what was asked so far. -/
structure Site where
  dir : StoreDir
  past : Past

/-- The site once a question was answered that does not touch the file. -/
def Site.after (w : Site) (o : Op) (r : o.Ans) : Site := { w with past := ⟨o, r⟩ :: w.past }

/-- Which calls of the store may fail, and what else may be answered. -/
structure Surroundings where
  luck : Io → Prop
  may : (e : EnvOp) → e.Ans → Prop

/-- Whatever happens. -/
def anyhow : Surroundings := ⟨fun _ ↦ True, fun _ _ ↦ True⟩

/-- The answers to a question, and the site after them. -/
def Surroundings.serves (c : Surroundings) (path : String) (w : Site) :
    (o : Op) → o.Ans → Site → Prop
  | .writeCas expected next label, r, w' => ∃ io, c.luck io ∧
      r = (writeCasAs io path w.dir expected next label).1 ∧
      w' = { w.after (.writeCas expected next label) r with
        dir := (writeCasAs io path w.dir expected next label).2 }
  | .readRecord, r, w' => ∃ io, c.luck io ∧ r = readRecord io path w.dir.record ∧
      w' = w.after .readRecord r
  | .env e, r, w' => c.may e r ∧ w' = w.after (.env e) r
  | o, r, w' => w' = w.after o r

/-! ### What may be done on which grounds -/

/-- The record is answered for a request without anything being done, `settle.rs:762-775`. -/
def answered (q : Request) (record : OperationRecord) : Bool :=
  (record.retirement.any fun r ↦ r.phase != .requested && r.requestId == q.requestId) ||
    decide (record.state = .cancelled ∨ record.retirementPhase = some .verified)

/-- The held child of a record, `settle.rs:843-847`. -/
def childOf (record : OperationRecord) : Option ProcessId :=
  (record.incarnation.bind (·.child)).or record.participants.child

/-- The record of a request, `settle.rs:811`. -/
def request (q : Request) (me : ProcessId) (record : OperationRecord) : OperationRecord :=
  { record with
    writer := .of .recovery me
    retirement := some ⟨q.requestId, .requested, .object []⟩ }

/-- The lock is taken, the record read is the one asked about and not answered yet, and all who
could act are gone by their exact identities. -/
structure Grounds (q : Request) (past : Past) (record : OperationRecord) (boot : Option String) :
    Prop where
  locked : Told past (.env .lockExclusive) .taken
  read : Told past .readRecord (.ok (some record))
  tuple : mismatch q record = none
  unanswered : answered q record = false
  booted : Told past (.env .bootIdentity) boot
  gone : ∃ table, Told past (.env .procTable) table ∧
    ∀ p ∈ actors record, p.2.liveness table boot = .gone

/-- The request was recorded. -/
def Requested (q : Request) (past : Past) (record requested : OperationRecord) : Prop :=
  ∃ me now, requested = (request q me record).stamped record now ∧
    Told past (.writeCas record (request q me record) "recovery-requested") (.ok requested)

/-- The child was seen to be gone. -/
def ChildGone (past : Past) (boot : Option String) (child : ProcessId) : Prop :=
  (∃ table, Told past (.env (.processTableOf child.pid)) table ∧
      child.liveness table boot = .gone) ∨
    Told past (.env (.livenessAfterExit child boot)) .gone

/-- The registry's row of an incarnation is its own no longer. -/
def RowGone (past : Past) (inc : Incarnation) : Prop :=
  ∃ row ∈ ["removed", "absent", "other-generation"], Told past (.env (.unwindRow inc)) row

/-- How a requested retirement is concluded: what was never launched is cancelled; a launch is
verified only if its child was seen to be gone and its row is gone. -/
inductive Concludes (q : Request) (past : Past) (boot : Option String)
    (requested : OperationRecord) : OperationRecord → Prop
  | withdrawn (now : String) : requested.state = .reserved →
    Concludes q past boot requested { retired q requested true [] with
      state := .cancelled, decision := some ⟨.withdrawn, now, some q.requestId, none⟩ }
  | producerLost (now : String) : requested.state = .pending →
    Concludes q past boot requested { retired q requested true [] with
      state := .cancelled, decision := some ⟨.producerLost, now, some q.requestId, none⟩ }
  | launched (verified : Bool) (evidence : List (String × Value)) : requested.state = .launched →
    (verified = true → (∀ child, childOf requested = some child → ChildGone past boot child) ∧
      ∀ inc, requested.incarnation = some inc → RowGone past inc) →
    Concludes q past boot requested (retired q requested verified evidence)

/-- The question is only to look, or for the operation's lock. -/
def looks : Op → Bool
  | .readRecord | .env .lockExclusive | .env .unlock | .env .bootIdentity | .env .procTable
  | .env (.processTableOf _) | .env .current | .env .now | .env (.pin ..) | .env (.waitExit _)
  | .env (.livenessAfterExit ..) | .env (.settle _) => true
  | _ => false

/-- What may be asked after what was told. Questions that only look may always be asked. -/
def Allowed (q : Request) (past : Past) : Op → Prop
  | .writeCas expected next label =>
    (∃ boot me, Grounds q past expected boot ∧ next = request q me expected ∧
        label = "recovery-requested") ∨
      ∃ boot record, Grounds q past record boot ∧ Requested q past record expected ∧
        Concludes q past boot expected next
  | .env (.signalKill id) => ∃ boot record requested, Grounds q past record boot ∧
      Requested q past record requested ∧ record.state = .launched ∧ childOf record = some id ∧
      Told past (.env (.pin id boot)) (.ok true) ∧
      ∃ table, Told past (.env (.processTableOf id.pid)) table ∧ id.liveness table boot = .live
  | .env (.unwindRow inc) => ∃ boot record requested, Grounds q past record boot ∧
      Requested q past record requested ∧ record.state = .launched ∧
      record.incarnation = some inc
  | o => looks o = true

section Mono

variable {q : Request} {past past' : Past} (hle : ∀ e ∈ past, e ∈ past')
include hle

private theorem Grounds.mono {record : OperationRecord} {boot : Option String}
    (h : Grounds q past record boot) : Grounds q past' record boot := by
  obtain ⟨table, ht, hgone⟩ := h.gone
  exact ⟨hle _ h.locked, hle _ h.read, h.tuple, h.unanswered, hle _ h.booted, table, hle _ ht,
    hgone⟩

private theorem Requested.mono {record requested : OperationRecord}
    (h : Requested q past record requested) : Requested q past' record requested := by
  obtain ⟨me, now, heq, ht⟩ := h
  exact ⟨me, now, heq, hle _ ht⟩

private theorem ChildGone.mono {boot : Option String} {child : ProcessId}
    (h : ChildGone past boot child) : ChildGone past' boot child := by
  obtain ⟨table, ht, hgone⟩ | h := h
  · exact .inl ⟨table, hle _ ht, hgone⟩
  · exact .inr (hle _ h)

private theorem Concludes.mono {boot : Option String} {requested next : OperationRecord}
    (h : Concludes q past boot requested next) : Concludes q past' boot requested next := by
  cases h with
  | withdrawn now hs => exact .withdrawn now hs
  | producerLost now hs => exact .producerLost now hs
  | launched verified evidence hs hv =>
    refine .launched verified evidence hs fun hverified ↦ ?_
    obtain ⟨hchild, hrow⟩ := hv hverified
    refine ⟨fun child hc ↦ (hchild child hc).mono hle, fun inc hi ↦ ?_⟩
    obtain ⟨row, hmem, ht⟩ := hrow inc hi
    exact ⟨row, hmem, hle _ ht⟩

private theorem Allowed.mono {o : Op} (h : Allowed q past o) : Allowed q past' o := by
  cases o with
  | writeCas expected next label =>
    obtain ⟨boot, me, hg, hn⟩ | ⟨boot, record, hg, hr, hc⟩ := h
    · exact .inl ⟨boot, me, hg.mono hle, hn⟩
    · exact .inr ⟨boot, record, hg.mono hle, hr.mono hle, hc.mono hle⟩
  | env e =>
    cases e with
    | signalKill id =>
      obtain ⟨boot, record, requested, hg, hr, hs, hc, hp, table, ht, hl⟩ := h
      exact ⟨boot, record, requested, hg.mono hle, hr.mono hle, hs, hc, hle _ hp, table,
        hle _ ht, hl⟩
    | unwindRow inc =>
      obtain ⟨boot, record, requested, hg, hr, hs⟩ := h
      exact ⟨boot, record, requested, hg.mono hle, hr.mono hle, hs⟩
    | _ => exact h
  | _ => exact h

end Mono

/-! ### The invariant of a run -/

/-- The file holds a record that passes its checks. -/
def Holds (file : RecordFile) (record : OperationRecord) : Prop :=
  file = .text (.ok record) ∧ record.schema = RECORD_SCHEMA ∧ record.check = .ok ()

/-- The file holds the record a request is about. -/
def Asked (q : Request) (file : RecordFile) : Prop :=
  ∃ record, Holds file record ∧ mismatch q record = none

/-- What every run keeps that began with `file`: whatever was done was allowed, what was read was
there, and the file can still be asked about. -/
structure Lawful (q : Request) (file : RecordFile) (w : Site) : Prop where
  acts : ∀ e ∈ w.past, Allowed q w.past e.1
  read : ∀ r, Told w.past .readRecord (.ok (some r)) → Holds file r
  asked : Asked q file → Asked q w.dir.record
  unwritten : (∀ e ∈ w.past, looks e.1 = true) → w.dir.record = file

/-- A later site with the same file. -/
structure Onward (w w' : Site) : Prop where
  dir : w'.dir = w.dir
  past : ∀ e ∈ w.past, e ∈ w'.past

section Runs

variable {q : Request} {file : RecordFile} {w w' : Site} {c : Surroundings} {path : String}

private theorem Onward.refl : Onward w w := ⟨rfl, fun _ ↦ id⟩

private theorem Onward.trans {w'' : Site} (h : Onward w w') (h' : Onward w' w'') : Onward w w'' :=
  ⟨h'.dir.trans h.dir, fun e he ↦ h'.past e (h.past e he)⟩

private theorem Onward.after (w : Site) (o : Op) (r : o.Ans) : Onward w (w.after o r) :=
  ⟨rfl, fun _ ↦ List.mem_cons_of_mem _⟩

private theorem told_after (w : Site) (o : Op) (r : o.Ans) : Told (w.after o r).past o r :=
  List.mem_cons_self

private theorem Lawful.after (h : Lawful q file w) {o : Op} (ha : Allowed q w.past o) (r : o.Ans)
    (hread : ∀ record, (⟨o, r⟩ : Σ o : Op, o.Ans) = ⟨.readRecord, .ok (some record)⟩ →
      Holds file record) : Lawful q file (w.after o r) := by
  refine ⟨fun e he ↦ ?_, fun record hr ↦ ?_, h.asked,
    fun hall ↦ h.unwritten fun e he ↦ hall e (List.mem_cons_of_mem _ he)⟩
  · obtain rfl | he := List.mem_cons.mp he
    · exact ha.mono fun _ ↦ List.mem_cons_of_mem _
    · exact (h.acts e he).mono fun _ ↦ List.mem_cons_of_mem _
  · obtain hr | hr := List.mem_cons.mp hr
    · exact hread record hr.symm
    · exact h.read record hr

/-- A question to the surroundings. -/
private theorem safe_env {e : EnvOp} {Q : Site → e.Ans → Prop} (hI : Lawful q file w)
    (ha : Allowed q w.past (.env e))
    (h : ∀ r, c.may e r → Onward w (w.after (.env e) r) →
      Told (w.after (.env e) r).past (.env e) r → Q (w.after (.env e) r) r) :
    (env e).Safe (c.serves path) (Lawful q file) w Q := by
  refine safe_query hI fun r w' hr ↦ ?_
  obtain ⟨hmay, rfl⟩ := hr
  exact ⟨hI.after ha r fun _ heq ↦ (by cases heq), h r hmay (.after w _ r) (told_after w _ r)⟩

private theorem safe_now {cause : Cause} {requestId observed : Option String}
    (hI : Lawful q file w) :
    (Decision.now cause requestId observed).Safe (c.serves path) (Lawful q file) w
      fun w' d ↦ Onward w w' ∧ ∃ now, d = ⟨cause, now, requestId, observed⟩ := by
  refine Safe.seq (safe_env (Q := fun w' _ ↦ Onward w w') hI rfl fun _ _ ho _ ↦ ho) ?_
  exact fun w' now hI' ho ↦ ⟨hI', ho, now, rfl⟩

/-- Whether a process lives. -/
private theorem safe_livenessNow {id : ProcessId} {boot : Option String}
    {Q : Site → Liveness → Prop} (hI : Lawful q file w)
    (h : ∀ w' table, Onward w w' → Told w'.past (.env (.processTableOf id.pid)) table →
      Q w' (id.liveness table boot)) :
    (livenessNow id boot).Safe (c.serves path) (Lawful q file) w Q := by
  refine Safe.seq (safe_env (Q := fun w' table ↦ Q w' (id.liveness table boot)) hI rfl
    fun table _ ho ht ↦ h _ table ho ht) fun w' table hI' hQ ↦ ⟨hI', hQ⟩

/-- The child is killed only through its pin, and is gone only where that was seen. -/
private theorem safe_killRecorded {id : ProcessId} {boot : Option String}
    (hI : Lawful q file w)
    (hkill : ∀ w' table, Onward w w' → Told w'.past (.env (.pin id boot)) (.ok true) →
      Told w'.past (.env (.processTableOf id.pid)) table → id.liveness table boot = .live →
      Allowed q w'.past (.env (.signalKill id))) :
    (killRecorded id boot).Safe (c.serves path) (Lawful q file) w
      fun w' l ↦ Onward w w' ∧ (l = .gone → ChildGone w'.past boot id) := by
  have hnow : ∀ {w₁ : Site}, Onward w w₁ → Lawful q file w₁ →
      (livenessNow id boot).Safe (c.serves path) (Lawful q file) w₁
        fun w' l ↦ Onward w w' ∧ (l = .gone → ChildGone w'.past boot id) :=
    fun ho hI ↦ safe_livenessNow hI fun w' table ho' ht ↦
      ⟨ho.trans ho', fun hgone ↦ .inl ⟨table, ht, hgone⟩⟩
  refine Safe.seq (safe_livenessNow hI (Q := fun w' l ↦ Onward w w' ∧ ∃ table,
    Told w'.past (.env (.processTableOf id.pid)) table ∧ l = id.liveness table boot)
    fun w' table ho ht ↦ ⟨ho, table, ht, rfl⟩) ?_
  rintro w₁ l hI₁ ⟨ho₁, table, ht₁, rfl⟩
  split
  · exact hnow ho₁ hI₁
  · next hlive =>
    refine Safe.seq (safe_env (Q := fun w' r ↦ Onward w₁ w' ∧
      Told w'.past (.env (.pin id boot)) r) hI₁ rfl fun r _ ho ht ↦ ⟨ho, ht⟩) ?_
    rintro w₂ r hI₂ ⟨ho₂, ht₂⟩
    have ho₁₂ := ho₁.trans ho₂
    split
    · refine Safe.seq (safe_env (Q := fun w' _ ↦ Onward w₂ w') hI₂
        (hkill w₂ table ho₁₂ ht₂ (ho₂.past _ ht₁) (not_not.mp hlive)) fun r _ ho _ ↦ ho) ?_
      intro w₃ r₃ hI₃ ho₃
      have ho₁₃ := ho₁₂.trans ho₃
      split
      · exact ⟨hI₃, ho₁₃, fun hl ↦ by cases hl⟩
      · refine Safe.seq (safe_env (Q := fun w' _ ↦ Onward w₃ w') hI₃ rfl fun r _ ho _ ↦ ho) ?_
        intro w₄ r₄ hI₄ ho₄
        split
        · exact safe_env hI₄ rfl fun l _ ho ht ↦
            ⟨(ho₁₃.trans ho₄).trans ho, fun hl ↦ .inr (hl ▸ ht)⟩
        · exact ⟨hI₄, ho₁₃.trans ho₄, fun hl ↦ by cases hl⟩
    · exact hnow ho₁₂ hI₂
    · exact ⟨hI₂, ho₁₂, fun hl ↦ by cases hl⟩

/-- The held child of a launched record, if there is one, with whether it is seen to be gone. -/
private theorem safe_endChild {boot : Option String} {record requested : OperationRecord}
    (hI : Lawful q file w) (hg : Grounds q w.past record boot)
    (hr : Requested q w.past record requested) (hs : record.state = .launched) :
    (endChild requested boot).Safe (c.serves path) (Lawful q file) w
      fun w' p ↦ Onward w w' ∧
        (p.2 = true → ∀ child, childOf requested = some child → ChildGone w'.past boot child) := by
  have hsame : childOf requested = childOf record := by
    obtain ⟨me, now, rfl, -⟩ := hr
    rfl
  unfold endChild
  split
  · next hnone =>
    refine ⟨hI, .refl, fun _ child hc ↦ ?_⟩
    rw [childOf, hnone] at hc
    cases hc
  · next child hchild =>
    refine Safe.seq (safe_killRecorded hI fun w' table ho hp ht hl ↦ ?_) ?_
    · exact ⟨boot, record, requested, hg.mono ho.past, hr.mono ho.past, hs,
        hsame.symm.trans hchild, hp, table, ht, hl⟩
    · rintro w' l hI' ⟨ho, hgone⟩
      refine ⟨hI', ho, fun hl child' hc ↦ ?_⟩
      cases hchild.symm.trans hc
      exact hgone (by simpa using hl)

private theorem safe_unwindRow {boot : Option String} {record requested : OperationRecord}
    (hI : Lawful q file w) (hg : Grounds q w.past record boot)
    (hr : Requested q w.past record requested) (hs : record.state = .launched) :
    (unwindRow requested).Safe (c.serves path) (Lawful q file) w
      fun w' row ↦ Onward w w' ∧
        ∀ inc, requested.incarnation = some inc → Told w'.past (.env (.unwindRow inc)) row := by
  have hsame : requested.incarnation = record.incarnation := by
    obtain ⟨me, now, rfl, -⟩ := hr
    rfl
  unfold unwindRow
  split
  · next hnone =>
    refine ⟨hI, .refl, fun inc hi ↦ ?_⟩
    rw [hnone] at hi
    cases hi
  · next inc hinc =>
    refine safe_env hI ⟨boot, record, requested, hg, hr, hs, hsame.symm.trans hinc⟩
      fun row _ ho ht ↦ ⟨ho, fun inc' hi ↦ ?_⟩
    cases hinc.symm.trans hi
    exact ht

/-- The record that concludes a request, which there is for every state that is not yet
answered. -/
private theorem safe_terminalRecord {boot : Option String} {record requested : OperationRecord}
    (hI : Lawful q file w) (hg : Grounds q w.past record boot)
    (hr : Requested q w.past record requested)
    (hopen : requested.state ≠ .cancelled ∧ requested.state ≠ .transferred) :
    (terminalRecord q boot requested).Safe (c.serves path) (Lawful q file) w
      fun w' t ↦ Onward w w' ∧ ∃ next, t = some next ∧
        Concludes q w'.past boot requested next := by
  have hsame : requested.state = record.state := by
    obtain ⟨me, now, rfl, -⟩ := hr
    rfl
  unfold terminalRecord
  split
  · next hs =>
    refine (safe_now hI).seq ?_
    rintro w' d hI' ⟨ho, now, rfl⟩
    exact ⟨hI', ho, _, rfl, .withdrawn now hs⟩
  · next hs =>
    refine (safe_now hI).seq ?_
    rintro w' d hI' ⟨ho, now, rfl⟩
    exact ⟨hI', ho, _, rfl, .producerLost now hs⟩
  · next hs =>
    have hs' := hsame.symm.trans hs
    refine Safe.seq (safe_endChild hI hg hr hs') ?_
    rintro w₁ ⟨child, gone⟩ hI₁ ⟨ho₁, hgone⟩
    refine Safe.seq (safe_unwindRow hI₁ (hg.mono ho₁.past) (hr.mono ho₁.past) hs') ?_
    rintro w₂ row hI₂ ⟨ho₂, hrow⟩
    refine ⟨hI₂, ho₁.trans ho₂, _, rfl, .launched _ _ hs fun hv ↦ ?_⟩
    simp only [Bool.and_eq_true, Bool.or_eq_true, beq_iff_eq] at hv
    refine ⟨fun child' hc ↦ (hgone hv.1 child' hc).mono ho₂.past, fun inc hi ↦
      ⟨row, ?_, hrow inc hi⟩⟩
    obtain (h | h) | h := hv.2 <;> simp [h]
  · next hs => exact absurd hs hopen.1
  · next hs => exact absurd hs hopen.2

/-! ### The two writes -/

/-- Nothing fails in the store. -/
def Surroundings.Quiet (c : Surroundings) : Prop := ∀ io, c.luck io → ∃ now, io = .quiet now

private theorem readRecord_quiet {record : OperationRecord} (h : Holds file record)
    (now : String) : readRecord (.quiet now) path file = .ok (some record) := by
  obtain ⟨rfl, hschema, hcheck⟩ := h
  simp [readRecord, Io.quiet, hschema, hcheck]

/-- A write that lands is told, with the version that the file then holds. It lands where
nothing fails in the store. -/
private theorem safe_writeCas {expected next : OperationRecord} {label : String}
    (hI : Lawful q file w) (ha : Allowed q w.past (.writeCas expected next label))
    (hschema : next.schema = RECORD_SCHEMA) (hq : mismatch q next = none) :
    (query (Op.writeCas expected next label) : Act _).Safe (c.serves path) (Lawful q file) w
      fun w' r ↦ (∀ e ∈ w.past, e ∈ w'.past) ∧
        (∀ written, r = .ok written → ∃ now, written = next.stamped expected now ∧
          Holds w'.dir.record written ∧
          Told w'.past (.writeCas expected next label) (.ok written)) ∧
        (c.Quiet → Holds w.dir.record expected → next.check = .ok () →
          ∃ written, r = .ok written) := by
  refine safe_query hI fun r w' hr ↦ ?_
  obtain ⟨io, hluck, rfl, rfl⟩ := hr
  have hI' := hI.after ha (writeCasAs io path w.dir expected next label).1
    fun _ heq ↦ by cases heq
  have hwrote : ∀ {r} {file' : RecordFile}, (∀ e ∈ (w.after (.writeCas expected next label) r).past,
      looks e.1 = true) → file' = file := fun hall ↦ by cases hall _ (told_after w _ _)
  have hquiet : c.Quiet → Holds w.dir.record expected → next.check = .ok () →
      ∃ now, RenameDone io path w.dir expected next label ∧ io = .quiet now := by
    intro hc hholds hcheck
    obtain ⟨now, rfl⟩ := hc io hluck
    exact ⟨now, ⟨by simp [Io.quiet], hcheck, readRecord_quiet hholds now, rfl, rfl, rfl, rfl, rfl⟩,
      rfl⟩
  obtain ⟨e, dir', hw, hd, hnot⟩ | ⟨hdone, hd, hw⟩ :=
    writeCasAs_cases io path w.dir expected next label
  · rw [hw] at hI' ⊢
    refine ⟨⟨hI'.acts, hI'.read, fun hf ↦ ?_, hwrote⟩, fun _ ↦ List.mem_cons_of_mem _,
      fun _ hr ↦ (by cases hr), fun hc hholds hcheck ↦ ?_⟩
    · dsimp only
      rw [hd]
      exact hI.asked hf
    · obtain ⟨now, hdone, -⟩ := hquiet hc hholds hcheck
      exact absurd hdone hnot
  · have hholds : Holds (writeCasAs io path w.dir expected next label).2.record
        (next.stamped expected io.now) := ⟨hd, hschema, hdone.checked⟩
    refine ⟨⟨hI'.acts, hI'.read, fun _ ↦ ⟨_, hholds, hq⟩, hwrote⟩, fun _ ↦ List.mem_cons_of_mem _,
      fun written hr ↦ ?_, fun hc hholds' hcheck ↦ ?_⟩
    · refine ⟨io.now, ?_, ?_, hr ▸ told_after w _ _⟩
      · rw [hw] at hr
        split at hr <;> cases hr
        rfl
      · rw [hw] at hr
        split at hr <;> cases hr
        exact hholds
    · obtain ⟨now, -, rfl⟩ := hquiet hc hholds' hcheck
      exact ⟨_, hw⟩

end Runs

/-- A request may be recorded for every record that is not answered and not transferred. -/
theorem request_check {q : Request} {me : ProcessId} {record : OperationRecord}
    (h : record.check = .ok ()) (hanswered : answered q record = false)
    (htransferred : record.state ≠ .transferred) : (request q me record).check = .ok () := by
  have hagrees := OperationRecord.stateAgrees_of_check h
  rw [OperationRecord.check_eq_ok_iff]
  cases hs : record.state <;>
    simp_all [request, answered, Writer.of, OperationRecord.requested, OperationRecord.terminal,
      OperationRecord.retirementPhase, OperationRecord.stateAgrees, OperationRecord.cause]

/-- A record of which nothing was launched is asked about by a request that names no
incarnation. -/
private theorem mismatch_cancelled {q : Request} {record : OperationRecord}
    (hs : record.state = .reserved ∨ record.state = .pending) (hq : mismatch q record = none)
    {next : OperationRecord} (hid : next.operationId = record.operationId)
    (hsha : next.envelopeSha256 = record.envelopeSha256) (hnext : next.state = .cancelled) :
    mismatch q next = none := by
  unfold mismatch at hq ⊢
  rw [hid, hsha, hnext]
  obtain hs | hs := hs <;> simp_all

/-- The record that concludes a request passes its checks, is still the one asked about, and
answers the request. -/
theorem Concludes.sound {q : Request} {past : Past} {boot : Option String}
    {requested next : OperationRecord} (h : Concludes q past boot requested next)
    (hcheck : requested.check = .ok ()) (hq : mismatch q requested = none) :
    next.check = .ok () ∧ next.schema = requested.schema ∧ mismatch q next = none ∧
      answered q next = true := by
  have hagrees := OperationRecord.stateAgrees_of_check hcheck
  cases h with
  | withdrawn now hs =>
    refine ⟨?_, rfl, mismatch_cancelled (.inl hs) hq rfl rfl rfl, by simp [answered]⟩
    rw [OperationRecord.check_eq_ok_iff]
    simp_all [retired, Writer.nobody, OperationRecord.requested, OperationRecord.terminal,
      OperationRecord.retirementPhase, OperationRecord.stateAgrees, OperationRecord.cause]
  | producerLost now hs =>
    refine ⟨?_, rfl, mismatch_cancelled (.inr hs) hq rfl rfl rfl, by simp [answered]⟩
    rw [OperationRecord.check_eq_ok_iff]
    simp_all [retired, Writer.nobody, OperationRecord.requested, OperationRecord.terminal,
      OperationRecord.retirementPhase, OperationRecord.stateAgrees, OperationRecord.cause]
  | launched verified evidence hs _ =>
    refine ⟨?_, rfl, hq, ?_⟩
    · rw [OperationRecord.check_eq_ok_iff]
      cases verified <;>
        simp_all [retired, Writer.nobody, OperationRecord.requested, OperationRecord.terminal,
          OperationRecord.retirementPhase, OperationRecord.stateAgrees, OperationRecord.cause]
    · cases verified <;> simp [answered, retired]

/-! ### The whole command -/

/-- Nothing fails in the store, the lock is free, the command knows itself, and all who are
recorded and could act are gone. -/
structure Surroundings.Able (c : Surroundings) (record : OperationRecord) : Prop where
  quiet : c.Quiet
  lock : ∀ r, c.may .lockExclusive r → r = .taken
  current : ∀ r, c.may .current r → ∃ me, r = .ok me
  gone : ∀ boot table, c.may .bootIdentity boot → c.may .procTable table →
    ∀ p ∈ actors record, p.2.liveness table boot = .gone

/-- How a run ends: a refusal, other than of a write, leaves the file as it was; an answer leaves
a record that answers the request; and it is an answer where nothing stands in the way. -/
structure Ends (q : Request) (c : Surroundings) (file : RecordFile) (w : Site)
    (r : Except RetireRefusal Verdict) : Prop where
  refused : ∀ e, r = .error e → e.code ≠ "record-write" → w.dir.record = file
  answered : ∀ v, r = .ok v → ∃ record, Holds w.dir.record record ∧ mismatch q record = none ∧
    answered q record = true
  able : ∀ record, Holds file record → mismatch q record = none → c.Able record → ∃ v, r = .ok v

section Command

variable {q : Request} {file : RecordFile} {w w' : Site} {c : Surroundings} {path : String}

private theorem safe_snapshotAfter {record : OperationRecord} (hI : Lawful q file w)
    (hholds : Holds w.dir.record record) (hq : mismatch q record = none)
    (ha : answered q record = true) :
    (snapshotAfter q).Safe (c.serves path) (Lawful q file) w (Ends q c file) := by
  refine Safe.seq (safe_env (Q := fun w' _ ↦ w'.dir = w.dir) hI rfl
    fun _ _ ho _ ↦ ho.dir) fun w₁ _ hI₁ hd₁ ↦ ?_
  refine Safe.seq (safe_env (Q := fun w' _ ↦ w'.dir = w.dir) hI₁ rfl
    fun _ _ ho _ ↦ ho.dir.trans hd₁) fun w₂ v hI₂ hd₂ ↦ ⟨hI₂, ?_, ?_, ?_⟩
  · rintro e ⟨⟩
  · exact fun _ _ ↦ ⟨record, hd₂ ▸ hholds, hq, ha⟩
  · exact fun _ _ _ _ ↦ ⟨v, rfl⟩

private theorem safe_conclude {boot : Option String} {record requested : OperationRecord}
    (hI : Lawful q file w) (hg : Grounds q w.past record boot)
    (hr : Requested q w.past record requested) (hholds : Holds w.dir.record requested)
    (hopen : record.state ≠ .cancelled ∧ record.state ≠ .transferred) :
    (conclude q boot requested).Safe (c.serves path) (Lawful q file) w (Ends q c file) := by
  have hsame : requested.state = record.state ∧ mismatch q requested = mismatch q record := by
    obtain ⟨me, now, rfl, -⟩ := hr
    exact ⟨rfl, rfl⟩
  have hq : mismatch q requested = none := hsame.2.trans hg.tuple
  refine (safe_terminalRecord hI hg hr (by rw [hsame.1]; exact hopen)).seq ?_
  rintro w₁ t hI₁ ⟨ho₁, next, rfl, hconcludes⟩
  obtain ⟨hcheck, hschema, hq', ha⟩ := hconcludes.sound hholds.2.2 hq
  refine (safe_writeCas hI₁ (.inr ⟨boot, record, hg.mono ho₁.past, hr.mono ho₁.past, hconcludes⟩)
    (hschema.trans hholds.2.1) hq').seq ?_
  rintro w₂ r hI₂ ⟨-, hok, hquiet⟩
  cases r with
  | error e =>
    refine ⟨hI₂, fun e he hne ↦ ?_, fun v hv ↦ (by cases hv), fun r hf hqr hable ↦ ?_⟩
    · cases he
      exact absurd rfl hne
    · obtain ⟨written, hw⟩ := hquiet hable.quiet (ho₁.dir ▸ hholds) hcheck
      cases hw
  | ok written =>
    obtain ⟨now, rfl, hholds₂, -⟩ := hok written rfl
    exact safe_snapshotAfter hI₂ hholds₂ hq' ha

private theorem safe_takeOver {boot : Option String} {record : OperationRecord}
    (hI : Lawful q file w) (hg : Grounds q w.past record boot) (hdir : w.dir.record = file)
    (hholds : Holds file record)
    (hopen : record.state ≠ .cancelled ∧ record.state ≠ .transferred) :
    (takeOver q boot record).Safe (c.serves path) (Lawful q file) w (Ends q c file) := by
  refine Safe.seq (safe_env (Q := fun w' r ↦ Onward w w' ∧ c.may .current r) hI rfl
    fun r hr ho _ ↦ ⟨ho, hr⟩) ?_
  rintro w₁ r hI₁ ⟨ho₁, hcurrent⟩
  have hdir₁ : w₁.dir.record = file := ho₁.dir ▸ hdir
  cases r with
  | error e =>
    refine ⟨hI₁, fun _ _ _ ↦ hdir₁, fun v hv ↦ (by cases hv), fun r _ _ hable ↦ ?_⟩
    obtain ⟨me, hme⟩ := hable.current _ hcurrent
    cases hme
  | ok me =>
    refine (safe_writeCas hI₁ (.inl ⟨boot, me, hg.mono ho₁.past, rfl, rfl⟩) hholds.2.1
      hg.tuple).seq ?_
    rintro w₂ r hI₂ ⟨hpast, hok, hquiet⟩
    cases r with
    | error e =>
      refine ⟨hI₂, fun e he hne ↦ ?_, fun v hv ↦ (by cases hv), fun r _ _ hable ↦ ?_⟩
      · cases he
        exact absurd rfl hne
      · obtain ⟨written, hw⟩ := hquiet hable.quiet (hdir₁ ▸ hholds)
          (request_check hholds.2.2 hg.unanswered hopen.2)
        cases hw
    | ok written =>
      obtain ⟨now, hwritten, hholds₂, htold⟩ := hok written rfl
      exact safe_conclude hI₂ ((hg.mono ho₁.past).mono hpast) ⟨me, now, hwritten, htold⟩ hholds₂
        hopen

private theorem refusalOf_eq_none {table : ProcTable} {boot : Option String}
    {ids : List (String × ProcessId)} :
    refusalOf table boot ids = none ↔ ∀ p ∈ ids, p.2.liveness table boot = .gone := by
  induction ids with
  | nil => simp [refusalOf]
  | cons p ids ih =>
    obtain ⟨role, id⟩ := p
    rw [refusalOf, List.forall_mem_cons]
    cases id.liveness table boot with
    | gone => simp [ih]
    | live => simp
    | unknown reason => simp

private theorem safe_retireRecord {record : OperationRecord} (hI : Lawful q file w)
    (hlocked : Told w.past (.env .lockExclusive) .taken)
    (hread : Told w.past .readRecord (.ok (some record))) (hq : mismatch q record = none)
    (hdir : w.dir.record = file) :
    (retireRecord q record).Safe (c.serves path) (Lawful q file) w (Ends q c file) := by
  have hholds := hI.read record hread
  unfold retireRecord
  split
  · next h =>
    exact safe_snapshotAfter hI (hdir ▸ hholds) hq (by rw [answered, h, Bool.true_or])
  · next h₁ =>
    split
    · next h => exact safe_snapshotAfter hI (hdir ▸ hholds) hq (by simp [answered, h])
    · next h₂ =>
      have hopen : record.state ≠ .cancelled ∧ record.state ≠ .transferred := by
        refine ⟨fun hs ↦ h₂ (.inl hs), fun hs ↦ ?_⟩
        unfold mismatch at hq
        rw [if_pos hs] at hq
        split at hq
        · cases hq
        · split at hq <;> cases hq
      refine Safe.seq (safe_env (Q := fun w' boot ↦ Onward w w' ∧ c.may .bootIdentity boot ∧
        Told w'.past (.env .bootIdentity) boot) hI rfl fun r hr ho ht ↦ ⟨ho, hr, ht⟩) ?_
      rintro w₁ boot hI₁ ⟨ho₁, hboot, hb₁⟩
      refine Safe.seq (safe_env (Q := fun w' table ↦ Onward w₁ w' ∧ c.may .procTable table ∧
        Told w'.past (.env .procTable) table) hI₁ rfl fun r hr ho ht ↦ ⟨ho, hr, ht⟩) ?_
      rintro w₂ table hI₂ ⟨ho₂, htable, ht₂⟩
      have ho₁₂ := ho₁.trans ho₂
      have hdir₂ : w₂.dir.record = file := ho₁₂.dir ▸ hdir
      split
      · next refusal hrefusal =>
        refine ⟨hI₂, fun _ _ _ ↦ hdir₂, fun v hv ↦ (by cases hv), fun r hr _ hable ↦ ?_⟩
        cases RecordFile.text.inj (hholds.1.symm.trans hr.1)
        rw [refusalOf_eq_none.mpr (hable.gone boot table hboot htable)] at hrefusal
        cases hrefusal
      · next hnone =>
        refine safe_takeOver hI₂ ⟨ho₁₂.past _ hlocked, ho₁₂.past _ hread, hq, ?_,
          ho₂.past _ hb₁, table, ht₂, refusalOf_eq_none.mp hnone⟩ hdir₂ hholds hopen
        simp only [answered, Bool.or_eq_false_iff, decide_eq_false_iff_not]
        exact ⟨by simpa using h₁, h₂⟩

private theorem safe_retire {dir : StoreDir} (hdir : dir.record = file) :
    (retire q).Safe (c.serves path) (Lawful q file) ⟨dir, []⟩ (Ends q c file) := by
  have hI : Lawful q file ⟨dir, []⟩ := by
    refine ⟨by simp, fun r hr ↦ ?_, fun h ↦ hdir.symm ▸ h, fun _ ↦ hdir⟩
    cases hr
  have hrefuse : ∀ {w : Site} {code detail : String}, Lawful q file w → w.dir.record = file →
      (∀ record, Holds file record → mismatch q record = none → ¬ c.Able record) →
      (refuse code detail).Safe (c.serves path) (Lawful q file) w (Ends q c file) :=
    fun hI hd hnot ↦ ⟨hI, fun _ _ _ ↦ hd, fun v hv ↦ (by cases hv),
      fun r hr hq hable ↦ absurd hable (hnot r hr hq)⟩
  refine Safe.seq (safe_env (Q := fun w' r ↦ w'.dir.record = file ∧ c.may .lockExclusive r ∧
    Told w'.past (.env .lockExclusive) r) hI rfl
    fun r hr ho ht ↦ ⟨ho.dir ▸ hdir, hr, ht⟩) ?_
  rintro w₁ r hI₁ ⟨hd₁, hlock, ht₁⟩
  cases r with
  | held => exact hrefuse hI₁ hd₁ fun _ _ _ hable ↦ by cases hable.lock _ hlock
  | notFound => exact hrefuse hI₁ hd₁ fun _ _ _ hable ↦ by cases hable.lock _ hlock
  | failed e => exact hrefuse hI₁ hd₁ fun _ _ _ hable ↦ by cases hable.lock _ hlock
  | taken =>
    refine Safe.seq (safe_query (Q := fun w' r ↦ Lawful q file w' ∧ w'.dir.record = file ∧
      Told w'.past (.env .lockExclusive) .taken ∧ Told w'.past .readRecord r ∧
      (c.Quiet → ∃ now, r = readRecord (.quiet now) path file)) hI₁ fun r w' hr ↦ ?_) ?_
    · obtain ⟨io, hluck, rfl, rfl⟩ := hr
      have hI' : Lawful q file (w₁.after .readRecord (readRecord io path w₁.dir.record)) := by
        refine hI₁.after (o := .readRecord) rfl _ fun record heq ↦ ?_
        have hread : readRecord io path w₁.dir.record = .ok (some record) := by
          injection heq
        obtain ⟨-, hf, hschema, hcheck⟩ := readRecord_eq_some hread
        exact ⟨hd₁.symm.trans hf, hschema, hcheck⟩
      refine ⟨hI', hI', hd₁, List.mem_cons_of_mem _ ht₁, told_after w₁ _ _, fun hc ↦ ?_⟩
      obtain ⟨now, rfl⟩ := hc io hluck
      exact ⟨now, by rw [hd₁]⟩
    · rintro w₂ r hI₂ ⟨-, hd₂, ht₂, hread, hquiet⟩
      have hnot : (∀ record, r ≠ .ok (some record)) →
          ∀ record, Holds file record → mismatch q record = none → ¬ c.Able record := by
        intro hne record hholds _ hable
        obtain ⟨now, rfl⟩ := hquiet hable.quiet
        exact hne record (readRecord_quiet hholds now)
      split
      · exact hrefuse hI₂ hd₂ (hnot fun _ hr ↦ by cases hr)
      · exact hrefuse hI₂ hd₂ (hnot fun _ hr ↦ by cases hr)
      · next record =>
        have hholds := hI₂.read record hread
        split
        · next refusal hq =>
          refine ⟨hI₂, fun _ _ _ ↦ hd₂, fun v hv ↦ (by cases hv), fun r hr hqr _ ↦ ?_⟩
          cases RecordFile.text.inj (hholds.1.symm.trans hr.1)
          rw [hq] at hqr
          cases hqr
        · next hq => exact safe_retireRecord hI₂ ht₂ hread hq hd₂

end Command

/-- A reservation that nobody took up. -/
private def reservation : OperationRecord := .reserved ⟨"sha", .null, "op", "rt", none⟩ "t0"

/-- Its retirement, answer by answer. -/
private theorem reservation_retired : ∃ r v, (retire ⟨"op", "sha", "r1", none, "op.json"⟩).Comes
    (anyhow.serves "op.json") ⟨⟨.text (.ok reservation), none⟩, []⟩ (ret (.ok r)) v ∧
      v.past.length = 10 := by
  have h₀ : (retire ⟨"op", "sha", "r1", none, "op.json"⟩).Comes (anyhow.serves "op.json")
      ⟨⟨.text (.ok reservation), none⟩, []⟩ _ _ := .here _ _
  have h₁ := h₀.tail ExclusiveLock.taken ⟨trivial, rfl⟩
  have h₂ := h₁.tail (.ok (some reservation)) ⟨.quiet "t1", trivial, rfl, rfl⟩
  have h₃ := h₂.tail (some "boot") ⟨trivial, rfl⟩
  have h₄ := h₃.tail ProcTable.unreadable ⟨trivial, rfl⟩
  have h₅ := h₄.tail (.ok ⟨7, "1:0", "boot", 501⟩) ⟨trivial, rfl⟩
  have h₆ := h₅.tail _ ⟨.quiet "t2", trivial, rfl, rfl⟩
  have h₇ := h₆.tail "t3" ⟨trivial, rfl⟩
  have h₈ := h₇.tail _ ⟨.quiet "t4", trivial, rfl, rfl⟩
  have h₉ := h₈.tail () ⟨trivial, rfl⟩
  have h₁₀ := h₉.tail ⟨"closed", none, true, .null⟩ ⟨trivial, rfl⟩
  exact ⟨_, _, h₁₀, rfl⟩

/-- A retirement can be taken up again wherever an earlier one was interrupted: where nothing
stands in the way it comes to an answer, and once the record answers the request, asking again
only looks. -/
theorem retire_resumes {q : Request} {path : String} {dir : StoreDir} {record : OperationRecord}
    (hf : Holds dir.record record) (hq : mismatch q record = none)
    {p : Act (Except RetireRefusal Verdict)} {v : Site}
    (h : (retire q).Comes (anyhow.serves path) ⟨dir, []⟩ p v) :
    ∃ left, Holds v.dir.record left ∧ mismatch q left = none ∧
      (∀ (c : Surroundings) r (v' : Site), c.Able left →
        (retire q).Comes (c.serves path) ⟨v.dir, []⟩ (ret r) v' →
          (∃ verdict, r = .ok verdict) ∧
            ∃ last, Holds v'.dir.record last ∧ answered q last = true) ∧
      (answered q left = true → ∀ p' (v' : Site),
        (retire q).Comes (anyhow.serves path) ⟨v.dir, []⟩ p' v' →
          v'.dir.record = v.dir.record ∧ ∀ e ∈ v'.past, looks e.1 = true) := by
  have hlawful : ∀ {dir' : StoreDir} {p' v'},
      (retire q).Comes (anyhow.serves path) ⟨dir', []⟩ p' v' → Lawful q dir'.record v' := fun h ↦
    (Safe.comes (safe_retire rfl) h).inv
  obtain ⟨left, hleft, hq'⟩ := (hlawful h).asked ⟨record, hf, hq⟩
  refine ⟨left, hleft, hq', fun c r v' hable h' ↦ ?_, fun ha p' v' h' ↦ ?_⟩
  · obtain ⟨-, hends⟩ := Safe.result (safe_retire rfl) h'
    obtain ⟨verdict, rfl⟩ := hends.able left hleft hq' hable
    obtain ⟨last, hlast, -, ha⟩ := hends.answered verdict rfl
    exact ⟨⟨verdict, rfl⟩, last, hlast, ha⟩
  · have hI := hlawful h'
    have hunanswered : ∀ {boot r}, ¬ Grounds q v'.past r boot := by
      intro boot r hg
      cases RecordFile.text.inj ((hI.read r hg.read).1.symm.trans hleft.1)
      rw [hg.unanswered] at ha
      cases ha
    have hlooks : ∀ e ∈ v'.past, looks e.1 = true := by
      intro e he
      have hallowed := hI.acts e he
      unfold Allowed at hallowed
      split at hallowed
      · obtain ⟨boot, me, hg, -⟩ | ⟨boot, r, hg, -⟩ := hallowed
        · exact absurd hg hunanswered
        · exact absurd hg hunanswered
      · obtain ⟨boot, r, requested, hg, -⟩ := hallowed
        exact absurd hg hunanswered
      · obtain ⟨boot, r, requested, hg, -⟩ := hallowed
        exact absurd hg hunanswered
      · exact hallowed
    exact ⟨hI.unwritten hlooks, hlooks⟩

theorem retire_resumes_reservation : ∃ v : Site, v.past.length = 10 ∧
    ∃ left, Holds v.dir.record left ∧
      mismatch ⟨"op", "sha", "r1", none, "op.json"⟩ left = none := by
  obtain ⟨r, v, h, hlength⟩ := reservation_retired
  have hholds : Holds (StoreDir.mk (.text (.ok reservation)) none).record reservation :=
    ⟨rfl, rfl, rfl⟩
  obtain ⟨left, hleft, hq, -⟩ := retire_resumes hholds rfl h
  exact ⟨v, hlength, left, hleft, hq⟩

end PtySpec.Operation.Recovery
