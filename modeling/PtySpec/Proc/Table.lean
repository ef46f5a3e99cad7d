import PtySpec.Events.Log
import PtySpec.Operation.Process

/-!
# The readers of the process table

`crates/pty-core/src/proctable.rs`: a table is read from `/proc`, one `stat` for each process
listed, or from the lines of one `ps`. What the queries answer of a process that was listed
and whose row could not be read.
-/

namespace PtySpec.Proc

open Operation (Answer Unknown)
open Events (isWhitespace)

/-! ### Numbers and fields -/

/-- The value of decimal digits, unless there are none or one of them is no digit. -/
def parseDigits (text : List Char) : Option Nat :=
  if text = [] then none
  else text.foldlM (fun n c ↦ if c.isDigit then some (n * 10 + (c.toNat - 48)) else none) 0

/-- `str::parse::<i32>`. -/
def parseI32 (text : List Char) : Option Int32 :=
  let value := match text with
    | '-' :: ds => (parseDigits ds).map fun n ↦ -(n : Int)
    | '+' :: ds => (parseDigits ds).map Int.ofNat
    | ds => (parseDigits ds).map Int.ofNat
  (value.filter fun n ↦ -2 ^ 31 ≤ n ∧ n < 2 ^ 31).map Int32.ofInt

/-- `str::parse::<u64>`. -/
def parseU64 (text : List Char) : Option Nat :=
  let value := match text with
    | '+' :: ds => parseDigits ds
    | ds => parseDigits ds
  value.filter (· < 2 ^ 64)

/-- `str::split_whitespace`. -/
def splitWhitespace (text : List Char) : List (List Char) :=
  (text.splitOnP isWhitespace).filter (· ≠ [])

/-- `str::trim`. -/
def trim (text : List Char) : List Char := (text.dropWhile isWhitespace).rdropWhile isWhitespace

/-- `str::lines`: a line that ends in a newline loses it, and a carriage return before it. -/
def lines (text : List Char) : List (List Char) :=
  let pieces := text.splitOn '\n'
  let ended := pieces.dropLast.map fun line ↦
    if line.getLast? = some '\r' then line.dropLast else line
  match pieces.getLast? with
  | some last => if last = [] then ended else ended ++ [last]
  | none => ended

/-- `split_leading_fields`, `proctable.rs:678`. -/
def splitLeadingFields : Nat → List Char → List (List Char) × List Char
  | 0, line => ([], line.dropWhile (· = ' '))
  | n + 1, line =>
    let rest := line.dropWhile isWhitespace
    let field := rest.takeWhile (!isWhitespace ·)
    let after := rest.dropWhile (!isWhitespace ·)
    if after = [] then (if rest = [] then [] else [rest], [])
    else
      let r := splitLeadingFields n after
      (field :: r.1, r.2)

/-! ### Rows -/

/-- `Row`, `proctable.rs:250`. -/
structure Row where
  pid : Int32
  ppid : Int32
  pgid : Int32
  state : List Char
  rssKb : Option Nat
  identity : Option (List Char)
  deriving DecidableEq, Repr

/-- `Row::is_zombie`, `proctable.rs:275`. -/
def Row.isZombie (r : Row) : Bool := r.state.head? = some 'Z' || r.state.head? = some 'X'

/-- `parse_ps_row`, `proctable.rs:651`. -/
def parsePsRow (line : List Char) : Option Row := do
  let (fields, tail) := splitLeadingFields 6 line
  let pid ← fields[0]?.bind parseI32
  let ppid ← fields[1]?.bind parseI32
  let pgid ← fields[2]?.bind parseI32
  pure
    { pid := pid
      ppid := ppid
      pgid := pgid
      state := fields[3]?.getD []
      rssKb := fields[4]?.bind parseU64
      identity := if trim tail = [] then none else some ("darwin:".toList ++ trim tail) }

/-- The text after the last closing parenthesis, if there is one. -/
def afterLastParen (text : List Char) : Option (List Char) :=
  if ')' ∈ text then some (text.reverse.takeWhile (· ≠ ')')).reverse else none

/-- `parse_proc_stat`, `proctable.rs:705`. -/
def parseProcStat (pageSizeKb : Nat) (pid : Int32) (stat : List Char) : Option Row := do
  let tail ← afterLastParen stat
  let f := splitWhitespace tail
  let state ← f.head?
  let ppid ← f[1]?.bind parseI32
  let pgid ← f[2]?.bind parseI32
  let startTime ← f[19]?
  pure
    { pid := pid
      ppid := ppid
      pgid := pgid
      state := state
      rssKb := some (((f[21]?.bind parseU64).getD 0) * pageSizeKb)
      identity := some ("linux:".toList ++ startTime) }

/-! ### The table -/

/-- `ProcTable`, `proctable.rs:297`; of two rows of one pid the later one counts. -/
structure ProcTable where
  rows : List Row
  readable : Bool
  complete : Bool

namespace ProcTable

/-- `ProcTable::unreadable`, `proctable.rs:405`. -/
def unreadable : ProcTable := ⟨[], false, false⟩

/-- `ProcTable::from_rows`, `proctable.rs:415`. -/
def fromRows (rows : List Row) : ProcTable := ⟨rows, true, true⟩

/-- `ProcTable::marked_incomplete`, `proctable.rs:425`. -/
def markedIncomplete (t : ProcTable) : ProcTable := { t with complete := false }

/-- `ProcTable::is_complete`, `proctable.rs:466`. -/
def isComplete (t : ProcTable) : Bool := t.readable && t.complete

/-- `ProcTable::row`, `proctable.rs:484`. -/
def row (t : ProcTable) (pid : Int32) : Answer Row :=
  if t.readable then
    match t.rows.reverse.find? (·.pid == pid) with
    | some r => .known r
    | none => .notPresent
  else
    .unknown .tableUnreadable

/-- `ProcTable::is_running`, `proctable.rs:489`. -/
def isRunning (t : ProcTable) (pid : Int32) : Answer Bool :=
  match t.row pid with
  | .known r => .known (!r.isZombie)
  | .notPresent => .notPresent
  | .unknown u => .unknown u

/-- `ProcTable::identity`, `proctable.rs:493`. -/
def identity (t : ProcTable) (pid : Int32) : Answer (List Char) :=
  match t.row pid with
  | .known r =>
    match r.identity with
    | some token => .known token
    | none => .unknown .fieldEmpty
  | .notPresent => .notPresent
  | .unknown u => .unknown u

end ProcTable

/-! ### The readers -/

/-- An entry of `/proc`: it could not be listed, its name is not UTF-8, or it has a name. -/
inductive Entry where
  | failed
  | notText
  | name (text : List Char)

/-- One read of a `stat`: its text, or an error. Text that is not UTF-8 is an error. -/
inductive StatRead where
  | text (stat : List Char)
  | notFound
  | noProcess
  | failed

/-- The rows so far, and whether no process was skipped. -/
structure Rows where
  rows : List Row := []
  complete : Bool := true

/-- `from_proc_listing` for one entry, `proctable.rs:372`. -/
def Rows.entry (readStat : Int32 → StatRead) (pageSizeKb : Nat) (r : Rows) : Entry → Rows
  | .failed => { r with complete := false }
  | .notText => r
  | .name text =>
    match parseI32 text with
    | none => r
    | some pid =>
      match readStat pid with
      | .text stat =>
        match parseProcStat pageSizeKb pid stat with
        | some row => { r with rows := r.rows ++ [row] }
        | none => { r with complete := false }
      | .notFound | .noProcess => r
      | .failed => { r with complete := false }

/-- `from_proc_listing`, `proctable.rs:365`. -/
def fromProcListing (entries : List Entry) (readStat : Int32 → StatRead) (pageSizeKb : Nat)
    (ownPid : Int32) : ProcTable :=
  let r := entries.foldl (Rows.entry readStat pageSizeKb) {}
  if r.rows.any (·.pid == ownPid) then
    if r.complete then .fromRows r.rows else (ProcTable.fromRows r.rows).markedIncomplete
  else .unreadable

/-- `from_ps_listing_checked`, `proctable.rs:441`. -/
def fromPsListing (listing : List Char) (mustContain : Int32) : ProcTable :=
  let rows := (lines listing).filterMap parsePsRow
  if rows.any (·.pid == mustContain) then .fromRows rows else .unreadable

/-- `stat_answer`, `proctable.rs:609`: one read without a table. -/
def statAnswer (pageSizeKb : Nat) (pid : Int32) : StatRead → Answer Row
  | .text stat =>
    match parseProcStat pageSizeKb pid stat with
    | some row => .known row
    | none => .unknown .fieldUnparsable
  | .notFound | .noProcess => .notPresent
  | .failed => .unknown .tableUnreadable

/-! ### Silence and absence -/

/-- `Answer::is_definitely_absent`, `proctable.rs:80`. -/
def isDefinitelyAbsent {α : Type} : Answer α → Prop
  | .notPresent => True
  | _ => False

/-- `Answer::is_unknown`, `proctable.rs:84`. -/
def isUnknown {α : Type} : Answer α → Prop
  | .unknown _ => True
  | _ => False

/-- Absence is answered only of a process that is absent, nothing is claimed to be known of one
whose row was dropped, and a table is complete only if it is whole. -/
structure Honest (t : ProcTable) (absent dropped : Int32 → Prop) (whole : Prop) : Prop where
  absent : ∀ pid, isDefinitelyAbsent (t.row pid) ∨ isDefinitelyAbsent (t.isRunning pid) ∨
    isDefinitelyAbsent (t.identity pid) → absent pid
  unknown : ∀ pid, dropped pid → isUnknown (t.row pid) ∧ isUnknown (t.isRunning pid) ∧
    isUnknown (t.identity pid)
  complete : t.isComplete = true → whole

section Answers

variable {t : ProcTable} {pid : Int32}

private theorem row_absent_iff :
    isDefinitelyAbsent (t.row pid) ↔ t.readable = true ∧ ∀ r ∈ t.rows, r.pid ≠ pid := by
  unfold ProcTable.row
  split
  · next hr =>
    split
    · next r hf =>
      have hm := List.mem_reverse.mp (List.mem_of_find?_eq_some hf)
      have hp : r.pid = pid := by simpa using List.find?_some hf
      exact ⟨False.elim, fun h ↦ h.2 r hm hp⟩
    · next hf =>
      refine ⟨fun _ ↦ ⟨hr, fun r hm hp ↦ ?_⟩, fun _ ↦ trivial⟩
      simpa [hp] using List.find?_eq_none.mp hf r (List.mem_reverse.mpr hm)
  · next hr => exact ⟨False.elim, fun h ↦ hr h.1⟩

private theorem row_unknown_iff : isUnknown (t.row pid) ↔ t.readable = false := by
  unfold ProcTable.row
  split
  · next hr => split <;> simp [isUnknown, hr]
  · next hr => simpa [isUnknown] using hr

private theorem isRunning_absent :
    isDefinitelyAbsent (t.isRunning pid) ↔ isDefinitelyAbsent (t.row pid) := by
  unfold ProcTable.isRunning
  split <;> simp_all [isDefinitelyAbsent]

private theorem identity_absent :
    isDefinitelyAbsent (t.identity pid) ↔ isDefinitelyAbsent (t.row pid) := by
  unfold ProcTable.identity
  split
  · next h =>
    rw [h]
    split <;> rfl
  · next h => simp [h, isDefinitelyAbsent]
  · next h => simp [h, isDefinitelyAbsent]

private theorem unknown_of_unreadable (h : t.readable = false) :
    isUnknown (t.row pid) ∧ isUnknown (t.isRunning pid) ∧ isUnknown (t.identity pid) := by
  have hrow : t.row pid = .unknown .tableUnreadable := by simp [ProcTable.row, h]
  simp [ProcTable.isRunning, ProcTable.identity, hrow, isUnknown]

/-- A table that could not be read answers nothing. -/
private theorem honest_unreadable (absent dropped : Int32 → Prop) (whole : Prop) :
    Honest .unreadable absent dropped whole where
  absent pid h := by
    rw [isRunning_absent, identity_absent, or_self, or_self, row_absent_iff] at h
    cases h.1
  unknown _ _ := unknown_of_unreadable rfl
  complete h := by cases h

/-- A readable table whose rows are those of every process but the absent and the dropped. -/
private theorem honest_readable (ht : t.readable = true) {absent dropped : Int32 → Prop}
    {whole : Prop} (habsent : ∀ pid, (∀ r ∈ t.rows, r.pid ≠ pid) → absent pid ∨ dropped pid) :
    Honest t absent dropped whole ↔
      (∀ pid, ¬ dropped pid) ∧ (t.isComplete = true → whole) := by
  constructor
  · intro h
    refine ⟨fun pid hd ↦ ?_, h.complete⟩
    have hu := row_unknown_iff.mp (h.unknown pid hd).1
    rw [ht] at hu
    cases hu
  · intro ⟨hno, hc⟩
    refine ⟨fun pid ha ↦ ?_, fun pid hd ↦ absurd hd (hno pid), hc⟩
    rw [isRunning_absent, identity_absent, or_self, or_self, row_absent_iff] at ha
    exact (habsent pid ha.2).resolve_right (hno pid)

end Answers

/-- A single read, on the other hand, answers absence only where the read said so. -/
theorem statAnswer_absent_iff (pageSizeKb : Nat) (pid : Int32) (r : StatRead) :
    isDefinitelyAbsent (statAnswer pageSizeKb pid r) ↔ r = .notFound ∨ r = .noProcess := by
  cases r with
  | text stat =>
    simp only [statAnswer]
    split <;> simp [isDefinitelyAbsent]
  | notFound => simp [statAnswer, isDefinitelyAbsent]
  | noProcess => simp [statAnswer, isDefinitelyAbsent]
  | failed => simp [statAnswer, isDefinitelyAbsent]

/-- The columns of a row that the operations read. -/
def Row.narrow (r : Row) : Operation.Row :=
  ⟨r.pid, String.ofList r.state, r.identity.map String.ofList⟩

/-- The table as the operations read it. -/
def ProcTable.narrow (t : ProcTable) : Operation.ProcTable :=
  ⟨fun pid ↦ (t.rows.reverse.find? (·.pid == pid)).map Row.narrow, t.readable, t.complete⟩

/-- What was proved of the operations holds of the tables that are read. -/
theorem narrow_row (t : ProcTable) (pid : Int32) :
    t.narrow.row pid = match t.row pid with
      | .known r => .known r.narrow
      | .notPresent => .notPresent
      | .unknown u => .unknown u := by
  unfold Operation.ProcTable.row ProcTable.row ProcTable.narrow
  dsimp only
  split
  · cases t.rows.reverse.find? (·.pid == pid) <;> rfl
  · rfl

theorem narrow_isZombie (r : Row) : r.narrow.isZombie = r.isZombie := by
  simp only [Row.narrow, Row.isZombie, Operation.Row.isZombie, String.toList_ofList, beq_eq_decide]

/-! ### A listing of `/proc` -/

section Proc

variable (entries : List Entry) (readStat : Int32 → StatRead) (pageSizeKb : Nat)

/-- The listing has the process. -/
def Listed (pid : Int32) : Prop := ∃ text, .name text ∈ entries ∧ parseI32 text = some pid

/-- The read of the process said that it does not exist. -/
def SaidGone (pid : Int32) : Prop := readStat pid = .notFound ∨ readStat pid = .noProcess

/-- The row of the process could be read and parsed. -/
def Read (pid : Int32) : Prop :=
  Listed entries pid ∧ ∃ stat row, readStat pid = .text stat ∧
    parseProcStat pageSizeKb pid stat = some row

/-- The process was listed, and its row could not be read or parsed. -/
def Dropped (pid : Int32) : Prop :=
  Listed entries pid ∧ (readStat pid = .failed ∨
    ∃ stat, readStat pid = .text stat ∧ parseProcStat pageSizeKb pid stat = none)

variable {entries readStat pageSizeKb}

private theorem pid_parseProcStat {pid : Int32} {stat : List Char} {row : Row}
    (h : parseProcStat pageSizeKb pid stat = some row) : row.pid = pid := by
  simp only [parseProcStat, Option.bind_eq_bind, Option.bind_eq_some_iff, Option.pure_def,
    Option.some.injEq] at h
  obtain ⟨-, -, -, -, -, -, -, -, -, -, rfl⟩ := h
  rfl

private theorem listed_cons {e : Entry} {pid : Int32} :
    Listed (e :: entries) pid ↔ Listed [e] pid ∨ Listed entries pid := by
  constructor
  · rintro ⟨text, hm, hp⟩
    obtain rfl | hm := List.mem_cons.mp hm
    · exact .inl ⟨text, List.mem_singleton_self _, hp⟩
    · exact .inr ⟨text, hm, hp⟩
  · rintro (⟨text, hm, hp⟩ | ⟨text, hm, hp⟩)
    · exact ⟨text, List.mem_cons.mpr (.inl (List.mem_singleton.mp hm)), hp⟩
    · exact ⟨text, List.mem_cons_of_mem _ hm, hp⟩

private theorem listed_name {text : List Char} {pid : Int32} :
    Listed [.name text] pid ↔ parseI32 text = some pid := by
  constructor
  · rintro ⟨text', hm, hp⟩
    cases List.mem_singleton.mp hm
    exact hp
  · exact fun hp ↦ ⟨text, List.mem_singleton_self _, hp⟩

/-- What one entry adds. -/
private structure Adds (readStat : Int32 → StatRead) (pageSizeKb : Nat) (entries : List Entry)
    (r r' : Rows) : Prop where
  rows : ∀ pid, (∃ row ∈ r'.rows, row.pid = pid) ↔
    (∃ row ∈ r.rows, row.pid = pid) ∨ Read entries readStat pageSizeKb pid
  complete : r'.complete = true →
    r.complete = true ∧ ∀ pid, ¬ Dropped entries readStat pageSizeKb pid

private theorem adds_entry (e : Entry) (r : Rows) :
    Adds readStat pageSizeKb [e] r (r.entry readStat pageSizeKb e) := by
  have hskip : (∀ pid, ¬ Listed [e] pid) → Adds readStat pageSizeKb [e] r r := fun hn ↦
    ⟨fun pid ↦ ⟨.inl, fun h ↦ h.resolve_right fun hr ↦ hn pid hr.1⟩,
      fun hc ↦ ⟨hc, fun pid hd ↦ hn pid hd.1⟩⟩
  cases e with
  | failed =>
    have hn : ∀ pid, ¬ Listed [.failed] pid := by
      rintro pid ⟨text, hm, -⟩
      cases List.mem_singleton.mp hm
    exact ⟨(hskip hn).rows, fun hc ↦ by cases hc⟩
  | notText =>
    refine hskip ?_
    rintro pid ⟨text, hm, -⟩
    cases List.mem_singleton.mp hm
  | name text =>
    simp only [Rows.entry]
    split
    · next hp =>
      refine hskip fun pid hl ↦ ?_
      rw [listed_name, hp] at hl
      cases hl
    · next own hp =>
      have hone : ∀ pid, Listed [.name text] pid ↔ pid = own := fun pid ↦ by
        rw [listed_name, hp, Option.some.injEq, eq_comm]
      -- nothing is added unless the read gives a row
      have hnone : (∀ stat row, readStat own = .text stat →
          parseProcStat pageSizeKb own stat ≠ some row) →
          ∀ pid, ¬ Read [.name text] readStat pageSizeKb pid := by
        rintro hn pid ⟨hl, stat, row, hs, hrow⟩
        obtain rfl := (hone pid).mp hl
        exact hn stat row hs hrow
      have hkeep : (∀ pid, ¬ Read [.name text] readStat pageSizeKb pid) →
          ∀ pid, (∃ row ∈ r.rows, row.pid = pid) ↔
            (∃ row ∈ r.rows, row.pid = pid) ∨ Read [.name text] readStat pageSizeKb pid :=
        fun hn pid ↦ ⟨.inl, fun h ↦ h.resolve_right (hn pid)⟩
      have hgone : SaidGone readStat own → Adds readStat pageSizeKb [.name text] r r := by
        intro hs
        refine ⟨hkeep (hnone fun stat row ht _ ↦ ?_), fun hc ↦ ⟨hc, ?_⟩⟩
        · obtain hs | hs := hs <;> · rw [hs] at ht; cases ht
        · rintro pid ⟨hl, hf | ⟨stat, ht, -⟩⟩
          · obtain rfl := (hone pid).mp hl
            obtain hs | hs := hs <;> · rw [hs] at hf; cases hf
          · obtain rfl := (hone pid).mp hl
            obtain hs | hs := hs <;> · rw [hs] at ht; cases ht
      split
      · next stat hs =>
        split
        · next row hrow =>
          refine ⟨fun pid ↦ ?_, fun hc ↦ ⟨hc, ?_⟩⟩
          · have hread : Read [.name text] readStat pageSizeKb pid ↔ row.pid = pid := by
              rw [pid_parseProcStat hrow]
              refine ⟨fun h ↦ ((hone pid).mp h.1).symm, ?_⟩
              rintro rfl
              exact ⟨(hone own).mpr rfl, stat, row, hs, hrow⟩
            rw [hread]
            simp [or_and_right, exists_or]
          · rintro pid ⟨hl, hf | ⟨stat', hs', hn⟩⟩
            · obtain rfl := (hone pid).mp hl
              rw [hs] at hf
              cases hf
            · obtain rfl := (hone pid).mp hl
              rw [hs] at hs'
              cases hs'
              rw [hrow] at hn
              cases hn
        · next hrow =>
          refine ⟨hkeep (hnone fun stat' row hs' hr ↦ ?_), fun hc ↦ by cases hc⟩
          rw [hs] at hs'
          cases hs'
          rw [hrow] at hr
          cases hr
      · next hs => exact hgone (.inl hs)
      · next hs => exact hgone (.inr hs)
      · next hs =>
        refine ⟨hkeep (hnone fun stat row hs' _ ↦ ?_), fun hc ↦ by cases hc⟩
        rw [hs] at hs'
        cases hs'

private theorem Adds.cons {e : Entry} {r r' r'' : Rows}
    (h : Adds readStat pageSizeKb [e] r r') (h' : Adds readStat pageSizeKb entries r' r'') :
    Adds readStat pageSizeKb (e :: entries) r r'' := by
  refine ⟨fun pid ↦ ?_, fun hc ↦ ?_⟩
  · have hr : Read (e :: entries) readStat pageSizeKb pid ↔
        Read [e] readStat pageSizeKb pid ∨ Read entries readStat pageSizeKb pid := by
      unfold Read
      rw [listed_cons, or_and_right]
    rw [h'.rows, h.rows, or_assoc, hr]
  · obtain ⟨hc', hn'⟩ := h'.complete hc
    obtain ⟨hc, hn⟩ := h.complete hc'
    refine ⟨hc, fun pid ⟨hl, hd⟩ ↦ ?_⟩
    obtain hl | hl := listed_cons.mp hl
    · exact hn pid ⟨hl, hd⟩
    · exact hn' pid ⟨hl, hd⟩

variable (entries readStat pageSizeKb) in
/-- What the loop has at its end. -/
private theorem adds_foldl (r : Rows) :
    Adds readStat pageSizeKb entries r
      (entries.foldl (Rows.entry readStat pageSizeKb) r) := by
  induction entries generalizing r with
  | nil =>
    have hn : ∀ pid, ¬ Listed [] pid := fun pid ⟨_, hm, _⟩ ↦ by cases hm
    exact ⟨fun pid ↦ ⟨.inl, fun h ↦ h.resolve_right fun hr ↦ hn pid hr.1⟩,
      fun hc ↦ ⟨hc, fun pid hd ↦ hn pid hd.1⟩⟩
  | cons e entries ih => exact (adds_entry e r).cons (ih _)

/-- A table from `/proc` is honest exactly if the reader's own row could not be read, or every
row of a listed process could, or its process was said to be gone. -/
private theorem honest_proc_iff (ownPid : Int32) :
    Honest (fromProcListing entries readStat pageSizeKb ownPid)
        (fun pid ↦ ¬ Listed entries pid ∨ SaidGone readStat pid)
        (Dropped entries readStat pageSizeKb)
        (∀ pid, ¬ Dropped entries readStat pageSizeKb pid) ↔
      ¬ Read entries readStat pageSizeKb ownPid ∨
        ∀ pid, ¬ Dropped entries readStat pageSizeKb pid := by
  have hadds := adds_foldl entries readStat pageSizeKb {}
  have hrows : ∀ pid, (∃ row ∈ (entries.foldl (Rows.entry readStat pageSizeKb) {}).rows,
      row.pid = pid) ↔ Read entries readStat pageSizeKb pid := fun pid ↦ by
    rw [hadds.rows]
    exact or_iff_right fun ⟨row, hm, _⟩ ↦ by cases hm
  have hown : (entries.foldl (Rows.entry readStat pageSizeKb) {}).rows.any (·.pid == ownPid) =
      true ↔ Read entries readStat pageSizeKb ownPid := by
    rw [← hrows, List.any_eq_true]
    simp only [beq_iff_eq]
  unfold fromProcListing
  dsimp only
  split
  · next h =>
    rw [or_iff_right (not_not_intro (hown.mp h))]
    have hreadable : ∀ t : ProcTable, t.readable = true →
        t.rows = (entries.foldl (Rows.entry readStat pageSizeKb) {}).rows →
        (t.isComplete = true → (entries.foldl (Rows.entry readStat pageSizeKb) {}).complete) →
        (Honest t (fun pid ↦ ¬ Listed entries pid ∨ SaidGone readStat pid)
          (Dropped entries readStat pageSizeKb)
          (∀ pid, ¬ Dropped entries readStat pageSizeKb pid) ↔
        ∀ pid, ¬ Dropped entries readStat pageSizeKb pid) := by
      intro t ht hr hc
      rw [honest_readable ht, and_iff_left fun hcomp ↦ (hadds.complete (hc hcomp)).2]
      intro pid hno
      by_contra hn
      rw [not_or, not_or, not_not] at hn
      obtain ⟨⟨hl, hg⟩, hd⟩ := hn
      have hnot : ¬ Read entries readStat pageSizeKb pid := fun hread ↦ by
        obtain ⟨row, hm, hp⟩ := (hrows pid).mpr hread
        exact hno row (hr ▸ hm) hp
      -- a listed process is gone, dropped or has a row
      cases hs : readStat pid with
      | notFound => exact hg (.inl hs)
      | noProcess => exact hg (.inr hs)
      | failed => exact hd ⟨hl, .inl hs⟩
      | text stat =>
        cases hp : parseProcStat pageSizeKb pid stat with
        | none => exact hd ⟨hl, .inr ⟨stat, hs, hp⟩⟩
        | some row => exact hnot ⟨hl, stat, row, hs, hp⟩
    split
    · next hc => exact hreadable _ rfl rfl fun _ ↦ hc
    · exact hreadable _ rfl rfl fun hcomp ↦ by cases hcomp
  · next h =>
    have hn : ¬ Read entries readStat pageSizeKb ownPid := fun hr ↦ h (hown.mpr hr)
    exact iff_of_true (honest_unreadable _ _ _) (.inl hn)

end Proc

/-! ### A listing of `ps` -/

section Ps

variable (listing : List Char)

/-- The process of a line of `ps`, if its first field is a pid. -/
def psPid (line : List Char) : Option Int32 := (splitLeadingFields 6 line).1[0]?.bind parseI32

/-- A line of `ps` names the process. -/
def PsListed (pid : Int32) : Prop := ∃ line ∈ lines listing, psPid line = some pid

/-- A line of `ps` gives the row of the process. -/
def PsRead (pid : Int32) : Prop :=
  ∃ line ∈ lines listing, ∃ row, parsePsRow line = some row ∧ row.pid = pid

/-- Lines of `ps` name the process, and none of them could be parsed. -/
def PsDropped (pid : Int32) : Prop :=
  PsListed listing pid ∧ ∀ line ∈ lines listing, psPid line = some pid → parsePsRow line = none

/-- Every line of `ps` that has a field could be parsed. -/
def PsWhole : Prop :=
  ∀ line ∈ lines listing, (splitLeadingFields 6 line).1 ≠ [] → (parsePsRow line).isSome = true

variable {listing}

private theorem psPid_of_row {line : List Char} {row : Row} (h : parsePsRow line = some row) :
    psPid line = some row.pid := by
  simp only [parsePsRow, Option.bind_eq_bind, Option.pure_def, Option.bind_eq_some_iff,
    Option.some.injEq] at h
  obtain ⟨pid, hp, -, -, -, -, rfl⟩ := h
  exact Option.bind_eq_some_iff.mpr hp

/-- A table from `ps` is honest exactly if the reader's own row could not be read, or every line
could. -/
private theorem honest_ps_iff (ownPid : Int32) :
    Honest (fromPsListing listing ownPid) (fun pid ↦ ¬ PsListed listing pid)
        (PsDropped listing) (PsWhole listing) ↔
      ¬ PsRead listing ownPid ∨ PsWhole listing := by
  have hrows : ∀ pid, (∃ row ∈ (lines listing).filterMap parsePsRow, row.pid = pid) ↔
      PsRead listing pid := fun pid ↦ by
    simp only [List.mem_filterMap, PsRead]
    constructor
    · rintro ⟨row, ⟨line, hm, hr⟩, hp⟩
      exact ⟨line, hm, row, hr, hp⟩
    · rintro ⟨line, hm, row, hr, hp⟩
      exact ⟨row, ⟨line, hm, hr⟩, hp⟩
  have hown : ((lines listing).filterMap parsePsRow).any (·.pid == ownPid) = true ↔
      PsRead listing ownPid := by
    rw [← hrows, List.any_eq_true]
    simp only [beq_iff_eq]
  unfold fromPsListing
  dsimp only
  split
  · next h =>
    rw [or_iff_right (not_not_intro (hown.mp h)), honest_readable rfl]
    · refine ⟨fun hw ↦ hw.2 rfl, fun hw ↦ ⟨?_, fun _ ↦ hw⟩⟩
      rintro pid ⟨⟨line, hm, hp⟩, hn⟩
      have hsome := hw line hm fun he ↦ by simp [psPid, he] at hp
      rw [hn line hm hp] at hsome
      cases hsome
    · intro pid hno
      by_cases hl : PsListed listing pid
      · refine .inr ⟨hl, fun line hm hp ↦ ?_⟩
        cases hr : parsePsRow line with
        | none => rfl
        | some row =>
          have he := (psPid_of_row hr).symm.trans hp
          exact absurd (Option.some.inj he) (hno row (List.mem_filterMap.mpr ⟨line, hm, hr⟩))
      · exact .inl hl
  · next h => exact iff_of_true (honest_unreadable _ _ _) (.inl fun hr ↦ h (hown.mpr hr))

end Ps

/-- A table turns silence into absence exactly if its reader's own row could be read and some
other row could not: for a listing of `/proc`, whatever its reads give, and for one of `ps`. -/
theorem honest_iff (entries : List Entry) (readStat : Int32 → StatRead) (pageSizeKb : Nat)
    (listing : List Char) (ownPid : Int32) :
    (Honest (fromProcListing entries readStat pageSizeKb ownPid)
        (fun pid ↦ ¬ Listed entries pid ∨ SaidGone readStat pid)
        (Dropped entries readStat pageSizeKb)
        (∀ pid, ¬ Dropped entries readStat pageSizeKb pid) ↔
      ¬ Read entries readStat pageSizeKb ownPid ∨
        ∀ pid, ¬ Dropped entries readStat pageSizeKb pid) ∧
    (Honest (fromPsListing listing ownPid) (fun pid ↦ ¬ PsListed listing pid)
        (PsDropped listing) (PsWhole listing) ↔
      ¬ PsRead listing ownPid ∨ PsWhole listing) :=
  ⟨honest_proc_iff ownPid, honest_ps_iff ownPid⟩

/-- The row of process 7 can be read, and that of process 8 is refused. -/
private def refusing (pid : Int32) : StatRead :=
  if pid = 7 then
    .text "7 (cat) S 1 7 1 0 -1 4194304 503 0 1 0 0 0 0 0 20 0 1 0 666751667 16637952 1837".toList
  else .failed

/-- A refused `stat` of a listed process reads as absence, and so does a cut line of `ps`, whose
table also claims to be complete. -/
theorem honest_refused :
    (fromProcListing [.name ['7'], .name ['8']] refusing 4 7).row 8 = .notPresent ∧
      Dropped [.name ['7'], .name ['8']] refusing 4 8 ∧
      (fromPsListing "7 1 7 S 9 0.5 Wed\n8 1".toList 7).row 8 = .notPresent ∧
      PsDropped "7 1 7 S 9 0.5 Wed\n8 1".toList 8 ∧
      (fromPsListing "7 1 7 S 9 0.5 Wed\n8 1".toList 7).isComplete = true :=
  ⟨rfl, ⟨⟨['8'], by simp, by decide⟩, .inl rfl⟩, rfl,
    ⟨⟨"8 1".toList, by decide, by decide⟩, by decide⟩, by decide⟩

end PtySpec.Proc
