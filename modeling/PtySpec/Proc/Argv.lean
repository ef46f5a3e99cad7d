import PtySpec.Lib.Lines
import PtySpec.Proc.Table
import PtySpec.Serving.Screen

/-!
# The argument vectors of one user

Model of the Linux scan of `crates/pty-core/src/proctable/argv.rs:51-259`. Every read has a moment
of its own, and between two moments the process table may become any other.
-/

namespace PtySpec.Proc

open Events (isWhitespace)
open Serving (fromUtf8Lossy)

/-! ### Files of a process -/

/-- One read of a file of a process: what it has, or an error. -/
inductive FileRead (α : Type) where
  | data (content : α)
  | notFound
  | noProcess
  | failed

/-- `str::parse::<u32>`. -/
def parseU32 (text : List Char) : Option Nat :=
  let value := match text with
    | '+' :: ds => parseDigits ds
    | ds => parseDigits ds
  value.filter (· < 2 ^ 32)

/-- `str::strip_prefix`. -/
def stripPrefix (start line : List Char) : Option (List Char) :=
  if start.isPrefixOf line then some (line.drop start.length) else none

/-- `split_nul_args`, `argv.rs:89`, with each text as its bytes. -/
def splitNulArgs (bytes : List UInt8) : List (List UInt8) :=
  let trimmed := if bytes.getLast? = some 0 then bytes.dropLast else bytes
  if trimmed.isEmpty then [] else (trimmed.splitOn 0).map fromUtf8Lossy

/-- `status_kernel_thread`, `argv.rs:189`. -/
def statusKernelThread (status : List Char) : Option Bool :=
  ((lines status).findSome? (stripPrefix "Kthread:".toList)).bind fun rest ↦
    if trim rest = ['1'] then some true else if trim rest = ['0'] then some false else none

/-- `stat_kernel_thread`, `argv.rs:202`. -/
def statKernelThread (stat : List Char) : Option Bool := do
  let tail ← afterLastParen stat
  let field ← (splitWhitespace tail)[6]?
  let flags ← parseU64 field
  return flags &&& 0x200000 != 0

/-- What the lines of a `status` have told so far: whether the process is the user's, and its
state. -/
structure StatusFields where
  owned : Option Bool := none
  state : Option Char := none

/-- One line of the loop in `owner_and_state`, `argv.rs:169-178`. -/
def StatusFields.line (uid : Nat) (f : StatusFields) (line : List Char) : StatusFields :=
  match stripPrefix "Uid:".toList line with
  | some rest =>
    let ids := (splitWhitespace rest).map parseU32
    { f with owned :=
        match ids[0]?.join, ids[1]?.join with
        | some real, some effective => some (real == uid && effective == uid)
        | _, _ => none }
  | none =>
    match stripPrefix "State:".toList line with
    | some rest => { f with state := (rest.dropWhile isWhitespace).head? }
    | none => f

/-- `owner_and_state`, `argv.rs:164`, of a `status` that was read. -/
def ownerAndState (uid : Nat) (status : List Char) : Option (Bool × Char × Option Bool) :=
  let f := (lines status).foldl (StatusFields.line uid) {}
  match f.owned, f.state with
  | some owned, some state => some (owned, state, statusKernelThread status)
  | _, _ => none

/-! ### The kernel -/

/-- A process as the kernel has it at a moment; `birth` tells it from every other one. -/
structure Process where
  birth : Nat
  realUid : Nat
  effectiveUid : Nat
  state : Char
  kernelThread : Bool
  args : List (List UInt8)
deriving DecidableEq

/-- What `status` prints of a process, in lines of their own. -/
structure PrintsStatus (p : Process) (status : List Char) : Prop where
  hasUid : ∃ line ∈ lines status, (stripPrefix "Uid:".toList line).isSome
  uid : ∀ line ∈ lines status, ∀ rest ∈ stripPrefix "Uid:".toList line,
    ((splitWhitespace rest).map parseU32)[0]?.join = some p.realUid ∧
      ((splitWhitespace rest).map parseU32)[1]?.join = some p.effectiveUid
  hasState : ∃ line ∈ lines status, (stripPrefix "State:".toList line).isSome
  state : ∀ line ∈ lines status, ∀ rest ∈ stripPrefix "State:".toList line,
    (rest.dropWhile isWhitespace).head? = some p.state
  kernelThread : ∀ line ∈ lines status, ∀ rest ∈ stripPrefix "Kthread:".toList line,
    trim rest = [if p.kernelThread then '1' else '0']

/-- What `stat` prints of the flags of a process. -/
def PrintsStat (p : Process) (stat : List Char) : Prop :=
  ∀ tail ∈ afterLastParen stat, ∀ field ∈ (splitWhitespace tail)[6]?, ∀ flags ∈ parseU64 field,
    (flags &&& 0x200000 != 0) = p.kernelThread

/-- The argument block of a process: each argument with a NUL after it. -/
def argumentBlock (args : List (List UInt8)) : List UInt8 := Lib.unlines 0 args

/-- `/proc` while a scan reads it: the process table at each moment, what the listing has, and the
answer of each read. A file of a process that is there is never reported as missing; it tells of
the process as it is at that moment, or it cannot be read, and `cmdline` is empty while the process
has no memory. A process that is there from the first read to the last is listed, unless an entry
of the listing is lost. -/
structure ProcFs where
  table : Nat → Int32 → Option Process
  entries : List Entry
  status : Nat → Int32 → FileRead (List Char)
  stat : Nat → Int32 → FileRead (List Char)
  cmdline : Nat → Int32 → FileRead (List UInt8)
  args_plain : ∀ t pid, ∀ p ∈ table t pid, ∀ a ∈ p.args, (0 : UInt8) ∉ a
  status_there : ∀ t pid, ∀ p ∈ table t pid,
    status t pid = .failed ∨ ∃ text, status t pid = .data text ∧ PrintsStatus p text
  stat_there : ∀ t pid, ∀ p ∈ table t pid,
    stat t pid = .failed ∨ ∃ text, stat t pid = .data text ∧ PrintsStat p text
  cmdline_there : ∀ t pid, ∀ p ∈ table t pid,
    cmdline t pid = .failed ∨ cmdline t pid = .data [] ∨
      cmdline t pid = .data (argumentBlock p.args)
  listed : ∀ pid birth,
    (∀ t ≤ 4 * entries.length, ∃ p ∈ table t pid, p.birth = birth) →
      .failed ∈ entries ∨ ∃ text, .name text ∈ entries ∧ parseI32 text = some pid

/-! ### The scan -/

/-- `ArgvRow`, `argv.rs:22`, with each argument's text as its bytes. -/
structure ArgvRow where
  pid : Int32
  identity : Option (List Char)
  argv : List (List UInt8)

/-- `ArgvScan`, `argv.rs:30`. -/
structure ArgvScan where
  uid : Nat
  source : String
  readable : Bool
  complete : Bool
  listed : Nat
  zombies : Nat
  kernelThreads : Nat
  unreadable : List Int32
  rows : List ArgvRow

/-- `ArgvScan::unreadable_listing`, `argv.rs:52`. -/
def ArgvScan.unreadableListing (uid : Nat) (source : String) : ArgvScan :=
  ⟨uid, source, false, false, 0, 0, 0, [], []⟩

/-- `ArgvScan::is_whole`, `argv.rs:67`. -/
def ArgvScan.isWhole (s : ArgvScan) : Bool := s.readable && s.complete && s.unreadable.isEmpty

/-- `Class`, `argv.rs:154`. -/
inductive Class where
  | gone
  | otherUser
  | zombie
  | kernelThread
  | live (row : ArgvRow)
  | unreadable
  | ownerUnknown

namespace ProcFs

variable (fs : ProcFs) (pageSizeKb : Nat)

/-- What an empty `cmdline` is taken for, `argv.rs:249-253`. -/
def askAgain (uid : Nat) (pid : Int32) (now : Nat) : Class :=
  match fs.status now pid with
  | .notFound | .noProcess => .gone
  | .failed => .unreadable
  | .data status =>
    match ownerAndState uid status with
    | some (_, 'Z', _) => .zombie
    | _ => .unreadable

/-- `classify`, `argv.rs:210`, with reads at four moments from `now` on. -/
def classify (uid : Nat) (pid : Int32) (now : Nat) : Class :=
  match fs.status now pid with
  | .notFound | .noProcess => .gone
  | .failed => .ownerUnknown
  | .data status =>
    match ownerAndState uid status with
    | none => .ownerUnknown
    | some (owned, state, kthread) =>
      if !owned then .otherUser
      else if state = 'Z' then .zombie
      else
        match fs.stat (now + 1) pid with
        | .notFound | .noProcess => .gone
        | .failed => rest kthread none
        | .data stat => rest kthread (some stat)
where
  /-- The rest, with the `stat` that was read if it was. -/
  rest (kthread : Option Bool) (stat : Option (List Char)) : Class :=
    if kthread.or (stat.bind statKernelThread) = some true then .kernelThread
    else
      let identity := (stat.bind (parseProcStat pageSizeKb pid)).bind (·.identity)
      match fs.cmdline (now + 2) pid with
      | .data bytes =>
        if bytes.isEmpty then fs.askAgain uid pid (now + 3)
        else .live { pid, identity, argv := splitNulArgs bytes }
      | .notFound | .noProcess => .gone
      | .failed => .unreadable

end ProcFs

/-- A scan on its way: what it has, whether it saw itself, and the moment of its next read. -/
structure Scanning where
  scan : ArgvScan
  sawOwn : Bool
  now : Nat

/-- What a class adds to a scan, `argv.rs:137-144`. -/
def ArgvScan.count (s : ArgvScan) (pid : Int32) : Class → ArgvScan
  | .gone | .otherUser => s
  | .zombie => { s with zombies := s.zombies + 1 }
  | .kernelThread => { s with kernelThreads := s.kernelThreads + 1 }
  | .live row => { s with rows := s.rows ++ [row] }
  | .unreadable => { s with unreadable := s.unreadable ++ [pid] }
  | .ownerUnknown => { s with complete := false }

/-- One entry of the listing, `argv.rs:122-145`. -/
def Scanning.entry (fs : ProcFs) (pageSizeKb uid : Nat) (own : Int32) (s : Scanning)
    (e : Entry) : Scanning :=
  match e with
  | .failed => { s with scan := { s.scan with complete := false }, now := s.now + 4 }
  | .notText => { s with now := s.now + 4 }
  | .name text =>
    match parseI32 text with
    | none => { s with now := s.now + 4 }
    | some pid =>
      { scan := { s.scan with listed := s.scan.listed + 1 }.count pid
          (fs.classify pageSizeKb uid pid s.now)
        sawOwn := s.sawOwn || pid == own
        now := s.now + 4 }

/-- `linux::scan`, `argv.rs:105`, of a `/proc` that can be listed. -/
def scanArgv (fs : ProcFs) (pageSizeKb uid : Nat) (own : Int32) : ArgvScan :=
  let source := "/proc/<pid>/cmdline"
  let s := fs.entries.foldl (Scanning.entry fs pageSizeKb uid own)
    ⟨⟨uid, source, true, true, 0, 0, 0, [], []⟩, false, 0⟩
  if !s.sawOwn then .unreadableListing uid source
  else
    { s.scan with
      rows := s.scan.rows.insertionSort (·.pid ≤ ·.pid)
      unreadable := s.scan.unreadable.insertionSort (· ≤ ·) }

end PtySpec.Proc
