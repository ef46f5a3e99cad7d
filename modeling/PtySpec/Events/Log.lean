import PtySpec.Lib.Lines
import PtySpec.Lib.Retention

/-!
# The event log

Model of `append_line`, `append_batch` and the daemon's writer,
`crates/pty-core/src/events/mod.rs:360-456, 647-699`, on the bytes of one log. Writers
take turns under the event lock; a publication replaces the file, or fails and leaves it.
-/

namespace PtySpec.Events

open Lib

/-- A file's contents. -/
abbrev Bytes := List UInt8

/-- `MAX_LINES`, `mod.rs:361`. -/
def maxLines : Nat := 1000

/-- `KEEP_LINES`. -/
def keepLines : Nat := 500

/-- `TRUNCATE_CHECK_INTERVAL`. -/
def truncateCheckInterval : Nat := 100

/-- `TRUNCATE_SIZE_THRESHOLD`. -/
def truncateSizeThreshold : Nat := maxLines * 40

/-- `str::as_bytes`. -/
def toUtf8 (text : List Char) : Bytes := text.flatMap String.utf8EncodeChar

/-- `std::str::from_utf8`. -/
def fromUtf8 (b : Bytes) : Option (List Char) := b.toByteArray.utf8Decode?.map Array.toList

/-- `char::is_whitespace`: the code points of `White_Space`. -/
def isWhitespace (c : Char) : Bool :=
  let n := c.toNat
  (0x09 ≤ n && n ≤ 0x0d) || n = 0x20 || n = 0x85 || n = 0xa0 || n = 0x1680 ||
    (0x2000 ≤ n && n ≤ 0x200a) || n = 0x2028 || n = 0x2029 || n = 0x202f || n = 0x205f ||
    n = 0x3000

/-- `retained_suffix`, `mod.rs:377`. The bytes kept start where the first line kept does,
after the lines before it and their newlines. -/
def retainedSuffix (content : Bytes) : Option Bytes :=
  (fromUtf8 content).bind fun text ↦
    let lines := (text.rdropWhile isWhitespace).splitOn '\n'
    if lines.length < maxLines then none
    else
      some (content.drop
        (toUtf8 (unlines '\n' (lines.take (lines.length - keepLines)))).length)

/-- `Event` as `to_json` writes it: one line, an object, and as an event has its time stamp
never so short that `maxLines` of them stay under the size threshold. -/
structure Record where
  json : List Char
  oneLine : '\n' ∉ json
  closed : json.getLast? = some '\x7d'
  long : 40 ≤ (toUtf8 json).length + 1

/-- What a record adds to a log. -/
def line (event : Record) : Bytes := toUtf8 event.json ++ [0x0a]

/-- The log of some records. -/
def render (events : List Record) : Bytes := events.flatMap line

/-- `append_line`, `mod.rs:397`, as `append_event_locked` calls it: what is published. -/
def appendLine (file : Option Bytes) (event : Record) : Bytes :=
  let content := file.getD [] ++ line event
  if truncateSizeThreshold ≤ content.length then (retainedSuffix content).getD content
  else content

/-! ### Batches -/

/-- A batch being appended, `mod.rs:422`. `snapshots` is what was published, each snapshot
with how many events of the batch it comes after. -/
structure Batch where
  content : Bytes
  publishedLen : Nat
  dirty : Bool
  appendCount : Nat
  taken : Nat
  snapshots : List (Nat × Bytes)

/-- `publish_batch_snapshot`, `mod.rs:458`; the publication of index `fails` fails. -/
def publishBatchSnapshot (fails : Option Nat) (b : Batch) : Except Batch Batch :=
  if fails = some b.snapshots.length then .error b
  else .ok { b with snapshots := b.snapshots ++ [(b.taken, b.content)] }

/-- The full snapshot that goes before a suffix no shorter than the old log, `mod.rs:439`. -/
def publishFull (fails : Option Nat) (retainedLen : Nat) (b : Batch) : Except Batch Batch :=
  if b.publishedLen ≤ retainedLen then publishBatchSnapshot fails b else .ok b

/-- The retention check at a record boundary, `mod.rs:435-449`. -/
def checkRetention (fails : Option Nat) (b : Batch) : Except Batch Batch :=
  match retainedSuffix b.content with
  | none => .ok { b with appendCount := 0 }
  | some suffix => do
    let b ← publishFull fails suffix.length b
    let b ← publishBatchSnapshot fails { b with content := suffix }
    .ok { b with publishedLen := b.content.length, dirty := false, appendCount := 0 }

/-- One event of a batch, `mod.rs:430-450`. -/
def appendOne (fails : Option Nat) (b : Batch) (event : Record) : Except Batch Batch :=
  let b := { b with
    content := b.content ++ line event
    dirty := true
    appendCount := b.appendCount + 1
    taken := b.taken + 1 }
  if truncateCheckInterval ≤ b.appendCount then checkRetention fails b else .ok b

/-- The last publication of a batch, `mod.rs:452`. -/
def publishRest (fails : Option Nat) (b : Batch) : Except Batch Batch :=
  if b.dirty then publishBatchSnapshot fails b else .ok b

/-- `append_batch`, `mod.rs:422`. -/
def appendBatch (fails : Option Nat) (file : Option Bytes) (events : List Record)
    (appendCount : Nat) : Except Batch Batch := do
  let content := file.getD []
  let b ← events.foldlM (appendOne fails) ⟨content, content.length, false, appendCount, 0, []⟩
  publishRest fails b

/-! ### Writers -/

/-- What is done to a log under the event lock: `clear_events` or `remove_events`,
a one-shot append, or the batch of a daemon's writer. -/
inductive Op where
  | clear
  | remove
  | append (event : Record) (ok : Bool)
  | batch (writer : Nat) (events : List Record) (fails : Option Nat)

/-- A log and the counters of its daemon writers; with the records appended since the log was
last cleared, the daemon writers they come from and how many batches failed. -/
structure Log where
  file : Option Bytes
  appendCount : Nat → Nat
  appended : List Record
  writers : List Nat
  failures : Nat

namespace Log

/-- No log yet. -/
def init : Log := ⟨none, fun _ ↦ 0, [], [], 0⟩

/-- The log after what a batch published, whether it failed or not. -/
def published (s : Log) (writer : Nat) (events : List Record) (b : Batch) : Log :=
  let s := { s with writers := s.writers.insert writer }
  match b.snapshots.getLast? with
  | none => s
  | some (taken, content) =>
    { s with file := some content, appended := s.appended ++ events.take taken }

/-- `EventWriter::publish`, `mod.rs:687`: the count is kept when the batch succeeds. -/
def publish (s : Log) (writer : Nat) (events : List Record) :
    Except Batch Batch → Log
  | .ok b =>
    { s.published writer events b with
      appendCount := Function.update s.appendCount writer b.appendCount }
  | .error b => { s.published writer events b with failures := s.failures + 1 }

/-- One operation under the event lock. -/
def step (s : Log) : Op → Log
  | .clear => { s with file := some [], appended := [], writers := [], failures := 0 }
  | .remove => { s with file := none, appended := [], writers := [], failures := 0 }
  | .append event ok =>
    if ok then
      { s with file := some (appendLine s.file event), appended := s.appended ++ [event] }
    else s
  | .batch writer events fails =>
    s.publish writer events (appendBatch fails s.file events (s.appendCount writer))

/-- The log after some operations. -/
def run (ops : List Op) : Log := ops.foldl step init

/-- What an operation publishes, each snapshot with the records appended up to it. -/
def snapshots (s : Log) : Op → List (List Record × Bytes)
  | .clear => [([], [])]
  | .remove => []
  | .append event ok =>
    if ok then [(s.appended ++ [event], appendLine s.file event)] else []
  | .batch writer events fails =>
    match appendBatch fails s.file events (s.appendCount writer) with
    | .ok b | .error b => b.snapshots.map fun p ↦ (s.appended ++ events.take p.1, p.2)

/-- How many records a log stays under. -/
def limit (s : Log) : Nat := maxLines + truncateCheckInterval * (s.writers.length + s.failures)

end Log

end PtySpec.Events
