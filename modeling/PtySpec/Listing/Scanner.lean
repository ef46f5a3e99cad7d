import PtySpec.Events.Log
import PtySpec.Listing.Scan

/-!
# The reads of a strict scan

Model of `Scanner`, `crates/pty-core/src/registry/list.rs:168`, in a strict scan without a
cache: what it makes of the answers of the file system, and which errors it reports.
-/

namespace PtySpec.Listing

open Events (isWhitespace fromUtf8)
open Registry (Text Host)
open Metadata (SessionMetadata)

/-- What the system answers while nothing changes. `bytes` opens a path without blocking and
reads a regular file to its end; `symlinkMetadata` looks at the path itself. -/
structure Scene where
  dir : Except IoError (List DirItem)
  bytes : Text → Except IoError (List UInt8)
  symlinkMetadata : Text → Except IoError Unit
  recordIdentity : Option Int32 → Option SessionMetadata → DaemonIdentityCheck
  probe : List Text → Text → Option (Except IoError Unit)

/-! ### PID files -/

/-- `str::trim`. -/
def trim (text : Text) : Text := (text.dropWhile isWhitespace).rdropWhile isWhitespace

/-- `u8::is_ascii_digit`. -/
def isAsciiDigit (c : Char) : Bool := '0' ≤ c && c ≤ '9'

/-- The value of decimal digits. -/
def decimal (digits : Text) : Nat := digits.foldl (fun n c ↦ n * 10 + (c.toNat - '0'.toNat)) 0

/-- `i32::try_from`, of what an `i64` holds. -/
def toI32 (value : Int) : Option Int32 :=
  if -2147483648 ≤ value ∧ value ≤ 2147483647 then some (Int32.ofInt value) else none

/-- `parse_leading_int`, `lock.rs:938`. -/
def parseLeadingInt (text : Text) : Option Int32 :=
  let text := text.dropWhile isWhitespace
  let negative := text.head? = some '-'
  let unsigned := if negative || text.head? = some '+' then text.tail else text
  let digits := unsigned.takeWhile isAsciiDigit
  if digits = [] ∨ 9223372036854775807 < decimal digits then none
  else toI32 (if negative then -decimal digits else decimal digits)

/-- A positive decimal `i32`. -/
def isPositiveDecimal (text : Text) : Bool :=
  decide (text ≠ []) && text.all isAsciiDigit && decide (0 < decimal text) &&
    decide (decimal text ≤ 2147483647)

/-! ### The scanner -/

variable (parse : List UInt8 → Except String SessionMetadata) (utf8Error : List UInt8 → String)

namespace Scene

/-- `read_optional`, `list.rs:179`: a dangling link is there, and cannot be read. -/
def readOptional (r : Scene) (path : Text) (kind : InventoryErrorKind) (observed : Bool) :
    Option (List UInt8) × List InventoryError :=
  match r.bytes path with
  | .ok bytes => (some bytes, [])
  | .error e =>
    (none,
      if observed || !e.notFound || (r.symlinkMetadata path).isOk then [⟨path, kind, e.text⟩]
      else [])

/-- `Scanner::metadata`, `list.rs:223`. -/
def metadata (r : Scene) (path : Text) (observed : Bool) :
    Option SessionMetadata × List InventoryError :=
  match r.readOptional path .metadataUnreadable observed with
  | (none, errors) => (none, errors)
  | (some bytes, _) =>
    match parse bytes with
    | .ok m => (some m, [])
    | .error e => (none, [⟨path, .metadataMalformed, e⟩])

/-- `Scanner::pid`, `list.rs:244`. -/
def pid (r : Scene) (path : Text) (observed : Bool) : Option Int32 × List InventoryError :=
  match r.readOptional path .pidUnreadable observed with
  | (none, errors) => (none, errors)
  | (some bytes, _) =>
    match fromUtf8 bytes with
    | none => (none, [⟨path, .pidMalformed, utf8Error bytes⟩])
    | some text =>
      (parseLeadingInt (trim text),
        if isPositiveDecimal (trim text) then []
        else [⟨path, .pidMalformed, "expected a positive decimal PID"⟩])

/-- `symlink_metadata` finds nothing, `list.rs:548`. -/
def absent (r : Scene) (path : Text) : Bool :=
  match r.symlinkMetadata path with
  | .ok () => false
  | .error e => e.notFound

/-- What a scan is answered. -/
def answers (r : Scene) : Answers where
  dir := r.dir
  metadata := r.metadata parse
  pid := r.pid utf8Error
  recordIdentity := r.recordIdentity
  absent := r.absent
  probe := r.probe

variable {r : Scene} {path : Text} {observed : Bool} {e : InventoryError}

theorem path_of_mem_readOptional {kind : InventoryErrorKind}
    (h : e ∈ (r.readOptional path kind observed).2) : e.path = path := by
  unfold readOptional at h
  split at h
  · cases h
  · dsimp only at h
    split at h
    · rw [List.mem_singleton.mp h]
    · cases h

/-- An error of a record is about its path. -/
theorem path_of_mem_metadata (h : e ∈ (r.metadata parse path observed).2) : e.path = path := by
  unfold metadata at h
  split at h
  · next errors hr =>
    have hread : e ∈ (r.readOptional path .metadataUnreadable observed).2 := by rwa [hr]
    exact path_of_mem_readOptional hread
  · split at h
    · cases h
    · rw [List.mem_singleton.mp h]

/-- An error of a PID file is about its path. -/
theorem path_of_mem_pid (h : e ∈ (r.pid utf8Error path observed).2) : e.path = path := by
  unfold pid at h
  split at h
  · next errors hr =>
    have hread : e ∈ (r.readOptional path .pidUnreadable observed).2 := by rwa [hr]
    exact path_of_mem_readOptional hread
  · split at h
    · rw [List.mem_singleton.mp h]
    · dsimp only at h
      split at h
      · cases h
      · rw [List.mem_singleton.mp h]

end Scene
end PtySpec.Listing
