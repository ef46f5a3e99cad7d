import PtySpec.Lib.Interleave

/-!
# The lock files

Model of the locks of a session, `crates/pty-core/src/registry/lock.rs`: the claim of a lock file,
the theft of a stale one, its release and its pin, as the system calls they make. Both
locks of a session work so; the creation lock has withdrawal tokens, and a pin of it belongs to
the thread that holds the claim.
-/

namespace PtySpec.Registry.LockFile

open Lib Prog

/-- What `random_hex16` draws. -/
abbrev Nonce := List Char

/-- What `parse_leading_int` and `record_nonce` find in a lock file. -/
structure LockRecord where
  pid : Option Int32
  nonce : Option Nonce
  deriving DecidableEq, Repr

/-- What the path of the lock names. -/
inductive Found where
  | file (inode : Nat)
  | missing
  | failed
  deriving DecidableEq, Repr

/-- What `flock` says. -/
inductive Flocked where
  | locked
  | busy
  | failed
  deriving DecidableEq, Repr

/-- The system calls, and the ends of what is done under the lock. -/
inductive Op where
  | ensureSessionDir
  | randomHex16
  | hardLink (record : LockRecord)
  | open_
  | read (inode : Nat)
  | flock (inode : Nat) (wait : Bool)
  | unlock (inode : Nat)
  | metadata
  | pidAlive (pid : Int32)
  | removeFile
  | publishToken (nonce : Nonce) (value : Bool)
  | withdrawToken (nonce : Nonce)
  | readToken (nonce : Nonce)
  | tokenExists (nonce : Nonce)
  | removeToken (nonce : Nonce)
  | enter
  | leave

/-- Their answers. A link that was made is told with its inode; a token is told by whether its
byte is `1`. -/
abbrev Op.Ans : Op → Type
  | .ensureSessionDir | .pidAlive _ | .removeFile | .publishToken .. | .tokenExists _ => Bool
  | .randomHex16 => Nonce
  | .hardLink _ => Option (Option Nat)
  | .open_ | .metadata => Found
  | .read _ => LockRecord
  | .flock .. => Flocked
  | .withdrawToken _ | .readToken _ => Option Bool
  | .unlock _ | .removeToken _ | .enter | .leave => Unit

/-- A program over them. -/
abbrev Act := Prog Op Op.Ans

/-! ### The calls by name -/

def ensureSessionDir : Act Bool := query Op.ensureSessionDir
def randomHex16 : Act Nonce := query Op.randomHex16
def hardLink (record : LockRecord) : Act (Option (Option Nat)) := query (Op.hardLink record)
def openPath : Act Found := query Op.open_
def readInode (inode : Nat) : Act LockRecord := query (Op.read inode)
def flock (inode : Nat) (wait : Bool) : Act Flocked := query (Op.flock inode wait)
def unlock (inode : Nat) : Act Unit := query (Op.unlock inode)
def metadata : Act Found := query Op.metadata
def pidAlive (pid : Int32) : Act Bool := query (Op.pidAlive pid)
def removeFile : Act Bool := query Op.removeFile
def publishToken (nonce : Nonce) (value : Bool) : Act Bool := query (Op.publishToken nonce value)
def withdrawToken (nonce : Nonce) : Act (Option Bool) := query (Op.withdrawToken nonce)
def readToken (nonce : Nonce) : Act (Option Bool) := query (Op.readToken nonce)
def tokenExists (nonce : Nonce) : Act Bool := query (Op.tokenExists nonce)
def removeToken (nonce : Nonce) : Act Unit := query (Op.removeToken nonce)
def enter : Act Unit := query Op.enter
def leave : Act Unit := query Op.leave

/-- `LockGuard`, `lock.rs:49`. -/
structure LockGuard where
  ownerPid : Int32
  nonce : Nonce
  delegated : Bool

/-! ### Tokens -/

/-- `claim_active`, `lock.rs:200`. -/
def claimActive (nonce : Nonce) : Act Bool := do
  return (← readToken nonce) == some true

/-- `activate_claim`, `lock.rs:191`. -/
def activateClaim (nonce : Nonce) : Act Bool := do
  if ← publishToken nonce true then claimActive nonce else return false

/-- `withdraw_claim`, `lock.rs:206`. A token that is not there is published as withdrawn. -/
def withdrawClaim (nonce : Nonce) : Act Unit := do
  if (← withdrawToken nonce) = some false then
    if ← publishToken nonce false then
      let _ ← withdrawToken nonce

/-- `WithdrawnClaimCleanup::drop`, `lock.rs:234`, if it is armed. -/
def cleanUp (inode : Nat) (legacyNonce : Option (Int32 × Nonce)) : Act Unit := do
  if (← metadata) = .file inode then
    let record ← readInode inode
    let legacy := (legacyNonce.filter fun l ↦ record.pid = some l.1).map (·.2)
    match record.nonce.or legacy with
    | some nonce =>
      if (← readToken nonce) = some false then
        if ← removeFile then removeToken nonce
    | none => pure ()

/-! ### Claims -/

/-- `try_create`, `lock.rs:281`; `none` is an error. -/
def tryCreate (me : Int32) : Act (Option Bool) := do
  let nonce ← randomHex16
  return (← hardLink ⟨some me, some nonce⟩).map (·.isSome)

/-- `holder_is_alive`, `lock.rs:566`. -/
def holderIsAlive (inode : Nat) : Act Bool := do
  match (← readInode inode).pid with
  | some pid => pidAlive pid
  | none => return false

/-- What `read_to_string` of the path gives. -/
def readPath : Act (Option LockRecord) := do
  match ← openPath with
  | .file inode => return some (← readInode inode)
  | _ => return none

/-- The body of `steal_locked_inode`, `lock.rs:585-601`. -/
def stealing (me : Int32) (staleInode : Nat) : Act (Option Bool) := do
  match ← metadata with
  | .missing => tryCreate me
  | .failed => return none
  | .file current =>
    if current ≠ staleInode then return some false
    else if ← holderIsAlive staleInode then return some false
    else
      match (← readPath).bind (·.nonce) with
      | some nonce => removeToken nonce
      | none => pure ()
      if ← removeFile then tryCreate me else return none

/-- `steal_locked_inode`, `lock.rs:580`. -/
def stealLockedInode (me : Int32) (staleInode : Nat) : Act (Option Bool) := do
  let acquired ← stealing me staleInode
  cleanUp staleInode none
  unlock staleInode
  return acquired

/-- `steal_opened_lock`, `lock.rs:573`. -/
def stealOpenedLock (me : Int32) (staleInode : Nat) : Act (Option Bool) := do
  match ← flock staleInode false with
  | .locked => stealLockedInode me staleInode
  | .busy => return some false
  | .failed => return none

/-- The guard of a claim that was made, `lock.rs:618-630`. -/
def newGuard (me : Int32) : Act (Option LockGuard) := do
  return ((← readPath).bind (·.nonce)).map fun nonce ↦ ⟨me, nonce, false⟩

/-- A guard if a claim was made. -/
def guardOf (me : Int32) : Option Bool → Act (Option (Option LockGuard))
  | some true => do return (← newGuard me).map some
  | some false => return some none
  | none => return none

/-- `try_acquire_file_lock`, `lock.rs:616`. -/
def tryAcquireFileLock (me : Int32) : Act (Option (Option LockGuard)) := do
  if !(← ensureSessionDir) then return none
  else
    let created ← tryCreate me
    if created ≠ some false then guardOf me created
    else
      match ← openPath with
      | .file staleInode => guardOf me (← stealOpenedLock me staleInode)
      | .missing => guardOf me (← tryCreate me)
      | .failed => return none

/-! ### Release -/

/-- The record is that of the claim to be released, `lock.rs:889-891`. -/
def LockRecord.expected (record : LockRecord) (pid : Option Int32) (nonce : Option Nonce) : Bool :=
  pid.all (record.pid = some ·) && nonce.all (record.nonce = some ·)

/-- What `release_file_lock_checked_nonce` does under the advisory lock, `lock.rs:914-936`. -/
def releasing (events : Bool) (inode : Nat) (pid : Option Int32) (nonce : Option Nonce) :
    Act Bool := do
  let owner ← readInode inode
  if !owner.expected pid nonce then return false
  else
    match nonce, owner.nonce with
    | none, some nonce => withdrawClaim nonce
    | _, _ => pure ()
    if (← metadata) = .file inode then
      if ← removeFile then
        match owner.nonce with
        | some nonce => if events then pure () else removeToken nonce
        | none => pure ()
        return true
      else return false
    else return false

/-- Whether the release waits for the advisory lock, `lock.rs:900-902`. -/
def waitForChecker (events : Bool) (owner : LockRecord) : Act Bool := do
  if events then
    match owner.nonce with
    | some nonce => return !(← tokenExists nonce)
    | none => return true
  else return false

/-- `release_file_lock_checked_nonce`, `lock.rs:882`. -/
def releaseFileLockCheckedNonce (events : Bool) (pid : Option Int32) (nonce : Option Nonce) :
    Act Bool := do
  match ← openPath with
  | .file inode =>
    let owner ← readInode inode
    if !owner.expected pid nonce then return false
    else
      let wait ← waitForChecker events owner
      match nonce, owner.nonce with
      | none, some nonce => withdrawClaim nonce
      | _, _ => pure ()
      match ← flock inode wait with
      | .locked =>
        let released ← releasing events inode pid nonce
        cleanUp inode (pid.bind fun pid ↦ nonce.map fun nonce ↦ (pid, nonce))
        unlock inode
        return released
      | _ => return false
  | _ => return false

/-- `LockGuard::release` and its drop, `lock.rs:79, 162`. -/
def LockGuard.release (g : LockGuard) (events : Bool) : Act Unit := do
  if g.delegated || !events then withdrawClaim g.nonce
  let _ ← releaseFileLockCheckedNonce events (some g.ownerPid) (some g.nonce)

/-! ### Pins -/

/-- Whether the ownership is unchanged, `lock.rs:544-549`, if the record is as expected. -/
def unchanged (expected : Bool) (ownerPid : Int32) (nonce : Nonce) : Act Bool := do
  if !expected then return false
  else if ← pidAlive ownerPid then claimActive nonce
  else return false

/-- `pin_claim`, `lock.rs:524`, of one's own claim: the inode that is pinned. -/
def pinClaim (ownerPid : Int32) (nonce : Nonce) : Act (Option Nat) := do
  match ← openPath with
  | .file inode =>
    match ← flock inode false with
    | .locked =>
      let current ← metadata
      let owner ← readInode inode
      if ← unchanged (current = .file inode && owner.expected (some ownerPid) (some nonce))
          ownerPid nonce then
        return some inode
      else
        cleanUp inode (some (ownerPid, nonce))
        unlock inode
        return none
    | _ => return none
  | _ => return none

/-- `PublicationLock::drop`, `lock.rs:492`. -/
def dropPin (inode : Nat) (nonce : Nonce) : Act Unit := do
  if !(← claimActive nonce) then
    if (← metadata) = .file inode then
      if ← removeFile then removeToken nonce
  unlock inode

/-! ### Sessions -/

/-- What is done with a claim: it is used and released. -/
def plainly (events : Bool) (g : LockGuard) : Act Unit := do
  enter
  leave
  g.release events

/-- What `install` does with its claim, `revocation.rs:370-405`: it is pinned while it is used;
the pin is dropped before the claim. -/
def pinned (g : LockGuard) : Act Unit := do
  if ← activateClaim g.nonce then
    let g := { g with delegated := true }
    match ← pinClaim g.ownerPid g.nonce with
    | some inode =>
      enter
      leave
      dropPin inode g.nonce
      g.release false
    | none => g.release false
  else g.release false

/-- One try to take a lock, and what is done with it. -/
def session (events pin : Bool) (me : Int32) : Act Unit := do
  match ← tryAcquireFileLock me with
  | some (some g) => if pin then pinned g else plainly events g
  | _ => pure ()

end PtySpec.Registry.LockFile
