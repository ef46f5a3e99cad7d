import PtySpec.Listing.Files

/-!
# The metadata cache

Model of `RegistryListCache`, `crates/pty-core/src/registry/list/metadata_cache.rs`. A read of
a record is a sequence of steps, each one system call or one access to the cache under its
lock; files change, and other reads go on, between any two of them. Next to it is the plain
read of an uncached listing, under the same changes.
-/

namespace PtySpec.Listing

open Lib
open Registry (Text Host join dirPrefix)
open Metadata (SessionMetadata)

/-! ### The cache -/

/-- `Entry`, `metadata_cache.rs:55`; the key is the path. -/
structure CacheEntry where
  identity : Identity
  metadata : SessionMetadata

/-- `RegistryListCache`. -/
abbrev Cache := IndexMap Text CacheEntry

/-- The last component of a path. -/
def fileName (path : Text) : Text := restOf '/' path

/-- `Path::file_stem` of a file name. -/
def fileStem (file : Text) : Text :=
  let stem := file.take (file.length - (restOf '.' file).length - 1)
  if stem = [] then file else stem

/-- `retain`, `metadata_cache.rs:83`: what is not in the root, or has one of the names. -/
def retain (root : Text) (names : List Text) (cache : Cache) : Cache :=
  cache.filter fun e ↦
    dirPrefix root ++ fileName e.1 != e.1 || names.contains (fileStem (fileName e.1))

/-! ### Reads -/

/-- What reading a record gives. -/
abbrev Outcome := Except (InventoryErrorKind × String) SessionMetadata

/-- `unreadable`, `metadata_cache.rs:95`. -/
def unreadable (e : IoError) : Outcome := .error (.metadataUnreadable, e.text)

/-- What the bytes of a record are parsed to. -/
def parsed (parse : List UInt8 → Except String SessionMetadata) (bytes : List UInt8) : Outcome :=
  match parse bytes with
  | .ok m => .ok m
  | .error e => .error (.metadataMalformed, e)

/-- Where a read of a record through the cache is. `origin` is the file that was opened and
its identity before the read, `none` for what is not a regular file. -/
inductive Phase where
  | begun
  | opened (inode : Inode)
  | stated (inode : Inode) (before : Identity)
  | hit (inode : Inode) (before : Identity) (metadata : SessionMetadata)
  | missed (origin : Option (Inode × Identity))
  | reopening
  | reading (origin : Option (Inode × Identity)) (inode : Inode) (bytes : List UInt8)
  | ended (origin : Option (Inode × Identity)) (bytes : List UInt8)
  | checked (identity : Option Identity) (bytes : List UInt8)
  | done (outcome : Outcome)
  | broken (error : IoError)

variable {devices : Nat → Device} (parse : List UInt8 → Except String SessionMetadata)

/-- The next bytes of a file, `n + 1` at most. -/
def nextChunk (fs : Files devices) (inode : Inode) (bytes : List UInt8) (n : Nat) : List UInt8 :=
  ((fs.file inode).content.drop bytes.length).take (n + 1)

/-- One step of `RegistryListCache::metadata`, `metadata_cache.rs:91`, which read the clock at
`now`; `n` bounds the bytes that a step reads. -/
def advance (fs : Files devices) (path : Text) (now : Int) (n : Nat) (cache : Cache) :
    Phase → Cache × Phase
  | .begun =>
    match fs.target path with
    | .missing e => (cache.remove path, .done (unreadable e))
    | .special _ => (cache, .missed none)
    | .file inode => (cache, .opened inode)
  | .opened inode => (cache, .stated inode (fs.identity inode))
  | .stated inode before =>
    match (cache.get path).filter (·.identity = before) with
    | some entry => (cache, .hit inode before entry.metadata)
    | none => (cache, .missed (some (inode, before)))
  | .hit inode before metadata =>
    if fs.identity inode = before then (cache, .done (.ok metadata))
    else (cache, .missed (some (inode, before)))
  | .missed (some (inode, before)) =>
    (cache.remove path, .reading (some (inode, before)) inode [])
  | .missed none => (cache.remove path, .reopening)
  -- not a regular file: `std::fs::read` opens the path once more
  | .reopening =>
    match fs.target path with
    | .missing e | .special (.error e) => (cache.remove path, .done (unreadable e))
    | .special (.ok bytes) => (cache, .ended none bytes)
    | .file inode => (cache, .reading none inode [])
  | .reading origin inode bytes =>
    if nextChunk fs inode bytes n = [] then (cache, .ended origin bytes)
    else (cache, .reading origin inode (bytes ++ nextChunk fs inode bytes n))
  | .ended none bytes => (cache, .checked none bytes)
  | .ended (some (inode, before)) bytes =>
    (cache, .checked (if fs.identity inode = before && before.settled now then some before
      else none) bytes)
  | .checked identity bytes =>
    match identity, parse bytes with
    | some i, .ok m => (cache.insert path ⟨i, m⟩, .done (.ok m))
    | _, _ => (cache, .done (parsed parse bytes))
  | .done outcome => (cache, .done outcome)
  | .broken e => (cache, .broken e)

/-- `read_to_end` fails. -/
def interrupt (path : Text) (e : IoError) (cache : Cache) : Phase → Cache × Phase
  | .reading _ _ _ => (cache.remove path, .broken e)
  | phase => (cache, phase)

/-- What a read returns, when it has. -/
def Phase.outcome : Phase → Option Outcome
  | .done r => some r
  | .broken e => some (unreadable e)
  | _ => none

/-- `std::fs::read` and the parse of an uncached listing, when nothing changes meanwhile. -/
def plainRead (fs : Files devices) (path : Text) : Outcome :=
  match fs.target path with
  | .missing e | .special (.error e) => unreadable e
  | .special (.ok bytes) => parsed parse bytes
  | .file inode => parsed parse (fs.file inode).content

/-! ### Plain reads under changes -/

/-- Where a plain read is. -/
inductive Plain where
  | reading (inode : Inode) (bytes : List UInt8)
  | finished (result : Except IoError (List UInt8))

/-- What a plain read that begins at `since` may have come to at a later time, when the files
are those of `files`. -/
inductive Reads (files : Nat → Files devices) (path : Text) (since : Nat) :
    Nat → Plain → Prop where
  | openFile {t : Nat} {inode : Inode} (ht : since ≤ t)
    (h : (files t).target path = .file inode) :
    Reads files path since t (.reading inode [])
  | openMissing {t : Nat} {e : IoError} (ht : since ≤ t)
    (h : (files t).target path = .missing e) :
    Reads files path since t (.finished (.error e))
  | openSpecial {t : Nat} {content : Except IoError (List UInt8)} (ht : since ≤ t)
    (h : (files t).target path = .special content) :
    Reads files path since t (.finished content)
  | later {t t' : Nat} {p : Plain} (ht : t ≤ t') (h : Reads files path since t p) :
    Reads files path since t' p
  | chunk {t : Nat} {inode : Inode} {bytes : List UInt8} (n : Nat)
    (h : Reads files path since t (.reading inode bytes)) :
    Reads files path since t (.reading inode (bytes ++ nextChunk (files t) inode bytes n))
  | eof {t n : Nat} {inode : Inode} {bytes : List UInt8}
    (h : Reads files path since t (.reading inode bytes))
    (he : nextChunk (files t) inode bytes n = []) :
    Reads files path since t (.finished (.ok bytes))

/-- What a plain read gives. -/
def outcome : Except IoError (List UInt8) → Outcome
  | .ok bytes => parsed parse bytes
  | .error e => unreadable e

/-- What a plain read of the path between two times can give. -/
def ReadAs (files : Nat → Files devices) (path : Text) (since t : Nat) (r : Outcome) : Prop :=
  ∃ result, Reads files path since t (.finished result) ∧ r = outcome parse result

/-! ### Runs -/

/-- A read through the cache: when it began, and the clock that it read. -/
structure Call where
  path : Text
  since : Nat
  now : Int
  phase : Phase

/-- The files, the cache and the reads that are going on. -/
structure System (devices : Nat → Device) where
  files : Files devices
  cache : Cache
  calls : Nat → Option Call

/-- A read alone, from its first step to its last, with files that do not change; one step
takes the whole file. -/
def runAlone (fs : Files devices) (path : Text) : Nat → Cache × Phase → Cache × Phase
  | 0, s => s
  | k + 1, s =>
    let size :=
      match fs.target path with
      | .file inode => (fs.file inode).content.length
      | _ => 0
    runAlone fs path k (advance parse fs path fs.clock size s.1 s.2)

/-- `RegistryListCache::metadata` at one moment. -/
def cachedRead (fs : Files devices) (path : Text) (cache : Cache) : Cache × Option Outcome :=
  let s := runAlone parse fs path 8 (cache, .begun)
  (s.1, s.2.outcome)

/-- The reads of a list, one after the other. -/
def readAll (fs : Files devices) : List Text → Cache → Cache × List (Text × Option Outcome)
  | [], cache => (cache, [])
  | path :: paths, cache =>
    let first := cachedRead parse fs path cache
    let rest := readAll fs paths first.1
    (rest.1, (path, first.2) :: rest.2)

/-- `Scanner::metadata`, `list.rs:226`: what a read gives, with its error. -/
def reading (path : Text) : Option Outcome → Option SessionMetadata × List InventoryError
  | some (.ok m) => (some m, [])
  | some (.error e) => (none, [⟨path, e.1, e.2⟩])
  | none => (none, [])

/-- The names that a tolerant listing reads. -/
def listedNames (host : Host) (answers : Answers) (root : Text) : List Text :=
  match answers.dir with
  | .error _ => []
  | .ok items => scanNames host root false (scanEntries host root none items)

/-- `list_sessions_in` at one moment; the answers to the other reads are given. -/
def listSessionsIn (fs : Files devices) (host : Host) (answers : Answers) (root : Text) :
    List SessionInfo :=
  (scanSessions host
    { answers with metadata := fun path _ ↦ reading path (some (plainRead parse fs path)) }
    false root none).entries

/-- `RegistryListCache::list` at one moment. -/
def list (fs : Files devices) (cache : Cache) (host : Host) (answers : Answers) (root : Text) :
    Cache × List SessionInfo :=
  let names := listedNames host answers root
  let reads := readAll parse fs (names.map fun name ↦ join root (name ++ ".json".toList))
    (retain root names cache)
  (reads.1,
    (scanSessions host
      { answers with metadata := fun path _ ↦ reading path ((IndexMap.get reads.2 path).join) }
      false root none).entries)

/-- One step at a time: a change, a read that begins, goes on or fails, entries dropped by a
list, or a list that nothing interrupts. -/
inductive Step (t : Nat) (s s' : System devices) : Prop where
  | change (files : s.files.Change s'.files) (cache : s'.cache = s.cache)
      (calls : s'.calls = s.calls)
  | begin (i : Nat) (path : Text) (files : s'.files = s.files) (cache : s'.cache = s.cache)
      (calls : s'.calls =
        Function.update s.calls i (some ⟨path, t, s.files.clock, .begun⟩))
  | advance (i n : Nat) (c : Call) (running : s.calls i = some c) (files : s'.files = s.files)
      (cache : s'.cache = (advance parse s.files c.path c.now n s.cache c.phase).1)
      (calls : s'.calls = Function.update s.calls i
        (some { c with phase := (advance parse s.files c.path c.now n s.cache c.phase).2 }))
  | interrupt (i : Nat) (e : IoError) (c : Call) (running : s.calls i = some c)
      (files : s'.files = s.files) (cache : s'.cache = (interrupt c.path e s.cache c.phase).1)
      (calls : s'.calls = Function.update s.calls i
        (some { c with phase := (interrupt c.path e s.cache c.phase).2 }))
  | retain (root : Text) (names : List Text) (files : s'.files = s.files)
      (cache : s'.cache = retain root names s.cache) (calls : s'.calls = s.calls)
  | list (host : Host) (answers : Answers) (root : Text) (files : s'.files = s.files)
      (cache : s'.cache = (list parse s.files s.cache host answers root).1)
      (calls : s'.calls = s.calls)

/-- A run from an empty cache. -/
structure Run (S : Nat → System devices) : Prop where
  cache : (S 0).cache = []
  calls : ∀ i, (S 0).calls i = none
  step : ∀ t, Step parse t (S t) (S (t + 1))

end PtySpec.Listing
