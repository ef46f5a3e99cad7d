import PtySpec.Revocation.Store

/-!
# Installs and launches

The parties of a root: installs of fences, `revocation.rs:359`, step by step, and launches,
which hold the creation claim of their name from the check to the last effect of the
publication (`config.rs:78`, `lifecycle.rs:511`). A claim has one holder; a party that fails
or dies gives it up, wherever it is.
-/

namespace PtySpec.Revocation

open Registry (Text join)
open Listing (Answers SessionInfo scanSessions)
open Metadata (SessionMetadata)

/-! ### Installs -/

/-- The arguments of `install`. -/
structure Request where
  name : Text
  binding : PublicationBinding
  intentDigest : Text
  expectedRootId : Text

/-- `RevocationInstall`, `revocation.rs:53`. -/
structure RevocationInstall where
  record : PublicationRevocation
  occupancy : List SessionInfo
  alreadyInstalled : Bool

/-- Where an install is. -/
inductive InstallPhase where
  | locking (identity : RootIdentity)
  | pinned (identity : RootIdentity)
  | publishing (identity : RootIdentity) (record : PublicationRevocation)
  | written (identity : RootIdentity) (record : PublicationRevocation)
  | published (identity : RootIdentity) (record : PublicationRevocation)
  | durable (record : PublicationRevocation) (already : Bool)
  | acked (result : RevocationInstall)
  | refused (failure : Failure)

/-- Whether an install in this phase has the claim. -/
def InstallPhase.holding : InstallPhase → Bool
  | .locking _ | .acked _ | .refused _ => false
  | _ => true

/-- The first part of `install`, before the claim. -/
def Request.begin (site : Site) (store : Store) (req : Request) : InstallPhase :=
  let identity : Except Failure RootIdentity := do
    validateName site req.name
    req.binding.validate
    validateDigest req.intentDigest
    validateDigest req.expectedRootId
    let identity ← store.enrolled site
    if identity.rootId ≠ req.expectedRootId then
      throw ⟨.permissionDenied, "publication revocation expected root identity mismatch"⟩
    return identity
  match identity with
  | .ok identity => .locking identity
  | .error failure => .refused failure

/-- The refusal of a claim that another party has. -/
def busy : Failure := ⟨.wouldBlock, "publication name is busy"⟩

/-- The refusal of an install that differs from what is there. -/
def conflict : Failure :=
  ⟨.alreadyExists, "publication revocation conflicts with existing immutable record"⟩

/-- The record of a request. -/
def Request.record (site : Site) (identity : RootIdentity) (now : Text) (req : Request) :
    PublicationRevocation where
  schema := 1
  rootId := identity.rootId
  name := req.name
  binding := req.binding
  intentDigest := req.intentDigest
  capabilityVersion := 1
  revoked := true
  attestationReceiptOrIntentId := req.intentDigest
  writerUid := site.uid
  recordedAt := now

/-- What an install with the claim does about a record that is there, or not. -/
def Request.decide (site : Site) (store : Store) (identity : RootIdentity) (now : Text)
    (req : Request) : InstallPhase :=
  match store.readRecord site identity req.name req.binding.operation with
  | .error failure => .refused failure
  | .ok (some r) =>
    if r.binding ≠ req.binding ∨ r.intentDigest ≠ req.intentDigest then .refused conflict
    else .durable r true
  | .ok none => .publishing identity (req.record site identity now)

/-- `rename_noreplace` of a written record, `revocation.rs:207`. -/
def Store.rename (s : Store) (directory file : Text) (r : PublicationRevocation) : Store :=
  if (s.record directory file).isSome then s
  else
    { s with
      record := Function.update s.record directory
        (Function.update (s.record directory) file (some (.ok r))) }

/-- The record is read back, `revocation.rs:404`. -/
def Request.readBack (site : Site) (store : Store) (identity : RootIdentity)
    (record : PublicationRevocation) (req : Request) : InstallPhase :=
  match store.readRecord site identity req.name req.binding.operation with
  | .error failure => .refused failure
  | .ok none => .refused (invalid "installed revocation disappeared")
  | .ok (some durable) => if durable ≠ record then .refused conflict else .durable durable false

/-- The occupancy is observed and returned, `revocation.rs:413`. -/
def Request.observe (site : Site) (answers : Answers) (record : PublicationRevocation)
    (already : Bool) (req : Request) : InstallPhase :=
  let inventory := scanSessions site.host answers true site.root (some req.name)
  if !inventory.complete || !inventory.errors.isEmpty then
    .refused (invalid ("publication occupancy unavailable: " ++ site.debug inventory.errors))
  else .acked ⟨record, inventory.entries, already⟩

/-- A step of an install that has the claim; the temporary file that `publishing` writes is
under a name of its own. -/
def Request.advance (site : Site) (store : Store) (now : Text) (answers : Answers)
    (req : Request) : InstallPhase → Store × InstallPhase
  | .pinned identity => (store, req.decide site store identity now)
  | .publishing identity record => (store, .written identity record)
  | .written identity record =>
    (store.rename (site.hash req.name) (site.hash req.binding.operation) record,
      .published identity record)
  | .published identity record => (store, req.readBack site store identity record)
  | .durable record already => (store, req.observe site answers record already)
  | phase => (store, phase)

/-! ### Launches -/

/-- `DaemonConfig`, as far as a publication is checked, and the record that it writes. -/
structure DaemonConfig where
  name : Text
  publicationBinding : Option PublicationBinding
  publicationRootId : Option Text
  lifecycleTag : Option String
  operationTag : Option Text
  metadata : SessionMetadata

/-- `check_publication`, `config.rs:78`. A root that is not enrolled is given a new identity,
which is not the expected one. -/
def DaemonConfig.checkPublication (site : Site) (store : Store) (cfg : DaemonConfig) :
    Except Failure Unit := do
  if cfg.publicationBinding.isSome && cfg.lifecycleTag = some "st3.start-operation" then
    throw ⟨.other, "publication operation tag cannot be a mutable lifecycle tag"⟩
  match cfg.publicationBinding, cfg.publicationRootId with
  | some _, some expected =>
    let actual ← store.enrolled site
    if actual.rootId ≠ expected then throw ⟨.other, "publication root identity changed"⟩
  | none, none => pure ()
  | _, _ => throw ⟨.other, "publication binding and root identity are required together"⟩
  store.check site cfg.name cfg.publicationBinding cfg.operationTag

/-- Where a launch is; `ended` without a publication, with its check passed or not. -/
inductive LaunchPhase where
  | waiting
  | claimed
  | checked
  | published
  | ended (passed : Bool)
  deriving DecidableEq, Repr

/-- Whether the check has passed. -/
def LaunchPhase.passed : LaunchPhase → Bool
  | .checked | .published => true
  | .ended passed => passed
  | _ => false

/-- The check of a launch that has the claim. -/
def DaemonConfig.check (site : Site) (store : Store) (cfg : DaemonConfig) : LaunchPhase :=
  match cfg.checkPublication site store with
  | .ok () => .checked
  | .error _ => .ended false

/-! ### The root -/

/-- Who can have a claim. -/
inductive Party where
  | install (i : Nat)
  | launch (l : Nat)
  deriving DecidableEq, Repr

/-- An install and its request. -/
structure Install where
  req : Request
  phase : InstallPhase

/-- A launch and its configuration. -/
structure Launch where
  cfg : DaemonConfig
  phase : LaunchPhase

/-- The store, the claims, the sessions' records, the parties, and for each name the launches
that published it, in their order. -/
structure System where
  store : Store
  claim : Text → Option Party
  record : Text → Option SessionMetadata
  installs : Nat → Option Install
  launches : Nat → Option Launch
  log : Text → List Nat

/-- The claims without those of a party. -/
def release (p : Party) (claim : Text → Option Party) : Text → Option Party :=
  fun name ↦ if claim name = some p then none else claim name

/-- The answers of a scan that sees the records of the root. -/
def Sees (site : Site) (s : System) (answers : Answers) : Prop :=
  ∃ items, answers.dir = .ok items ∧ ∀ name m, s.record name = some m →
    .entry (name ++ ".json".toList) ∈ items ∧
      ∀ observed,
        (answers.metadata (join site.root (name ++ ".json".toList)) observed).1 = some m

/-- With an install in a phase; one that has come to its end has no claim. -/
def System.withInstall (s : System) (i : Nat) (c : Install) (phase : InstallPhase) : System :=
  { s with
    installs := Function.update s.installs i (some { c with phase := phase })
    claim := if phase.holding then s.claim else release (.install i) s.claim }

/-- With a launch in a phase. -/
def System.withLaunch (s : System) (l : Nat) (c : Launch) (phase : LaunchPhase) : System :=
  { s with launches := Function.update s.launches l (some { c with phase := phase }) }

/-- Without the claim of a launch. -/
def System.releaseLaunch (s : System) (l : Nat) : System :=
  { s with claim := release (.launch l) s.claim }

/-- One step of one party, or of the surroundings. -/
inductive Step (site : Site) (s : System) : System → Prop where
  | enroll (identity : RootIdentity) (h : s.store.identity = none) :
    Step site s
      { s with store := { s.store with present := true, identity := some (.ok identity) } }
  | permissions (failure : Option Failure) :
    Step site s { s with store := { s.store with rootFailure := failure } }
  | request (i : Nat) (req : Request) (h : s.installs i = none) :
    Step site s
      { s with installs := Function.update s.installs i (some ⟨req, req.begin site s.store⟩) }
  | lock (i : Nat) (c : Install) (identity : RootIdentity) (h : s.installs i = some c)
    (phase : c.phase = .locking identity) (free : s.claim c.req.name = none) :
    Step site s
      { s.withInstall i c (.pinned identity) with
        claim := Function.update s.claim c.req.name (some (.install i)) }
  | busy (i : Nat) (c : Install) (identity : RootIdentity) (h : s.installs i = some c)
    (phase : c.phase = .locking identity) (taken : s.claim c.req.name ≠ none) :
    Step site s (s.withInstall i c (.refused busy))
  | advance (i : Nat) (c : Install) (now : Text) (answers : Answers)
    (h : s.installs i = some c) (phase : c.phase.holding = true) (sees : Sees site s answers) :
    Step site s
      { s.withInstall i c (c.req.advance site s.store now answers c.phase).2 with
        store := (c.req.advance site s.store now answers c.phase).1 }
  | fail (i : Nat) (c : Install) (failure : Failure) (h : s.installs i = some c)
    (phase : c.phase.holding = true) : Step site s (s.withInstall i c (.refused failure))
  | start (l : Nat) (cfg : DaemonConfig) (h : s.launches l = none) :
    Step site s { s with launches := Function.update s.launches l (some ⟨cfg, .waiting⟩) }
  | claim (l : Nat) (c : Launch) (h : s.launches l = some c) (phase : c.phase = .waiting)
    (free : s.claim c.cfg.name = none) :
    Step site s
      { s.withLaunch l c .claimed with
        claim := Function.update s.claim c.cfg.name (some (.launch l)) }
  | check (l : Nat) (c : Launch) (h : s.launches l = some c) (phase : c.phase = .claimed)
    (ok : c.cfg.check site s.store = .checked) : Step site s (s.withLaunch l c .checked)
  | stop (l : Nat) (c : Launch) (h : s.launches l = some c) (phase : c.phase ≠ .published) :
    Step site s ((s.withLaunch l c (.ended c.phase.passed)).releaseLaunch l)
  | publish (l : Nat) (c : Launch) (h : s.launches l = some c) (phase : c.phase = .checked) :
    Step site s
      { s.withLaunch l c .published with
        record := Function.update s.record c.cfg.name (some c.cfg.metadata)
        log := Function.update s.log c.cfg.name (s.log c.cfg.name ++ [l]) }
  | finish (l : Nat) (c : Launch) (h : s.launches l = some c) (phase : c.phase = .published) :
    Step site s (s.releaseLaunch l)

/-- A root without parties, with any store and any sessions. -/
structure Initial (s : System) : Prop where
  claim : ∀ name, s.claim name = none
  installs : ∀ i, s.installs i = none
  launches : ∀ l, s.launches l = none
  log : ∀ name, s.log name = []

/-- The steps of a run. -/
abbrev Steps (site : Site) : System → System → Prop := Relation.ReflTransGen (Step site)

end PtySpec.Revocation
