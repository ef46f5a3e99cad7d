import PtySpec.Listing.Scan

/-!
# Publication fences

Model of the store of `crates/pty-core/src/registry/revocation.rs`: the validation of its
records, and the check that every publication makes. The store is what its files hold; a file
is under the digest of its name and of its operation.
-/

namespace PtySpec.Revocation

open Registry (Text Host byteLen validateNameLexical socketPathIn)
open Listing (InventoryError)

/-! ### Records -/

/-- `PublicationBinding`, `revocation.rs:24`. -/
structure PublicationBinding where
  operation : Text
  digest : Text
  deriving DecidableEq, Repr

/-- `PublicationRevocation`, `revocation.rs:38`. -/
structure PublicationRevocation where
  schema : Nat
  rootId : Text
  name : Text
  binding : PublicationBinding
  intentDigest : Text
  capabilityVersion : Nat
  revoked : Bool
  attestationReceiptOrIntentId : Text
  writerUid : Nat
  recordedAt : Text
  deriving DecidableEq, Repr

/-- `RootIdentity`, `revocation.rs:62`. -/
structure RootIdentity where
  schema : Nat
  rootId : Text
  path : Text
  device : Nat
  inode : Nat
  deriving DecidableEq, Repr

/-- `io::ErrorKind`, as far as errors are told apart. -/
inductive ErrorKind where
  | invalidData
  | permissionDenied
  | alreadyExists
  | wouldBlock
  | notFound
  | other
  deriving DecidableEq, Repr

/-- An error. -/
structure Failure where
  kind : ErrorKind
  text : String
  deriving DecidableEq, Repr

/-- `invalid`, `revocation.rs:70`. -/
def invalid (text : String) : Failure := ⟨.invalidData, text⟩

/-! ### The place -/

/-- What the program finds around the store: the digest, the effective user, what
`parse_iso8601_ms` takes, how errors are written, the machine, and the root. -/
structure Site where
  hash : Text → Text
  uid : Nat
  isTime : Text → Bool
  debug : List InventoryError → String
  host : Host
  root : Text
  path : Text
  device : Nat
  inode : Nat

/-- `.publication-revocations`: whether it is there, what opening the root strictly refuses,
`root.json`, and the records by the digests of name and operation. -/
structure Store where
  present : Bool
  rootFailure : Option Failure
  identity : Option (Except Failure RootIdentity)
  record : Text → Text → Option (Except Failure PublicationRevocation)

/-! ### Validation -/

/-- `char::is_control`. -/
def isControl (c : Char) : Bool := c.toNat < 0x20 || (0x7f ≤ c.toNat && c.toNat < 0xa0)

/-- `validate_operation`, `revocation.rs:74`. -/
def validateOperation (operation : Text) : Except Failure Unit :=
  if operation = [] ∨ 1024 < byteLen operation ∨ operation.any isControl then
    .error (invalid "invalid publication operation")
  else .ok ()

/-- `validate_digest`, `revocation.rs:81`. -/
def validateDigest (digest : Text) : Except Failure Unit :=
  if byteLen digest ≠ 64 ∨
      !digest.all fun c ↦ ('0' ≤ c && c ≤ '9') || ('a' ≤ c && c ≤ 'f') then
    .error (invalid "expected 64 lowercase hexadecimal digest")
  else .ok ()

/-- `PublicationBinding::validate`. -/
def PublicationBinding.validate (b : PublicationBinding) : Except Failure Unit := do
  validateOperation b.operation
  validateDigest b.digest

/-- `validate_name`, `names.rs:44`. -/
def validateName (site : Site) (name : Text) : Except Failure Unit :=
  match validateNameLexical name with
  | .error e => .error (invalid e)
  | .ok () =>
    let length := byteLen (socketPathIn site.host site.root name)
    if site.host.sunPathMax < length then
      .error (invalid ("Session name \"" ++ String.ofList name ++ "\" produces a socket path of "
        ++ toString length ++ " bytes, which exceeds the " ++ toString site.host.sunPathMax ++
        "-byte kernel limit by " ++ toString (length - site.host.sunPathMax) ++
        ". Shorten the name or set PTY_SESSION_DIR to a shorter path."))
    else .ok ()

/-! ### Reads -/

/-- `store(false)`, `revocation.rs:255`: the enrolled identity, for this root. -/
def Store.enrolled (site : Site) (s : Store) : Except Failure RootIdentity := do
  if let some failure := s.rootFailure then throw failure
  if !s.present then throw ⟨.notFound, "No such file or directory (os error 2)"⟩
  match s.identity with
  | none => throw ⟨.notFound, "No such file or directory (os error 2)"⟩
  | some (.error failure) => throw failure
  | some (.ok identity) =>
    validateDigest identity.rootId
    if identity.schema ≠ 1 ∨ identity.path ≠ site.path ∨ identity.device ≠ site.device ∨
        identity.inode ≠ site.inode then
      throw (invalid ("publication revocation root identity mismatch; do not reset the store: " ++
        "see README publication root re-enrollment"))
    return identity

/-- Whether a record is whole, `revocation.rs:305`. -/
def audit (site : Site) (r : PublicationRevocation) : Except Failure Unit := do
  r.binding.validate
  validateDigest r.intentDigest
  if r.capabilityVersion ≠ 1 ∨ !r.revoked ∨
      r.attestationReceiptOrIntentId ≠ r.intentDigest ∨ r.writerUid ≠ site.uid ∨
      !site.isTime r.recordedAt then
    throw (invalid "publication revocation audit identity mismatch")

/-- `read_record`, `revocation.rs:292`. -/
def Store.readRecord (site : Site) (s : Store) (identity : RootIdentity) (name operation : Text) :
    Except Failure (Option PublicationRevocation) :=
  match s.record (site.hash name) (site.hash operation) with
  | none => .ok none
  | some (.error failure) => .error failure
  | some (.ok r) => do
    audit site r
    if r.schema ≠ 1 ∨ r.rootId ≠ identity.rootId ∨ r.name ≠ name ∨
        r.binding.operation ≠ operation then
      throw (invalid "publication revocation record identity mismatch")
    return some r

/-- `read_with_root_policy`, `revocation.rs:328`. -/
def Store.read (site : Site) (s : Store) (name operation : Text) (managed : Bool) :
    Except Failure (Option PublicationRevocation) := do
  validateName site name
  validateOperation operation
  if !managed && !s.present then return none
  if let some failure := s.rootFailure then throw failure
  if !s.present then return none
  let identity ← s.enrolled site
  s.readRecord site identity name operation

/-- `check`, `revocation.rs:425`. -/
def Store.check (site : Site) (s : Store) (name : Text) (binding : Option PublicationBinding)
    (tagOperation : Option Text) : Except Failure Unit := do
  validateName site name
  if let some binding := binding then binding.validate
  if let some operation := tagOperation then validateOperation operation
  if let some operation := (binding.map (·.operation)).or tagOperation then
    if (← s.read site name operation binding.isSome).isSome then
      throw ⟨.permissionDenied, "operation-revoked"⟩
  match binding, tagOperation with
  | some _, none => throw ⟨.permissionDenied, "managed publication requires operation tag"⟩
  | some binding, some operation =>
    if binding.operation ≠ operation then
      throw ⟨.permissionDenied, "publication binding and operation tag disagree"⟩
  | none, _ => return

end PtySpec.Revocation
