import PtySpec.Lib.Fence
import PtySpec.Listing.Scan

/-!
# Files and their identities

The files that a metadata cache reads, with what `fstat` says of them, and how they change.
A file system stamps a change with a clock that ticks; the time that the cache reads is that
clock's between its ticks. `Identity` and `settled` are `metadata_cache.rs:11-46`.
-/

namespace PtySpec.Listing

open Lib
open Registry (Text)

/-- A time of a file: seconds and nanoseconds. -/
abbrev FileTime := Int × Int

/-- Nanoseconds since the epoch. -/
def nanos (t : FileTime) : Int := t.1 * 1000000000 + t.2

/-- The device and the number of an inode. -/
abbrev Inode := Nat × Nat

/-- A regular file. -/
structure File where
  content : List UInt8
  mtime : FileTime
  ctime : FileTime
  deriving DecidableEq, Repr

/-- `Identity`, `metadata_cache.rs:11`. -/
structure Identity where
  dev : Nat
  ino : Nat
  size : Nat
  mtime : FileTime
  ctime : FileTime
  deriving DecidableEq, Repr

/-- `TICK_MARGIN`: 50 ms. -/
def tickMargin : Int := 50000000

/-- `COARSE_TICK_MARGIN`: 2 s. -/
def coarseTickMargin : Int := 2000000000

/-- The margin for the times of a file. -/
def Identity.margin (i : Identity) : Int :=
  if i.mtime.2 = 0 && i.ctime.2 = 0 then coarseTickMargin else tickMargin

/-- `Identity::settled`, `metadata_cache.rs:37`: `now` is not before the epoch, and past the
tick of the change. -/
def Identity.settled (i : Identity) (now : Int) : Bool :=
  decide (0 ≤ now) && decide (i.margin < now - nanos i.ctime)

/-- How a device stamps its files. Its tick is within the margin that the cache allows for
it: two seconds where times have no nanoseconds. -/
structure Device where
  tick : Int
  wholeSeconds : Bool
  within : tick ≤ tickMargin ∨ wholeSeconds = true ∧ tick ≤ coarseTickMargin

/-- What opening a path gives: an error, what is not a regular file, or one. -/
inductive Target where
  | missing (error : IoError)
  | special (content : Except IoError (List UInt8))
  | file (inode : Inode)
  deriving DecidableEq, Repr

/-- The file systems at one moment. -/
structure Files (devices : Nat → Device) where
  clock : Int
  target : Text → Target
  file : Inode → File
  whole : ∀ inode, (devices inode.1).wholeSeconds = true →
    (file inode).mtime.2 = 0 ∧ (file inode).ctime.2 = 0

namespace Files

variable {devices : Nat → Device}

/-- `Identity::of` an open file. -/
def identity (fs : Files devices) (inode : Inode) : Identity :=
  ⟨inode.1, inode.2, (fs.file inode).content.length, (fs.file inode).mtime,
    (fs.file inode).ctime⟩

/-- One change: time passes; a file is written, created under a number that is free again, or
has its times or attributes set, and is stamped with the clock's last tick; a path is bound
to something else, or to nothing. -/
inductive Change (fs fs' : Files devices) : Prop where
  | pass (clock : fs.clock ≤ fs'.clock) (target : fs'.target = fs.target)
      (file : fs'.file = fs.file)
  | write (inode : Inode) (clock : fs'.clock = fs.clock) (target : fs'.target = fs.target)
      (others : ∀ other, other ≠ inode → fs'.file other = fs.file other)
      (stamp : fs.clock - (devices inode.1).tick ≤ nanos (fs'.file inode).ctime ∧
        nanos (fs'.file inode).ctime ≤ fs.clock)
  | bind (path : Text) (clock : fs'.clock = fs.clock) (file : fs'.file = fs.file)
      (others : ∀ other, other ≠ path → fs'.target other = fs.target other)

theorem Change.clock_le {fs fs' : Files devices} (h : Change fs fs') : fs.clock ≤ fs'.clock := by
  cases h with
  | pass hc => exact hc
  | write _ hc => exact hc.ge
  | bind _ hc => exact hc.ge

theorem identity_inj {fs : Files devices} {inode : Inode} {i : Identity}
    (h : fs.identity inode = i) : inode = (i.dev, i.ino) := by
  rw [← h]
  rfl

/-- The margin of a file covers the tick of its device. -/
theorem tick_le_margin (fs : Files devices) (inode : Inode) :
    (devices inode.1).tick ≤ (fs.identity inode).margin := by
  have hm : tickMargin ≤ coarseTickMargin := by decide
  unfold Identity.margin
  obtain h | ⟨hw, h⟩ := (devices inode.1).within
  · split
    · exact h.trans hm
    · exact h
  · have hz := fs.whole inode hw
    have hn : ((fs.identity inode).mtime.2 = 0 && (fs.identity inode).ctime.2 = 0) = true := by
      rw [Bool.and_eq_true, decide_eq_true_eq, decide_eq_true_eq]
      exact hz
    rw [if_pos hn]
    exact h

/-- A change of a file moves its change time up to the last tick. -/
def fence (devices : Nat → Device) : Fence (Files devices) Inode Identity (List UInt8) where
  step := Change
  identity := identity
  content fs inode := (fs.file inode).content
  fenced fs i := nanos i.ctime < fs.clock - (devices i.dev).tick
  fenced_step h hf := by
    have := h.clock_le
    omega
  unchanged := by
    intro fs fs' i inode h hf hi
    cases h with
    | pass hc ht hfile =>
      rw [← hi, identity, identity, hfile]
      exact ⟨rfl, rfl⟩
    | bind path hc hfile ho =>
      rw [← hi, identity, identity, hfile]
      exact ⟨rfl, rfl⟩
    | write changed hc ht ho hs =>
      by_cases hk : inode = changed
      · subst hk
        have hct : nanos (fs'.file inode).ctime = nanos i.ctime := by rw [← hi]; rfl
        have hdev : inode.1 = i.dev := by rw [← hi]; rfl
        rw [hdev] at hs
        omega
      · rw [← hi, identity, identity, ho inode hk]
        exact ⟨rfl, rfl⟩

/-- A settled identity is fenced off. -/
theorem fenced_of_settled {fs : Files devices} {i : Identity} {now : Int}
    (hm : (devices i.dev).tick ≤ i.margin) (hn : now ≤ fs.clock) (hs : i.settled now = true) :
    (fence devices).fenced fs i := by
  rw [Identity.settled, Bool.and_eq_true, decide_eq_true_eq, decide_eq_true_eq] at hs
  change nanos i.ctime < fs.clock - (devices i.dev).tick
  omega

end Files
end PtySpec.Listing
