import PtySpec.Lib.Trace

/-!
# Pages of the retained history

Model of `crates/pty-terminal/src/history.rs`: a page of rows ends where the cursor of the
page before it stands, and the cursor remembers how many rows above it its reader is owed.
The terminal's history is the rows that ever entered it without those pruned, oldest first;
a tracked reference follows its row and loses its value with it.
-/

namespace PtySpec.Vt

open Lib

universe u

/-- The rows that entered the history, and how many of them retention has dropped. -/
structure Scrollback (ρ : Type u) where
  log : List ρ
  pruned : Nat

/-- A `TrackedGridRef`: a column and a row, counted from the first that ever was. -/
structure TrackedGridRef where
  x : Nat
  row : Nat
  deriving DecidableEq, Repr

namespace Scrollback

variable {ρ : Type u}

/-- The retained rows. -/
def rows (t : Scrollback ρ) : List ρ := t.log.drop t.pruned

/-- `Terminal::scrollback_rows`. -/
def scrollbackRows (t : Scrollback ρ) : Nat := t.rows.length

/-- `Terminal::track_grid_ref` of the first column of a retained row. -/
def trackGridRef (t : Scrollback ρ) (y : Nat) : TrackedGridRef := ⟨0, t.pruned + y⟩

/-- `TrackedGridRef::has_value`. -/
def hasValue (t : Scrollback ρ) (anchor : TrackedGridRef) : Bool := t.pruned ≤ anchor.row

/-- `TrackedGridRef::point`: where the row is now. -/
def point (t : Scrollback ρ) (anchor : TrackedGridRef) : Option (Nat × Nat) :=
  if t.hasValue anchor then some (anchor.x, anchor.row - t.pruned) else none

/-- Rows scroll out of the active area. -/
def append (t : Scrollback ρ) (rows : List ρ) : Scrollback ρ := { t with log := t.log ++ rows }

/-- Retention drops the oldest rows. -/
def prune (t : Scrollback ρ) (count : Nat) : Scrollback ρ :=
  { t with pruned := t.pruned + min count t.scrollbackRows }

end Scrollback

/-- `CURSOR_LEASE`, `history.rs:13`, in milliseconds. -/
def CURSOR_LEASE : Nat := 300 * 1000

/-- `MAX_CURSORS`, `history.rs:14`. -/
def MAX_CURSORS : Nat := 256

/-- `MAX_PAGE_BYTES`, `history.rs:16`. -/
def MAX_PAGE_BYTES : Nat := 2 * 1024 * 1024

/-- The token `{generation}:{serial:016x}`, `history.rs:114`. -/
structure Cursor where
  owner : String
  serial : Nat
  deriving DecidableEq, Repr

/-- `cursor.len()`. -/
def Cursor.length (c : Cursor) : Nat := c.owner.utf8ByteSize + 17

/-- `Boundary`, `history.rs:18`. -/
structure Boundary where
  anchor : TrackedGridRef
  owed : Nat
  expires : Nat
  deriving DecidableEq, Repr

/-- `History`, `history.rs:28`; the boundaries are in the order of their cursors. -/
structure History where
  boundaries : List (Cursor × Boundary) := []
  serial : Nat := 0
  deriving DecidableEq, Repr

/-- `HistoryRequest`, `protocol.rs:185`. -/
structure HistoryRequest where
  expectedGeneration : String
  limit : UInt16
  before : Option Cursor
  deriving DecidableEq, Repr

/-- `HistoryRow`, `protocol.rs:193`, with the bytes of its text. -/
structure HistoryRow where
  ansi : List UInt8
  wrapped : Bool
  deriving DecidableEq, Repr

/-- `HistoryResponse`, `protocol.rs:200`. -/
inductive HistoryResponse where
  | page (columns : UInt16) (retainedRows : Nat) (rows : List HistoryRow)
      (nextBefore : Option Cursor)
  | cursorGap
  | staleGeneration
  | alternateScreen
  | invalidRequest
  | unavailable
  | tooLarge
  deriving DecidableEq, Repr

/-- Why a row cannot be read, `history.rs:131`. -/
inductive RowError where
  | unavailable
  | tooLarge
  deriving DecidableEq, Repr

/-- The response a row error is returned as. -/
def RowError.response : RowError → HistoryResponse
  | unavailable => .unavailable
  | tooLarge => .tooLarge

/-- What a request meets: the time, the screen, its width, and which terminal reads fail. -/
structure Reading where
  now : Nat
  alternate : Bool := false
  columns : UInt16 := 80
  rowsFail : Bool := false
  columnsFail : Bool := false
  trackFails : Bool := false

section Page

variable {ρ : Type u} (read : ρ → Except RowError HistoryRow)

/-- The rows of a page, `history.rs:87-104`; `read` is the grid read and `row_ansi` of one
row, and `bytes` what the rows before it take. -/
def readRows : Nat → List ρ → Except RowError (List HistoryRow)
  | _, [] => .ok []
  | bytes, row :: rest =>
    match read row with
    | .error e => .error e
    | .ok r =>
      if bytes + r.ansi.length > MAX_PAGE_BYTES then .error .tooLarge
      else
        match readRows (bytes + r.ansi.length) rest with
        | .error e => .error e
        | .ok more => .ok (r :: more)

namespace History

/-- `History::invalidate`, `history.rs:34`. -/
def invalidate (h : History) : History := { h with boundaries := [] }

/-- Boundaries that expired or lost their row go, `history.rs:58`. -/
def retain (h : History) (term : Scrollback ρ) (now : Nat) : History :=
  { h with boundaries := h.boundaries.filter fun (_, b) ↦
      b.expires > now && term.hasValue b.anchor }

/-- Where a page ends, and how many of the rows owed above it are gone, `history.rs:65-82`. -/
def resume (h : History) (term : Scrollback ρ) (generation : String) :
    Option Cursor → Option (Nat × Nat)
  | none => some (term.scrollbackRows, 0)
  | some cursor =>
    if cursor.owner ≠ generation then none
    else
      match h.boundaries.lookup cursor with
      | none => none
      | some boundary =>
        match term.point boundary.anchor with
        -- the subtraction saturates: rows are pruned from the oldest on
        | some (0, y) => some (y, boundary.owed - y)
        | _ => none

/-- A new cursor at row `start`, `history.rs:107-123`; the oldest gives way. -/
def issue (h : History) (term : Scrollback ρ) (generation : String) (now start owed : Nat) :
    History × Cursor :=
  let cursor : Cursor := ⟨generation, h.serial + 1⟩
  let kept := if h.boundaries.length = MAX_CURSORS then h.boundaries.drop 1 else h.boundaries
  ({ boundaries := kept ++ [(cursor, ⟨term.trackGridRef start, owed, now + CURSOR_LEASE⟩)]
     serial := h.serial + 1 }, cursor)

/-- `History::page`, `history.rs:38`. -/
def page (h : History) (term : Scrollback ρ) (e : Reading) (generation : String)
    (request : HistoryRequest) : History × HistoryResponse :=
  if request.expectedGeneration ≠ generation then (h, .staleGeneration)
  else if request.limit = 0 ∨ request.limit > 200 ∨ request.before.any (·.length > 128) then
    (h, .invalidRequest)
  else if e.alternate then (h, .alternateScreen)
  else
    let h := h.retain term e.now
    if e.rowsFail ∨ e.columnsFail then (h, .unavailable)
    else
      match h.resume term generation request.before with
      | none => (h, .cursorGap)
      | some (stop, pruned) =>
        let start := stop - request.limit.toNat
        -- the oldest retained row is reached after owed rows went: a gap, not the end
        if start = 0 ∧ pruned > 0 then (h, .cursorGap)
        else
          match readRows read 0 ((term.rows.take stop).drop start) with
          | .error error => (h, error.response)
          | .ok rows =>
            if start = 0 then (h, .page e.columns term.scrollbackRows rows none)
            else if e.trackFails then (h, .unavailable)
            else
              let (h, cursor) := h.issue term generation e.now start (start + pruned)
              (h, .page e.columns term.scrollbackRows rows (some cursor))

end History
end Page

/-! ### What a page returns -/

section Spec

variable {ρ : Type u} {read : ρ → Except RowError HistoryRow}

/-- The rows returned are the readings of the rows asked for, one by one. -/
def Reads (read : ρ → Except RowError HistoryRow) (rows : List ρ) (got : List HistoryRow) : Prop :=
  List.Forall₂ (fun row r ↦ read row = .ok r) rows got

private theorem reads_of_readRows {bytes : Nat} {rows : List ρ} {got : List HistoryRow}
    (h : readRows read bytes rows = .ok got) : Reads read rows got := by
  induction rows generalizing bytes got with
  | nil =>
    cases h
    exact .nil
  | cons row rest ih =>
    simp only [readRows] at h
    split at h
    · cases h
    · next r hr =>
      split at h
      · cases h
      · split at h
        · cases h
        · next more hm =>
          cases h
          exact .cons hr (ih hm)

/-- The response is an error. -/
def HistoryResponse.isError : HistoryResponse → Bool
  | .page _ _ _ _ => false
  | _ => true

/-- The request is refused for a reason that has nothing to do with the cursor. -/
def HistoryResponse.interrupts : HistoryResponse → Bool
  | .page _ _ _ _ => false
  | .cursorGap => false
  | _ => true

/-- What a request gives: an error, the page that reaches the oldest retained row with
nothing owed above it, or a full page and a new cursor. -/
inductive History.Paged (read : ρ → Except RowError HistoryRow) (h : History)
    (term : Scrollback ρ) (generation : String) (before : Option Cursor) (limit : Nat) :
    History × HistoryResponse → Prop where
  | refused (h' : History) (response : HistoryResponse) (kept : h'.boundaries ⊆ h.boundaries)
      (serial : h'.serial = h.serial) (error : response.isError = true) :
      Paged read h term generation before limit (h', response)
  | last (h' : History) (columns : UInt16) (stop : Nat) (rows : List HistoryRow)
      (kept : h'.boundaries ⊆ h.boundaries) (serial : h'.serial = h.serial)
      (resumed : h'.resume term generation before = some (stop, 0))
      (reads : Reads read (term.rows.take stop) rows) :
      Paged read h term generation before limit
        (h', .page columns term.scrollbackRows rows none)
  | more (h' h'' : History) (columns : UInt16) (stop pruned start : Nat) (rows : List HistoryRow)
      (kept : h'.boundaries ⊆ h.boundaries) (serial : h'.serial = h.serial)
      (resumed : h'.resume term generation before = some (stop, pruned))
      (full : 0 < limit ∧ 0 < start ∧ start + limit = stop)
      (reads : Reads read ((term.rows.take stop).drop start) rows)
      (added : ∀ p ∈ h''.boundaries, p ∈ h'.boundaries ∨ ∃ expires,
        p = (⟨generation, h.serial + 1⟩, ⟨term.trackGridRef start, start + pruned, expires⟩))
      (next : h''.serial = h.serial + 1) :
      Paged read h term generation before limit
        (h'', .page columns term.scrollbackRows rows (some ⟨generation, h.serial + 1⟩))

private theorem retain_subset (h : History) (term : Scrollback ρ) (now : Nat) :
    (h.retain term now).boundaries ⊆ h.boundaries := List.filter_subset_self _

private theorem mem_issue (h : History) {term : Scrollback ρ} {generation : String}
    {now start owed : Nat} : ∀ p ∈ (h.issue term generation now start owed).1.boundaries,
      p ∈ h.boundaries ∨ ∃ expires,
        p = (⟨generation, h.serial + 1⟩, ⟨term.trackGridRef start, owed, expires⟩) := by
  intro p hp
  simp only [History.issue, List.mem_append, List.mem_singleton] at hp
  rcases hp with hp | hp
  · left
    split at hp
    · exact List.mem_of_mem_drop hp
    · exact hp
  · exact .inr ⟨_, hp⟩

/-- Every response of `page` is one of these. -/
theorem History.paged (read : ρ → Except RowError HistoryRow) (h : History)
    (term : Scrollback ρ) (e : Reading) (generation : String) (request : HistoryRequest) :
    h.Paged read term generation request.before request.limit.toNat
      (h.page read term e generation request) := by
  have hsub := retain_subset h term e.now
  unfold History.page
  split
  · exact .refused _ _ (List.Subset.refl _) rfl rfl
  · split
    · exact .refused _ _ (List.Subset.refl _) rfl rfl
    · next hlimit =>
      split
      · exact .refused _ _ (List.Subset.refl _) rfl rfl
      · dsimp only
        split
        · exact .refused _ _ hsub rfl rfl
        · split
          · exact .refused _ _ hsub rfl rfl
          · next stop pruned hresume =>
            split
            · exact .refused _ _ hsub rfl rfl
            · next hgap =>
              split
              · next error _ => exact .refused _ _ hsub rfl (by cases error <;> rfl)
              · next rows hrows =>
                have hreads := reads_of_readRows hrows
                split
                · next hstart =>
                  have hp : pruned = 0 := by omega
                  rw [hstart, List.drop_zero] at hreads
                  exact .last _ _ stop rows hsub rfl (hp ▸ hresume) hreads
                · next hstart =>
                  split
                  · exact .refused _ _ hsub rfl rfl
                  · have hpos : 0 < request.limit.toNat :=
                      Nat.pos_of_ne_zero fun h ↦ hlimit (.inl (UInt16.toNat_inj.mp h))
                    exact .more _ _ _ stop pruned _ rows hsub rfl hresume
                      ⟨hpos, by omega, by omega⟩ hreads (mem_issue _) rfl

end Spec

/-! ### A walk -/

/-- A reader that follows the cursors: the rows retained when its first page was taken, the
place of the oldest of them, and the rows returned so far, oldest first. -/
structure Walk (ρ : Type u) where
  first : Nat
  owed : List ρ
  got : List HistoryRow

/-- How many of the owed rows have not been returned. -/
def Walk.missing {ρ : Type u} (w : Walk ρ) : Nat := w.owed.length - w.got.length

/-- Where the reader is. -/
inductive Progress (ρ : Type u) where
  | idle
  | going (w : Walk ρ) (cursor : Cursor)
  | finished (w : Walk ρ)
  | failed (w : Walk ρ) (error : HistoryResponse)

/-- What a response makes of a walk. -/
def Walk.take {ρ : Type u} (w : Walk ρ) : HistoryResponse → Progress ρ
  | .page _ _ rows (some cursor) => .going { w with got := rows ++ w.got } cursor
  | .page _ _ rows none => .finished { w with got := rows ++ w.got }
  | error => .failed w error

/-- A terminal, the cursors of its readers, and one of the readers. -/
structure Paging (ρ : Type u) where
  term : Scrollback ρ
  history : History := {}
  progress : Progress ρ := .idle

/-- Rows enter or leave the history, its cursors are dropped, anyone asks for a page, or the
reader takes its first or its next one. -/
inductive PagingLabel (ρ : Type u) where
  | append (rows : List ρ)
  | prune (count : Nat)
  | invalidate
  | ask (e : Reading) (request : HistoryRequest)
  | begin (e : Reading) (limit : UInt16)
  | follow (e : Reading) (limit : UInt16)

namespace Paging

variable {ρ : Type u} (read : ρ → Except RowError HistoryRow) (generation : String)

/-- The response to the reader's next request, and the cursors after it. -/
def answer (s : Paging ρ) (e : Reading) (limit : UInt16) (before : Option Cursor) :
    History × HistoryResponse :=
  s.history.page read s.term e generation ⟨generation, limit, before⟩

/-- One step of the terminal or of a reader. -/
def step (s : Paging ρ) : PagingLabel ρ → Option (Paging ρ)
  | .append rows => some { s with term := s.term.append rows }
  | .prune count => some { s with term := s.term.prune count }
  | .invalidate => some { s with history := s.history.invalidate }
  | .ask e request => some { s with history := (s.history.page read s.term e generation request).1 }
  | .begin e limit =>
    let r := s.answer read generation e limit none
    some { s with
      history := r.1
      progress := (⟨s.term.pruned, s.term.rows, []⟩ : Walk ρ).take r.2 }
  | .follow e limit =>
    match s.progress with
    | .going w cursor =>
      let r := s.answer read generation e limit (some cursor)
      some { s with history := r.1, progress := w.take r.2 }
    | _ => none

/-- A terminal with any history, no cursor given out. -/
def Init (s : Paging ρ) : Prop :=
  s.history = {} ∧ s.progress = .idle ∧ s.term.pruned ≤ s.term.log.length

/-- The states that runs reach. -/
def Reached : Paging ρ → Prop := Runs Init (step read generation)

/-! ### The invariant of a walk -/

variable {read generation}

/-- What a walk has returned are the last of the rows it is owed, which the history still
has or has dropped from the oldest on. -/
structure Owes (read : ρ → Except RowError HistoryRow) (term : Scrollback ρ) (w : Walk ρ) :
    Prop where
  first_le : w.first ≤ term.pruned
  owed : w.owed <+: term.log.drop w.first
  got : Reads read (w.owed.drop w.missing) w.got

/-- What holds of the reader in every state. -/
def Progress.Sound (read : ρ → Except RowError HistoryRow) (term : Scrollback ρ) (h : History) :
    Progress ρ → Prop
  | .idle => True
  | .going w cursor =>
    Owes read term w ∧ 0 < w.missing ∧ cursor.serial ≤ h.serial ∧
      ∀ b, (cursor, b) ∈ h.boundaries →
        b.anchor = ⟨0, w.first + w.missing⟩ ∧ b.owed = w.missing
  | .finished w => Reads read w.owed w.got
  | .failed _ error => error.isError = true

/-- The invariant of the terminal, the cursors and the reader. -/
structure Sound (read : ρ → Except RowError HistoryRow) (s : Paging ρ) : Prop where
  pruned_le : s.term.pruned ≤ s.term.log.length
  serials : ∀ p ∈ s.history.boundaries, p.1.serial ≤ s.history.serial
  progress : Progress.Sound read s.term s.history s.progress

variable {s t : Paging ρ} {w : Walk ρ} {cursor : Cursor}

theorem Owes.got_le {term : Scrollback ρ} (h : Owes read term w) :
    w.got.length ≤ w.owed.length := by
  have := h.got.length_eq
  simp only [List.length_drop, Walk.missing] at this
  omega

/-- The walk with a longer page in front. -/
private theorem Owes.prepend {term : Scrollback ρ} (h : Owes read term w) {start : Nat}
    {rows : List HistoryRow} (hs : start ≤ w.missing)
    (hr : Reads read ((w.owed.take w.missing).drop start) rows) :
    Owes read term { w with got := rows ++ w.got } ∧
      ({ w with got := rows ++ w.got } : Walk ρ).missing = start := by
  have hg := h.got_le
  have hlen := hr.length_eq
  have hm : ({ w with got := rows ++ w.got } : Walk ρ).missing = start := by
    simp only [Walk.missing, List.length_append, List.length_drop, List.length_take] at hlen hs ⊢
    omega
  refine ⟨⟨h.first_le, h.owed, ?_⟩, hm⟩
  rw [hm]
  have hsplit : w.owed.drop start =
      (w.owed.take w.missing).drop start ++ w.owed.drop w.missing := by
    conv_lhs => rw [← List.take_append_drop w.missing w.owed]
    rw [List.drop_append_of_le_length]
    simp only [List.length_take, Walk.missing] at hs ⊢
    omega
  show Reads read (w.owed.drop start) (rows ++ w.got)
  rw [hsplit]
  exact List.rel_append hr h.got

/-- The rows of a page are the owed rows in front of those already returned. -/
private theorem Owes.page_rows {term : Scrollback ρ} (h : Owes read term w) (start : Nat) :
    (term.rows.take (w.first + w.missing - term.pruned)).drop start =
      (w.owed.take w.missing).drop (start + (term.pruned - w.first)) := by
  have hf := h.first_le
  have hle : w.missing ≤ w.owed.length := Nat.sub_le _ _
  have howed : w.owed.take w.missing = (term.log.drop w.first).take w.missing := by
    rw [List.prefix_iff_eq_take.mp h.owed, List.take_take, Nat.min_eq_left hle]
  rw [howed, Scrollback.rows, List.drop_take, List.drop_take, List.drop_drop, List.drop_drop]
  congr 1
  · omega
  · congr 1
    omega

/-- A cursor leads back to where its page began, and shows how much was lost above it. -/
private theorem resume_going {h : History} {term : Scrollback ρ} {n m stop lost : Nat}
    (hb : ∀ b, (cursor, b) ∈ h.boundaries → b.anchor = ⟨0, n⟩ ∧ b.owed = m)
    (hr : h.resume term generation (some cursor) = some (stop, lost)) :
    term.pruned ≤ n ∧ stop = n - term.pruned ∧ lost = m - stop := by
  simp only [History.resume] at hr
  split at hr
  · cases hr
  · split at hr
    · cases hr
    · next boundary hl =>
      obtain ⟨l₁, l₂, hmem, -⟩ := List.lookup_eq_some_iff.mp hl
      obtain ⟨ha, ho⟩ := hb boundary (by simp [hmem])
      rw [ha] at hr
      simp only [Scrollback.point, Scrollback.hasValue, decide_eq_true_eq] at hr
      split at hr
      · next y hy =>
        split at hy
        · next hle =>
          cases hy
          cases hr
          exact ⟨hle, rfl, by rw [ho]⟩
        · cases hy
      · cases hr

/-- What the response makes of a walk whose next page ends where its rows are missing. -/
private theorem Owes.take_sound {h h' : History} {term : Scrollback ρ} {before : Option Cursor}
    {limit : Nat} {response : HistoryResponse} (ho : Owes read term w)
    (hs : ∀ p ∈ h.boundaries, p.1.serial ≤ h.serial)
    (hr : ∀ (h₀ : History) (stop lost : Nat), h₀.boundaries ⊆ h.boundaries →
      h₀.resume term generation before = some (stop, lost) →
      term.pruned ≤ w.first + w.missing ∧ stop = w.first + w.missing - term.pruned ∧
        lost = w.missing - stop)
    (hp : h.Paged read term generation before limit (h', response)) :
    Progress.Sound read term h' (w.take response) := by
  have hf := ho.first_le
  cases hp with
  | refused _ _ _ _ error =>
    cases response with
    | page => cases error
    | _ => rfl
  | last _ columns stop rows kept _ resumed reads =>
    obtain ⟨hle, rfl, hlost⟩ := hr _ _ _ kept resumed
    have hrows := ho.page_rows 0
    have heq : 0 + (term.pruned - w.first) = 0 := by omega
    rw [List.drop_zero, heq] at hrows
    rw [hrows] at reads
    obtain ⟨hw, hm⟩ := ho.prepend (Nat.zero_le _) reads
    have hg := hw.got
    rw [hm, List.drop_zero] at hg
    exact hg
  | more h₁ _ columns stop lost start rows kept _ resumed full reads added next =>
    obtain ⟨hle, rfl, rfl⟩ := hr _ _ _ kept resumed
    have hlost : w.missing - (w.first + w.missing - term.pruned) = term.pruned - w.first := by
      omega
    rw [hlost] at added
    rw [ho.page_rows] at reads
    obtain ⟨hw, hm⟩ := ho.prepend (by omega) reads
    refine ⟨hw, ?_, ?_, ?_⟩
    · rw [hm]
      omega
    · rw [next]
    · intro b hb
      rcases added _ hb with hold | ⟨expires, hnew⟩
      · have := hs _ (kept hold)
        dsimp only at this
        omega
      · cases hnew
        rw [hm]
        refine ⟨?_, rfl⟩
        show (⟨0, term.pruned + start⟩ : TrackedGridRef) = _
        congr 1
        show term.pruned + start = w.first + (start + (term.pruned - w.first))
        omega

private theorem Paged.serials {h h' : History} {term : Scrollback ρ} {before : Option Cursor}
    {limit : Nat} {response : HistoryResponse} (hs : ∀ p ∈ h.boundaries, p.1.serial ≤ h.serial)
    (hp : h.Paged read term generation before limit (h', response)) :
    ∀ p ∈ h'.boundaries, p.1.serial ≤ h'.serial := by
  intro p hm
  cases hp with
  | refused _ _ kept serial _ => exact serial ▸ hs p (kept hm)
  | last _ _ _ _ kept serial _ _ => exact serial ▸ hs p (kept hm)
  | more h₁ _ _ _ _ _ _ kept _ _ _ _ added next =>
    rw [next]
    rcases added p hm with hold | ⟨expires, rfl⟩
    · exact Nat.le_succ_of_le (hs p (kept hold))
    · exact Nat.le_refl _

/-- Other readers' requests leave a reader's cursor as it is. -/
private theorem Progress.Sound.ask {h h' : History} {term : Scrollback ρ} {before : Option Cursor}
    {limit : Nat} {response : HistoryResponse} {progress : Progress ρ}
    (hw : Progress.Sound read term h progress)
    (hp : h.Paged read term generation before limit (h', response)) :
    Progress.Sound read term h' progress := by
  cases progress with
  | idle => trivial
  | finished w => exact hw
  | failed w error => exact hw
  | going w cursor =>
    obtain ⟨ho, hm, hc, hb⟩ := hw
    cases hp with
    | refused _ _ kept serial _ => exact ⟨ho, hm, serial ▸ hc, fun b h ↦ hb b (kept h)⟩
    | last _ _ _ _ kept serial _ _ => exact ⟨ho, hm, serial ▸ hc, fun b h ↦ hb b (kept h)⟩
    | more h₁ _ _ _ _ _ _ kept _ _ _ _ added next =>
      refine ⟨ho, hm, by omega, fun b h ↦ ?_⟩
      rcases added _ h with hold | ⟨expires, hnew⟩
      · exact hb b (kept hold)
      · cases hnew
        simp at hc

/-- The terminal's rows move on: a walk is owed what it was. -/
private theorem Progress.Sound.moves {h h' : History} {term term' : Scrollback ρ}
    {progress : Progress ρ} (hw : Progress.Sound read term h progress)
    (ho : ∀ w, Owes read term w → Owes read term' w) (hb : h'.boundaries ⊆ h.boundaries)
    (hs : h'.serial = h.serial) : Progress.Sound read term' h' progress := by
  cases progress with
  | idle => trivial
  | finished w => exact hw
  | failed w error => exact hw
  | going w cursor => exact ⟨ho w hw.1, hw.2.1, hs ▸ hw.2.2.1, fun b h ↦ hw.2.2.2 b (hb h)⟩

private theorem Sound.step {l : PagingLabel ρ} (h : Sound read s)
    (hs : step read generation s l = some t) : Sound read t := by
  cases l with
  | append rows =>
    cases hs
    refine ⟨?_, h.serials, h.progress.moves ?_ (List.Subset.refl _) rfl⟩
    · have := h.pruned_le
      simp only [Scrollback.append, List.length_append]
      omega
    · intro w ho
      refine ⟨ho.first_le, ?_, ho.got⟩
      have hle := ho.first_le.trans h.pruned_le
      simp only [Scrollback.append, List.drop_append_of_le_length hle]
      exact ho.owed.trans (List.prefix_append _ _)
  | prune count =>
    cases hs
    refine ⟨?_, h.serials, h.progress.moves ?_ (List.Subset.refl _) rfl⟩
    · have := h.pruned_le
      show s.term.pruned + min count (s.term.log.drop s.term.pruned).length ≤ s.term.log.length
      rw [List.length_drop]
      omega
    · intro w ho
      exact ⟨ho.first_le.trans (Nat.le_add_right _ _), ho.owed, ho.got⟩
  | invalidate =>
    cases hs
    refine ⟨h.pruned_le, List.forall_mem_nil _, ?_⟩
    exact h.progress.moves (fun _ ↦ id) (List.nil_subset _) rfl
  | ask e request =>
    cases hs
    have hp := s.history.paged read s.term e generation request
    exact ⟨h.pruned_le, Paged.serials h.serials hp, h.progress.ask hp⟩
  | begin e limit =>
    cases hs
    have hp := s.history.paged read s.term e generation ⟨generation, limit, none⟩
    refine ⟨h.pruned_le, Paged.serials h.serials hp, Owes.take_sound ?_ h.serials ?_ hp⟩
    · exact ⟨Nat.le_refl _, List.prefix_refl _, by simp [Walk.missing, Reads]⟩
    · intro h₀ stop lost _ hr
      cases hr
      exact ⟨Nat.le_add_right _ _, (Nat.add_sub_cancel_left _ _).symm, (Nat.sub_self _).symm⟩
  | follow e limit =>
    simp only [Paging.step] at hs
    split at hs
    · next w cursor hw =>
      cases hs
      have hprog := h.progress
      rw [hw] at hprog
      obtain ⟨ho, hm, hc, hb⟩ := hprog
      have hp := s.history.paged read s.term e generation ⟨generation, limit, some cursor⟩
      refine ⟨h.pruned_le, Paged.serials h.serials hp, ho.take_sound h.serials ?_ hp⟩
      intro h₀ stop lost hsub hr
      exact resume_going (fun b hmem ↦ hb b (hsub hmem)) hr
    · cases hs

private theorem sound_of_reached (h : Reached read generation s) : Sound read s := by
  apply h.induct
  · rintro s ⟨hh, hp, hle⟩
    refine ⟨hle, ?_, ?_⟩
    · simp [hh]
    · rw [hp]
      trivial
  · intro s l t _ ih hs
    exact ih.step hs

/-- The answer to the next request of a reader that misses rows retention has dropped. -/
private theorem Sound.answer_lost (h : Sound read s) (hw : s.progress = .going w cursor)
    (hlost : w.first < s.term.pruned) (e : Reading) (limit : UInt16) :
    let response := (s.answer read generation e limit (some cursor)).2
    response = .cursorGap ∨ response.interrupts = true ∨
      ∃ w' cursor', w.take response = .going w' cursor' ∧ w'.missing < w.missing := by
  have hprog := h.progress
  rw [hw] at hprog
  obtain ⟨ho, hm, hc, hb⟩ := hprog
  have hp := s.history.paged read s.term e generation ⟨generation, limit, some cursor⟩
  show _ ∨ _
  generalize hr : s.history.page read s.term e generation ⟨generation, limit, some cursor⟩ = r at hp
  simp only [answer, hr]
  cases hp with
  | refused _ response _ _ error =>
    cases response with
    | page => cases error
    | cursorGap => exact .inl rfl
    | _ => exact .inr (.inl rfl)
  | last _ _ _ _ kept _ resumed _ =>
    -- the oldest retained row is reached only when nothing above it is missing
    obtain ⟨hle, rfl, hl⟩ := resume_going (fun b hmem ↦ hb b (kept hmem)) resumed
    omega
  | more _ _ _ _ _ start _ kept _ resumed full reads _ _ =>
    obtain ⟨hle, rfl, rfl⟩ := resume_going (fun b hmem ↦ hb b (kept hmem)) resumed
    rw [ho.page_rows] at reads
    have hmiss := (ho.prepend (by omega) reads).2
    exact .inr (.inr ⟨_, _, rfl, by rw [hmiss]; omega⟩)

/-- In every reached state a reader that has come to the end has every row that was retained
at its first page, once and in order. A reader some of whose rows were pruned before it got
them never comes to the end: whatever it asks next, it gets a gap, is refused for another
reason, or gets one more page that leaves it fewer rows to miss. -/
theorem walk_of_reached (h : Reached read generation s) :
    (∀ w, s.progress = .finished w → Reads read w.owed w.got) ∧
      ∀ w cursor, s.progress = .going w cursor → w.first < s.term.pruned → ∀ e limit,
        let response := (s.answer read generation e limit (some cursor)).2
        response = .cursorGap ∨ response.interrupts = true ∨
          ∃ w' cursor', w.take response = .going w' cursor' ∧ w'.missing < w.missing := by
  have hs := sound_of_reached h
  constructor
  · intro w hw
    have hp := hs.progress
    rw [hw] at hp
    exact hp
  · intro w cursor hw hlost e limit
    exact hs.answer_lost hw hlost e limit

/-- Five rows in three pages while more arrive; the same walk ends in a gap once the oldest
row is pruned under it. -/
private def pages (pruned : Nat) : List (PagingLabel UInt8) :=
  [.append [1, 2, 3, 4, 5], .begin ⟨0, false, 80, false, false, false⟩ 2, .append [6],
    .follow ⟨1, false, 80, false, false, false⟩ 2, .prune pruned,
    .follow ⟨2, false, 80, false, false, false⟩ 2]

private def readByte (b : UInt8) : Except RowError HistoryRow := .ok ⟨[b], false⟩

theorem walk_of_reached_pages : ∃ s : Paging UInt8, Reached readByte "g" s ∧
    (∃ w, s.progress = .finished w ∧ w.owed = [1, 2, 3, 4, 5]) ∧
    ∀ w, s.progress = .finished w → Reads readByte w.owed w.got := by
  have h : ∃ s, replay (step readByte "g") ⟨⟨[], 0⟩, {}, .idle⟩ (pages 0) = some s ∧
      ∃ w, s.progress = .finished w ∧ w.owed = [1, 2, 3, 4, 5] := ⟨_, rfl, _, rfl, rfl⟩
  obtain ⟨s, hs, hw⟩ := h
  have hr : Reached readByte "g" s := Runs.replay (Reachable.base ⟨rfl, rfl, Nat.le_refl _⟩) hs
  exact ⟨s, hr, hw, (walk_of_reached hr).1⟩

/-- The same walk with the oldest row pruned before the last page. -/
example : ∃ s w, replay (step readByte "g") ⟨⟨[], 0⟩, {}, .idle⟩ (pages 1) = some s ∧
    s.progress = .failed w .cursorGap := ⟨_, _, rfl, rfl⟩

end Paging
end PtySpec.Vt
