import PtySpec.Proc.Argv

/-!
# A whole scan misses nobody

A process of the user that is there throughout a scan is listed and classified as itself; a scan
that is whole has its row, with the arguments it had at the moment of the read.
-/

namespace PtySpec.Proc

open Lib (unlines)
open Serving (fromUtf8Lossy)

/-! ### Arguments -/

/-- Arguments other than a single empty one are split as they were joined. -/
theorem splitNulArgs_argumentBlock {args : List (List UInt8)} (hp : ∀ a ∈ args, (0 : UInt8) ∉ a)
    (hne : args ≠ [[]]) : splitNulArgs (argumentBlock args) = args.map fromUtf8Lossy := by
  obtain rfl | ⟨init, last, rfl⟩ := args.eq_nil_or_concat'
  · rfl
  have hblock : argumentBlock (init ++ [last]) = unlines 0 init ++ last ++ [0] := by
    simp [argumentBlock, unlines]
  have hsplit : (unlines 0 init ++ last).splitOn 0 = init ++ [last] :=
    Lib.splitOn_unlines_append (fun a ha ↦ hp a (List.mem_append_left _ ha))
      (hp last (List.mem_append_right _ List.mem_cons_self))
  have hnonempty : unlines 0 init ++ last ≠ [] := by
    intro he
    rw [he] at hsplit
    exact hne hsplit.symm
  unfold splitNulArgs
  rw [hblock, List.getLast?_concat, if_pos rfl, List.dropLast_concat]
  dsimp only
  rw [hsplit, if_neg (by simpa using hnonempty)]

/-! ### The fields of a status -/

private theorem stripPrefix_state {line rest : List Char}
    (h : stripPrefix "Uid:".toList line = some rest) :
    stripPrefix "State:".toList line = none := by
  cases line with
  | nil => rfl
  | cons c line =>
    have hc : c = 'U' := by
      by_contra hne
      have hno : "Uid:".toList.isPrefixOf (c :: line) = false := by
        simp [List.isPrefixOf, Ne.symm hne]
      rw [stripPrefix, hno] at h
      cases h
    subst hc
    rfl

private theorem foldl_owned {uid : Nat} {p : Process} {ls : List (List Char)}
    (huid : ∀ line ∈ ls, ∀ rest ∈ stripPrefix "Uid:".toList line,
      ((splitWhitespace rest).map parseU32)[0]?.join = some p.realUid ∧
        ((splitWhitespace rest).map parseU32)[1]?.join = some p.effectiveUid)
    {f : StatusFields}
    (h : f.owned = some (p.realUid == uid && p.effectiveUid == uid) ∨
      ∃ line ∈ ls, (stripPrefix "Uid:".toList line).isSome) :
    (ls.foldl (StatusFields.line uid) f).owned =
      some (p.realUid == uid && p.effectiveUid == uid) := by
  induction ls generalizing f with
  | nil => simpa using h
  | cons line ls ih =>
    obtain ⟨hline, hrest⟩ := List.forall_mem_cons.mp huid
    refine ih hrest ?_
    unfold StatusFields.line
    cases hs : stripPrefix "Uid:".toList line with
    | some rest =>
      obtain ⟨hreal, heffective⟩ := hline rest hs
      dsimp only
      rw [hreal, heffective]
      exact .inl rfl
    | none =>
      have hkept : f.owned = some (p.realUid == uid && p.effectiveUid == uid) ∨
          ∃ line ∈ ls, (stripPrefix "Uid:".toList line).isSome := by
        rw [List.exists_mem_cons_iff, hs] at h
        simpa using h
      cases stripPrefix "State:".toList line with
      | some rest => exact hkept
      | none => exact hkept

private theorem foldl_state {uid : Nat} {p : Process} {ls : List (List Char)}
    (hstate : ∀ line ∈ ls, ∀ rest ∈ stripPrefix "State:".toList line,
      (rest.dropWhile Events.isWhitespace).head? = some p.state)
    {f : StatusFields}
    (h : f.state = some p.state ∨ ∃ line ∈ ls, (stripPrefix "State:".toList line).isSome) :
    (ls.foldl (StatusFields.line uid) f).state = some p.state := by
  induction ls generalizing f with
  | nil => simpa using h
  | cons line ls ih =>
    obtain ⟨hline, hrest⟩ := List.forall_mem_cons.mp hstate
    refine ih hrest ?_
    unfold StatusFields.line
    cases hu : stripPrefix "Uid:".toList line with
    | some rest =>
      rw [List.exists_mem_cons_iff, stripPrefix_state hu] at h
      simpa using h
    | none =>
      cases hs : stripPrefix "State:".toList line with
      | some rest => exact .inl (hline rest hs)
      | none =>
        rw [List.exists_mem_cons_iff, hs] at h
        simpa using h

/-- What the scan reads of a status is what the kernel has. -/
theorem PrintsStatus.ownerAndState_eq {p : Process} {status : List Char}
    (h : PrintsStatus p status) (uid : Nat) :
    ownerAndState uid status =
      some (p.realUid == uid && p.effectiveUid == uid, p.state, statusKernelThread status) := by
  unfold ownerAndState
  dsimp only
  rw [foldl_owned h.uid (.inr h.hasUid), foldl_state h.state (.inr h.hasState)]

/-- A process that is no kernel thread is not called one. -/
theorem PrintsStatus.kernelThread_ne {p : Process} {status : List Char}
    (h : PrintsStatus p status) (hk : p.kernelThread = false) :
    statusKernelThread status ≠ some true := by
  unfold statusKernelThread
  cases hf : (lines status).findSome? (stripPrefix "Kthread:".toList) with
  | none => simp
  | some rest =>
    obtain ⟨line, hline, hrest⟩ := List.exists_of_findSome?_eq_some hf
    have htrim := h.kernelThread line hline rest hrest
    rw [hk] at htrim
    rw [Option.bind_some, htrim]
    decide

theorem PrintsStat.kernelThread_ne {p : Process} {stat : List Char} (h : PrintsStat p stat)
    (hk : p.kernelThread = false) : statKernelThread stat ≠ some true := by
  intro hs
  simp only [statKernelThread, bind, pure, Option.bind_eq_some_iff] at hs
  obtain ⟨tail, htail, field, hfield, flags, hflags, heq⟩ := hs
  rw [h tail htail field hfield flags hflags, hk] at heq
  cases heq

/-! ### One process -/

/-- A process of the user that a scan is to find, at one moment. -/
structure InDomain (uid : Nat) (p : Process) : Prop where
  realUid : p.realUid = uid
  effectiveUid : p.effectiveUid = uid
  user : p.kernelThread = false
  alive : p.state ≠ 'Z'

/-- A class that a process of the user is given: its row, or one that makes the scan less than
whole. -/
inductive Placed (fs : ProcFs) (pid : Int32) (now : Nat) : Class → Prop where
  | ownerUnknown : Placed fs pid now .ownerUnknown
  | unreadable : Placed fs pid now .unreadable
  | live (row : ArgvRow) (p : Process) (there : fs.table (now + 2) pid = some p)
      (argv : row.argv = splitNulArgs (argumentBlock p.args)) : Placed fs pid now (.live row)

private theorem placed_askAgain {fs : ProcFs} {uid : Nat} {pid : Int32} {now : Nat} {p : Process}
    (hp : fs.table now pid = some p) (hd : InDomain uid p) :
    fs.askAgain uid pid now = .unreadable := by
  unfold ProcFs.askAgain
  obtain hs | ⟨status, hs, hprints⟩ := fs.status_there now pid p hp
  · rw [hs]
  · rw [hs]
    dsimp only
    rw [hprints.ownerAndState_eq uid]
    split
    · next heq =>
      simp only [Option.some.injEq, Prod.mk.injEq] at heq
      exact absurd heq.2.1 hd.alive
    · rfl

/-- A process of the user that is there at the reads is placed. -/
theorem placed_classify {fs : ProcFs} {uid : Nat} {pid : Int32} {now : Nat} (pageSizeKb : Nat)
    (h : ∀ t, now ≤ t → t ≤ now + 3 → ∃ p, fs.table t pid = some p ∧ InDomain uid p) :
    Placed fs pid now (fs.classify pageSizeKb uid pid now) := by
  obtain ⟨p₀, hp₀, hd₀⟩ := h now (by omega) (by omega)
  obtain ⟨p₁, hp₁, hd₁⟩ := h (now + 1) (by omega) (by omega)
  obtain ⟨p₂, hp₂, -⟩ := h (now + 2) (by omega) (by omega)
  obtain ⟨p₃, hp₃, hd₃⟩ := h (now + 3) (by omega) (by omega)
  have hrest {kthread : Option Bool} {stat : Option (List Char)} (hk : kthread ≠ some true)
      (hs : ∀ text ∈ stat, statKernelThread text ≠ some true) :
      Placed fs pid now (ProcFs.classify.rest fs pageSizeKb uid pid now kthread stat) := by
    have hor : kthread.or (stat.bind statKernelThread) ≠ some true := by
      cases kthread with
      | some b => exact hk
      | none =>
        cases stat with
        | none => simp
        | some text => exact hs text rfl
    unfold ProcFs.classify.rest
    rw [if_neg hor]
    dsimp only
    obtain hc | hc | hc := fs.cmdline_there (now + 2) pid p₂ hp₂
    · rw [hc]
      exact .unreadable
    · rw [hc]
      dsimp only
      rw [if_pos List.isEmpty_nil, placed_askAgain hp₃ hd₃]
      exact .unreadable
    · rw [hc]
      dsimp only
      split
      · rw [placed_askAgain hp₃ hd₃]
        exact .unreadable
      · exact .live _ p₂ hp₂ rfl
  unfold ProcFs.classify
  obtain hs | ⟨status, hs, hprints⟩ := fs.status_there now pid p₀ hp₀
  · rw [hs]
    exact .ownerUnknown
  · rw [hs]
    dsimp only
    have howned : (p₀.realUid == uid && p₀.effectiveUid == uid) = true := by
      simp [hd₀.realUid, hd₀.effectiveUid]
    rw [hprints.ownerAndState_eq uid, howned]
    dsimp only
    rw [if_neg (by simp), if_neg hd₀.alive]
    have hk := hprints.kernelThread_ne hd₀.user
    obtain ht | ⟨stat, ht, hstat⟩ := fs.stat_there (now + 1) pid p₁ hp₁
    · rw [ht]
      exact hrest hk fun text htext ↦ by cases htext
    · rw [ht]
      refine hrest hk fun text htext ↦ ?_
      obtain rfl := Option.some_inj.mp htext
      exact hstat.kernelThread_ne hd₁.user

/-! ### The listing -/

/-- A scan with nothing lost so far. -/
def Intact (s : ArgvScan) : Prop := s.complete = true ∧ s.unreadable = []

private theorem intact_count {s : ArgvScan} {pid : Int32} {c : Class}
    (h : Intact (s.count pid c)) :
    Intact s ∧ (∀ row ∈ s.rows, row ∈ (s.count pid c).rows) ∧
      (c ≠ .ownerUnknown ∧ c ≠ .unreadable) := by
  cases c with
  | ownerUnknown => cases h.1
  | unreadable => exact absurd h.2 (by simp [ArgvScan.count])
  | live row => exact ⟨h, fun _ hrow ↦ List.mem_append_left _ hrow, by simp, by simp⟩
  | gone | otherUser | zombie | kernelThread =>
    exact ⟨h, fun _ hrow ↦ hrow, by simp, by simp⟩

variable {fs : ProcFs} {pageSizeKb uid : Nat} {own : Int32}

private theorem intact_entry {s : Scanning} {e : Entry}
    (h : Intact (s.entry fs pageSizeKb uid own e).scan) :
    Intact s.scan ∧ ∀ row ∈ s.scan.rows, row ∈ (s.entry fs pageSizeKb uid own e).scan.rows := by
  unfold Scanning.entry at h ⊢
  cases e with
  | failed => cases h.1
  | notText => exact ⟨h, fun _ hrow ↦ hrow⟩
  | name text =>
    dsimp only at h ⊢
    split at h
    · exact ⟨h, fun _ hrow ↦ hrow⟩
    · obtain ⟨hs, hrows, -⟩ := intact_count h
      exact ⟨hs, hrows⟩

private theorem intact_foldl {es : List Entry} {s : Scanning}
    (h : Intact (es.foldl (Scanning.entry fs pageSizeKb uid own) s).scan) :
    Intact s.scan ∧
      ∀ row ∈ s.scan.rows, row ∈ (es.foldl (Scanning.entry fs pageSizeKb uid own) s).scan.rows := by
  induction es generalizing s with
  | nil => exact ⟨h, fun _ hrow ↦ hrow⟩
  | cons e es ih =>
    obtain ⟨hs, hrows⟩ := ih h
    obtain ⟨hs', hrows'⟩ := intact_entry hs
    exact ⟨hs', fun row hrow ↦ hrows row (hrows' row hrow)⟩

private theorem now_entry (s : Scanning) (e : Entry) :
    (s.entry fs pageSizeKb uid own e).now = s.now + 4 := by
  unfold Scanning.entry
  cases e with
  | failed => rfl
  | notText => rfl
  | name text =>
    dsimp only
    split <;> rfl

/-- A scan that loses nothing has been told of every entry. -/
private theorem failed_foldl {es : List Entry} {s : Scanning}
    (h : Intact (es.foldl (Scanning.entry fs pageSizeKb uid own) s).scan) : .failed ∉ es := by
  induction es generalizing s with
  | nil => exact List.not_mem_nil
  | cons e es ih =>
    rw [List.mem_cons, not_or]
    refine ⟨fun he ↦ ?_, ih h⟩
    subst he
    have htail : Intact (es.foldl (Scanning.entry fs pageSizeKb uid own)
        (s.entry fs pageSizeKb uid own .failed)).scan := h
    cases (intact_foldl htail).1.1

/-- What an entry's process is classified as, in a scan that loses nothing: nothing that makes it
less than whole, and with its row if it has one. -/
structure Counted (fs : ProcFs) (pageSizeKb uid : Nat) (pid : Int32) (now : Nat)
    (rows : List ArgvRow) : Prop where
  owner : fs.classify pageSizeKb uid pid now ≠ .ownerUnknown
  read : fs.classify pageSizeKb uid pid now ≠ .unreadable
  row : ∀ row, fs.classify pageSizeKb uid pid now = .live row → row ∈ rows

/-- A scan that loses nothing has counted every entry of the listing. -/
private theorem counted_foldl {es : List Entry} {s : Scanning}
    (h : Intact (es.foldl (Scanning.entry fs pageSizeKb uid own) s).scan) {text : List Char}
    {pid : Int32} (ht : .name text ∈ es) (hp : parseI32 text = some pid) :
    ∃ now, s.now ≤ now ∧ now + 4 ≤ s.now + 4 * es.length ∧
      Counted fs pageSizeKb uid pid now
        (es.foldl (Scanning.entry fs pageSizeKb uid own) s).scan.rows := by
  induction es generalizing s with
  | nil => cases ht
  | cons e es ih =>
    rw [List.foldl_cons] at h ⊢
    rw [List.length_cons]
    obtain rfl | ht := List.mem_cons.mp ht
    · obtain ⟨hs, hrows⟩ := intact_foldl h
      refine ⟨s.now, Nat.le_refl _, by omega, ?_⟩
      have hentry : s.entry fs pageSizeKb uid own (.name text) =
          { scan := { s.scan with listed := s.scan.listed + 1 }.count pid
              (fs.classify pageSizeKb uid pid s.now)
            sawOwn := s.sawOwn || pid == own
            now := s.now + 4 } := by
        simp only [Scanning.entry, hp]
      rw [hentry] at hs hrows
      obtain ⟨-, -, howner, hread⟩ := intact_count hs
      refine ⟨howner, hread, fun row hrow ↦ ?_⟩
      rw [hentry]
      refine hrows row ?_
      rw [hrow]
      exact List.mem_append_right _ List.mem_cons_self
    · obtain ⟨now, hl, hu, hc⟩ := ih h ht
      rw [now_entry] at hl hu
      exact ⟨now, by omega, by omega, hc⟩

private theorem pid_of_classify {pid : Int32} {now : Nat} {row : ArgvRow}
    (h : fs.classify pageSizeKb uid pid now = .live row) : row.pid = pid := by
  have hagain : fs.askAgain uid pid (now + 3) ≠ .live row := by
    unfold ProcFs.askAgain
    repeat' split
    all_goals simp
  have hrest {kthread : Option Bool} {stat : Option (List Char)}
      (hr : ProcFs.classify.rest fs pageSizeKb uid pid now kthread stat = .live row) :
      row.pid = pid := by
    unfold ProcFs.classify.rest at hr
    split at hr
    · cases hr
    · dsimp only at hr
      split at hr
      · split at hr
        · exact absurd hr hagain
        · cases hr
          rfl
      · cases hr
      · cases hr
      · cases hr
  unfold ProcFs.classify at h
  split at h
  · cases h
  · cases h
  · cases h
  · split at h
    · cases h
    · split at h
      · cases h
      · split at h
        · cases h
        · split at h
          · cases h
          · cases h
          · exact hrest h
          · exact hrest h

private theorem mem_rows_count {s : ArgvScan} {pid : Int32} {c : Class} {row : ArgvRow}
    (h : row ∈ (s.count pid c).rows) : row ∈ s.rows ∨ c = .live row := by
  cases c with
  | live row' =>
    obtain h | h := List.mem_append.mp h
    · exact .inl h
    · obtain rfl := List.mem_singleton.mp h
      exact .inr rfl
  | gone | otherUser | zombie | kernelThread | unreadable | ownerUnknown => exact .inl h

/-- Every row of a scan is what a process of that pid was classified as. -/
private theorem mem_rows_foldl {es : List Entry} {s : Scanning} {row : ArgvRow}
    (h : row ∈ (es.foldl (Scanning.entry fs pageSizeKb uid own) s).scan.rows) :
    row ∈ s.scan.rows ∨ ∃ now, s.now ≤ now ∧ now + 4 ≤ s.now + 4 * es.length ∧
      fs.classify pageSizeKb uid row.pid now = .live row := by
  induction es generalizing s with
  | nil => exact .inl h
  | cons e es ih =>
    rw [List.foldl_cons] at h
    rw [List.length_cons]
    obtain h | ⟨now, hl, hu, hc⟩ := ih h
    · unfold Scanning.entry at h
      cases e with
      | failed => exact .inl h
      | notText => exact .inl h
      | name text =>
        dsimp only at h
        split at h
        · exact .inl h
        · obtain h | h := mem_rows_count h
          · exact .inl h
          · refine .inr ⟨s.now, Nat.le_refl _, by omega, ?_⟩
            rwa [pid_of_classify h]
    · rw [now_entry] at hl hu
      exact .inr ⟨now, by omega, by omega, hc⟩

/-! ### The scan -/

/-- A process of the user, one and the same from the first read of a scan to the last. -/
def LivesThrough (fs : ProcFs) (uid : Nat) (pid : Int32) : Prop :=
  ∃ birth, ∀ t ≤ 4 * fs.entries.length,
    ∃ p, fs.table t pid = some p ∧ p.birth = birth ∧ InDomain uid p

/-- What a row has of a process that lives through the scan: the text of each argument that it had
at a moment of the scan. A single empty argument is left open. -/
def HasArguments (fs : ProcFs) (row : ArgvRow) : Prop :=
  ∃ t ≤ 4 * fs.entries.length, ∃ p, fs.table t row.pid = some p ∧
    (p.args ≠ [[]] → row.argv = p.args.map fromUtf8Lossy)

/-- A scan is whole and has what it read, or it is not whole. -/
private theorem scanArgv_of_isWhole (h : (scanArgv fs pageSizeKb uid own).isWhole = true) :
    Intact (fs.entries.foldl (Scanning.entry fs pageSizeKb uid own)
      ⟨⟨uid, "/proc/<pid>/cmdline", true, true, 0, 0, 0, [], []⟩, false, 0⟩).scan ∧
    ∀ row, row ∈ (scanArgv fs pageSizeKb uid own).rows ↔
      row ∈ (fs.entries.foldl (Scanning.entry fs pageSizeKb uid own)
        ⟨⟨uid, "/proc/<pid>/cmdline", true, true, 0, 0, 0, [], []⟩, false, 0⟩).scan.rows := by
  unfold scanArgv at h ⊢
  dsimp only at h ⊢
  split at h
  · cases h
  · next hown =>
    rw [if_neg hown]
    unfold ArgvScan.isWhole at h
    simp only [Bool.and_eq_true, List.isEmpty_iff] at h
    refine ⟨⟨h.1.2, ?_⟩, fun row ↦ List.mem_insertionSort _⟩
    have hlen := congrArg List.length h.2
    rw [List.length_insertionSort] at hlen
    exact List.eq_nil_of_length_eq_zero hlen

/-- A whole scan has a row for every process of the user that lives through it, with the texts of
the arguments that the process had when it was read. -/
theorem scanArgv_missesNone (fs : ProcFs) (pageSizeKb uid : Nat) (own : Int32)
    (h : (scanArgv fs pageSizeKb uid own).isWhole = true) {pid : Int32}
    (hp : LivesThrough fs uid pid) :
    (∃ row ∈ (scanArgv fs pageSizeKb uid own).rows, row.pid = pid) ∧
      ∀ row ∈ (scanArgv fs pageSizeKb uid own).rows, row.pid = pid → HasArguments fs row := by
  obtain ⟨hintact, hrows⟩ := scanArgv_of_isWhole h
  obtain ⟨birth, hlives⟩ := hp
  have hplaced {now : Nat} (hn : now + 4 ≤ 4 * fs.entries.length) :
      Placed fs pid now (fs.classify pageSizeKb uid pid now) := by
    refine placed_classify pageSizeKb fun t _ ht ↦ ?_
    obtain ⟨p, hp, -, hd⟩ := hlives t (by omega)
    exact ⟨p, hp, hd⟩
  constructor
  · obtain hlost | ⟨text, htext, hpid⟩ := fs.listed pid birth fun t ht ↦ by
      obtain ⟨p, hp, hb, -⟩ := hlives t ht
      exact ⟨p, hp, hb⟩
    · exact absurd hlost (failed_foldl hintact)
    · obtain ⟨now, -, hu, hc⟩ := counted_foldl hintact htext hpid
      have hn : now + 4 ≤ 4 * fs.entries.length := by simpa using hu
      have hpl := hplaced hn
      generalize hclass : fs.classify pageSizeKb uid pid now = c at hpl
      cases hpl with
      | ownerUnknown => exact absurd hclass hc.owner
      | unreadable => exact absurd hclass hc.read
      | live row p there argv =>
        exact ⟨row, (hrows row).mpr (hc.row row hclass), pid_of_classify hclass⟩
  · rintro row hrow rfl
    obtain hm | ⟨now, -, hu, hclass⟩ := mem_rows_foldl ((hrows row).mp hrow)
    · cases hm
    · have hn : now + 4 ≤ 4 * fs.entries.length := by simpa using hu
      have hpl := hplaced hn
      rw [hclass] at hpl
      cases hpl with
      | live _ p there argv =>
        refine ⟨now + 2, by omega, p, there, fun hne ↦ ?_⟩
        rw [argv]
        exact splitNulArgs_argumentBlock (fs.args_plain _ _ p there) hne

/-! ### One process in `/proc` -/

/-- A shell of the user with these arguments. -/
def shell (args : List (List UInt8)) : Process := ⟨0, 1000, 1000, 'S', false, args⟩

private theorem shell_status (args : List (List UInt8)) : PrintsStatus (shell args)
    "State:\tS (sleeping)\nUid:\t1000\t1000\t1000\t1000\n".toList where
  hasUid := by decide
  uid := show ∀ line ∈ lines _, ∀ rest ∈ stripPrefix _ line, _ = some 1000 ∧ _ = some 1000 by decide
  hasState := by decide
  state := show ∀ line ∈ lines _, ∀ rest ∈ stripPrefix _ line, _ = some 'S' by decide
  kernelThread := show ∀ line ∈ lines _, ∀ rest ∈ stripPrefix _ line, _ = ['0'] by decide

private theorem shell_stat (args : List (List UInt8)) :
    PrintsStat (shell args) "7 (sh) S 1 7 7 0 -1 4194304 0 0".toList :=
  show ∀ tail ∈ afterLastParen _, ∀ field ∈ (splitWhitespace tail)[6]?, ∀ flags ∈ parseU64 field,
    _ = false by decide

/-- A `/proc` with one process, a shell with these arguments. -/
def soleProcess (args : List (List UInt8)) (h : ∀ a ∈ args, (0 : UInt8) ∉ a) : ProcFs where
  table _ pid := if pid = 7 then some (shell args) else none
  entries := [.name "7".toList]
  status _ pid :=
    if pid = 7 then .data "State:\tS (sleeping)\nUid:\t1000\t1000\t1000\t1000\n".toList
    else .notFound
  stat _ pid := if pid = 7 then .data "7 (sh) S 1 7 7 0 -1 4194304 0 0".toList else .notFound
  cmdline _ pid := if pid = 7 then .data (argumentBlock args) else .notFound
  args_plain _ pid p hp := by
    split at hp
    · cases hp
      exact h
    · cases hp
  status_there _ pid p hp := by
    split at hp
    · next hpid =>
      cases hp
      exact .inr ⟨_, if_pos hpid, shell_status args⟩
    · cases hp
  stat_there _ pid p hp := by
    split at hp
    · next hpid =>
      cases hp
      exact .inr ⟨_, if_pos hpid, shell_stat args⟩
    · cases hp
  cmdline_there _ pid p hp := by
    split at hp
    · next hpid =>
      cases hp
      exact .inr (.inr (if_pos hpid))
    · cases hp
  listed pid birth hp := by
    obtain ⟨p, hp, -⟩ := hp 0 (Nat.zero_le _)
    split at hp
    · next hpid =>
      subst hpid
      exact .inr ⟨_, List.mem_cons_self, by decide⟩
    · cases hp

private theorem livesThrough_soleProcess (args : List (List UInt8))
    (h : ∀ a ∈ args, (0 : UInt8) ∉ a) : LivesThrough (soleProcess args h) 1000 7 :=
  ⟨0, fun _ _ ↦ ⟨shell args, rfl, rfl, rfl, rfl, rfl, show 'S' ≠ 'Z' by decide⟩⟩

theorem scanArgv_missesNone_sh :
    let fs := soleProcess [[0x73, 0x68]] (by decide)
    (∃ row ∈ (scanArgv fs 4 1000 7).rows, row.pid = 7) ∧
      ∀ row ∈ (scanArgv fs 4 1000 7).rows, row.pid = 7 → HasArguments fs row :=
  scanArgv_missesNone _ 4 1000 7 (by decide) (livesThrough_soleProcess _ _)

/-- An argument that is not UTF-8 is told with a replacement, and a single empty one is not
told. -/
theorem scanArgv_missesNone_refuted :
    (scanArgv (soleProcess [[0xff]] (by decide)) 4 1000 7).rows.map (·.argv) =
      [[[0xef, 0xbf, 0xbd]]] ∧
    (scanArgv (soleProcess [[]] (by decide)) 4 1000 7).rows.map (·.argv) = [[]] ∧
    ¬∀ (fs : ProcFs) (pageSizeKb uid : Nat) (own : Int32),
      (scanArgv fs pageSizeKb uid own).isWhole = true → ∀ pid, LivesThrough fs uid pid →
        (∃ row ∈ (scanArgv fs pageSizeKb uid own).rows, row.pid = pid) ∧
          ∀ row ∈ (scanArgv fs pageSizeKb uid own).rows, row.pid = pid →
            ∃ t ≤ 4 * fs.entries.length, ∃ p, fs.table t pid = some p ∧ row.argv = p.args := by
  have hlossy : fromUtf8Lossy [0xff] = [0xef, 0xbf, 0xbd] := by
    have hnil : fromUtf8Lossy [] = [] := by rw [fromUtf8Lossy]
    rw [fromUtf8Lossy]
    simp [hnil]
    decide
  have hbytes : (scanArgv (soleProcess [[0xff]] (by decide)) 4 1000 7).rows.map (·.argv) =
      [[fromUtf8Lossy [0xff]]] := rfl
  have hempty : (scanArgv (soleProcess [[]] (by decide)) 4 1000 7).rows.map (·.argv) = [[]] := rfl
  refine ⟨hlossy ▸ hbytes, hempty, fun h ↦ ?_⟩
  obtain ⟨⟨row, hrow, hpid⟩, hall⟩ := h (soleProcess [[0xff]] (by decide)) 4 1000 7 (by decide) 7
    (livesThrough_soleProcess _ _)
  obtain ⟨t, -, p, hp, hargv⟩ := hall row hrow hpid
  have hargs : p.args = [[0xff]] := by
    cases hp
    rfl
  have hmem := List.mem_map_of_mem (f := (·.argv)) hrow
  rw [hbytes, List.mem_singleton, hargv, hargs, hlossy] at hmem
  revert hmem
  decide

end PtySpec.Proc
