import PtySpec.Lib.Lines

/-!
# Session names and their files

Model of `validate_name_lexical`, `crates/pty-core/src/registry/names.rs:19`, and of the
companion paths, `root.rs:160-265`. A path is its text; names and paths are lists of
characters.
-/

namespace PtySpec.Registry

open Lib

/-- A name, a file name or a path. -/
abbrev Text := List Char

/-- `str::len`: bytes. -/
def byteLen (t : Text) : Nat := (t.map Char.utf8Size).sum

/-- `is_name_char`, `names.rs:11`. -/
def isNameChar (c : Char) : Bool :=
  ('a' ≤ c && c ≤ 'z') || ('A' ≤ c && c ≤ 'Z') || ('0' ≤ c && c ≤ '9') || c = '.' ||
    c = '_' || c = '-'

/-- `encode_utf16().count()`. -/
def utf16Len (t : Text) : Nat := (t.map fun c ↦ if c.toNat < 0x10000 then 1 else 2).sum

/-- `validate_name_lexical`, `names.rs:19`. -/
def validateNameLexical (name : Text) : Except String Unit :=
  if name = [] then .error "Session name cannot be empty."
  else if name = ".".toList ∨ name = "..".toList then
    .error ("Invalid session name \"" ++ String.ofList name ++
      "\". Names cannot be \".\" or \"..\".")
  else if 255 < utf16Len name then .error "Session name too long (max 255 characters)."
  else if !name.all isNameChar then
    .error ("Invalid session name \"" ++ String.ofList name ++
      "\". Names may only contain letters, numbers, dots, hyphens, and underscores.")
  else if 209 < byteLen name then
    .error "Session name too long for registry sidecars (max 209 characters)."
  else .ok ()

/-- A name that is accepted. -/
def Accepted (name : Text) : Prop := validateNameLexical name = .ok ()

instance (name : Text) : Decidable (Accepted name) :=
  decidable_of_iff (validateNameLexical name matches .ok _) (by
    unfold Accepted
    cases validateNameLexical name <;> simp)

theorem Accepted.ne_nil {name : Text} (h : Accepted name) : name ≠ [] := by
  rintro rfl
  cases h

theorem Accepted.isNameChar {name : Text} (h : Accepted name) :
    ∀ c ∈ name, isNameChar c = true := by
  unfold Accepted validateNameLexical at h
  split at h
  · cases h
  split at h
  · cases h
  split at h
  · cases h
  split at h
  · cases h
  next hc =>
  rw [Bool.not_eq_true', Bool.not_eq_false, List.all_eq_true] at hc
  exact hc

/-! ### Paths -/

/-- A directory's path with the separator that ends it. -/
def dirPrefix (dir : Text) : Text :=
  if dir = [] ∨ dir.getLast? = some '/' then dir else dir ++ ['/']

/-- `Path::join` with a file name. -/
def join (dir file : Text) : Text := dirPrefix dir ++ file

/-- What the paths of a registry depend on: the digest, the kernel's limit on socket paths,
which paths are sockets, and the root's other spellings (its link's target, its canonical
path). -/
structure Host where
  sha256 : List UInt8 → List UInt8
  sunPathMax : Nat
  isSocket : Text → Bool
  realRoots : List Text

/-- `{byte:02x}`. -/
def hexByte (b : UInt8) : Text :=
  [Nat.digitChar (b.toNat / 16), Nat.digitChar (b.toNat % 16)]

/-- `socket_filenames`, `root.rs:166`: the readable one. -/
def readableSocket (name : Text) : Text := name ++ ".sock".toList

/-- `socket_filenames`: the one of the digest. -/
def boundedSocket (host : Host) (name : Text) : Text :=
  '@' :: ((host.sha256 (name.flatMap String.utf8EncodeChar)).take 16).flatMap hexByte ++
    ".sock".toList

/-- Whether a session's socket has the name of the digest: that one is published, or the
readable one is not and does not fit. -/
def usesBounded (host : Host) (root name : Text) : Bool :=
  host.isSocket (join root (boundedSocket host name)) ||
    (!host.isSocket (join root (readableSocket name)) &&
      host.sunPathMax < byteLen (join root (readableSocket name)))

/-- The file name of a session's socket. -/
def socketFile (host : Host) (root name : Text) : Text :=
  if usesBounded host root name then boundedSocket host name else readableSocket name

/-- The spelling of the root under which a published socket's path fits, `root.rs:198-213`. -/
def socketRoot (host : Host) (root file : Text) : Text :=
  if host.isSocket (join root file) ∧ host.sunPathMax < byteLen (join root file) then
    (host.realRoots.find? fun real ↦ byteLen (join real file) ≤ host.sunPathMax).getD root
  else root

/-- `socket_path_in`, `root.rs:182`. -/
def socketPathIn (host : Host) (root name : Text) : Text :=
  join (socketRoot host root (socketFile host root name)) (socketFile host root name)

/-- The files of a session. -/
inductive Companion where
  | socket
  | pid
  | metadata
  | events
  | lock
  | eventLock
  | recovery
  | activity
  deriving DecidableEq, Repr

namespace Companion

/-- How the file name of a companion ends. -/
def suffix : Companion → Text
  | socket => ".sock".toList
  | pid => ".pid".toList
  | metadata => ".json".toList
  | events => ".events.jsonl".toList
  | lock => ".lock".toList
  | eventLock => ".events.lock".toList
  | recovery => ".revision.json".toList
  | activity => ".json".toList

/-- The file name of a companion. -/
def file (host : Host) (root : Text) (c : Companion) (name : Text) : Text :=
  match c with
  | socket => socketFile host root name
  | c => name ++ c.suffix

/-- The path of a companion: `socket_path`, `pid_path`, `metadata_path`, `events_path`,
`lock_path`, `event_lock_path`, `recovery_revision_path` and `output_activity_path`,
`root.rs:162-265`. -/
def path (host : Host) (root : Text) (c : Companion) (name : Text) : Text :=
  match c with
  | socket => socketPathIn host root name
  | recovery => join (join root ".recovery".toList) (name ++ recovery.suffix)
  | activity => join (join root ".activity".toList) (name ++ activity.suffix)
  | c => join root (name ++ c.suffix)

end Companion

/-! ### The last component -/

private theorem dirPrefix_eq (dir : Text) :
    dirPrefix dir = [] ∨ ∃ d, dirPrefix dir = d ++ ['/'] := by
  unfold dirPrefix
  split
  · next h =>
    obtain h | h := h
    · exact .inl h
    · exact .inr (List.getLast?_eq_some_iff.mp h)
  · exact .inr ⟨dir, rfl⟩

private theorem restOf_dirPrefix (dir : Text) : restOf '/' (dirPrefix dir) = [] := by
  obtain h | ⟨d, h⟩ := dirPrefix_eq dir
  · rw [h]
    rfl
  · have hr : restOf '/' (unlines '/' [restOf '/' d] ++ []) = [] := by
      refine restOf_unlines_append ?_ List.not_mem_nil
      intro l hl
      rw [List.mem_singleton.mp hl]
      exact not_mem_restOf '/' d
    rw [unlines_cons, unlines_nil, List.append_nil] at hr
    rw [h, (linesOf_append '/' d ['/']).2]
    exact hr

/-- Two paths are the same when their directories and their file names are. -/
theorem join_inj {d e f g : Text} (hf : '/' ∉ f) (hg : '/' ∉ g) (h : join d f = join e g) :
    dirPrefix d = dirPrefix e ∧ f = g := by
  have hrest : ∀ (dir file : Text), '/' ∉ file → restOf '/' (join dir file) = file := by
    intro dir file hn
    have hu : restOf '/' (unlines '/' [] ++ file) = file := restOf_unlines_append (by simp) hn
    rw [unlines_nil, List.nil_append] at hu
    rw [join, (linesOf_append '/' _ _).2, restOf_dirPrefix, List.nil_append, hu]
  have hfg : f = g := by
    rw [← hrest d f hf, h, hrest e g hg]
  subst hfg
  exact ⟨List.append_cancel_right h, rfl⟩

private theorem dirPrefix_join (dir file : Text) (hf : '/' ∉ file) (hne : file ≠ []) :
    dirPrefix (join dir file) = dirPrefix dir ++ file ++ ['/'] := by
  unfold dirPrefix
  rw [if_neg]
  · rfl
  · rintro (h | h)
    · exact hne (List.append_eq_nil_iff.mp h).2
    · obtain ⟨init, c, rfl⟩ := List.eq_nil_or_concat' file |>.resolve_left hne
      rw [join, ← List.append_assoc, List.getLast?_concat, Option.some_inj] at h
      exact hf (by simp [h])

/-! ### Distinct names -/

namespace Companion

variable {host : Host} {root m n : Text}

/-- The directory of a companion. -/
private def dir (host : Host) (root : Text) (c : Companion) (name : Text) : Text :=
  match c with
  | socket => socketRoot host root (socketFile host root name)
  | recovery => join root ".recovery".toList
  | activity => join root ".activity".toList
  | _ => root

private theorem path_eq (c : Companion) (name : Text) :
    c.path host root name = join (c.dir host root name) (c.file host root name) := by
  cases c <;> rfl

theorem not_mem_name {name : Text} (hn : Accepted name) {c : Char}
    (hc : isNameChar c = false) : c ∉ name := by
  intro h
  rw [hn.isNameChar c h] at hc
  cases hc

private theorem not_mem_hexByte (b : UInt8) : '/' ∉ hexByte b := by
  have hd : ∀ k < 16, Nat.digitChar k ≠ '/' := by decide
  have hb := b.toNat_lt
  unfold hexByte
  rw [List.mem_cons, List.mem_singleton]
  rintro (h | h)
  · exact hd _ (by omega) h.symm
  · exact hd _ (by omega) h.symm

private theorem not_mem_boundedSocket (name : Text) : '/' ∉ boundedSocket host name := by
  have hs : '/' ∉ ".sock".toList := by decide
  have ha : '/' ≠ '@' := by decide
  simp only [boundedSocket, List.mem_append, List.mem_cons, List.mem_flatMap, hs, ha, or_false,
    false_or]
  rintro ⟨b, -, hb⟩
  exact not_mem_hexByte b hb

/-- A file name is a stem and the suffix of the companion. -/
private theorem file_eq (host : Host) (root : Text) (c : Companion) (name : Text) :
    ∃ stem, c.file host root name = stem ++ c.suffix ∧ (c ≠ socket → stem = name) := by
  cases c with
  | socket =>
    unfold file socketFile
    dsimp only
    split
    · exact ⟨_, rfl, fun h ↦ absurd rfl h⟩
    · exact ⟨name, rfl, fun _ ↦ rfl⟩
  | _ => exact ⟨name, rfl, fun _ ↦ rfl⟩

theorem not_mem_socketFile {name : Text} (hn : '/' ∉ name) : '/' ∉ socketFile host root name := by
  unfold socketFile
  split
  · exact not_mem_boundedSocket name
  · have hs : '/' ∉ ".sock".toList := by decide
    exact fun h ↦ (List.mem_append.mp h).elim hn hs

private theorem not_mem_file (hn : Accepted n) (c : Companion) : '/' ∉ c.file host root n := by
  have hname : '/' ∉ n := not_mem_name hn (by decide)
  have hs : ∀ c : Companion, '/' ∉ c.suffix := by
    intro c
    cases c <;> decide
  cases c with
  | socket => exact not_mem_socketFile hname
  | _ => exact fun h ↦ (List.mem_append.mp h).elim hname (hs _)

theorem suffix_related {a b s t : Text} (h : a ++ s = b ++ t) : s <:+ t ∨ t <:+ s :=
  List.suffix_or_suffix_of_suffix ⟨a, h⟩ ⟨b, rfl⟩

/-- Which companions can have file names that end in the same way. -/
private theorem suffix_cases (c d : Companion) (h : c.suffix <:+ d.suffix) :
    c = d ∨ c = lock ∧ d = eventLock ∨
      c ∈ [metadata, recovery, activity] ∧ d ∈ [metadata, recovery, activity] := by
  revert h
  cases c <;> cases d <;> decide

private theorem dirPrefix_sub (root sub : Text) (hs : '/' ∉ sub) (hne : sub ≠ []) :
    dirPrefix (join root sub) ≠ dirPrefix root := by
  rw [dirPrefix_join root sub hs hne]
  intro h
  have hl := congrArg List.length h
  simp only [List.length_append, List.length_singleton] at hl
  omega

/-- The metadata, the recovery revision and the activity are in different directories. -/
private theorem json_ne {c d : Companion} (hm : Accepted m) (hn : Accepted n)
    (hc : c ∈ [metadata, recovery, activity]) (hd : d ∈ [metadata, recovery, activity])
    (hcd : c ≠ d) : c.path host root m ≠ d.path host root n := by
  have hr : '/' ∉ ".recovery".toList := by decide
  have ha : '/' ∉ ".activity".toList := by decide
  have hra : dirPrefix (join root ".recovery".toList) ≠
      dirPrefix (join root ".activity".toList) := by
    rw [dirPrefix_join _ _ hr (by decide), dirPrefix_join _ _ ha (by decide)]
    intro h
    rw [List.append_assoc, List.append_assoc] at h
    exact absurd (List.append_cancel_left h) (by decide)
  have hr0 := dirPrefix_sub root _ hr (by decide)
  have ha0 := dirPrefix_sub root _ ha (by decide)
  rw [path_eq, path_eq]
  intro h
  have hp := (join_inj (not_mem_file hm c) (not_mem_file hn d) h).1
  simp only [List.mem_cons, List.not_mem_nil, or_false] at hc hd
  obtain rfl | rfl | rfl := hc <;> obtain rfl | rfl | rfl := hd
  · exact hcd rfl
  · exact hr0 hp.symm
  · exact ha0 hp.symm
  · exact hr0 hp
  · exact hcd rfl
  · exact hra hp
  · exact ha0 hp
  · exact hra hp.symm
  · exact hcd rfl

/-- Two sockets have one file name only as one digest. -/
private theorem socketFile_eq (hm : Accepted m) (hn : Accepted n) (hne : m ≠ n)
    (h : socketFile host root m = socketFile host root n) :
    usesBounded host root m = true ∧ usesBounded host root n = true ∧
      boundedSocket host m = boundedSocket host n := by
  have hat : ∀ x : Text, Accepted x → x.head? ≠ some '@' := by
    intro x hx hh
    exact not_mem_name hx (by decide) (List.mem_of_head? hh)
  have hmix : ∀ x y : Text, Accepted x → readableSocket x ≠ boundedSocket host y := by
    intro x y hx he
    have hh := congrArg List.head? he
    rw [readableSocket, List.head?_append_of_ne_nil _ hx.ne_nil] at hh
    exact hat x hx hh
  unfold socketFile at h
  cases hbm : usesBounded host root m <;> cases hbn : usesBounded host root n <;>
    simp only [hbm, hbn, if_true, if_false, Bool.false_eq_true] at h
  · exact absurd (List.append_cancel_right h) hne
  · exact absurd h (hmix m n hm)
  · exact absurd h.symm (hmix n m hn)
  · exact ⟨rfl, rfl, h⟩

end Companion

/-- Two names that share no file: neither is the other with `.events`, and their sockets are
not at one digest. -/
def Apart (host : Host) (root m n : Text) : Prop :=
  m ≠ n ++ ".events".toList ∧ n ≠ m ++ ".events".toList ∧
    ¬(usesBounded host root m = true ∧ usesBounded host root n = true ∧
      boundedSocket host m = boundedSocket host n)

open Companion in
/-- The companions of two distinct accepted names are different exactly when the names are
apart. -/
theorem companions_ne_iff (host : Host) (root : Text) {m n : Text} (hm : Accepted m)
    (hn : Accepted n) (hne : m ≠ n) :
    (∀ c d : Companion, c.path host root m ≠ d.path host root n) ↔ Apart host root m n := by
  have hlock : ∀ x : Text,
      lock.path host root (x ++ ".events".toList) = eventLock.path host root x := by
    intro x
    change join root (x ++ ".events".toList ++ ".lock".toList) =
      join root (x ++ ".events.lock".toList)
    rw [List.append_assoc]
    rfl
  constructor
  · intro h
    refine ⟨?_, ?_, ?_⟩
    · rintro rfl
      exact h lock eventLock (hlock n)
    · rintro rfl
      exact h eventLock lock (hlock m).symm
    · rintro ⟨hbm, hbn, hb⟩
      refine h socket socket ?_
      change socketPathIn host root m = socketPathIn host root n
      simp only [socketPathIn, socketFile, hbm, hbn, hb, if_true]
  · rintro ⟨h1, h2, h3⟩ c d hp
    have hjoin := hp
    rw [path_eq, path_eq] at hjoin
    have hf := (join_inj (not_mem_file hm c) (not_mem_file hn d) hjoin).2
    obtain ⟨s, hs, hsn⟩ := file_eq host root c m
    obtain ⟨t, ht, htn⟩ := file_eq host root d n
    have hst : s ++ c.suffix = t ++ d.suffix := by
      rw [← hs, ← ht, hf]
    have hevents : ".events.lock".toList = ".events".toList ++ ".lock".toList := by decide
    have hrel : (c = d ∨ c = lock ∧ d = eventLock ∨ c = eventLock ∧ d = lock) ∨
        c ∈ [metadata, recovery, activity] ∧ d ∈ [metadata, recovery, activity] := by
      obtain h | h := suffix_related hst
      · obtain h | h | h := suffix_cases c d h
        · exact .inl (.inl h)
        · exact .inl (.inr (.inl h))
        · exact .inr h
      · obtain h | h | h := suffix_cases d c h
        · exact .inl (.inl h.symm)
        · exact .inl (.inr (.inr h.symm))
        · exact .inr h.symm
    by_cases hcd : c = d
    · subst hcd
      by_cases hsock : c = socket
      · subst hsock
        exact h3 (socketFile_eq hm hn hne hf)
      · rw [hsn hsock, htn hsock] at hst
        exact hne (List.append_cancel_right hst)
    · obtain (h | ⟨rfl, rfl⟩ | ⟨rfl, rfl⟩) | ⟨hc, hd⟩ := hrel
      · exact hcd h
      · rw [hsn (by decide), htn (by decide)] at hst
        refine h1 ?_
        change m ++ ".lock".toList = n ++ ".events.lock".toList at hst
        rw [hevents, ← List.append_assoc] at hst
        exact List.append_cancel_right hst
      · rw [hsn (by decide), htn (by decide)] at hst
        refine h2 ?_
        change m ++ ".events.lock".toList = n ++ ".lock".toList at hst
        rw [hevents, ← List.append_assoc] at hst
        exact (List.append_cancel_right hst).symm
      · exact json_ne hm hn hc hd hcd hp

end PtySpec.Registry
