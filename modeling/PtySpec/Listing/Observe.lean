import PtySpec.Listing.Namespace
import PtySpec.Listing.Scanner

/-!
# The observation of one session

A strict scan for one name keeps the name's companions only. What decides about the name is
in these files, so the scan lists and refuses what a scan of the whole root does of that name.
-/

namespace PtySpec.Listing

open Lib
open Registry (Text Host join Accepted Companion socketFile socketPathIn readableSocket
  boundedSocket usesBounded)
open Metadata (SessionMetadata)

/-- `list_sessions_strict_in`, `list.rs:1109`. -/
def listSessionsStrictIn (host : Host) (answers : Answers) (root : Text) : Inventory :=
  scanSessions host answers true root none

/-- `observe_session_strict_in`, `list.rs:1116`. -/
def observeSessionStrictIn (host : Host) (answers : Answers) (root name : Text) : Inventory :=
  scanSessions host answers true root (some name)

/-- The companions that a scan for one name keeps, and the path at which the socket is
connected to. -/
def companionPaths (host : Host) (root name : Text) : List Text :=
  socketPathIn host root name :: (companions host root name).map (join root)

/-- An inventory has an error about a companion of a name. -/
def FailsOn (host : Host) (root name : Text) (inventory : Inventory) : Prop :=
  ∃ e ∈ inventory.errors, e.path ∈ companionPaths host root name

/-- A directory: its files have names without separators, and no other companion has the
digest of a name. -/
structure Directory (host : Host) (items : List DirItem) (name : Text) : Prop where
  files : ∀ file, .entry file ∈ items → '/' ∉ file
  digest : ∀ stem, .entry (stem ++ ".json".toList) ∈ items ∨
      .entry (stem ++ ".pid".toList) ∈ items →
    boundedSocket host stem = boundedSocket host name → stem = name

/-! ### The entries of one name -/

private theorem ne_of_ends {a b s t : Text} (hs : ¬s <:+ t) (ht : ¬t <:+ s) :
    a ++ s ≠ b ++ t :=
  fun h ↦ (Companion.suffix_related h).elim hs ht

private theorem exists_socketFile (host : Host) (root name : Text) :
    ∃ stem, socketFile host root name = stem ++ ".sock".toList := by
  unfold socketFile
  split
  · exact ⟨_, rfl⟩
  · exact ⟨name, rfl⟩

private theorem companionStem_json (name : Text) :
    companionStem (name ++ ".json".toList) = some name := by
  rw [companionStem, stripSuffix_eq_some.mpr rfl]
  rfl

private theorem companionStem_pid (name : Text) :
    companionStem (name ++ ".pid".toList) = some name := by
  have hn : stripSuffix (name ++ ".pid".toList) ".json".toList = none := by
    rw [Option.eq_none_iff_forall_not_mem]
    intro stem hs
    exact ne_of_ends (by decide) (by decide) (stripSuffix_eq_some.mp hs)
  rw [companionStem, hn]
  exact stripSuffix_eq_some.mpr rfl

private theorem exists_companion_iff {entries : List Text} {name : Text} :
    (∃ file ∈ entries, companionStem file = some name) ↔
      name ++ ".json".toList ∈ entries ∨ name ++ ".pid".toList ∈ entries := by
  constructor
  · rintro ⟨file, hf, hs⟩
    obtain rfl | rfl := companionStem_eq_some hs
    · exact .inl hf
    · exact .inr hf
  · rintro (h | h)
    · exact ⟨_, h, companionStem_json name⟩
    · exact ⟨_, h, companionStem_pid name⟩

private theorem eq_of_mem_companions {host : Host} {root name n : Text}
    (hf : n ++ ".json".toList ∈ companions host root name ∨
      n ++ ".pid".toList ∈ companions host root name) : n = name := by
  obtain ⟨stem, hstem⟩ := exists_socketFile host root name
  rw [companions, hstem] at hf
  simp only [List.mem_cons, List.not_mem_nil, or_false] at hf
  obtain (he | he | he) | (he | he | he) := hf
  · exact absurd he (ne_of_ends (by decide) (by decide))
  · exact List.append_cancel_right he
  · exact absurd he (ne_of_ends (by decide) (by decide))
  · exact absurd he (ne_of_ends (by decide) (by decide))
  · exact absurd he (ne_of_ends (by decide) (by decide))
  · exact List.append_cancel_right he

private theorem socketFile_of_mem_companions {host : Host} {root name stem : Text}
    (hf : stem ++ ".sock".toList ∈ companions host root name) :
    stem ++ ".sock".toList = socketFile host root name := by
  simp only [companions, List.mem_cons, List.not_mem_nil, or_false] at hf
  obtain he | he | he := hf
  · exact he
  · exact absurd he (ne_of_ends (by decide) (by decide))
  · exact absurd he (ne_of_ends (by decide) (by decide))

private theorem slash_of_mem_companions {host : Host} {root name file : Text}
    (hacc : Accepted name) (hf : file ∈ companions host root name) : '/' ∉ file := by
  have hname : '/' ∉ name := Companion.not_mem_name hacc (by decide)
  simp only [companions, List.mem_cons, List.not_mem_nil, or_false] at hf
  obtain rfl | rfl | rfl := hf
  · exact Companion.not_mem_socketFile hname
  · exact fun hm ↦ (List.mem_append.mp hm).elim hname (by decide)
  · exact fun hm ↦ (List.mem_append.mp hm).elim hname (by decide)

/-- A file that is a companion of the name is an entry of both scans, or of none. -/
private theorem mem_entries_iff {host : Host} {root name file : Text} {items : List DirItem}
    (hf : file ∈ companions host root name) :
    file ∈ scanEntries host root (some name) items ↔ file ∈ scanEntries host root none items := by
  have hc : concerns host root (some name) file = true := by
    rw [concerns, Option.all_some, List.contains_iff_mem]
    exact hf
  rw [mem_scanEntries, mem_scanEntries, hc]
  rfl

/-- A name is not the stem of a digest. -/
private theorem ne_digest {name : Text} (hacc : Accepted name) (digest : Text) :
    name ≠ '@' :: digest :=
  fun he ↦ Companion.not_mem_name hacc (c := '@') (by decide) (he ▸ List.mem_cons_self)

private theorem boundedSocket_eq (host : Host) (name : Text) :
    ∃ digest, boundedSocket host name = '@' :: digest ++ ".sock".toList := ⟨_, rfl⟩

private theorem usesBounded_of_readable {host : Host} {root name : Text} (hacc : Accepted name)
    (hs : socketFile host root name = readableSocket name) :
    usesBounded host root name = false := by
  by_contra hb
  rw [Bool.not_eq_false] at hb
  obtain ⟨digest, hd⟩ := boundedSocket_eq host name
  rw [socketFile, if_pos hb, hd] at hs
  exact ne_digest hacc digest (List.append_cancel_right hs).symm

section Directory

variable {host : Host} {root name : Text} {items : List DirItem} {only : Option Text}
  (h : Directory host items name) (hacc : Accepted name)
include h hacc

/-- Only the name's own companions lead to its socket. -/
private theorem stem_eq_of_socketFile {file stem : Text}
    (hf : file ∈ scanEntries host root only items) (hs : companionStem file = some stem)
    (he : socketFile host root stem = socketFile host root name) : stem = name := by
  obtain ⟨hi, -, -, hr⟩ := mem_scanEntries.mp hf
  have hstem := companionStem_eq_some hs
  obtain ⟨d, hd⟩ := boundedSocket_eq host name
  obtain ⟨d', hd'⟩ := boundedSocket_eq host stem
  unfold socketFile at he
  cases hn : usesBounded host root name <;> cases hb : usesBounded host root stem <;>
    simp only [hn, hb, if_true, if_false, Bool.false_eq_true] at he
  · exact List.append_cancel_right he
  · rw [hd'] at he
    exact absurd (List.append_cancel_right he).symm (ne_digest hacc d')
  · rw [hd] at he
    have hat : stem = '@' :: d := List.append_cancel_right he
    -- a companion of the digest's namespace is not an entry
    obtain rfl | rfl := hstem <;> simp [isReserved, hat] at hr
  · refine h.digest stem ?_ he
    obtain rfl | rfl := hstem
    · exact .inl hi
    · exact .inr hi

private theorem get_socketNames :
    (socketNames host root (scanEntries host root only items)).get (socketFile host root name) =
      if ∃ file ∈ scanEntries host root only items, companionStem file = some name then some name
      else none := by
  have hget : ∀ stem,
      (socketNames host root (scanEntries host root only items)).get
          (socketFile host root name) = some stem →
        stem = name ∧
          ∃ file ∈ scanEntries host root only items, companionStem file = some name := by
    intro stem hg
    obtain hm | hm := IndexMap.mem_insertAll (IndexMap.mem_of_get hg)
    · cases hm
    · obtain ⟨k, hk, hp⟩ := List.mem_map.mp hm
      obtain ⟨file, hfile, hs⟩ := List.mem_filterMap.mp hk
      rw [Prod.mk.injEq] at hp
      obtain ⟨he, rfl⟩ := hp
      obtain rfl := stem_eq_of_socketFile h hacc hfile hs he
      exact ⟨rfl, file, hfile, hs⟩
  split
  · next hc =>
    obtain ⟨file, hfile, hs⟩ := hc
    have hkey : socketFile host root name ∈
        (socketNames host root (scanEntries host root only items)).keys := by
      refine IndexMap.mem_keys_insertAll.mpr (.inr (List.mem_map.mpr
        ⟨_, List.mem_map_of_mem (List.mem_filterMap.mpr ⟨file, hfile, hs⟩), rfl⟩))
    obtain ⟨stem, hstem⟩ := Option.isSome_iff_exists.mp (IndexMap.mem_keys_iff.mp hkey)
    rw [hstem, (hget stem hstem).1]
  · next hc =>
    rw [Option.eq_none_iff_forall_not_mem]
    exact fun stem hs ↦ hc (hget stem hs).2

/-- The socket's file stands for the name, unless a digest has no companion. -/
private theorem socketName_socketFile :
    socketName host root (socketNames host root (scanEntries host root only items))
        (socketFile host root name) =
      some
        (if (∃ file ∈ scanEntries host root only items, companionStem file = some name) ∨
            usesBounded host root name = false then .ok name
        else .error ⟨join root (socketFile host root name), .entryUnreadable,
          "bounded socket has no id-named registry companion"⟩) := by
  have hcan : canonicalSocket host root (socketFile host root name) name = .ok name :=
    if_pos rfl
  obtain ⟨stem, hstem⟩ := exists_socketFile host root name
  unfold socketName
  rw [stripSuffix_eq_some.mpr hstem, Option.map_some, get_socketNames h hacc]
  refine congrArg some ?_
  by_cases hx : ∃ file ∈ scanEntries host root only items, companionStem file = some name
  · rw [if_pos hx]
    exact hcan.trans (if_pos (.inl hx)).symm
  · rw [if_neg hx]
    cases hb : usesBounded host root name with
    | false =>
      have hr : socketFile host root name = readableSocket name := by
        rw [socketFile, hb]
        rfl
      obtain rfl : stem = name := List.append_cancel_right (hstem.symm.trans hr)
      have hat : stem.head? ≠ some '@' := fun hh ↦
        Companion.not_mem_name hacc (by decide) (List.mem_of_head? hh)
      exact ((if_neg hat).trans hcan).trans (if_pos (.inr rfl)).symm
    | true =>
      obtain ⟨d, hd⟩ := boundedSocket_eq host name
      have hs := hstem
      rw [socketFile, if_pos hb, hd] at hs
      obtain rfl : '@' :: d = stem := List.append_cancel_right hs
      exact (if_pos rfl).trans (if_neg (by simp [hx])).symm

/-- A name has a socket when its file is there, unless a digest has no companion. -/
private theorem mem_socketIds_iff :
    name ∈ socketIds host root (scanEntries host root only items) ↔
      socketFile host root name ∈ scanEntries host root only items ∧
        ((∃ file ∈ scanEntries host root only items, companionStem file = some name) ∨
          usesBounded host root name = false) := by
  constructor
  · intro hs
    obtain ⟨entry, he, hf, hc | ⟨rfl, -⟩⟩ := mem_socketIds hs
    · exact ⟨hf ▸ he, .inl hc⟩
    · exact ⟨hf ▸ he, .inr (usesBounded_of_readable hacc hf)⟩
  · rintro ⟨he, hc⟩
    refine List.mem_filterMap.mpr ⟨.ok name, List.mem_filterMap.mpr ⟨_, he, ?_⟩, rfl⟩
    rw [socketName_socketFile h hacc, if_pos hc]

/-- What stands for the socket's file is the name. -/
private theorem name_eq_of_socketFile {n : Text}
    (hn : n ∈ socketIds host root (scanEntries host root only items))
    (hs : socketFile host root n = socketFile host root name) : n = name := by
  obtain ⟨entry, he, hf, ⟨file, hfile, hc⟩ | ⟨rfl, hat⟩⟩ := mem_socketIds hn
  · exact stem_eq_of_socketFile h hacc hfile hc hs
  · rw [hs, socketFile] at hf
    split at hf
    · obtain ⟨d, hd⟩ := boundedSocket_eq host name
      rw [hd] at hf
      exact absurd (by rw [← List.append_cancel_right hf]; rfl) hat
    · exact (List.append_cancel_right hf).symm

end Directory

/-! ### One name in both scans -/

section Scans

variable {host : Host} {root name : Text} {items : List DirItem}
  (h : Directory host items name) (hacc : Accepted name)
include h hacc

private theorem socketIds_iff :
    name ∈ socketIds host root (scanEntries host root (some name) items) ↔
      name ∈ socketIds host root (scanEntries host root none items) := by
  rw [mem_socketIds_iff h hacc, mem_socketIds_iff h hacc, exists_companion_iff,
    exists_companion_iff, mem_entries_iff (by simp [companions]),
    mem_entries_iff (by simp [companions]), mem_entries_iff (by simp [companions])]

/-- The name is visited alike. -/
private theorem visit_eq (answers : Answers) :
    visit host answers true root (scanEntries host root (some name) items) name =
      visit host answers true root (scanEntries host root none items) name := by
  have hs : name ∈ socketIds host root (scanEntries host root (some name) items) ↔ _ :=
    socketIds_iff h hacc
  have hj : name ++ ".json".toList ∈ scanEntries host root (some name) items ↔ _ :=
    mem_entries_iff (by simp [companions])
  have hp : name ++ ".pid".toList ∈ scanEntries host root (some name) items ↔ _ :=
    mem_entries_iff (by simp [companions])
  rw [← List.contains_iff_mem, ← List.contains_iff_mem, Bool.coe_iff_coe] at hs hj hp
  unfold visit
  dsimp only
  rw [hs, hj, hp]

/-- The name is looked at in both scans, or in none. -/
private theorem mem_scanNames_iff :
    name ∈ scanNames host root true (scanEntries host root (some name) items) ↔
      name ∈ scanNames host root true (scanEntries host root none items) := by
  rw [mem_scanNames, mem_scanNames, socketIds_iff h hacc]
  refine or_congr_left ?_
  have hrec : ∀ only, (∃ file ∈ scanEntries host root only items,
      recordStem true file = some name) ↔
        name ++ ".json".toList ∈ scanEntries host root only items ∨
          name ++ ".pid".toList ∈ scanEntries host root only items :=
    fun only ↦ exists_companion_iff
  rw [hrec, hrec, mem_entries_iff (by simp [companions]), mem_entries_iff (by simp [companions])]

/-- A scan for one name looks at no other. -/
private theorem eq_of_mem_scanNames {n : Text}
    (hn : n ∈ scanNames host root true (scanEntries host root (some name) items)) : n = name := by
  have hfile : ∀ file ∈ scanEntries host root (some name) items,
      file ∈ companions host root name := by
    intro file hf
    have hc := (mem_scanEntries.mp hf).2.2.1
    rwa [concerns, Option.all_some, List.contains_iff_mem] at hc
  have hstem : ∀ file ∈ scanEntries host root (some name) items, companionStem file = some n →
      n = name := by
    intro file hf hs
    obtain rfl | rfl := companionStem_eq_some hs
    · exact eq_of_mem_companions (.inl (hfile _ hf))
    · exact eq_of_mem_companions (.inr (hfile _ hf))
  obtain ⟨file, hf, hs⟩ | hs := mem_scanNames.mp hn
  · exact hstem file hf (companionStem_of_recordStem hs)
  · obtain ⟨entry, he, rfl, -⟩ := mem_socketIds hs
    obtain ⟨stem, hsock⟩ := exists_socketFile host root n
    refine name_eq_of_socketFile h hacc hs ?_
    rw [hsock]
    exact socketFile_of_mem_companions (hsock ▸ hfile _ he)

/-- The names of the scan for one name are those of the whole scan that are it. -/
private theorem scanNames_eq_filter :
    scanNames host root true (scanEntries host root (some name) items) =
      (scanNames host root true (scanEntries host root none items)).filter (· = name) := by
  have hself : (scanNames host root true (scanEntries host root (some name) items)).filter
      (· = name) = scanNames host root true (scanEntries host root (some name) items) :=
    List.filter_eq_self.mpr fun n hn ↦ decide_eq_true (eq_of_mem_scanNames h hacc hn)
  rw [← hself, List.filter_eq, List.filter_eq, (nodup_scanNames ..).count,
    (nodup_scanNames ..).count,
    if_congr (mem_scanNames_iff h hacc) rfl rfl]

/-- The sessions of the scan for one name are those of the whole scan that have it. -/
private theorem entries_eq {answers : Answers} (hd : answers.dir = .ok items) :
    (observeSessionStrictIn host answers root name).entries =
      (listSessionsStrictIn host answers root).entries.filter (·.name = name) := by
  have hfilter : ∀ entries names : List Text,
      ((names.map (visit host answers true root entries)).filterMap (·.session)).filter
          (·.name = name) =
        ((names.filter (· = name)).map (visit host answers true root entries)).filterMap
          (·.session) := by
    intro entries names
    rw [List.filterMap_map, List.filterMap_map, List.filter_filterMap, List.filterMap_filter]
    refine List.filterMap_congr fun n _ ↦ ?_
    dsimp only [Function.comp_apply]
    cases hs : (visit host answers true root entries n).session with
    | none => simp
    | some s => simp [Option.filter_some, name_of_visit hs]
  have hvisit : (scanNames host root true (scanEntries host root (some name) items)).map
      (visit host answers true root (scanEntries host root (some name) items)) =
        (scanNames host root true (scanEntries host root (some name) items)).map
          (visit host answers true root (scanEntries host root none items)) := by
    refine List.map_congr_left fun n hn ↦ ?_
    rw [eq_of_mem_scanNames h hacc hn, visit_eq h hacc]
  unfold observeSessionStrictIn listSessionsStrictIn scanSessions scanItems
  rw [hd]
  dsimp only
  rw [hfilter, ← scanNames_eq_filter h hacc, hvisit]

end Scans

/-! ### What the errors are about -/

section Errors

variable {parse : List UInt8 → Except String SessionMetadata} {utf8Error : List UInt8 → String}
  {r : Scene} {host : Host} {root n : Text} {entries : List Text}

/-- The errors of a visit are about the record and the PID file. -/
private theorem path_of_mem_visit {e : InventoryError}
    (he : e ∈ (visit host (r.answers parse utf8Error) true root entries n).errors) :
    e.path = join root (n ++ ".json".toList) ∨ e.path = join root (n ++ ".pid".toList) := by
  have hm : ∀ observed, e ∈ ((r.answers parse utf8Error).metadata
      (join root (n ++ ".json".toList)) observed).2 → e.path = join root (n ++ ".json".toList) :=
    fun _ ↦ Scene.path_of_mem_metadata parse
  have hp : ∀ observed, e ∈ ((r.answers parse utf8Error).pid
      (join root (n ++ ".pid".toList)) observed).2 → e.path = join root (n ++ ".pid".toList) :=
    fun _ ↦ Scene.path_of_mem_pid utf8Error
  unfold visit at he
  dsimp only at he
  split at he
  · rw [if_pos rfl] at he
    obtain he | he := List.mem_append.mp he
    · obtain he | he := List.mem_append.mp he
      · exact .inl (hm _ he)
      · exact .inr (hp _ he)
    · unfold orphanErrors at he
      split at he
      · rw [List.mem_singleton.mp he]
        exact .inr rfl
      · cases he
  · obtain he | he := List.mem_append.mp he
    · obtain he | he := List.mem_append.mp he
      · exact .inl (hm _ he)
      · exact .inr (hp _ he)
    · unfold listed at he
      dsimp only at he
      split at he
      · rw [List.mem_singleton.mp he]
        exact .inl rfl
      · cases he

/-- A socket is probed when the identity of its session is unknown, which is an error. -/
private theorem of_uncertain {answers : Answers} {path : Text}
    (hu : (visit host answers true root entries n).uncertain = some path) :
    path = socketPathIn host root n ∧ n ∈ socketIds host root entries ∧
      ∃ e ∈ (visit host answers true root entries n).errors,
        e.path = join root (n ++ ".json".toList) := by
  unfold visit at hu ⊢
  dsimp only at hu ⊢
  split at hu
  · rw [if_pos rfl] at hu
    cases hu
  · next hv =>
    rw [if_neg hv]
    unfold listed at hu ⊢
    dsimp only at hu ⊢
    split at hu
    · next hk =>
      cases hu
      rw [Bool.and_eq_true, Bool.and_eq_true, decide_eq_true_eq] at hk
      obtain ⟨⟨hunknown, -⟩, hs⟩ := hk
      refine ⟨rfl, List.contains_iff_mem.mp hs, ⟨join root (n ++ ".json".toList), .identityUnknown,
        "cannot prove daemon leader, start token and boot identity"⟩, ?_, rfl⟩
      rw [if_pos hunknown]
      exact List.mem_append_right _ (List.mem_singleton_self _)
    · cases hu

private theorem of_socketName_error {names : IndexMap Text Text} {entry : Text}
    {e : InventoryError} (he : socketName host root names entry = some (.error e)) :
    e.path = join root entry ∧ ∃ stem, entry = stem ++ ".sock".toList := by
  unfold socketName at he
  obtain ⟨stem, hstem, he⟩ := Option.map_eq_some_iff.mp he
  refine ⟨?_, stem, stripSuffix_eq_some.mp hstem⟩
  unfold canonicalSocket at he
  split at he
  · split at he <;> cases he
    rfl
  · split at he
    · cases he
      rfl
    · split at he <;> cases he
      rfl

end Errors

section Files

variable {host : Host} {root name : Text} {items : List DirItem} {only : Option Text}
  (h : Directory host items name) (hacc : Accepted name)
include h

private theorem slash_of_mem_scanNames {n : Text}
    (hn : n ∈ scanNames host root true (scanEntries host root only items)) : '/' ∉ n := by
  have hstem : ∀ file ∈ scanEntries host root only items, ∀ suffix, file = n ++ suffix →
      '/' ∉ n := by
    rintro file hf suffix rfl hs
    exact h.files _ (mem_scanEntries.mp hf).1 (List.mem_append_left _ hs)
  have hcompanion : ∀ file ∈ scanEntries host root only items, companionStem file = some n →
      '/' ∉ n := by
    intro file hf hs
    obtain he | he := companionStem_eq_some hs
    · exact hstem file hf _ he
    · exact hstem file hf _ he
  obtain ⟨file, hf, hs⟩ | hs := mem_scanNames.mp hn
  · exact hcompanion file hf (companionStem_of_recordStem hs)
  · obtain ⟨entry, he, -, ⟨file, hf, hs⟩ | ⟨hentry, -⟩⟩ := mem_socketIds hs
    · exact hcompanion file hf hs
    · exact hstem entry he _ hentry

end Files

/-- A path of a companion of the name is that of a file of these names. -/
private theorem mem_companions_of_path {host : Host} {root name file : Text}
    (hacc : Accepted name) (hf : '/' ∉ file)
    (hp : join root file ∈ companionPaths host root name) :
    file ∈ companions host root name := by
  have hslash : '/' ∉ name := Companion.not_mem_name hacc (by decide)
  obtain hp | hp := List.mem_cons.mp hp
  · rw [(Registry.join_inj hf (Companion.not_mem_socketFile hslash) hp).2]
    exact List.mem_cons_self
  · obtain ⟨file', hf', he⟩ := List.mem_map.mp hp
    rwa [← List.append_cancel_left he]

private theorem path_mem {host : Host} {root name file : Text}
    (hf : file ∈ companions host root name) : join root file ∈ companionPaths host root name :=
  List.mem_cons_of_mem _ (List.mem_map_of_mem hf)

private theorem entry_mem_of_concerned {host : Host} {root file : Text} {only : Option Text}
    {items : List DirItem} (hf : file ∈ concerned host root only items) :
    .entry file ∈ items := by
  obtain ⟨item, hi, hk⟩ := List.mem_filterMap.mp (List.mem_filter.mp hf).1
  cases item with
  | entry f =>
    unfold DirItem.kept at hk
    dsimp only at hk
    split at hk
    · cases hk
    · cases hk
      exact hi
  | notUtf8 | failed => cases hk

/-- The companions of a name are not in the namespace of the digests. -/
private theorem not_reserved {host : Host} {root name file : Text} (hacc : Accepted name)
    (hf : file ∈ companions host root name) : isReserved file = false := by
  have hat : ∀ suffix : Text, (name ++ suffix).head? ≠ some '@' := by
    intro suffix
    rw [List.head?_append_of_ne_nil _ hacc.ne_nil]
    exact fun hh ↦ Companion.not_mem_name hacc (by decide) (List.mem_of_head? hh)
  simp only [companions, List.mem_cons, List.not_mem_nil, or_false] at hf
  unfold isReserved
  obtain rfl | rfl | rfl := hf
  · obtain ⟨stem, hstem⟩ := exists_socketFile host root name
    have hend : ∀ suffix : Text, ¬suffix <:+ ".sock".toList → ¬".sock".toList <:+ suffix →
        ¬suffix <:+ stem ++ ".sock".toList := by
      rintro suffix hs ht ⟨t, ht'⟩
      exact ne_of_ends hs ht ht'
    rw [hstem, decide_eq_false (hend _ (by decide) (by decide)),
      decide_eq_false (hend _ (by decide) (by decide)), Bool.or_false, Bool.and_false]
  · rw [decide_eq_false (hat _), Bool.false_and]
  · rw [decide_eq_false (hat _), Bool.false_and]

private theorem path_of_probeError {answer : Option (Except IoError Unit)} {path : Text}
    {e : InventoryError} (he : probeError answer path = some e) : e.path = path := by
  unfold probeError at he
  split at he
  · cases he
    rfl
  · split at he
    · cases he
    · cases he
      rfl
  · cases he

/-! ### The errors about one name -/

section Fails

variable {parse : List UInt8 → Except String SessionMetadata} {utf8Error : List UInt8 → String}
  {r : Scene} {host : Host} {root name : Text} {items : List DirItem} {only : Option Text}
  (h : Directory host items name) (hacc : Accepted name)

/-- What the errors about a name come from: what is no entry, a socket without a companion,
or the visit of the name. -/
private def Blamed (host : Host) (answers : Answers) (root name : Text) (only : Option Text)
    (items : List DirItem) : Prop :=
  (∃ e ∈ items.filterMap (DirItem.error root), e.path ∈ companionPaths host root name) ∨
    (socketFile host root name ∈ scanEntries host root only items ∧
      name ∉ socketIds host root (scanEntries host root only items)) ∨
    (name ∈ scanNames host root true (scanEntries host root only items) ∧
      ∃ e ∈ (visit host answers true root (scanEntries host root only items) name).errors,
        e.path ∈ companionPaths host root name)

include h hacc

private theorem blamed_of_visit {n : Text} {e : InventoryError}
    (hn : n ∈ scanNames host root true (scanEntries host root only items))
    (he : e ∈ (visit host (r.answers parse utf8Error) true root
      (scanEntries host root only items) n).errors)
    (hp : e.path ∈ companionPaths host root name) :
    Blamed host (r.answers parse utf8Error) root name only items := by
  have hslash : ∀ suffix : Text, '/' ∉ suffix → '/' ∉ n ++ suffix := fun suffix hs hm ↦
    (List.mem_append.mp hm).elim (slash_of_mem_scanNames h hn) hs
  have heq : n = name := by
    obtain hpath | hpath := path_of_mem_visit he
    · exact eq_of_mem_companions
        (.inl (mem_companions_of_path hacc (hslash _ (by decide)) (hpath ▸ hp)))
    · exact eq_of_mem_companions
        (.inr (mem_companions_of_path hacc (hslash _ (by decide)) (hpath ▸ hp)))
  subst heq
  exact .inr (.inr ⟨hn, e, he, hp⟩)

private theorem blamed_of_probe {n path : Text}
    (hn : n ∈ scanNames host root true (scanEntries host root only items))
    (hu : (visit host (r.answers parse utf8Error) true root
      (scanEntries host root only items) n).uncertain = some path)
    (hp : path ∈ companionPaths host root name) :
    Blamed host (r.answers parse utf8Error) root name only items := by
  obtain ⟨rfl, hs, e, he, hpath⟩ := of_uncertain hu
  have hslash : '/' ∉ socketFile host root n :=
    Companion.not_mem_socketFile (slash_of_mem_scanNames h hn)
  have heq : n = name := by
    refine name_eq_of_socketFile h hacc hs ?_
    obtain ⟨stem, hstem⟩ := exists_socketFile host root n
    obtain hp | hp := List.mem_cons.mp hp
    · exact (Registry.join_inj hslash (Companion.not_mem_socketFile
        (Companion.not_mem_name hacc (by decide))) hp).2
    · obtain ⟨file, hf, hfile⟩ := List.mem_map.mp hp
      obtain rfl := (Registry.join_inj (slash_of_mem_companions hacc hf) hslash hfile).2
      rw [hstem]
      exact socketFile_of_mem_companions (hstem ▸ hf)
  subst heq
  exact .inr (.inr ⟨hn, e, he, hpath ▸ path_mem (by simp [companions])⟩)

private theorem blamed_of_socket {result : Except InventoryError Text} {e : InventoryError}
    (hr : result ∈ sockets host root (scanEntries host root only items))
    (hs : socketError result = some e) (hp : e.path ∈ companionPaths host root name) :
    Blamed host (r.answers parse utf8Error) root name only items := by
  cases result with
  | ok n => cases hs
  | error e' =>
    cases hs
    obtain ⟨entry, he, hentry⟩ := List.mem_filterMap.mp hr
    obtain ⟨hpath, stem, rfl⟩ := of_socketName_error hentry
    have hslash := h.files _ (mem_scanEntries.mp he).1
    have hsock := socketFile_of_mem_companions (mem_companions_of_path hacc hslash (hpath ▸ hp))
    rw [hsock] at hentry he
    rw [socketName_socketFile h hacc] at hentry
    refine .inr (.inl ⟨he, fun hn ↦ ?_⟩)
    rw [if_pos ((mem_socketIds_iff h hacc).mp hn).2] at hentry
    cases hentry

/-- A scan has an error about the name when one of these does. -/
private theorem failsOn_iff (hd : r.dir = .ok items) :
    FailsOn host root name (scanSessions host (r.answers parse utf8Error) true root only) ↔
      Blamed host (r.answers parse utf8Error) root name only items := by
  have hd' : (r.answers parse utf8Error).dir = .ok items := hd
  unfold FailsOn scanSessions scanItems
  rw [hd']
  dsimp only
  rw [if_pos rfl]
  constructor
  · rintro ⟨e, he, hp⟩
    simp only [List.mem_append] at he
    obtain (((he | he) | he) | he) | he := he
    · exact .inl ⟨e, he, hp⟩
    · obtain ⟨file, hf, rfl⟩ := List.mem_map.mp he
      obtain ⟨hc, hreserved⟩ := List.mem_filter.mp hf
      have hslash := h.files file (entry_mem_of_concerned hc)
      rw [not_reserved hacc (mem_companions_of_path hacc hslash hp)] at hreserved
      cases hreserved
    · obtain ⟨result, hr, hs⟩ := List.mem_filterMap.mp he
      exact blamed_of_socket h hacc hr hs hp
    · obtain ⟨v, hv, he⟩ := List.mem_flatMap.mp he
      obtain ⟨n, hn, rfl⟩ := List.mem_map.mp hv
      exact blamed_of_visit h hacc hn he hp
    · obtain ⟨path, hu, he⟩ := List.mem_filterMap.mp he
      obtain ⟨v, hv, hu⟩ := List.mem_filterMap.mp hu
      obtain ⟨n, hn, rfl⟩ := List.mem_map.mp hv
      exact blamed_of_probe h hacc hn hu (path_of_probeError he ▸ hp)
  · rintro (⟨e, he, hp⟩ | ⟨hs, hn⟩ | ⟨hn, e, he, hp⟩)
    · refine ⟨e, ?_, hp⟩
      simp only [List.mem_append]
      exact .inl (.inl (.inl (.inl he)))
    · have hname : socketName host root (socketNames host root (scanEntries host root only items))
          (socketFile host root name) = _ := socketName_socketFile h hacc
      rw [if_neg fun hc ↦ hn ((mem_socketIds_iff h hacc).mpr ⟨hs, hc⟩)] at hname
      refine ⟨⟨join root (socketFile host root name), .entryUnreadable,
        "bounded socket has no id-named registry companion"⟩, ?_, path_mem List.mem_cons_self⟩
      simp only [List.mem_append]
      exact .inl (.inl (.inr (List.mem_filterMap.mpr
        ⟨_, List.mem_filterMap.mpr ⟨_, hs, hname⟩, rfl⟩)))
    · refine ⟨e, ?_, hp⟩
      simp only [List.mem_append]
      exact .inl (.inr (List.mem_flatMap.mpr ⟨_, List.mem_map_of_mem hn, he⟩))

private theorem blamed_iff (answers : Answers) :
    Blamed host answers root name (some name) items ↔ Blamed host answers root name none items := by
  unfold Blamed
  rw [mem_entries_iff List.mem_cons_self, socketIds_iff h hacc, mem_scanNames_iff h hacc,
    visit_eq h hacc]

end Fails

/-- The observation of one session lists what a scan of the whole root lists of it, and fails on
its companions exactly when that scan does. -/
theorem observe_agrees (parse : List UInt8 → Except String SessionMetadata)
    (utf8Error : List UInt8 → String) (r : Scene) (host : Host) (root : Text) {name : Text}
    (hacc : Accepted name) (h : ∀ items, r.dir = .ok items → Directory host items name) :
    (observeSessionStrictIn host (r.answers parse utf8Error) root name).entries =
        (listSessionsStrictIn host (r.answers parse utf8Error) root).entries.filter
          (·.name = name) ∧
      (FailsOn host root name (observeSessionStrictIn host (r.answers parse utf8Error) root name) ↔
        FailsOn host root name (listSessionsStrictIn host (r.answers parse utf8Error) root)) := by
  cases hd : r.dir with
  | ok items =>
    have hdir := h items hd
    refine ⟨entries_eq hdir hacc hd, ?_⟩
    rw [observeSessionStrictIn, listSessionsStrictIn, failsOn_iff hdir hacc hd,
      failsOn_iff hdir hacc hd, blamed_iff hdir hacc]
  | error e =>
    have hd' : (r.answers parse utf8Error).dir = .error e := hd
    unfold observeSessionStrictIn listSessionsStrictIn scanSessions
    rw [hd']
    exact ⟨rfl, Iff.rfl⟩

/-- A machine where a name is its own digest. -/
private def spelledHost : Host := { plainHost with sha256 := id }

/-- A directory with two records that are no JSON, and a socket. -/
private def brokenScene : Scene where
  dir := .ok [.entry "a.json".toList, .entry "b.json".toList, .entry "b.sock".toList]
  bytes _ := .ok []
  symlinkMetadata _ := .ok ()
  recordIdentity _ _ := .unknown
  probe _ _ := none

private theorem directory_brokenScene (items : List DirItem) (h : brokenScene.dir = .ok items) :
    Directory spelledHost items "b".toList := by
  cases h
  refine ⟨by simp, fun stem hs hb ↦ ?_⟩
  have ha : "a.json".toList = "a".toList ++ ".json".toList := by decide
  have hb' : "b.json".toList = "b".toList ++ ".json".toList := by decide
  have hsock : "b.sock".toList = "b".toList ++ ".sock".toList := by decide
  have hstem : stem = "a".toList ∨ stem = "b".toList := by
    simp only [List.mem_cons, List.not_mem_nil, or_false, DirItem.entry.injEq, ha, hb',
      hsock] at hs
    obtain (he | he | he) | (he | he | he) := hs
    · exact .inl (List.append_cancel_right he)
    · exact .inr (List.append_cancel_right he)
    · exact absurd he (ne_of_ends (by decide) (by decide))
    · exact absurd he (ne_of_ends (by decide) (by decide))
    · exact absurd he (ne_of_ends (by decide) (by decide))
    · exact absurd he (ne_of_ends (by decide) (by decide))
  obtain rfl | rfl := hstem
  · exact absurd hb (by decide)
  · rfl

/-- Among the records of two sessions. -/
theorem observe_agrees_broken :
    (observeSessionStrictIn spelledHost
          (brokenScene.answers (fun _ ↦ .error "EOF while parsing a value") fun _ ↦ "")
          "/r".toList "b".toList).entries =
        (listSessionsStrictIn spelledHost
          (brokenScene.answers (fun _ ↦ .error "EOF while parsing a value") fun _ ↦ "")
          "/r".toList).entries.filter (·.name = "b".toList) ∧
      (FailsOn spelledHost "/r".toList "b".toList
          (observeSessionStrictIn spelledHost
            (brokenScene.answers (fun _ ↦ .error "EOF while parsing a value") fun _ ↦ "")
            "/r".toList "b".toList) ↔
        FailsOn spelledHost "/r".toList "b".toList
          (listSessionsStrictIn spelledHost
            (brokenScene.answers (fun _ ↦ .error "EOF while parsing a value") fun _ ↦ "")
            "/r".toList)) :=
  observe_agrees _ _ brokenScene spelledHost "/r".toList (by decide) directory_brokenScene

end PtySpec.Listing
