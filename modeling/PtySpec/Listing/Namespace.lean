import PtySpec.Listing.Scan

/-!
# The namespace of a registry

A directory that holds the files of published sessions, temporary files and files that the
scan does not look at is listed as these sessions, each under its own name, but for the names
that read as those of temporary files.
-/

namespace PtySpec.Listing

open Lib
open Registry (Text Host join Accepted Apart Companion socketFile readableSocket boundedSocket
  companions_ne_iff)

/-! ### What the scan finds -/

theorem stripSuffix_eq_some {file suffix stem : Text} :
    stripSuffix file suffix = some stem ↔ file = stem ++ suffix := by
  unfold stripSuffix
  constructor
  · intro h
    split at h
    · next hs =>
      obtain ⟨t, rfl⟩ := hs
      rw [List.length_append, Nat.add_sub_cancel, List.take_left] at h
      rw [Option.some_inj.mp h]
    · cases h
  · rintro rfl
    rw [if_pos (List.suffix_append _ _), List.length_append, Nat.add_sub_cancel, List.take_left]

theorem mem_scanEntries {host : Host} {root file : Text} {only : Option Text}
    {items : List DirItem} :
    file ∈ scanEntries host root only items ↔
      .entry file ∈ items ∧ isTmpName file = false ∧ concerns host root only file = true ∧
        isReserved file = false := by
  have hk : (∃ item ∈ items, item.kept = some file) ↔
      .entry file ∈ items ∧ isTmpName file = false := by
    constructor
    · rintro ⟨item, hi, hf⟩
      cases item with
      | entry f =>
        obtain ⟨ht, rfl⟩ : isTmpName f = false ∧ f = file := by simpa [DirItem.kept] using hf
        exact ⟨hi, ht⟩
      | notUtf8 => cases hf
      | failed => cases hf
    · rintro ⟨hi, ht⟩
      exact ⟨_, hi, by simp [DirItem.kept, ht]⟩
  rw [scanEntries, concerned, List.mem_insertionSort, List.mem_filter, List.mem_filter,
    List.mem_filterMap, hk, Bool.not_eq_true']
  tauto

theorem companionStem_eq_some {file stem : Text} (h : companionStem file = some stem) :
    file = stem ++ ".json".toList ∨ file = stem ++ ".pid".toList := by
  unfold companionStem at h
  cases hj : stripSuffix file ".json".toList with
  | some s =>
    rw [hj] at h
    cases h
    exact .inl (stripSuffix_eq_some.mp hj)
  | none =>
    rw [hj] at h
    exact .inr (stripSuffix_eq_some.mp h)

theorem companionStem_of_recordStem {strict : Bool} {file stem : Text}
    (h : recordStem strict file = some stem) : companionStem file = some stem := by
  unfold recordStem at h
  unfold companionStem
  cases hj : stripSuffix file ".json".toList with
  | some s =>
    rw [hj] at h
    exact h
  | none =>
    rw [hj] at h
    cases strict with
    | true => exact h
    | false => cases h

theorem canonicalSocket_eq_ok {host : Host} {root entry name n : Text}
    (h : canonicalSocket host root entry name = .ok n) :
    n = name ∧ socketFile host root name = entry := by
  unfold canonicalSocket at h
  split at h
  · next hs =>
    cases h
    exact ⟨rfl, hs⟩
  · cases h

/-- A socket has the name of a companion in the directory, or the one that it spells. -/
theorem mem_socketIds {host : Host} {root name : Text} {entries : List Text}
    (h : name ∈ socketIds host root entries) :
    ∃ entry ∈ entries, socketFile host root name = entry ∧
      ((∃ file ∈ entries, companionStem file = some name) ∨
        entry = name ++ ".sock".toList ∧ name.head? ≠ some '@') := by
  obtain ⟨result, hr, hn⟩ := List.mem_filterMap.mp h
  obtain ⟨entry, he, hs⟩ := List.mem_filterMap.mp hr
  cases result with
  | error e => cases hn
  | ok n =>
    cases hn
    unfold socketName at hs
    obtain ⟨stem, hstem, hs⟩ := Option.map_eq_some_iff.mp hs
    refine ⟨entry, he, ?_⟩
    split at hs
    · next m hg =>
      obtain ⟨rfl, hf⟩ := canonicalSocket_eq_ok hs
      refine ⟨hf, .inl ?_⟩
      obtain hm | hm := IndexMap.mem_insertAll (IndexMap.mem_of_get hg)
      · cases hm
      · obtain ⟨k, hk, hp⟩ := List.mem_map.mp hm
        obtain ⟨file, hfile, hfs⟩ := List.mem_filterMap.mp hk
        cases hp
        exact ⟨file, hfile, hfs⟩
    · split at hs
      · cases hs
      · next hat =>
        obtain ⟨rfl, hf⟩ := canonicalSocket_eq_ok hs
        exact ⟨hf, .inr ⟨stripSuffix_eq_some.mp hstem, hat⟩⟩

theorem mem_scanNames {host : Host} {root name : Text} {strict : Bool} {entries : List Text} :
    name ∈ scanNames host root strict entries ↔
      (∃ file ∈ entries, recordStem strict file = some name) ∨
        name ∈ socketIds host root entries := by
  rw [scanNames, List.mem_insertionSort, List.mem_dedup, List.mem_append, List.mem_filterMap]

theorem nodup_scanNames (host : Host) (root : Text) (strict : Bool) (entries : List Text) :
    (scanNames host root strict entries).Nodup :=
  (List.perm_insertionSort _ _).nodup_iff.mpr (List.nodup_dedup _)

theorem name_of_visit {host : Host} {answers : Answers} {strict : Bool} {root name : Text}
    {entries : List Text} {s : SessionInfo}
    (h : (visit host answers strict root entries name).session = some s) : s.name = name := by
  unfold visit at h
  dsimp only at h
  split at h
  · split at h <;> cases h
  · cases h
    rfl

/-- A name with a record is listed, with it. -/
theorem visit_of_metadata (host : Host) (answers : Answers) (strict : Bool) (root name : Text)
    (entries : List Text)
    (h : ∀ observed, (answers.metadata (join root (name ++ ".json".toList)) observed).1.isSome) :
    ∃ s, (visit host answers strict root entries name).session = some s ∧ s.name = name ∧
      ∃ observed,
        s.metadata = (answers.metadata (join root (name ++ ".json".toList)) observed).1 := by
  have hm := h (entries.contains (name ++ ".json".toList))
  unfold visit
  dsimp only
  rw [if_neg]
  · exact ⟨_, rfl, rfl, _, rfl⟩
  · rw [Option.isNone_eq_false_iff.mpr hm, Bool.false_and]
    exact Bool.false_ne_true

/-- Whether a file that ends in a suffix reads as temporary is decided before the suffix. -/
private theorem isTmpName_append (n : Text) {t : Text} (ht : '.' ∉ t) :
    isTmpName (n ++ '.' :: t) = isTmpName (n ++ ['.']) := by
  have hsplit : ".tmp.".toList = ".tmp".toList ++ ['.'] := by decide
  unfold isTmpName
  rw [decide_eq_decide, hsplit]
  constructor
  · rintro ⟨x, y, h⟩
    rw [List.append_cons n, ← List.append_assoc x] at h
    obtain ⟨z, hz, -⟩ | ⟨z, hz, hy⟩ := List.append_eq_append_iff.mp h
    · exact ⟨x, z, by simp [hz]⟩
    · obtain rfl | ⟨init, c, rfl⟩ := List.eq_nil_or_concat' z
      · exact ⟨x, [], by simpa using hz⟩
      · rw [← List.append_assoc] at hz
        have hc := (List.append_inj' hz rfl).2
        cases hc
        exact absurd (by simp [hy]) ht
  · rintro ⟨x, y, h⟩
    exact ⟨x, y ++ t, by rw [List.append_cons n, ← h]; simp⟩

/-- The scan finds no name whose record reads as a temporary file. -/
theorem isTmpName_of_mem_scanNames {host : Host} {root n : Text} {strict : Bool}
    {only : Option Text} {items : List DirItem}
    (h : n ∈ scanNames host root strict (scanEntries host root only items)) :
    isTmpName (n ++ ".json".toList) = false := by
  have hsplit : ∀ e : Text, '.' ∉ e →
      isTmpName (n ++ '.' :: e) = isTmpName (n ++ ".json".toList) := by
    intro e he
    rw [isTmpName_append n he]
    exact (isTmpName_append n (t := "json".toList) (by decide)).symm
  have htmp : ∀ file ∈ scanEntries host root only items, isTmpName file = false :=
    fun file hf ↦ (mem_scanEntries.mp hf).2.1
  have hstem : ∀ file ∈ scanEntries host root only items, companionStem file = some n →
      isTmpName (n ++ ".json".toList) = false := by
    intro file hf hs
    obtain rfl | rfl := companionStem_eq_some hs
    · exact htmp _ hf
    · exact hsplit "pid".toList (by decide) ▸ htmp _ hf
  obtain ⟨file, hf, hs⟩ | hs := mem_scanNames.mp h
  · exact hstem file hf (companionStem_of_recordStem hs)
  · obtain ⟨entry, he, -, ⟨file, hf, hs⟩ | ⟨rfl, -⟩⟩ := mem_socketIds hs
    · exact hstem file hf hs
    · exact hsplit "sock".toList (by decide) ▸ htmp _ he

/-- The scan finds the name of a record that does not read as a temporary file. -/
theorem mem_scanNames_of_record {host : Host} {root n : Text} {strict : Bool}
    {only : Option Text} {items : List DirItem} (hacc : Accepted n)
    (hn : .entry (n ++ ".json".toList) ∈ items) (ht : isTmpName (n ++ ".json".toList) = false)
    (hOnly : only = none ∨ only = some n) :
    n ∈ scanNames host root strict (scanEntries host root only items) := by
  refine mem_scanNames.mpr (.inl ⟨_, mem_scanEntries.mpr ⟨hn, ht, ?_, ?_⟩, ?_⟩)
  · obtain rfl | rfl := hOnly
    · rfl
    · simp [concerns, companions]
  · have hat : (n ++ ".json".toList).head? ≠ some '@' := by
      rw [List.head?_append_of_ne_nil _ hacc.ne_nil]
      exact fun hh ↦ Companion.not_mem_name hacc (by decide) (List.mem_of_head? hh)
    rw [isReserved, decide_eq_false hat, Bool.false_and]
  · rw [recordStem, stripSuffix_eq_some.mpr rfl]
    rfl

/-- A session of the scan is one of its names. -/
theorem name_mem_scanNames {host : Host} {answers : Answers} {root : Text} {strict : Bool}
    {only : Option Text} {items : List DirItem} (hd : answers.dir = .ok items) {s : SessionInfo}
    (hs : s ∈ (scanSessions host answers strict root only).entries) :
    s.name ∈ scanNames host root strict (scanEntries host root only items) := by
  unfold scanSessions at hs
  rw [hd] at hs
  obtain ⟨v, hv, hvs⟩ := List.mem_filterMap.mp hs
  obtain ⟨name, hname, rfl⟩ := List.mem_map.mp hv
  rw [name_of_visit hvs]
  exact hname

/-- A record is listed under its name exactly when it does not read as a temporary file. -/
theorem listed_iff {host : Host} {answers : Answers} {root n : Text} {strict : Bool}
    {only : Option Text} {items : List DirItem} {m : Metadata.SessionMetadata}
    (hd : answers.dir = .ok items) (hacc : Accepted n)
    (hn : .entry (n ++ ".json".toList) ∈ items)
    (hm : ∀ observed, (answers.metadata (join root (n ++ ".json".toList)) observed).1 = some m)
    (hOnly : only = none ∨ only = some n) :
    (∃ s ∈ (scanSessions host answers strict root only).entries,
        s.name = n ∧ s.metadata = some m) ↔
      isTmpName (n ++ ".json".toList) = false := by
  constructor
  · rintro ⟨s, hs, rfl, -⟩
    exact isTmpName_of_mem_scanNames (name_mem_scanNames hd hs)
  · intro ht
    obtain ⟨s, hs, hname, observed, hmeta⟩ := visit_of_metadata host answers strict root n
      (scanEntries host root only items) fun o ↦ by rw [hm o]; rfl
    refine ⟨s, ?_, hname, hmeta.trans (hm observed)⟩
    unfold scanSessions
    rw [hd]
    exact List.mem_filterMap.mpr
      ⟨_, List.mem_map_of_mem (mem_scanNames_of_record hacc hn ht hOnly), hs⟩

/-! ### Published sessions -/

/-- The names under which the files of a session are in the directory. -/
def sessionFiles (host : Host) (name : Text) : List Text :=
  [readableSocket name, boundedSocket host name, name ++ ".pid".toList, name ++ ".json".toList,
    name ++ ".events.jsonl".toList, name ++ ".lock".toList, name ++ ".events.lock".toList]

/-- A file that the scan does not look at. -/
def IsPlain (file : Text) : Prop :=
  ¬".json".toList <:+ file ∧ ¬".pid".toList <:+ file ∧ ¬".sock".toList <:+ file

/-- A directory of published sessions: each has its record, and what else is there is theirs,
temporary, or of no interest. -/
structure Published (host : Host) (answers : Answers) (root : Text) (items : List DirItem)
    (P : Text → Prop) : Prop where
  dir : answers.dir = .ok items
  accepted : ∀ n, P n → Accepted n
  record : ∀ n, P n → .entry (n ++ ".json".toList) ∈ items ∧
    ∀ observed, (answers.metadata (join root (n ++ ".json".toList)) observed).1.isSome
  files : ∀ file, .entry file ∈ items →
    isTmpName file = true ∨ IsPlain file ∨ ∃ n, P n ∧ file ∈ sessionFiles host n

/-- The names that a scan reports. -/
def reported (host : Host) (answers : Answers) (strict : Bool) (root : Text)
    (only : Option Text) : List Text :=
  (scanSessions host answers strict root only).entries.map (·.name)

private theorem ne_of_suffix {a b s t : Text} (hs : ¬s <:+ t) (ht : ¬t <:+ s) :
    a ++ s ≠ b ++ t :=
  fun h ↦ (Companion.suffix_related h).elim hs ht

/-- The record and the PID file of a session are named by it alone. -/
private theorem stem_eq {host : Host} {p s suffix : Text}
    (hs : suffix = ".json".toList ∨ suffix = ".pid".toList)
    (h : s ++ suffix ∈ sessionFiles host p) : s = p := by
  simp only [sessionFiles, readableSocket, boundedSocket, List.mem_cons, List.not_mem_nil,
    or_false] at h
  obtain rfl | rfl := hs
  · obtain h | h | h | h | h | h | h := h
    · exact absurd h (ne_of_suffix (by decide) (by decide))
    · exact absurd h (ne_of_suffix (by decide) (by decide))
    · exact absurd h (ne_of_suffix (by decide) (by decide))
    · exact List.append_cancel_right h
    · exact absurd h (ne_of_suffix (by decide) (by decide))
    · exact absurd h (ne_of_suffix (by decide) (by decide))
    · exact absurd h (ne_of_suffix (by decide) (by decide))
  · obtain h | h | h | h | h | h | h := h
    · exact absurd h (ne_of_suffix (by decide) (by decide))
    · exact absurd h (ne_of_suffix (by decide) (by decide))
    · exact List.append_cancel_right h
    · exact absurd h (ne_of_suffix (by decide) (by decide))
    · exact absurd h (ne_of_suffix (by decide) (by decide))
    · exact absurd h (ne_of_suffix (by decide) (by decide))
    · exact absurd h (ne_of_suffix (by decide) (by decide))

/-- A socket of a session has its name, or begins with the sign of a digest. -/
private theorem socket_stem_eq {host : Host} {p s : Text}
    (h : s ++ ".sock".toList ∈ sessionFiles host p) (hs : s.head? ≠ some '@') : s = p := by
  simp only [sessionFiles, readableSocket, boundedSocket, List.mem_cons, List.not_mem_nil,
    or_false] at h
  obtain h | h | h | h | h | h | h := h
  · exact List.append_cancel_right h
  · rw [List.append_cancel_right h] at hs
    exact absurd rfl hs
  · exact absurd h (ne_of_suffix (by decide) (by decide))
  · exact absurd h (ne_of_suffix (by decide) (by decide))
  · exact absurd h (ne_of_suffix (by decide) (by decide))
  · exact absurd h (ne_of_suffix (by decide) (by decide))
  · exact absurd h (ne_of_suffix (by decide) (by decide))

section Published

variable {host : Host} {answers : Answers} {root : Text} {items : List DirItem} {P : Text → Prop}
  (h : Published host answers root items P) {strict : Bool} {only : Option Text}
include h

private theorem published_of_companionStem {file name : Text}
    (hf : file ∈ scanEntries host root only items) (hs : companionStem file = some name) :
    P name := by
  obtain ⟨hi, ht, -, -⟩ := mem_scanEntries.mp hf
  have hstem := companionStem_eq_some hs
  obtain hf | ⟨hj, hp, -⟩ | ⟨n, hn, hm⟩ := h.files file hi
  · rw [ht] at hf
    cases hf
  · obtain rfl | rfl := hstem
    · exact absurd (List.suffix_append _ _) hj
    · exact absurd (List.suffix_append _ _) hp
  · obtain rfl | rfl := hstem
    · rwa [stem_eq (.inl rfl) hm]
    · rwa [stem_eq (.inr rfl) hm]

/-- Every name of the scan is one of the sessions'. -/
private theorem published_of_mem_scanNames {name : Text}
    (hn : name ∈ scanNames host root strict (scanEntries host root only items)) : P name := by
  obtain ⟨file, hf, hs⟩ | hs := mem_scanNames.mp hn
  · exact published_of_companionStem h hf (companionStem_of_recordStem hs)
  · obtain ⟨entry, he, -, ⟨file, hf, hs⟩ | ⟨rfl, hat⟩⟩ := mem_socketIds hs
    · exact published_of_companionStem h hf hs
    · obtain ⟨hi, ht, -, -⟩ := mem_scanEntries.mp he
      obtain hf | ⟨-, -, hk⟩ | ⟨n, hn, hm⟩ := h.files _ hi
      · rw [ht] at hf
        cases hf
      · exact absurd (List.suffix_append _ _) hk
      · rwa [socket_stem_eq hm hat]

/-- Every name of the scan is listed. -/
private theorem reported_eq :
    reported host answers strict root only =
      scanNames host root strict (scanEntries host root only items) := by
  have hall : ∀ names : List Text, (∀ x ∈ names, P x) →
      ((names.map (visit host answers strict root (scanEntries host root only items))).filterMap
        (·.session)).map (·.name) = names := by
    intro names hP
    induction names with
    | nil => rfl
    | cons x names ih =>
      obtain ⟨s, hs, hname, -⟩ := visit_of_metadata host answers strict root x
        (scanEntries host root only items) (h.record x (hP x List.mem_cons_self)).2
      rw [List.map_cons, List.filterMap_cons_some hs, List.map_cons, hname,
        ih fun y hy ↦ hP y (List.mem_cons_of_mem _ hy)]
  unfold reported scanSessions scanItems
  rw [h.dir]
  exact hall _ fun x hx ↦ published_of_mem_scanNames h hx

/-- A session is reported when its record does not read as a temporary file. -/
private theorem mem_reported_iff {n : Text} (hn : P n) (hOnly : only = none ∨ only = some n) :
    n ∈ reported host answers strict root only ↔ isTmpName (n ++ ".json".toList) = false := by
  rw [reported_eq h]
  exact ⟨isTmpName_of_mem_scanNames,
    fun ht ↦ mem_scanNames_of_record (h.accepted n hn) (h.record n hn).1 ht hOnly⟩

end Published

/-- The scan reports a session under its own name, once, and reports no other name than those
of sessions. -/
def ReportedAs (P : Text → Prop) (names : List Text) (n : Text) : Prop :=
  n ∈ names ∧ names.Nodup ∧ ∀ x ∈ names, P x

/-- A published session shares no file with another name and is reported under its own,
exactly when the two names are apart and its record does not read as a temporary file. -/
theorem namespace_iff {host : Host} {answers : Answers} {root : Text} {items : List DirItem}
    {P : Text → Prop} (h : Published host answers root items P) (strict : Bool)
    {only : Option Text} {m n : Text} (hm : Accepted m) (hn : P n) (hne : m ≠ n)
    (hOnly : only = none ∨ only = some n) :
    ((∀ c d : Companion, c.path host root m ≠ d.path host root n) ∧
        ReportedAs P (reported host answers strict root only) n) ↔
      Apart host root m n ∧ isTmpName (n ++ ".json".toList) = false := by
  rw [companions_ne_iff host root hm (h.accepted n hn) hne, ← mem_reported_iff h hn hOnly]
  have hnodup : (reported host answers strict root only).Nodup := by
    rw [reported_eq h]
    exact nodup_scanNames _ _ _ _
  have hall : ∀ x ∈ reported host answers strict root only, P x := by
    rw [reported_eq h]
    exact fun x hx ↦ published_of_mem_scanNames h hx
  exact ⟨fun hr ↦ ⟨hr.1, hr.2.1⟩, fun hr ↦ ⟨hr.1, hr.2, hnodup, hall⟩⟩

/-- A machine without sockets. -/
def plainHost : Host where
  sha256 := fun _ ↦ List.replicate 32 0
  sunPathMax := 107
  isSocket := fun _ ↦ false
  realRoots := []

/-- What a directory with one readable record answers. -/
def oneRecord (name : Text) : Answers where
  dir := .ok [.entry (name ++ ".json".toList)]
  metadata _ _ := (Metadata.SessionMetadata.fromMap [], [])
  pid _ _ := (none, [])
  recordIdentity _ _ := .unknown
  absent _ := true
  probe _ _ := none

private theorem published_oneRecord {host : Host} {root name : Text} (h : Accepted name) :
    Published host (oneRecord name) root [.entry (name ++ ".json".toList)] (· = name) where
  dir := rfl
  accepted := by
    rintro _ rfl
    exact h
  record := by
    rintro _ rfl
    exact ⟨List.mem_singleton_self _, fun _ ↦ rfl⟩
  files := by
    intro file hf
    cases List.mem_singleton.mp hf
    exact .inr (.inr ⟨name, rfl, by simp [sessionFiles]⟩)

/-- Two sessions that share nothing. -/
theorem namespace_iff_ab :
    ((∀ c d : Companion,
          c.path plainHost "/r".toList "a".toList ≠ d.path plainHost "/r".toList "b".toList) ∧
        ReportedAs (· = "b".toList)
          (reported plainHost (oneRecord "b".toList) false "/r".toList none) "b".toList) ↔
      Apart plainHost "/r".toList "a".toList "b".toList ∧
        isTmpName ("b".toList ++ ".json".toList) = false :=
  namespace_iff (published_oneRecord (by decide)) false (by decide) rfl (by decide) (.inl rfl)

/-- The event lock of one session is the creation lock of another, and a session with a
readable record is not listed. -/
theorem names_collide :
    (Accepted "a".toList ∧ Accepted "a.events".toList ∧ "a".toList ≠ "a.events".toList ∧
        Companion.eventLock.path plainHost "/r".toList "a".toList =
          Companion.lock.path plainHost "/r".toList "a.events".toList) ∧
      Accepted "a.tmp".toList ∧
        reported plainHost (oneRecord "a.tmp".toList) false "/r".toList none = [] := by
  refine ⟨⟨by decide, by decide, by decide, by decide⟩, by decide, by decide⟩

end PtySpec.Listing
