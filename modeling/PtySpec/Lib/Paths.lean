import Mathlib.Data.List.Basic
import Mathlib.Data.List.DropRight

/-!
# Paths as texts

The lexical view of a Unix path: the components that its text is read as, a component put at
the end of a text, and the last one taken away. Texts are bytes; nothing here asks a file system.
-/

namespace PtySpec.Lib.Paths

/-- The bytes of a path. -/
abbrev Text := List UInt8

/-- The separator. -/
def SLASH : UInt8 := 0x2f

/-- The byte of `.` and `..`. -/
def DOT : UInt8 := 0x2e

/-- What a path is read as, part by part. -/
inductive Component where
  | rootDir
  | curDir
  | parentDir
  | normal (name : Text)
  deriving DecidableEq, Repr

namespace Component

/-- The text of a component. -/
def asOsStr : Component → Text
  | rootDir => [SLASH]
  | curDir => [DOT]
  | parentDir => [DOT, DOT]
  | normal name => name

/-- A component that names an entry of a directory. -/
def isNormal : Component → Bool
  | normal _ => true
  | _ => false

end Component

/-- What stands between two separators: nothing for an empty text and for `.`. -/
def parseSegment (s : Text) : Option Component :=
  if s = [] ∨ s = [DOT] then none
  else if s = [DOT, DOT] then some .parentDir
  else some (.normal s)

/-- A path that starts at the root. -/
def isAbsolute (p : Text) : Bool := p.head? == some SLASH

/-- A relative path whose first segment is `.`. -/
def includesCurDir (p : Text) : Bool := (p.splitOn SLASH).head? == some [DOT]

/-- The components of a path: a `.` counts only where a relative path starts with it. -/
def components (p : Text) : List Component :=
  (if isAbsolute p then [.rootDir] else if includesCurDir p then [.curDir] else []) ++
    (p.splitOn SLASH).filterMap parseSegment

/-- A path put at the end of another: an absolute one takes its place. -/
def push (buf path : Text) : Text :=
  if isAbsolute path then path
  else if buf ≠ [] ∧ buf.getLast? ≠ some SLASH then buf ++ SLASH :: path
  else buf ++ path

/-- The text of the components of a path that stand before its body. -/
def start (p : Text) : Text :=
  if isAbsolute p then [SLASH] else if includesCurDir p then [DOT] else []

/-- The segments of a body without those at its end that are no component. -/
def trimRight (segments : List Text) : List Text :=
  segments.rdropWhile fun s ↦ parseSegment s == none

/-- A path without its last component; the root has none to lose. -/
def parent (p : Text) : Option Text :=
  let segments := trimRight ((p.drop (start p).length).splitOn SLASH)
  if segments = [] then if includesCurDir p then some [] else none
  else some (start p ++ [SLASH].intercalate (trimRight segments.dropLast))

/-- The last component taken away, if there is one. -/
def pop (buf : Text) : Text := (parent buf).getD buf

/-- The path of some components. -/
def collect (parts : List Component) : Text := parts.foldl (fun buf c ↦ push buf c.asOsStr) []

/-! ### Absolute paths in pieces -/

/-- A component that can stand after the root. -/
def Component.Inner : Component → Prop
  | rootDir | curDir => False
  | parentDir => True
  | normal name => SLASH ∉ name ∧ name ≠ [] ∧ name ≠ [DOT] ∧ name ≠ [DOT, DOT]

/-- The absolute path of some components. -/
def absolute (parts : List Component) : Text :=
  SLASH :: [SLASH].intercalate (parts.map Component.asOsStr)

@[simp] theorem isAbsolute_absolute (parts : List Component) :
    isAbsolute (absolute parts) = true := by simp [isAbsolute, absolute]

theorem Component.Inner.parse {c : Component} (h : c.Inner) :
    parseSegment c.asOsStr = some c := by
  cases c with
  | rootDir => exact h.elim
  | curDir => exact h.elim
  | parentDir => rfl
  | normal name => simp [parseSegment, asOsStr, h.2.1, h.2.2.1, h.2.2.2]

theorem Component.Inner.slash_notMem {c : Component} (h : c.Inner) : SLASH ∉ c.asOsStr := by
  cases c with
  | rootDir => exact h.elim
  | curDir => exact h.elim
  | parentDir => decide
  | normal name => exact h.1

private theorem inner_parse {s : Text} {c : Component} (hs : SLASH ∉ s)
    (h : parseSegment s = some c) : c.Inner := by
  unfold parseSegment at h
  split at h
  · cases h
  · next hblank =>
    push Not at hblank
    split at h
    · cases h
      trivial
    · next hparent =>
      cases h
      exact ⟨hs, hblank.1, hblank.2, hparent⟩

private theorem slash_notMem_segment (p : Text) : ∀ s ∈ p.splitOn SLASH, SLASH ∉ s := by
  induction p with
  | nil => simp
  | cons c p ih =>
    intro s hs
    rw [List.splitOn_cons_eq_if_modifyHead] at hs
    split at hs
    · obtain rfl | hs := List.mem_cons.1 hs
      · simp
      · exact ih s hs
    · next hc =>
      obtain ⟨x, xs, hx⟩ := List.exists_cons_of_ne_nil (List.splitOn_ne_nil SLASH p)
      rw [hx] at hs ih
      obtain rfl | hs := List.mem_cons.1 hs
      · have hne : SLASH ≠ c := fun he ↦ hc (by simp [he])
        simpa [hne] using ih x (by simp)
      · exact ih s (by simp [hs])

/-- What an absolute path is read as after its root. -/
theorem components_of_isAbsolute {p : Text} (h : isAbsolute p = true) :
    ∃ parts, components p = .rootDir :: parts ∧ ∀ c ∈ parts, c.Inner := by
  refine ⟨(p.splitOn SLASH).filterMap parseSegment, by simp [components, h], fun c hc ↦ ?_⟩
  obtain ⟨s, hs, hparse⟩ := List.mem_filterMap.1 hc
  exact inner_parse (slash_notMem_segment p s hs) hparse

variable {parts : List Component}

private theorem splitOn_body (h : ∀ c ∈ parts, c.Inner) (hne : parts ≠ []) :
    ([SLASH].intercalate (parts.map Component.asOsStr)).splitOn SLASH =
      parts.map Component.asOsStr := by
  refine List.splitOn_intercalate SLASH ?_ (by simpa using hne)
  intro s hs
  obtain ⟨c, hc, rfl⟩ := List.mem_map.1 hs
  exact (h c hc).slash_notMem

/-- An absolute path has the segments of its components. -/
theorem splitOn_absolute (h : ∀ c ∈ parts, c.Inner) (hne : parts ≠ []) :
    (absolute parts).splitOn SLASH = [] :: parts.map Component.asOsStr := by
  rw [absolute, List.splitOn_cons_eq_if_modifyHead, splitOn_body h hne]
  simp

theorem components_absolute (h : ∀ c ∈ parts, c.Inner) :
    components (absolute parts) = .rootDir :: parts := by
  by_cases hne : parts = []
  · subst hne
    decide
  · have hparts : (parts.map Component.asOsStr).filterMap parseSegment = parts := by
      rw [List.filterMap_map]
      calc parts.filterMap (parseSegment ∘ Component.asOsStr) = parts.filterMap some :=
            List.filterMap_congr fun c hc ↦ (h c hc).parse
        _ = parts := List.filterMap_some
    have hempty : parseSegment [] = none := rfl
    rw [components, isAbsolute_absolute, splitOn_absolute h hne, List.filterMap_cons_none hempty,
      hparts]
    rfl

/-- The segments of the text are those of `..` and of names. -/
theorem mem_splitOn_absolute (h : ∀ c ∈ parts, c.Inner) {s : Text}
    (hs : s ∈ (absolute parts).splitOn SLASH) : s = [] ∨ ∃ c ∈ parts, s = c.asOsStr := by
  by_cases hne : parts = []
  · subst hne
    left
    revert hs
    simp [absolute, List.splitOn_cons_eq_if_modifyHead]
  · rw [splitOn_absolute h hne] at hs
    obtain rfl | hs := List.mem_cons.1 hs
    · exact .inl rfl
    · obtain ⟨c, hc, rfl⟩ := List.mem_map.1 hs
      exact .inr ⟨c, hc, rfl⟩

private theorem intercalate_concat (xs : List Text) (x : Text) (hne : xs ≠ []) :
    [SLASH].intercalate (xs ++ [x]) = [SLASH].intercalate xs ++ SLASH :: x := by
  induction xs with
  | nil => exact absurd rfl hne
  | cons y ys ih =>
    by_cases hys : ys = []
    · simp [hys]
    · rw [List.cons_append, List.intercalate_cons_of_ne_nil (by simp), ih hys,
        List.intercalate_cons_of_ne_nil hys]
      simp

private theorem absolute_concat (parts : List Component) (c : Component) :
    absolute (parts ++ [c]) =
      (if parts = [] then absolute [] else absolute parts ++ [SLASH]) ++ c.asOsStr := by
  by_cases hne : parts = []
  · subst hne
    simp [absolute]
  · have hmap : parts.map Component.asOsStr ≠ [] := by simpa using hne
    simp [absolute, hne, intercalate_concat _ _ hmap]

private theorem Component.Inner.asOsStr_ne_nil {c : Component} (h : c.Inner) :
    c.asOsStr ≠ [] := by
  intro hnil
  have hparse := h.parse
  rw [hnil] at hparse
  cases hparse

private theorem getLast?_absolute (h : ∀ c ∈ parts, c.Inner) (hne : parts ≠ []) :
    (absolute parts).getLast? ≠ some SLASH := by
  obtain ⟨front, c, rfl⟩ := (List.eq_nil_or_concat' parts).resolve_left hne
  have hc := h c (by simp)
  intro hlast
  rw [absolute_concat, List.getLast?_append_of_ne_nil _ hc.asOsStr_ne_nil] at hlast
  exact hc.slash_notMem (List.mem_of_getLast? hlast)

/-- A component put at the end of the path of others. -/
theorem push_absolute (h : ∀ c ∈ parts, c.Inner) {c : Component} (hc : c.Inner) :
    push (absolute parts) c.asOsStr = absolute (parts ++ [c]) := by
  have hrel : ¬isAbsolute c.asOsStr = true := by
    intro habs
    exact hc.slash_notMem (List.mem_of_mem_head? (by simpa [isAbsolute] using habs))
  rw [push, if_neg hrel, absolute_concat]
  by_cases hne : parts = []
  · subst hne
    rfl
  · rw [if_pos ⟨by simp [absolute], getLast?_absolute h hne⟩, if_neg hne]
    simp

private theorem trimRight_map (h : ∀ c ∈ parts, c.Inner) :
    trimRight (parts.map Component.asOsStr) = parts.map Component.asOsStr := by
  refine List.rdropWhile_eq_self_iff.2 fun hne hblank ↦ ?_
  obtain ⟨c, hc, hlast⟩ := List.mem_map.1 (List.getLast_mem hne)
  rw [← hlast, (h c hc).parse] at hblank
  cases hblank

/-- The last component taken away. -/
theorem pop_absolute_concat (h : ∀ c ∈ parts, c.Inner) {c : Component} (hc : c.Inner) :
    pop (absolute (parts ++ [c])) = absolute parts := by
  have hinner : ∀ d ∈ parts ++ [c], d.Inner := by
    intro d hd
    obtain hd | hd := List.mem_append.1 hd
    · exact h d hd
    · exact List.mem_singleton.1 hd ▸ hc
  have hstart : start (absolute (parts ++ [c])) = [SLASH] := by
    rw [start, if_pos (isAbsolute_absolute _)]
  have hbody : (absolute (parts ++ [c])).drop [SLASH].length =
      [SLASH].intercalate ((parts ++ [c]).map Component.asOsStr) := rfl
  have hne : (parts ++ [c]).map Component.asOsStr ≠ [] := by simp
  have hfront : ((parts ++ [c]).map Component.asOsStr).dropLast =
      parts.map Component.asOsStr := by simp
  have hparent : parent (absolute (parts ++ [c])) = some (absolute parts) := by
    simp only [parent, hstart, hbody, splitOn_body hinner (by simp), trimRight_map hinner,
      if_neg hne, hfront, trimRight_map h]
    rfl
  rw [pop, hparent, Option.getD_some]

/-- The root stays. -/
@[simp] theorem pop_root : pop (absolute []) = absolute [] := by
  decide

end PtySpec.Lib.Paths
