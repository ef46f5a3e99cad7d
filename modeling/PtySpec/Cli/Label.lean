import PtySpec.Lib.Words
import PtySpec.Metadata.Patch
import PtySpec.Registry.Names

/-!
# Automatic display names

Model of the two builders of the label that a session gets without `--name`,
`crates/pty/src/cli/run.rs:386-443` and `crates/pty-core/src/registry/names.rs:137-186`. Both are
written after one function; a path is its text.
-/

namespace PtySpec.Registry

open Lib

/-- `str::rfind` of a character, as a count of characters. -/
def rfind (c : Char) (t : Text) : Option Nat :=
  (t.reverse.findIdx? (· = c)).map fun i ↦ t.length - 1 - i

/-- The character, or a dash for what a label does not hold. -/
def labelChar (c : Char) : Char := if isNameChar c then c else '-'

/-- `basename`, `names.rs:138`. -/
def basename (p : Text) : Text :=
  let trimmed := p.rdropWhile (· = '/')
  if trimmed = [] then [] else (trimmed.splitOn '/').getLast?.getD []

/-- `first_arg`, `names.rs:154`. -/
def firstArg (args : List Text) : Option Text :=
  args.find? fun a ↦ a.head? ≠ some '-' && utf16Len a < 30

/-- `arg_base`, `names.rs:159-165`. -/
def argBase (arg : Text) : Text :=
  let base := basename arg
  match rfind '.' base with
  | some i => if i + 1 < base.length then base.take i else base
  | none => base

/-- The command, with the base of an argument that is a clean name. -/
def cmdPart (cmdBase : Text) : Option Text → Text
  | some argBase =>
    if argBase ≠ [] ∧ argBase.all isNameChar then cmdBase ++ '-' :: argBase else cmdBase
  | none => cmdBase

/-- `sanitize_display_name`, `names.rs:176`. -/
def sanitizeDisplayName (candidate : Text) : Text :=
  trimSep '-' ((candidate.map labelChar).foldl (pushSep '-') [])

/-- `registry::auto_display_name`, `names.rs:151`. -/
def autoDisplayName (cwd cmd : Text) (args : List Text) : Text :=
  sanitizeDisplayName
    (basename cwd ++ '-' :: cmdPart (basename cmd) ((firstArg args).map argBase))

end PtySpec.Registry

namespace PtySpec.Cli

open Lib Registry
open Metadata (isControl isJsWhitespace jsTrim validateDisplayName)

/-- `Path::file_name`: the last component that is not `.`, if it is not `..`. -/
def fileName (path : Text) : Option Text :=
  (((path.splitOn '/').filter fun c ↦ c ≠ [] && c ≠ ['.']).getLast?).filter (· ≠ ['.', '.'])

/-- `base_name`, `run.rs:413`. -/
def baseName (path : Text) : Text := (fileName path).getD path

/-- `strip_extension`, `run.rs:421`. -/
def stripExtension (name : Text) : Text :=
  match rfind '.' name with
  | some i => if 0 < i && !(name.drop (i + 1)).contains '.' then name.take i else name
  | none => name

/-- `first_arg`, `run.rs:397-399`. -/
def firstArg (args : List Text) : Option Text :=
  args.find? fun a ↦ a.head? ≠ some '-' && a.length < 30

/-- `while out.contains("--")`, `run.rs:439`. -/
def collapse (out : Text) : Text :=
  if ['-', '-'] <:+: out then collapse (squeeze '-' out) else out
termination_by out.length
decreasing_by exact length_squeeze_lt '-' ‹_›

/-- `sanitize_label`, `run.rs:430`. -/
def sanitizeLabel (raw : Text) : Text := trimSep '-' (collapse (raw.map labelChar))

/-- `cli::run::auto_display_name`, `run.rs:390`. -/
def autoDisplayName (cwd cmd : Text) (args : List Text) : Text :=
  sanitizeLabel ((fileName cwd).getD [] ++
    '-' :: cmdPart (baseName cmd) ((firstArg args).map fun a ↦ stripExtension (baseName a)))

/-! ### Labels as words -/

/-- The words that a label takes from a name. -/
def nameWords (t : Text) : List Text := words '-' (t.map labelChar)

/-- The words that it takes from the base of an argument. -/
def argWords : Option Text → List Text
  | some argBase => if argBase ≠ [] ∧ argBase.all isNameChar then nameWords argBase else []
  | none => []

private theorem nameWords_dash (s t : Text) :
    nameWords (s ++ '-' :: t) = nameWords s ++ nameWords t := by
  rw [nameWords, List.map_append, List.map_cons]
  exact words_append_cons '-' _ _

private theorem nameWords_cmdPart (cmdBase : Text) (arg : Option Text) :
    nameWords (cmdPart cmdBase arg) = nameWords cmdBase ++ argWords arg := by
  unfold cmdPart argWords
  split
  · split
    · exact nameWords_dash _ _
    · exact (List.append_nil _).symm
  · exact (List.append_nil _).symm

private theorem sanitizeDisplayName_eq (t : Text) :
    sanitizeDisplayName t = ['-'].intercalate (nameWords t) := by
  rw [sanitizeDisplayName, trimSep_eq '-' (not_pair_foldl_pushSep '-' _ (by simp)),
    words_foldl_pushSep, List.nil_append]
  rfl

private theorem collapse_spec (t : Text) :
    words '-' (collapse t) = words '-' t ∧ ¬['-', '-'] <:+: collapse t := by
  fun_induction collapse t with
  | case1 t h ih => exact ⟨ih.1.trans (words_squeeze '-' t []), ih.2⟩
  | case2 t h => exact ⟨rfl, h⟩

private theorem sanitizeLabel_eq (t : Text) :
    sanitizeLabel t = ['-'].intercalate (nameWords t) := by
  obtain ⟨hwords, hpair⟩ := collapse_spec (t.map labelChar)
  rw [sanitizeLabel, trimSep_eq '-' hpair, hwords]
  rfl

theorem registry_autoDisplayName_eq (cwd cmd : Text) (args : List Text) :
    Registry.autoDisplayName cwd cmd args = ['-'].intercalate (nameWords (basename cwd) ++
      (nameWords (basename cmd) ++ argWords ((Registry.firstArg args).map argBase))) := by
  rw [Registry.autoDisplayName, sanitizeDisplayName_eq, nameWords_dash, nameWords_cmdPart]

theorem autoDisplayName_eq (cwd cmd : Text) (args : List Text) :
    autoDisplayName cwd cmd args = ['-'].intercalate (nameWords ((fileName cwd).getD []) ++
      (nameWords (baseName cmd) ++
        argWords ((firstArg args).map fun a ↦ stripExtension (baseName a)))) := by
  rw [autoDisplayName, sanitizeLabel_eq, nameWords_dash, nameWords_cmdPart]

/-- A word of a label holds letters, digits, dots and underscores. -/
private theorem labelWord {t w : Text} (h : w ∈ nameWords t) :
    (w ≠ [] ∧ '-' ∉ w) ∧ ∀ c ∈ w, isNameChar c = true := by
  have hw := mem_words h
  refine ⟨hw, fun c hc ↦ ?_⟩
  have hm : c ∈ t.map labelChar := mem_of_mem_words h hc
  obtain ⟨d, -, rfl⟩ := List.mem_map.mp hm
  unfold labelChar at hc ⊢
  split
  · assumption
  · rfl

/-- A character of a name is neither whitespace nor a control. -/
private theorem plain_of_isNameChar {c : Char} (h : isNameChar c = true) :
    isJsWhitespace c = false ∧ (isControl c || c.toNat = 0x2028 || c.toNat = 0x2029) = false := by
  have hrange : 0x2D ≤ c.toNat ∧ c.toNat ≤ 0x7A := by
    simp only [isNameChar, Bool.or_eq_true, Bool.and_eq_true, decide_eq_true_eq, Char.le_def,
      UInt32.le_iff_toNat_le] at h
    change 0x2D ≤ c.val.toNat ∧ c.val.toNat ≤ 0x7A
    obtain (((((h | h) | h) | rfl) | rfl) | rfl) := h
    · exact ⟨le_trans (by decide) h.1, h.2⟩
    · exact ⟨le_trans (by decide) h.1, le_trans h.2 (by decide)⟩
    · exact ⟨le_trans (by decide) h.1, le_trans h.2 (by decide)⟩
    · decide
    · decide
    · decide
  unfold isJsWhitespace isControl
  constructor
  · simp only [Bool.or_eq_false_iff, List.contains_eq_mem, decide_eq_false_iff_not,
      Bool.and_eq_false_iff, List.mem_cons, List.not_mem_nil, or_false]
    omega
  · simp only [Bool.or_eq_false_iff, Bool.and_eq_false_iff, decide_eq_false_iff_not]
    omega

/-- Words make a display name when there is one and they are not too long. -/
theorem validateDisplayName_words {ws : List Text}
    (h : ∀ w ∈ ws, (w ≠ [] ∧ '-' ∉ w) ∧ ∀ c ∈ w, isNameChar c = true) :
    validateDisplayName (String.ofList (['-'].intercalate ws)) = .ok () ↔
      ws ≠ [] ∧ (ws.map fun w ↦ w.length + 1).sum ≤ 161 := by
  generalize hl : ['-'].intercalate ws = label
  have hchars : ∀ c ∈ label, isNameChar c = true := by
    intro c hc
    rw [← hl] at hc
    obtain rfl | ⟨w, hw, hcw⟩ := eq_or_mem_of_mem_intercalate hc
    · rfl
    · exact (h w hw).2 c hcw
  have hnil : label = [] ↔ ws = [] := by
    constructor
    · intro he
      rw [← words_intercalate fun w hw ↦ (h w hw).1, hl, he]
      rfl
    · rintro rfl
      exact hl.symm
  have htrim : jsTrim (String.ofList label) = String.ofList label := by
    have hdrop {t : Text} (ht : ∀ c ∈ t, isNameChar c = true) : t.dropWhile isJsWhitespace = t := by
      cases t with
      | nil => rfl
      | cons c t =>
        rw [List.dropWhile_cons, (plain_of_isNameChar (ht c List.mem_cons_self)).1]
        rfl
    rw [jsTrim, String.toList_ofList, hdrop hchars, hdrop, List.reverse_reverse]
    exact fun c hc ↦ hchars c (List.mem_reverse.mp hc)
  have hany : label.any (fun c ↦ isControl c || c.toNat = 0x2028 || c.toNat = 0x2029) = false := by
    rw [List.any_eq_false]
    exact fun c hc ↦ (Bool.not_eq_true _).mpr (plain_of_isNameChar (hchars c hc)).2
  unfold validateDisplayName
  rw [htrim, String.toList_ofList, hany]
  by_cases hws : ws = []
  · rw [if_pos (by rw [hnil.mpr hws])]
    exact ⟨fun he ↦ (by cases he), fun he ↦ absurd hws he.1⟩
  · have hlen : label.length + 1 = (ws.map fun w ↦ w.length + 1).sum := by
      rw [← hl, length_intercalate hws]
    have hne : String.ofList label ≠ "" := fun he ↦
      hws (hnil.mp (by simpa using congrArg String.toList he))
    rw [if_neg hne, if_neg (fun hn ↦ hn rfl)]
    split
    · next hlong => exact ⟨fun he ↦ (by cases he), fun he ↦ absurd he.2 (by omega)⟩
    · next hshort => exact ⟨fun _ ↦ ⟨hws, by omega⟩, fun _ ↦ rfl⟩

/-! ### The names in a path -/

theorem basename_eq (p : Text) : basename p = (words '/' p).getLast?.getD [] := by
  rw [← words_rdropWhile]
  unfold basename
  dsimp only
  split
  · next h =>
    rw [h]
    rfl
  · next h =>
    rw [getLast?_splitOn h]
    intro hl
    have hnot := List.rdropWhile_last_not (fun c ↦ decide (c = '/')) p h
    rw [List.getLast?_eq_some_getLast h] at hl
    exact hnot (decide_eq_true (Option.some.inj hl))

theorem fileName_eq (p : Text) :
    fileName p = (((words '/' p).filter (· ≠ ['.'])).getLast?).filter (· ≠ ['.', '.']) := by
  rw [fileName, words, List.filter_filter]
  congr 2
  exact List.filter_congr fun c _ ↦ Bool.and_comm _ _

/-- The last component of the path is `.` or `..`. -/
def EndsInDots (p : Text) : Prop := basename p = ['.'] ∨ basename p = ['.', '.']

instance (p : Text) : Decidable (EndsInDots p) := inferInstanceAs (Decidable (_ ∨ _))

/-- An ordinary path has the name that both builders take from it, or none. -/
private theorem fileName_ordinary {p : Text} (h : ¬EndsInDots p) :
    fileName p = (words '/' p).getLast? := by
  rw [EndsInDots, basename_eq] at h
  rw [fileName_eq]
  obtain hw | ⟨ws, w, hw⟩ := (words '/' p).eq_nil_or_concat
  · rw [hw]
    rfl
  · rw [hw, List.concat_eq_append] at h ⊢
    rw [List.getLast?_concat, Option.getD_some, not_or] at h
    rw [List.getLast?_concat, List.filter_append, List.filter_singleton, decide_eq_true h.1]
    rw [show (List.filter (· ≠ ['.']) ws ++ bif true then [w] else []) =
      List.filter (· ≠ ['.']) ws ++ [w] from rfl, List.getLast?_concat, Option.filter_some,
      if_pos (decide_eq_true h.2)]

private theorem nameWords_of_slashes {p : Text} (h : words '/' p = []) : nameWords p = [] := by
  have hall : ∀ c ∈ p, c = '/' := fun c hc ↦ eq_of_words_eq_nil h hc
  clear h
  induction p with
  | nil => rfl
  | cons c p ih =>
    rw [hall c List.mem_cons_self]
    exact (words_cons_self '-' _).trans (ih fun d hd ↦ hall d (List.mem_cons_of_mem _ hd))

/-- Both builders take the same words from a command. -/
private theorem nameWords_baseName {p : Text} (h : EndsInDots p → p = basename p) :
    nameWords (baseName p) = nameWords (basename p) := by
  by_cases hd : EndsInDots p
  · have hp := h hd
    obtain hb | hb := hd <;> rw [hp, hb] <;> rfl
  · rw [baseName, fileName_ordinary hd, basename_eq]
    cases hw : (words '/' p).getLast? with
    | some w => rfl
    | none => exact nameWords_of_slashes (List.getLast?_eq_none_iff.mp hw)

/-! ### The base of an argument -/

theorem rfind_of_notMem {c : Char} {t : Text} (h : c ∉ t) : rfind c t = none := by
  rw [rfind, List.findIdx?_eq_none_iff.mpr]
  · rfl
  · intro d hd
    exact decide_eq_false fun he ↦ h (he ▸ List.mem_reverse.mp hd)

theorem rfind_append {c : Char} {v : Text} (h : c ∉ v) (u : Text) :
    rfind c (u ++ c :: v) = some u.length := by
  have hfind : (u ++ c :: v).reverse.findIdx? (· = c) = some v.length := by
    rw [List.reverse_append, List.reverse_cons, List.append_assoc, List.findIdx?_append,
      List.findIdx?_eq_none_iff.mpr]
    · simp [List.findIdx?_cons]
    · intro d hd
      exact decide_eq_false fun he ↦ h (he ▸ List.mem_reverse.mp hd)
  rw [rfind, hfind, Option.map_some]
  congr 1
  rw [List.length_append, List.length_cons]
  omega

private theorem exists_last {c : Char} {t : Text} (h : c ∈ t) :
    ∃ u v, t = u ++ c :: v ∧ c ∉ v := by
  obtain ⟨v, u, ht, hv⟩ := List.eq_append_cons_of_mem (List.mem_reverse.mpr h)
  refine ⟨u.reverse, v.reverse, ?_, fun hm ↦ hv (List.mem_reverse.mp hm)⟩
  rw [← List.reverse_reverse t, ht]
  simp

/-- The base name begins with its only dot, or ends in a dot, and is more than that dot. -/
def DotAtEdge (base : Text) : Prop :=
  1 < base.length ∧ (base.head? = some '.' ∧ '.' ∉ base.tail ∨ base.getLast? = some '.')

instance (base : Text) : Decidable (DotAtEdge base) := inferInstanceAs (Decidable (_ ∧ _))

private theorem argWords_of_not_all {t : Text} (h : ¬t.all isNameChar = true) :
    argWords (some t) = [] := if_neg fun hc ↦ h hc.2

private theorem stripExtension_append {v : Text} (h : '.' ∉ v) (u : Text) :
    stripExtension (u ++ '.' :: v) = if u = [] then '.' :: v else u := by
  have hdrop : (u ++ '.' :: v).drop (u.length + 1) = v := by
    rw [← List.drop_drop, List.drop_left]
    rfl
  have hcontains : v.contains '.' = false := by
    rw [List.contains_eq_mem]
    exact decide_eq_false h
  rw [stripExtension, rfind_append h]
  dsimp only
  rw [hdrop, hcontains, List.take_left]
  by_cases hu : u = []
  · subst hu
    rfl
  · rw [if_neg hu, if_pos (by simpa using List.length_pos_iff.mpr hu)]

private theorem argBase_append {a u v : Text} (ha : basename a = u ++ '.' :: v) (h : '.' ∉ v) :
    argBase a = if v = [] then u ++ ['.'] else u := by
  rw [argBase, ha, rfind_append h]
  dsimp only
  rw [List.take_left, List.length_append, List.length_cons]
  by_cases hv : v = []
  · subst hv
    exact if_neg (by simp)
  · rw [if_neg hv]
    exact if_pos (by have := List.length_pos_iff.mpr hv; omega)

private theorem nameWords_ne_nil {t : Text} (h : '.' ∈ t) : nameWords t ≠ [] := by
  intro he
  have hdot := eq_of_words_eq_nil he (List.mem_map_of_mem h)
  exact absurd hdot (by decide)

/-- A dot at the end of a name is in its words. -/
private theorem nameWords_dot (t : Text) : nameWords t ≠ nameWords (t ++ ['.']) := by
  intro he
  have hlen := congrArg (fun ws ↦ (List.flatten ws).length) he
  simp only [nameWords, flatten_words, List.map_append, List.filter_append, List.length_append]
    at hlen
  have hone : ((['.'].map labelChar).filter (· ≠ '-')).length = 1 := by decide
  omega

/-- From an ordinary argument both builders take the same words, but for a clean name with a dot
at its edge. -/
private theorem argWords_iff {a : Text} (h : ¬EndsInDots a) :
    argWords (some (stripExtension (baseName a))) = argWords (some (argBase a)) ↔
      ((basename a).all isNameChar = true → ¬DotAtEdge (basename a)) := by
  have hfile := fileName_ordinary h
  rw [EndsInDots, not_or] at h
  cases hw : (words '/' a).getLast? with
  | none =>
    have hnil := List.getLast?_eq_none_iff.mp hw
    have hbase : basename a = [] := by rw [basename_eq, hw]; rfl
    have hslash : ∀ c ∈ a, c = '/' := fun c hc ↦ eq_of_words_eq_nil hnil hc
    have hstrip : stripExtension (baseName a) = a := by
      rw [baseName, hfile, hw, Option.getD_none, stripExtension, rfind_of_notMem]
      exact fun hd ↦ absurd (hslash _ hd) (by decide)
    have hwords : argWords (some a) = [] := by
      rw [argWords, nameWords_of_slashes hnil, ite_self]
    have hreg : argBase a = [] := by rw [argBase, hbase]; rfl
    rw [hstrip, hwords, hreg, hbase]
    exact iff_of_true rfl fun _ ↦ (by decide)
  | some b =>
    have hbase : basename a = b := by rw [basename_eq, hw]; rfl
    rw [baseName, hfile, hw, Option.getD_some, hbase]
    rw [hbase] at h
    by_cases hdot : '.' ∈ b
    · obtain ⟨u, v, rfl, hv⟩ := exists_last hdot
      rw [stripExtension_append hv, argBase_append hbase hv]
      have hchar : isNameChar '.' = true := rfl
      by_cases hu : u = []
      · subst hu
        have hvne : v ≠ [] := fun he ↦ h.1 (by rw [he]; rfl)
        have hedge : DotAtEdge ([] ++ '.' :: v) :=
          ⟨by have := List.length_pos_iff.mpr hvne; simp; omega, .inl ⟨rfl, hv⟩⟩
        rw [if_pos rfl, if_neg hvne]
        by_cases hall : ('.' :: v).all isNameChar = true
        · refine iff_of_false ?_ fun hn ↦ hn hall hedge
          rw [argWords, if_pos ⟨List.cons_ne_nil _ _, hall⟩]
          exact nameWords_ne_nil List.mem_cons_self
        · exact iff_of_true (argWords_of_not_all hall) fun hn ↦ absurd hn hall
      · by_cases hvne : v = []
        · subst hvne
          have hedge : DotAtEdge (u ++ ['.']) := by
            have := List.length_pos_iff.mpr hu
            exact ⟨by simp; omega, .inr (by simp)⟩
          rw [if_neg hu, if_pos rfl]
          by_cases hall : (u ++ ['.']).all isNameChar = true
          · refine iff_of_false ?_ fun hn ↦ hn hall hedge
            have hallu : u.all isNameChar = true := by
              rw [List.all_append, Bool.and_eq_true] at hall
              exact hall.1
            rw [argWords, if_pos ⟨hu, hallu⟩, argWords, if_pos ⟨by simp, hall⟩]
            exact nameWords_dot u
          · have hnotu : ¬u.all isNameChar = true := by
              intro hc
              refine hall ?_
              rw [List.all_append, hc]
              rfl
            rw [argWords_of_not_all hnotu, argWords_of_not_all hall]
            exact iff_of_true rfl fun hn ↦ absurd hn hall
        · rw [if_neg hu, if_neg hvne]
          refine iff_of_true rfl fun _ hedge ↦ ?_
          obtain ⟨x, u, rfl⟩ := List.exists_cons_of_ne_nil hu
          obtain ⟨-, ⟨-, ht⟩ | hl⟩ := hedge
          · exact ht (by simp)
          · rw [List.getLast?_append, List.getLast?_cons_of_ne_nil hvne] at hl
            rw [List.getLast?_eq_some_getLast hvne, Option.some_or] at hl
            exact hv (Option.some.inj hl ▸ List.getLast_mem hvne)
    · rw [stripExtension, argBase, hbase, rfind_of_notMem hdot]
      refine iff_of_true rfl fun _ hedge ↦ hdot ?_
      obtain ⟨-, ⟨hh, -⟩ | hl⟩ := hedge
      · exact List.mem_of_mem_head? hh
      · exact List.mem_of_getLast? hl

theorem length_le_utf16Len (t : Text) : t.length ≤ utf16Len t := by
  induction t with
  | nil => exact Nat.zero_le _
  | cons c t ih =>
    unfold utf16Len at ih ⊢
    rw [List.map_cons, List.sum_cons, List.length_cons]
    split <;> omega

/-- Where the argument that is short in characters is short in UTF-16 too, both builders take
it. -/
private theorem registry_firstArg_eq {args : List Text}
    (h : ∀ a, firstArg args = some a → utf16Len a < 30) :
    Registry.firstArg args = firstArg args := by
  unfold Registry.firstArg firstArg at *
  induction args with
  | nil => rfl
  | cons a args ih =>
    rw [List.find?_cons] at h ⊢
    rw [List.find?_cons]
    cases hdash : decide (a.head? ≠ some '-') with
    | false => exact ih (by simpa [hdash] using h)
    | true =>
      cases hshort : decide (a.length < 30) with
      | false =>
        have hlong : ¬utf16Len a < 30 := by
          have := length_le_utf16Len a
          have := of_decide_eq_false hshort
          omega
        rw [decide_eq_false hlong]
        exact ih (by simpa [hdash, hshort] using h)
      | true =>
        rw [decide_eq_true (h a (by rw [hdash, hshort]; rfl))]
        rfl

/-! ### The two labels -/

/-- The words of the working directory's, the command's and the argument's names. -/
def allWords (cwd cmd : Text) (args : List Text) : List Text :=
  nameWords (basename cwd) ++
    (nameWords (basename cmd) ++ argWords ((firstArg args).map argBase))

/-- The names on which both builders follow one rule, and that make a label. -/
structure Ordinary (cwd cmd : Text) (args : List Text) : Prop where
  dir : ¬EndsInDots cwd
  command : EndsInDots cmd → cmd = basename cmd
  short : ∀ a, firstArg args = some a → utf16Len a < 30
  arg : ∀ a, firstArg args = some a → EndsInDots a → a = ['.']
  dots : ∀ a, firstArg args = some a → (basename a).all isNameChar = true →
    ¬DotAtEdge (basename a)
  named : allWords cwd cmd args ≠ []
  fits : ((allWords cwd cmd args).map fun w ↦ w.length + 1).sum ≤ 161

/-- Both builders give one label, and it is a display name. -/
def LabelsAgree (cwd cmd : Text) (args : List Text) : Prop :=
  autoDisplayName cwd cmd args = Registry.autoDisplayName cwd cmd args ∧
    validateDisplayName (String.ofList (autoDisplayName cwd cmd args)) = .ok ()

private theorem labelWord_append (dir cmd : Text) (arg : Option Text) :
    ∀ w ∈ nameWords dir ++ (nameWords cmd ++ argWords arg),
      (w ≠ [] ∧ '-' ∉ w) ∧ ∀ c ∈ w, isNameChar c = true := by
  have harg : ∀ w ∈ argWords arg, (w ≠ [] ∧ '-' ∉ w) ∧ ∀ c ∈ w, isNameChar c = true := by
    unfold argWords
    intro w hw
    split at hw
    · split at hw
      · exact labelWord hw
      · cases hw
    · cases hw
  intro w hw
  obtain hw | hw := List.mem_append.mp hw
  · exact labelWord hw
  · exact (List.mem_append.mp hw).elim labelWord (harg w)

private theorem labelWord_allWords (cwd cmd : Text) (args : List Text) :
    ∀ w ∈ allWords cwd cmd args, (w ≠ [] ∧ '-' ∉ w) ∧ ∀ c ∈ w, isNameChar c = true :=
  labelWord_append _ _ _

private theorem registry_label {cwd cmd : Text} {args : List Text}
    (h : ∀ a, firstArg args = some a → utf16Len a < 30) :
    Registry.autoDisplayName cwd cmd args = ['-'].intercalate (allWords cwd cmd args) := by
  rw [registry_autoDisplayName_eq, registry_firstArg_eq h]
  rfl

private theorem Ordinary.agree {cwd cmd : Text} {args : List Text}
    (h : Ordinary cwd cmd args) : LabelsAgree cwd cmd args := by
  have hdir : (fileName cwd).getD [] = basename cwd := by
    rw [fileName_ordinary h.dir, basename_eq]
  have hargs : argWords ((firstArg args).map fun a ↦ stripExtension (baseName a)) =
      argWords ((firstArg args).map argBase) := by
    cases ha : firstArg args with
    | none => rfl
    | some a =>
      by_cases hd : EndsInDots a
      · rw [h.arg a ha hd]
        decide
      · exact (argWords_iff hd).mpr (h.dots a ha)
  have hcli : autoDisplayName cwd cmd args = ['-'].intercalate (allWords cwd cmd args) := by
    rw [autoDisplayName_eq, hdir, nameWords_baseName h.command, hargs]
    rfl
  refine ⟨hcli.trans (registry_label h.short).symm, ?_⟩
  rw [hcli, validateDisplayName_words (labelWord_allWords cwd cmd args)]
  exact ⟨h.named, h.fits⟩

private theorem LabelsAgree.ordinary {cwd cmd : Text} {args : List Text}
    (hdir : ¬EndsInDots cwd) (hcmd : ¬EndsInDots cmd)
    (harg : ∀ a, firstArg args = some a → utf16Len a < 30 ∧ ¬EndsInDots a)
    (h : LabelsAgree cwd cmd args) : Ordinary cwd cmd args := by
  have hshort : ∀ a, firstArg args = some a → utf16Len a < 30 := fun a ha ↦ (harg a ha).1
  have hname : (fileName cwd).getD [] = basename cwd := by
    rw [fileName_ordinary hdir, basename_eq]
  have hlabels : nameWords ((fileName cwd).getD []) ++ (nameWords (baseName cmd) ++
      argWords ((firstArg args).map fun a ↦ stripExtension (baseName a))) =
      allWords cwd cmd args := by
    rw [← words_intercalate fun w hw ↦ (labelWord_append _ _ _ w hw).1, ← autoDisplayName_eq, h.1,
      registry_label hshort,
      words_intercalate fun w hw ↦ (labelWord_allWords cwd cmd args w hw).1]
  have hvalid := h.2
  rw [h.1, registry_label hshort,
    validateDisplayName_words (labelWord_allWords cwd cmd args)] at hvalid
  refine ⟨hdir, fun hd ↦ absurd hd hcmd, hshort, fun a ha hd ↦ absurd hd (harg a ha).2, ?_,
    hvalid.1, hvalid.2⟩
  intro a ha
  rw [← argWords_iff (harg a ha).2]
  rw [hname, nameWords_baseName fun hd ↦ absurd hd hcmd, allWords, ha] at hlabels
  exact List.append_cancel_left (List.append_cancel_left hlabels)

/-- The two builders of an automatic label agree on ordinary names, and where no name in question
is `.` or `..` they agree on no others. -/
theorem labelsAgree_ordinary (cwd cmd : Text) (args : List Text) :
    (Ordinary cwd cmd args → LabelsAgree cwd cmd args) ∧
    (¬EndsInDots cwd → ¬EndsInDots cmd →
      (∀ a, firstArg args = some a → utf16Len a < 30 ∧ ¬EndsInDots a) →
      (LabelsAgree cwd cmd args ↔ Ordinary cwd cmd args)) :=
  ⟨Ordinary.agree, fun hdir hcmd harg ↦ ⟨LabelsAgree.ordinary hdir hcmd harg, Ordinary.agree⟩⟩

/-- An ordinary label, with the extension of a file stripped. -/
theorem labelsAgree_ordinary_file :
    LabelsAgree "/home/example/myapp".toList "node".toList ["server.js".toList] :=
  (labelsAgree_ordinary _ _ _).1 ⟨by decide, by decide, by decide, by decide, by decide, by decide,
    by decide⟩

/-- One builder keeps the hidden file that the other drops. -/
theorem labelsAgree_refuted : ¬∀ (cwd cmd : Text) (args : List Text), LabelsAgree cwd cmd args := by
  intro h
  have hsame := (h "/home/example/myapp".toList "cat".toList [".bashrc".toList]).1
  rw [autoDisplayName_eq, registry_autoDisplayName_eq] at hsame
  revert hsame
  decide

end PtySpec.Cli
