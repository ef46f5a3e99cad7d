import Mathlib.Data.List.Basic

/-!
# Literal commands of a shell

How a POSIX shell reads a simple command whose words have no expansion in them: words are parted by
blanks, a backslash and single quotes make what they quote literal, and an unquoted semicolon ends
the command. A text in which anything else comes first is not such a command.
-/

namespace PtySpec.Lib.Shell

/-- A blank. -/
def isBlank (c : Char) : Bool := c = ' ' || c = '\t'

/-- The characters that a shell may take for more than themselves where they are not quoted. -/
def specials : List Char := "|&;<>()$`\\\"' \t\n*?[]#~{}!^".toList

/-- Membership in `specials`. -/
def isSpecial (c : Char) : Bool := specials.contains c

/-- Where the reading of a word is. -/
inductive Quoting where
  | plain
  | single
  | escaped
deriving DecidableEq, Repr

/-- The words of a command up to its semicolon, and the text after that, where `word` is the word
that is being read and `words` are those before it. -/
def read : Quoting → Option (List Char) → List (List Char) → List Char →
    Option (List (List Char) × List Char)
  | _, _, _, [] => none
  | .plain, word, words, c :: rest =>
    if isBlank c then read .plain none (words ++ word.toList) rest
    else if c = ';' then some (words ++ word.toList, rest)
    else if c = '\x27' then read .single (some (word.getD [])) words rest
    else if c = '\\' then read .escaped word words rest
    else if isSpecial c then none
    else read .plain (some (word.getD [] ++ [c])) words rest
  | .single, word, words, c :: rest =>
    if c = '\x27' then read .plain word words rest
    else read .single (some (word.getD [] ++ [c])) words rest
  | .escaped, word, words, c :: rest =>
    -- an escaped newline continues the line
    if c = '\n' then read .plain word words rest
    else read .plain (some (word.getD [] ++ [c])) words rest

/-- The words of the simple command that a text starts with. -/
def simpleCommand (text : List Char) : Option (List (List Char) × List Char) :=
  read .plain none [] text

/-- A name: letters, digits and underscores, no digit first. -/
def isName (text : List Char) : Bool :=
  text.head?.any (fun c ↦ c.isAlpha || c = '_') && text.all fun c ↦ c.isAlphanum || c = '_'

/-- The variable that `export` is given and its value. A variable has a name. -/
def exportOf (words : List (List Char)) : Option (List Char × List Char) :=
  match words with
  | [command, operand] =>
    let name := operand.takeWhile (· ≠ '=')
    if command = "export".toList ∧ isName name = true ∧ '=' ∈ operand then
      some (name, operand.drop (name.length + 1))
    else none
  | _ => none

/-- The variables of the first `n` commands of a text, each of which exports one, and the text that
is read after them. -/
def readExports : Nat → List Char → Option (List (List Char × List Char) × List Char)
  | 0, text => some ([], text.dropWhile isBlank)
  | n + 1, text => do
    let (words, rest) ← simpleCommand text
    let e ← exportOf words
    let (es, rest) ← readExports n rest
    return (e :: es, rest)

/-- A text in single quotes, with each single quote of its own escaped between two of them. -/
def singleQuoted (text : List Char) : List Char :=
  '\x27' :: text.flatMap (fun c ↦ if c = '\x27' then "'\\''".toList else [c]) ++ ['\x27']

/-! ### Words -/

section

variable (words : List (List Char)) (rest : List Char)

/-- A single-quoted text is read as it was. -/
theorem read_singleQuoted (word : Option (List Char)) (text : List Char) :
    read .plain word words (singleQuoted text ++ rest) =
      read .plain (some (word.getD [] ++ text)) words rest := by
  have hsingle (w : List Char) : read .single (some w) words
      (text.flatMap (fun c ↦ if c = '\x27' then "'\\''".toList else [c]) ++ '\x27' :: rest) =
        read .plain (some (w ++ text)) words rest := by
    induction text generalizing w with
    | nil => simp [read]
    | cons c text ih =>
      by_cases hc : c = '\x27'
      · subst hc
        simpa [read, isBlank, isSpecial] using ih (w ++ ['\x27'])
      · simpa [read, hc] using ih (w ++ [c])
  simpa [singleQuoted, read, isBlank, isSpecial] using hsingle (word.getD [])

/-- Characters that are not special are read as they are. -/
theorem read_append {text : List Char} (h : ∀ c ∈ text, isSpecial c = false) (hne : text ≠ [])
    (word : Option (List Char)) :
    read .plain word words (text ++ rest) =
      read .plain (some (word.getD [] ++ text)) words rest := by
  induction text generalizing word with
  | nil => exact absurd rfl hne
  | cons c text ih =>
    have hc := h c (by simp)
    have hstep : read .plain word words (c :: text ++ rest) =
        read .plain (some (word.getD [] ++ [c])) words (text ++ rest) := by
      have hspecial (d : Char) (hd : isSpecial d = true) : c ≠ d := by
        rintro rfl
        simp [hc] at hd
      simp [read, isBlank, hc, hspecial ' ' (by decide), hspecial '\t' (by decide),
        hspecial ';' (by decide), hspecial '\x27' (by decide), hspecial '\\' (by decide)]
    rw [hstep]
    by_cases ht : text = []
    · simp [ht]
    · simpa using ih (fun d hd ↦ h d (List.mem_cons_of_mem _ hd)) ht (some (word.getD [] ++ [c]))

/-- A blank ends the word before it. -/
theorem read_blank (word : Option (List Char)) :
    read .plain word words (' ' :: rest) = read .plain none (words ++ word.toList) rest := by
  simp [read, isBlank]

end

/-! ### Exports -/

/-- What a name is made of is not special. -/
theorem not_isSpecial_of_isName {name : List Char} (h : isName name = true) :
    ∀ c ∈ name, isSpecial c = false := by
  intro c hc
  have hword : c.isAlphanum = true ∨ c = '_' := by
    simpa using (List.all_eq_true.1 (Bool.and_eq_true_iff.1 h).2) c hc
  rcases hword with hword | rfl
  · by_contra hs
    have hmem : c ∈ specials := by simpa [isSpecial] using hs
    have hall : specials.all (fun d ↦ !d.isAlphanum) = true := rfl
    have hnot : (!c.isAlphanum) = true := List.all_eq_true.1 hall c hmem
    rw [hword] at hnot
    cases hnot
  · decide

/-- What `export` is given is read as its name and its value. -/
theorem exportOf_name {name value : List Char} (h : isName name = true) :
    exportOf ["export".toList, name ++ '=' :: value] = some (name, value) := by
  have hne : ∀ c ∈ name, c ≠ '=' := by
    rintro c hc rfl
    have := (List.all_eq_true.1 (Bool.and_eq_true_iff.1 h).2) '=' hc
    revert this
    decide
  have htake : (name ++ '=' :: value).takeWhile (· ≠ '=') = name := by
    rw [List.takeWhile_append_of_pos (by simpa using hne)]
    simp
  simp only [exportOf, htake]
  simp [h, List.drop_append]

/-- A variable that `export` is given has a name. -/
theorem isName_of_exportOf {words : List (List Char)} {e : List Char × List Char}
    (h : exportOf words = some e) : isName e.1 = true := by
  unfold exportOf at h
  split at h
  · dsimp only at h
    split at h
    · next hif =>
        obtain rfl := Option.some.inj h
        exact hif.2.1
    · cases h
  · cases h

/-- Every variable that is read has a name. -/
theorem isName_of_readExports {n : Nat} {text : List Char}
    {es : List (List Char × List Char)} {rest : List Char}
    (h : readExports n text = some (es, rest)) : ∀ e ∈ es, isName e.1 = true := by
  induction n generalizing text es with
  | zero =>
    obtain ⟨rfl, -⟩ := Prod.mk.inj (Option.some.inj h)
    simp
  | succ n ih =>
    simp only [readExports, Option.bind_eq_bind, Option.bind_eq_some_iff, Option.pure_def,
      Option.some.injEq, Prod.mk.injEq] at h
    obtain ⟨⟨words, text'⟩, -, e, he, ⟨es', rest'⟩, hes, rfl, rfl⟩ := h
    intro e' he'
    rcases List.mem_cons.1 he' with rfl | he'
    · exact isName_of_exportOf he
    · exact ih hes e' he'

/-- The text of one `export`, with its value in single quotes. -/
def exportText (e : List Char × List Char) : List Char :=
  "export".toList ++ ' ' :: (e.1 ++ '=' :: singleQuoted e.2)

/-- An `export` of a name is read as it was. -/
theorem simpleCommand_exportText {e : List Char × List Char} (h : isName e.1 = true)
    (blanks rest : List Char) (hb : blanks = [] ∨ blanks = [' ']) :
    simpleCommand (blanks ++ exportText e ++ ';' :: rest) =
      some (["export".toList, e.1 ++ '=' :: e.2], rest) := by
  have hblanks (text : List Char) : simpleCommand (blanks ++ text) = simpleCommand text := by
    rcases hb with rfl | rfl
    · rfl
    · simp [simpleCommand, read_blank]
  have hne : e.1 ≠ [] := by
    intro hnil
    simp [hnil, isName] at h
  have hexport : ∀ c ∈ "export".toList, isSpecial c = false := by
    have hall : "export".toList.all (fun c ↦ !isSpecial c) = true := rfl
    simpa using List.all_eq_true.1 hall
  have hequals : ∀ c ∈ ['='], isSpecial c = false := by
    have hall : isSpecial '=' = false := rfl
    simpa using hall
  have hwhole : exportText e ++ ';' :: rest =
      "export".toList ++ ' ' :: (e.1 ++ (['='] ++ (singleQuoted e.2 ++ ';' :: rest))) := by
    simp only [exportText, List.append_assoc, List.cons_append, List.nil_append]
  rw [List.append_assoc, hblanks, hwhole, simpleCommand, read_append _ _ hexport (by simp),
    read_blank, read_append _ _ (not_isSpecial_of_isName h) hne,
    read_append _ _ hequals (by simp), read_singleQuoted]
  simp [read, isBlank]

/-- The exports that a text starts with are read as they were. -/
theorem readExports_flatMap {es : List (List Char × List Char)}
    (h : ∀ e ∈ es, isName e.1 = true) (rest : List Char) :
    readExports es.length (es.flatMap (fun e ↦ exportText e ++ "; ".toList) ++ rest) =
      some (es, rest.dropWhile isBlank) := by
  suffices hblanks : ∀ blanks : List Char, blanks = [] ∨ blanks = [' '] →
      readExports es.length
        (blanks ++ (es.flatMap (fun e ↦ exportText e ++ "; ".toList) ++ rest)) =
          some (es, rest.dropWhile isBlank) from
    hblanks [] (.inl rfl)
  induction es with
  | nil =>
    rintro blanks (rfl | rfl)
    · rfl
    · simp [readExports, isBlank]
  | cons e es ih =>
    intro blanks hb
    have he := h e (by simp)
    have hrest := ih (fun e he ↦ h e (List.mem_cons_of_mem _ he)) [' '] (.inr rfl)
    have hwhole : blanks ++ ((e :: es).flatMap (fun e ↦ exportText e ++ "; ".toList) ++ rest) =
        blanks ++ exportText e ++ ';' ::
          ([' '] ++ (es.flatMap (fun e ↦ exportText e ++ "; ".toList) ++ rest)) := by
      simp
    rw [hwhole]
    simp only [List.length_cons, readExports, simpleCommand_exportText he blanks _ hb,
      exportOf_name he, hrest, Option.bind_eq_bind, Option.bind_some, Option.pure_def]

end PtySpec.Lib.Shell
