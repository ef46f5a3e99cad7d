import Mathlib.Data.List.Basic
import Mathlib.Tactic.Common

/-!
# Fuzzy matching

Model of `crates/pty-tui/src/fuzzy.rs`. Where a loop of the source keeps an index into the query,
the model keeps what the index leaves of it. The lower case of a string is a parameter. A query
that is a subsequence of the target is matched at every character of it by the search that
prefers word boundaries, which never gives up.
-/

namespace PtySpec.Tui

/-- `is_boundary`, `fuzzy.rs:64`. -/
def isBoundary (s : List Char) (pos : Nat) : Bool :=
  pos == 0 || match s[pos - 1]? with
    | some c => c == '-' || c == '_' || c == '/' || c == ' ' || c == '.'
    | none => false

/-- `can_match`, `fuzzy.rs:121`: what is left of the query can be matched in what is left of the
target. -/
def canMatch : List Char → List Char → Bool
  | [], _ => true
  | _ :: _, [] => false
  | c :: query, d :: target => if d = c then canMatch query target else canMatch (c :: query) target
termination_by _ target => target.length

/-- The first boundary from `ti` at which the rest of the query can still be matched,
`fuzzy.rs:96-100`. -/
def boundaryAhead (c : Char) (query target : List Char) (ti : Nat) : Option Nat :=
  (List.range' ti (target.length - ti)).find? fun ahead ↦
    target[ahead]? == some c && isBoundary target ahead &&
      canMatch query (target.drop (ahead + 1))

/-- The next occurrence from `ti`, `fuzzy.rs:109-114`. -/
def nextOccurrence (c : Char) (target : List Char) (ti : Nat) : Option Nat :=
  let place := ti + ((target.drop ti).takeWhile (· ≠ c)).length
  if target.length ≤ place then none else some place

/-- The loop of `match_prefer_boundaries`, `fuzzy.rs:95-118`, over what is left of the query. -/
def preferBoundaries (target : List Char) : List Char → Nat → Option (List Nat)
  | [], _ => some []
  | c :: query, ti =>
    match boundaryAhead c query target ti with
    | some ahead => (preferBoundaries target query (ahead + 1)).map (ahead :: ·)
    | none =>
      match nextOccurrence c target ti with
      | some place => (preferBoundaries target query (place + 1)).map (place :: ·)
      | none => none

/-- `match_prefer_boundaries`, `fuzzy.rs:91`. -/
def matchPreferBoundaries (query target : List Char) : Option (List Nat) :=
  preferBoundaries target query 0

/-- The loop of `find_best_match`, `fuzzy.rs:79-87`, over what is left of both. -/
def firstPositions : List Char → List Char → Nat → List Nat
  | [], _, _ => []
  | _ :: _, [], _ => []
  | c :: query, d :: target, ti =>
    if d = c then ti :: firstPositions query target (ti + 1)
    else firstPositions (c :: query) target (ti + 1)
termination_by _ target => target.length

/-- `find_best_match`, `fuzzy.rs:74`. -/
def findBestMatch (query target : List Char) : List Nat :=
  (matchPreferBoundaries query target).getD (firstPositions query target 0)

/-- What a pass over the target leaves of the query, `fuzzy.rs:21-26`. -/
def unmatched (query target : List Char) : List Char :=
  target.foldl (fun left c ↦ match left with
    | d :: rest => if c = d then rest else left
    | [] => []) query

/-- The bonus for runs of positions, `fuzzy.rs:35-43`. -/
def runBonus : Option Nat → Int → List Nat → Int
  | _, _, [] => 0
  | before, consecutive, pos :: positions =>
    if before.any (pos = · + 1) then
      (consecutive + 1) * 2 + runBonus (some pos) (consecutive + 1) positions
    else runBonus (some pos) 0 positions

/-- The score of the positions of a match, `fuzzy.rs:32-56`. -/
def score (q t : List Char) (positions : List Nat) : Int :=
  runBonus none 0 positions +
    3 * (positions.filter fun pos ↦ pos == 0 || isBoundary t pos).length +
    (if positions.head? = some 0 then 5 else 0) +
    max (10 - ((t.length : Int) - (q.length : Int))) 0

section

variable (toLowercase : List Char → List Char)

/-- `fuzzy_match`, `fuzzy.rs:11`. -/
def fuzzyMatch (query target : List Char) : Option Int :=
  if query.isEmpty then some 1
  else
    let q := toLowercase query
    let t := toLowercase target
    if t.length < q.length then none
    else if unmatched q t ≠ [] then none
    else some (score q t (findBestMatch q t))

end

/-! ### Subsequences -/

theorem canMatch_iff (query target : List Char) :
    canMatch query target = true ↔ query.Sublist target := by
  induction target generalizing query with
  | nil => cases query <;> simp [canMatch]
  | cons d target ih =>
    cases query with
    | nil => simp [canMatch]
    | cons c query =>
      rw [canMatch]
      split
      · next h => rw [ih, h, List.cons_sublist_cons]
      · next h =>
        rw [ih]
        refine ⟨fun hs ↦ .cons d hs, fun hs ↦ ?_⟩
        cases hs with
        | cons _ hs => exact hs
        | cons_cons _ hs => exact absurd rfl h

theorem unmatched_eq_nil_iff (query target : List Char) :
    unmatched query target = [] ↔ query.Sublist target := by
  induction target generalizing query with
  | nil => simp [unmatched]
  | cons d target ih =>
    cases query with
    | nil => exact iff_of_true ((ih []).mpr (List.nil_sublist _)) (List.nil_sublist _)
    | cons c query =>
      have hstep : unmatched (c :: query) (d :: target) =
          unmatched (if d = c then query else c :: query) target := rfl
      rw [hstep, ih]
      split
      · next h => rw [h, List.cons_sublist_cons]
      · next h =>
        refine ⟨fun hs ↦ .cons d hs, fun hs ↦ ?_⟩
        cases hs with
        | cons _ hs => exact hs
        | cons_cons _ hs => exact absurd rfl h

/-- A subsequence can start at the first occurrence of its first character. -/
theorem exists_first {c : Char} {query text : List Char} (h : (c :: query).Sublist text) :
    ∃ rest, text = text.takeWhile (· ≠ c) ++ c :: rest ∧ query.Sublist rest := by
  induction text with
  | nil => cases h
  | cons d text ih =>
    by_cases hd : d = c
    · subst hd
      exact ⟨text, by simp, List.cons_sublist_cons.mp h⟩
    · cases h with
      | cons _ h =>
        obtain ⟨rest, htext, hrest⟩ := ih h
        refine ⟨rest, ?_, hrest⟩
        rw [List.takeWhile_cons_of_pos (by simpa using hd), List.cons_append, ← htext]
      | cons_cons _ h => exact absurd rfl hd

/-! ### The positions -/

/-- The positions are those of the characters of the query, in order. -/
structure Spells (query target : List Char) (positions : List Nat) : Prop where
  increasing : positions.Pairwise (· < ·)
  chars : positions.map (target[·]?) = query.map some

/-- What is left of the query is matched from `ti` on. -/
private theorem preferBoundaries_spec (target : List Char) {query : List Char} {ti : Nat}
    (h : query.Sublist (target.drop ti)) :
    ∃ positions, preferBoundaries target query ti = some positions ∧
      Spells query target positions ∧ ∀ pos ∈ positions, ti ≤ pos := by
  induction query generalizing ti with
  | nil => exact ⟨[], rfl, ⟨.nil, rfl⟩, nofun⟩
  | cons c query ih =>
    have hcons {place : Nat} (hle : ti ≤ place) (hc : target[place]? = some c)
        (hrest : query.Sublist (target.drop (place + 1))) :
        ∃ positions, (preferBoundaries target query (place + 1)).map (place :: ·) =
            some positions ∧ Spells (c :: query) target positions ∧
          ∀ pos ∈ positions, ti ≤ pos := by
      obtain ⟨positions, hsome, hspells, hge⟩ := ih hrest
      refine ⟨place :: positions, by rw [hsome]; rfl, ⟨?_, ?_⟩, ?_⟩
      · exact .cons (fun pos hm ↦ hge pos hm) hspells.increasing
      · rw [List.map_cons, hc, hspells.chars, List.map_cons]
      · exact List.forall_mem_cons.mpr ⟨hle, fun pos hm ↦ by have := hge pos hm; omega⟩
    rw [preferBoundaries]
    cases hb : boundaryAhead c query target ti with
    | some ahead =>
      have hfound := List.find?_some hb
      have hmem := List.mem_of_find?_eq_some hb
      rw [List.mem_range'_1] at hmem
      simp only [Bool.and_eq_true, beq_iff_eq] at hfound
      exact hcons hmem.1 hfound.1.1 ((canMatch_iff _ _).mp hfound.2)
    | none =>
      obtain ⟨rest, htext, hrest⟩ := exists_first h
      have hlen := congrArg List.length htext
      rw [List.length_append, List.length_cons, List.length_drop] at hlen
      have hplace : nextOccurrence c target ti =
          some (ti + ((target.drop ti).takeWhile (· ≠ c)).length) := by
        unfold nextOccurrence
        exact if_neg (by omega)
      have hdrop : target.drop (ti + ((target.drop ti).takeWhile (· ≠ c)).length) = c :: rest := by
        have hleft : ((target.drop ti).takeWhile (· ≠ c) ++ c :: rest).drop
            ((target.drop ti).takeWhile (· ≠ c)).length = c :: rest := List.drop_left
        rw [← htext] at hleft
        rw [← List.drop_drop, hleft]
      rw [hplace]
      refine hcons (Nat.le_add_right _ _) ?_ ?_
      · rw [← List.head?_drop, hdrop, List.head?_cons]
      · rwa [← List.drop_drop, hdrop, List.drop_one, List.tail_cons]

/-- A match that is exact: a score exactly for the subsequences, from positions that the search
for boundaries finds and that spell the query. -/
structure MatchesExactly (toLowercase : List Char → List Char) (query target : List Char) :
    Prop where
  scores : (fuzzyMatch toLowercase query target).isSome ↔
    (toLowercase query).Sublist (toLowercase target)
  spells : (toLowercase query).Sublist (toLowercase target) → ∃ positions,
    matchPreferBoundaries (toLowercase query) (toLowercase target) = some positions ∧
      fuzzyMatch toLowercase query target =
        some (score (toLowercase query) (toLowercase target) positions) ∧
      Spells (toLowercase query) (toLowercase target) positions

/-- Every query that is not empty is matched exactly. -/
theorem fuzzyMatch_exact (toLowercase : List Char → List Char) {query : List Char}
    (h : query ≠ []) (target : List Char) : MatchesExactly toLowercase query target := by
  have hquery : query.isEmpty = false := by simpa using h
  have hmatch (hs : (toLowercase query).Sublist (toLowercase target)) :
      fuzzyMatch toLowercase query target = some (score (toLowercase query) (toLowercase target)
        (findBestMatch (toLowercase query) (toLowercase target))) := by
    unfold fuzzyMatch
    rw [hquery, if_neg (by decide)]
    dsimp only
    rw [if_neg (Nat.not_lt.mpr hs.length_le),
      if_neg (not_not_intro ((unmatched_eq_nil_iff _ _).mpr hs))]
  refine ⟨⟨fun hsome ↦ ?_, fun hs ↦ ?_⟩, fun hs ↦ ?_⟩
  · by_contra hs
    unfold fuzzyMatch at hsome
    rw [hquery, if_neg (by decide)] at hsome
    dsimp only at hsome
    rw [if_pos (fun he ↦ hs ((unmatched_eq_nil_iff _ _).mp he)), ite_self] at hsome
    cases hsome
  · rw [hmatch hs]
    rfl
  · have hfrom : (toLowercase query).Sublist ((toLowercase target).drop 0) := hs
    obtain ⟨positions, hsome, hspells, -⟩ := preferBoundaries_spec (toLowercase target) hfrom
    refine ⟨positions, hsome, ?_, hspells⟩
    rw [hmatch hs, findBestMatch, matchPreferBoundaries, hsome, Option.getD_some]

theorem fuzzyMatch_exact_abc : MatchesExactly (List.map Char.toLower) "aC".toList "a-bc".toList :=
  fuzzyMatch_exact _ (by decide) _

end PtySpec.Tui
