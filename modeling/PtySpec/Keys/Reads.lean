import PtySpec.Keys.Token

/-!
# A decoder over a whole text

A decoder that answers each sequence of the grammar tells of a text what it tells of its
sequences, one after the other. Two decoders of which one never tells more than the other tell
the same of a text exactly if they do of each sequence.
-/

namespace PtySpec.Keys

variable {ε ε' : Type} {s r r' : List Char} {p : Nat}

/-! ### Places in a text -/

/-- What an index leaves of a text. -/
structure At (s : List Char) (p : Nat) (r : List Char) : Prop where
  len : p + r.length = s.length
  rest : s.drop p = r

namespace At

theorem get (h : At s p r) : s[p]? = r.head? := by
  rw [← h.rest, List.head?_drop]

theorem of_lt (h : p < s.length) : ∃ c r, At s p (c :: r) :=
  ⟨s[p], s.drop (p + 1), by rw [List.length_cons, List.length_drop]; omega,
    List.drop_eq_getElem_cons h⟩

theorem next {c : Char} (h : At s p (c :: r)) : At s (p + 1) r := by
  have hl := h.len
  rw [List.length_cons] at hl
  refine ⟨by omega, ?_⟩
  rw [← List.drop_drop, h.rest, List.drop_succ_cons, List.drop_zero]

theorem run (h : At s p r) (test : Char → Bool) :
    At s (p + (r.takeWhile test).length) (r.dropWhile test) := by
  have happ : r.takeWhile test ++ r.dropWhile test = r := List.takeWhile_append_dropWhile
  have hl := congrArg List.length happ
  have hd : (r.takeWhile test ++ r.dropWhile test).drop (r.takeWhile test).length =
      r.dropWhile test := List.drop_left
  rw [List.length_append] at hl
  rw [happ] at hd
  exact ⟨by rw [Nat.add_assoc, hl, h.len], by rw [← List.drop_drop, h.rest, hd]⟩

end At

/-! ### One sequence -/

/-- What a decoder tells of the sequences that it takes. -/
abbrev Tells (ε : Type) := Token → Option (Except Fault (List ε))

/-- What a decoder tells of a sequence, which is nothing if it does not take it. -/
def Tells.of (tells : Tells ε) (t : Token) : Except Fault (List ε) := (tells t).getD (.ok [])

/-- A branch of a decoder takes its sequence, or it falls through. -/
inductive Answers (tells : Tells ε) (s : List Char) :
    Except Fault (Option (List ε × Nat)) → Option (Token × List Char) → Prop
  | falls {spec : Option (Token × List Char)} (h : ∀ t r', spec = some (t, r') → tells t = none) :
      Answers tells s (.ok none) spec
  | takes {t : Token} {r' : List Char} {next : Nat} {told : Except Fault (List ε)}
      (ht : tells t = some told) (hn : At s next r') :
      Answers tells s (told.map fun events ↦ some (events, next)) (some (t, r'))

variable {tells : Tells ε}

theorem Answers.none : Answers tells s (.ok none) none := .falls nofun

private theorem firstOf_none {branches : List (Except Fault (Option (List ε × Nat)))}
    {specs : List (Option (Token × List Char))}
    (h : List.Forall₂ (Answers tells s) branches specs) (hs : ∀ spec ∈ specs, spec = .none)
    (last : Except Fault (List ε × Nat)) : firstOf branches last = last := by
  induction h with
  | nil => rfl
  | cons hb _ ih =>
    obtain rfl := hs _ List.mem_cons_self
    cases hb with
    | falls => exact ih fun spec hm ↦ hs spec (List.mem_cons_of_mem _ hm)

/-- Branches that answer sequences of which no two start one text, and that all end at one
place, tell what is told of the sequence there is. -/
theorem firstOf_answers {branches : List (Except Fault (Option (List ε × Nat)))}
    {specs : List (Option (Token × List Char))} {rest : List Char} {next : Nat}
    (hu : tells .unknown = some (.ok [])) (h : List.Forall₂ (Answers tells s) branches specs)
    (hp : specs.Pairwise fun one other ↦ one ≠ .none → other = .none)
    (hend : ∀ t r', some (t, r') ∈ specs → rest = r') (hlen : p + rest.length ≤ s.length)
    (hle : p ≤ next) (hrest : s.drop next = rest) :
    ∃ next', p ≤ next' ∧ s.drop next' = rest ∧
      firstOf branches (.ok ([], next)) =
        (tells.of ((specs.findSome? id).getD (.unknown, rest)).1).map (·, next') := by
  induction h with
  | nil => exact ⟨next, hle, hrest, by rw [Tells.of, List.findSome?_nil, Option.getD_none, hu]; rfl⟩
  | @cons branch spec branches specs hb hbs ih =>
    obtain ⟨hone, hpairs⟩ := List.pairwise_cons.mp hp
    cases hb with
    | falls hf =>
      cases spec with
      | none => exact ih hpairs fun t r' hm ↦ hend t r' (List.mem_cons_of_mem _ hm)
      | some q =>
        obtain rfl := hend q.1 q.2 List.mem_cons_self
        refine ⟨next, hle, hrest, ?_⟩
        have hlast := firstOf_none hbs (fun spec hm ↦ hone spec hm (Option.some_ne_none q))
          (.ok ([], next))
        rw [List.findSome?_cons, id, Option.getD_some, Tells.of, hf q.1 q.2 rfl]
        exact hlast
    | @takes t r' next' told ht hn =>
      obtain rfl := hend t r' List.mem_cons_self
      refine ⟨next', ?_, hn.rest, ?_⟩
      · have := hn.len
        omega
      · rw [List.findSome?_cons, id, Option.getD_some, Tells.of, ht]
        cases told with
        | error fault => rfl
        | ok events => rfl

/-- The branches after `ESC [`, with the place past the end of the control sequence. -/
theorem firstOf_known {branches : List (Except Fault (Option (List ε × Nat)))}
    (hu : tells .unknown = some (.ok [])) (h : At s p r)
    (hb : List.Forall₂ (Answers tells s) branches (Token.known r)) :
    ∃ next, p ≤ next ∧ s.drop next = (Token.csi r).2 ∧
      firstOf branches (.ok ([], p + (r.takeWhile (!PtyCore.isFinal ·)).length + 1)) =
        (tells.of (Token.csi r).1).map (·, next) := by
  have hrest : s.drop (p + (r.takeWhile (!PtyCore.isFinal ·)).length + 1) =
      Token.pastFinal r := by
    rw [← List.drop_drop, (h.run (!PtyCore.isFinal ·)).rest, List.drop_one]
    rfl
  have hl := h.len
  have hle := Token.length_pastFinal_le r
  rw [Token.csi_snd]
  exact firstOf_answers hu hb (Token.pairwise_known r)
    (fun t r' hm ↦ Token.pastFinal_of_mem_known hm) (by omega) (by omega) hrest

/-! ### The whole text -/

/-- What a decoder tells of sequences, one after the other. -/
def Tells.all (tells : Tells ε) : List Token → Except Fault (List ε)
  | [] => .ok []
  | t :: ts => tells.of t >>= fun events ↦ (tells.all ts).map (events ++ ·)

/-- The steps of a decoder read sequences. -/
def Reads (tells : Tells ε) (s : List Char) (step : Nat → Except Fault (List ε × Nat)) : Prop :=
  ∀ i c rest, At s i (c :: rest) → ∃ next, i < next ∧ s.drop next = (Token.read c rest).2 ∧
    step i = (tells.of (Token.read c rest).1).map (·, next)

/-- A step of a decoder: what it tells of a plain character, after `ESC [`, of `ESC` with another
character and of `ESC` alone. -/
def stepWith (plain : Char → Except Fault (List ε)) (csi : Nat → Except Fault (List ε × Nat))
    (alt : Char → ε) (escape : ε) (s : List Char) (i : Nat) : Except Fault (List ε × Nat) := do
  let c ← index s i
  if c ≠ '\x1b' then
    return (← plain c, ← add i 1)
  if (← peek s (← add i 1)) = some '[' then
    csi (← add i 2)
  else match (← peek s (← add i 1)).filter (' ' ≤ ·) with
    | some ch => return ([alt ch], ← add i 2)
    | none => return ([escape], ← add i 1)

/-- A step reads the sequence that starts there if its branches tell of their sequences. -/
theorem reads_stepWith {plain : Char → Except Fault (List ε)}
    {csi : Nat → Except Fault (List ε × Nat)} {alt : Char → ε} {escape : ε}
    (hs : s.length < 2 ^ 63) (hplain : ∀ c, tells.of (.plain c) = plain c)
    (halt : ∀ c, tells.of (.alt c) = .ok [alt c]) (hescape : tells.of .escape = .ok [escape])
    (hcsi : ∀ p r, At s p r → ∃ next, p ≤ next ∧ s.drop next = (Token.csi r).2 ∧
      csi p = (tells.of (Token.csi r).1).map (·, next)) :
    Reads tells s (stepWith plain csi alt escape s) := by
  intro i c rest h
  have hl := h.len
  rw [List.length_cons] at hl
  unfold stepWith Token.read
  rw [index_eq h.get, ok_bind, add_eq (by omega)]
  by_cases hc : c = '\x1b'
  · rw [if_neg (not_not_intro hc), if_neg (not_not_intro hc)]
    simp only [ok_bind, peek_eq, h.next.get]
    cases rest with
    | nil =>
      rw [List.head?_nil, if_neg (Option.some_ne_none '[').symm]
      refine ⟨i + 1, Nat.lt_succ_self i, h.next.rest, ?_⟩
      rw [hescape]
      rfl
    | cons ch rest =>
      rw [List.length_cons] at hl
      rw [List.head?_cons, add_eq (show i + 2 < 2 ^ 64 by omega)]
      dsimp only
      by_cases hb : ch = '['
      · rw [if_pos (congrArg some hb), if_pos hb, ok_bind]
        obtain ⟨next, hle, hrest, heq⟩ := hcsi _ _ h.next.next
        exact ⟨next, by omega, hrest, heq⟩
      · rw [if_neg fun he ↦ hb (Option.some.inj he), if_neg hb]
        by_cases hsp : ' ' ≤ ch
        · rw [if_pos hsp, Option.filter_some, if_pos (decide_eq_true hsp)]
          refine ⟨i + 2, by omega, h.next.next.rest, ?_⟩
          rw [halt]
          rfl
        · rw [if_neg hsp, Option.filter_some, if_neg (by rw [decide_eq_true_eq]; exact hsp)]
          refine ⟨i + 1, Nat.lt_succ_self i, h.next.rest, ?_⟩
          rw [hescape]
          rfl
  · rw [if_pos hc, if_pos hc]
    refine ⟨i + 1, Nat.lt_succ_self i, h.next.rest, ?_⟩
    rw [hplain]
    cases plain c <;> rfl

/-- A decoder tells of a text what it tells of its sequences. -/
theorem Reads.scan_eq {step : Nat → Except Fault (List ε × Nat)} (h : Reads tells s step)
    (i : Nat) : scan step s.length i = tells.all (tokens (s.drop i)) := by
  induction hn : s.length - i using Nat.strong_induction_on generalizing i with
  | _ n ih =>
    by_cases hi : i < s.length
    · obtain ⟨c, rest, hat⟩ := At.of_lt hi
      obtain ⟨next, hlt, hrest, hstep⟩ := h i c rest hat
      rw [scan_of_lt hi hlt hstep, hat.rest, tokens, Tells.all, ih (s.length - next) (by omega) next
        rfl, hrest]
    · rw [scan_of_le step (Nat.not_lt.mp hi), List.drop_eq_nil_of_le (Nat.not_lt.mp hi), tokens,
        Tells.all]

/-! ### Two decoders -/

/-- Two decoders tell the same, up to a conversion, and none of them faults. -/
def Same (convert : ε → ε') (one : Except Fault (List ε)) (other : Except Fault (List ε')) : Prop :=
  ∃ events shown, one = .ok events ∧ other = .ok shown ∧ events.map convert = shown

/-- One decoder tells no more events than the other. -/
def NoMore (one : Except Fault (List ε)) (other : Except Fault (List ε')) : Prop :=
  ∀ events shown, one = .ok events → other = .ok shown → events.length ≤ shown.length

private theorem all_cons_ok {t : Token} {ts : List Token} {events : List ε}
    (h : tells.all (t :: ts) = .ok events) :
    ∃ first rest, tells.of t = .ok first ∧ tells.all ts = .ok rest ∧ events = first ++ rest := by
  rw [Tells.all] at h
  cases ht : tells.of t with
  | error fault =>
    rw [ht] at h
    cases h
  | ok first =>
    cases hts : tells.all ts with
    | error fault =>
      rw [ht, hts] at h
      cases h
    | ok rest =>
      rw [ht, hts] at h
      cases h
      exact ⟨first, rest, rfl, rfl, rfl⟩

variable {tells' : Tells ε'} {convert : ε → ε'}

theorem NoMore.all (h : ∀ t, NoMore (tells.of t) (tells'.of t)) (ts : List Token) :
    NoMore (tells.all ts) (tells'.all ts) := by
  induction ts with
  | nil =>
    rintro _ _ ⟨⟩ ⟨⟩
    exact Nat.le_refl _
  | cons t ts ih =>
    intro events shown he hs
    obtain ⟨first, rest, hf, hr, rfl⟩ := all_cons_ok he
    obtain ⟨first', rest', hf', hr', rfl⟩ := all_cons_ok hs
    rw [List.length_append, List.length_append]
    exact Nat.add_le_add (h t _ _ hf hf') (ih _ _ hr hr')

/-- Where one decoder never tells more, the two tell the same of a text exactly if they do of
each of its sequences. -/
theorem same_all_iff (h : ∀ t, NoMore (tells.of t) (tells'.of t)) (ts : List Token) :
    Same convert (tells.all ts) (tells'.all ts) ↔
      ∀ t ∈ ts, Same convert (tells.of t) (tells'.of t) := by
  induction ts with
  | nil => exact ⟨fun _ ↦ nofun, fun _ ↦ ⟨[], [], rfl, rfl, rfl⟩⟩
  | cons t ts ih =>
    rw [List.forall_mem_cons, ← ih]
    constructor
    · rintro ⟨events, _, he, hs, rfl⟩
      obtain ⟨first, rest, hf, hr, rfl⟩ := all_cons_ok he
      obtain ⟨first', rest', hf', hr', hsplit⟩ := all_cons_ok hs
      rw [List.map_append] at hsplit
      have hle := h t _ _ hf hf'
      have hle' := NoMore.all h ts _ _ hr hr'
      have hsum := congrArg List.length hsplit
      simp only [List.length_append, List.length_map] at hsum
      obtain ⟨hfirst, hrest⟩ := List.append_inj hsplit (by rw [List.length_map]; omega)
      exact ⟨⟨first, first', hf, hf', hfirst⟩, ⟨rest, rest', hr, hr', hrest⟩⟩
    · rintro ⟨⟨first, first', hf, hf', hfirst⟩, ⟨rest, rest', hr, hr', hrest⟩⟩
      refine ⟨first ++ rest, first' ++ rest', ?_, ?_, by rw [List.map_append, hfirst, hrest]⟩
      · rw [Tells.all, hf, hr]
        rfl
      · rw [Tells.all, hf', hr']
        rfl

end PtySpec.Keys
