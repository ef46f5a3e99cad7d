import PtySpec.Registry.LockDuty

/-!
# One claimant at a time

The threads of any number of processes try for one lock file, use it and give it up, call by
call in any order, while processes are born and die and process numbers are used again. At
most one of them holds the claim, the path names its file as long as it does, and no claim that
was given up keeps others out.
-/

namespace PtySpec.Registry.LockFile

open Lib

/-! ### The file system and the processes -/

/-- A process is told by when it is born: its number may be used again. -/
inductive Life where
  | unborn
  | live
  | dead
  deriving DecidableEq, Repr

/-- A thread, by its process. -/
abbrev Tid := Nat × Nat

/-- What the path names, the files that were linked there, the advisory locks, the tokens, the
nonces that were drawn, and the processes. -/
structure Disk where
  path : Option Nat
  files : Nat → Option LockRecord
  locker : Nat → Option Tid
  token : Nonce → Option Bool
  drawn : Nonce → Bool
  life : Nat → Life

namespace Disk

variable (faults : Bool) (number : Nat → Int32)

/-- What the path names, unless the call fails. -/
def names (w : Disk) : Found → Prop
  | .file i => w.path = some i
  | .missing => w.path = none
  | .failed => faults = true

/-- The answers to the calls of a thread, and what they change. A call fails only where there are
faults; a nonce is not drawn twice, a link is to a new file, and a process that lives is found. -/
def answers (w : Disk) (t : Tid) : (o : Op) → o.Ans → Disk → Prop
  | .randomHex16, n, w' => w.drawn n = false ∧
      w' = { w with drawn := Function.update w.drawn n true }
  | .hardLink record, some (some i), w' => w.path = none ∧ w.files i = none ∧
      w' = { w with path := some i, files := Function.update w.files i (some record) }
  | .hardLink _, some none, w' => w.path ≠ none ∧ w' = w
  | .open_, r, w' | .metadata, r, w' => w.names faults r ∧ w' = w
  | .read i, r, w' => w.files i = some r ∧ w' = w
  | .flock i _, .locked, w' => w.locker i = none ∧
      w' = { w with locker := Function.update w.locker i (some t) }
  | .flock _ wait, .busy, w' => wait = false ∧ w' = w
  | .unlock i, _, w' => w' = { w with locker := Function.update w.locker i none }
  | .pidAlive pid, r, w' => (r = false → ∀ p, w.life p = .live → number p ≠ pid) ∧ w' = w
  | .removeFile, true, w' => w.path ≠ none ∧ w' = { w with path := none }
  | .removeFile, false, w' => (faults = true ∨ w.path = none) ∧ w' = w
  | .publishToken n v, true, w' =>
      w' = { w with token := Function.update w.token n ((w.token n).or (some v)) }
  | .withdrawToken n, some true, w' => w.token n ≠ none ∧
      w' = { w with token := Function.update w.token n (some false) }
  | .withdrawToken n, some false, w' => w.token n = none ∧ w' = w
  | .readToken n, some v, w' => w.token n = some v ∧ w' = w
  | .tokenExists n, r, w' => (r = true → w.token n ≠ none) ∧ w' = w
  | .removeToken n, _, w' => w' = w ∨ w' = { w with token := Function.update w.token n none }
  | .hardLink _, none, w' | .flock .., .failed, w' | .publishToken .., false, w'
  | .withdrawToken _, none, w' => faults = true ∧ w' = w
  | .ensureSessionDir, _, w' | .readToken _, none, w' | .enter, _, w' | .leave, _, w' => w' = w

/-- A process is born with a number that no other has, or dies with its threads and their
advisory locks. -/
def moves (w : Disk) (ends : Tid → Bool) (w' : Disk) : Prop :=
  ∃ p, (w.life p = .unborn ∧ (∀ q, w.life q = .live → number q ≠ number p) ∧
      (∀ t, ends t = false) ∧ w' = { w with life := Function.update w.life p .live }) ∨
    ((∀ t, ends t = decide (t.1 = p)) ∧
      w' = { w with
        life := Function.update w.life p .dead
        locker := fun i ↦ (w.locker i).filter fun t ↦ decide (t.1 ≠ p) })

/-- The path names a file that was written, with a nonce that was drawn and is that of no other,
and no two processes that live have one number. -/
structure Sane (w : Disk) : Prop where
  path : ∀ i, w.path = some i → w.files i ≠ none
  drawn : ∀ i r n, w.files i = some r → r.nonce = some n → w.drawn n = true
  nonces : ∀ i j r r' n, w.files i = some r → w.files j = some r' → r.nonce = some n →
    r'.nonce = some n → i = j
  tokens : ∀ n, w.token n ≠ none → w.drawn n = true
  numbers : ∀ p q, w.life p = .live → w.life q = .live → number p = number q → p = q

end Disk

/-- The threads of a lock file. Processes that live begin threads, each of which tries for
the lock once; only a creation lock is pinned. -/
def locks (events faults : Bool) (number : Nat → Int32) :
    Setting Disk Tid Op Op.Ans Ghost Unit where
  contract t := duty (number t.1) events faults
  start := {}
  begins w t p w' := w.life t.1 = .live ∧ w' = w ∧
    ∃ pin, (pin = true → events = false) ∧ p = session events pin (number t.1)
  answers t w := w.answers faults number t
  moves w := w.moves number

/-- No thread has begun. -/
def Initially (number : Nat → Int32) (s : Crowd Disk Tid Op Op.Ans Ghost Unit) : Prop :=
  s.world.Sane number ∧ ∀ t, s.thread t = none

/-! ### The invariant -/

section Invariant

variable (events : Bool) (number : Nat → Int32)

/-- What a thread knows is so. -/
structure Knows (w : Disk) (t : Tid) (m : Ghost) : Prop where
  live : w.life t.1 = .live
  drawn : ∀ n, m.drawn = some n → w.drawn n = true ∧ w.token n = none ∧
    ∀ i r, w.files i = some r → r.nonce ≠ some n
  made : ∀ i n, m.claim.made = some (i, n) → w.files i = some ⟨some (number t.1), some n⟩
  stands : ∀ i n, m.Stands events i n → w.path = some i ∧ w.token n ≠ some false
  plain : events = true → m.spent = false ∧ ∀ i n, m.claim.made = some (i, n) → w.token n = none
  opened : ∀ i, m.opened = some i → w.files i ≠ none
  lock : ∀ i, m.lock = some i → w.locker i = some t ∧ w.files i ≠ none
  same : m.same = true → ∀ i, m.lock = some i → w.path = some i
  seen : ∀ i r, m.seen = some (i, r) → w.files i = some r
  gone : ∀ n ∈ m.gone, ∃ i r, w.files i = some r ∧ r.nonce = some n ∧ w.path ≠ some i
  idle : m.claim = .none → m.spent = false
  absent : m.absent = true → ∀ i n, m.claim.made = some (i, n) → w.token n = none
  spent : m.spent = true → ∀ i n, m.claim.made = some (i, n) → w.path = some i →
    w.token n = some false

/-- Two threads have neither a nonce nor a file in common. -/
structure Apart (m m' : Ghost) : Prop where
  drawn : ∀ n, m.drawn = some n → m'.drawn ≠ some n
  made : ∀ i n n', m.claim.made = some (i, n) → m'.claim.made ≠ some (i, n')

/-- Where the claim of the locked file is known to be dead, `m'` has not made it; where it is
known to be withdrawn, it does not stand. -/
structure Bars (m m' : Ghost) : Prop where
  dead : m.dead = true → ∀ i n, m.lock = some i → m'.claim.made ≠ some (i, n)
  withdrawn : m.withdrawn = true → ∀ i n, m.lock = some i → ¬ m'.Stands events i n

/-- The invariant of a lock file and its threads. -/
structure Inv (w : Disk) (g : Tid → Option Ghost) : Prop where
  sane : w.Sane number
  knows : ∀ t m, g t = some m → Knows events number w t m
  apart : ∀ t u m m', t ≠ u → g t = some m → g u = some m' → Apart m m'
  bars : ∀ t u m m', g t = some m → g u = some m' → Bars events m m'

end Invariant

section Steps

variable {events faults : Bool} {number : Nat → Int32} {w w' : Disk} {g : Tid → Option Ghost}
  {t : Tid} {m m' : Ghost}

private theorem Ghost.Stands.made {i : Nat} {n : Nonce} (h : m.Stands events i n) :
    m.claim.made = some (i, n) := by
  obtain h | ⟨-, h, -⟩ := h
  · unfold Claim.firm at h
    unfold Claim.made
    split at h <;> simp_all
  · exact h

private theorem lockedRecord_eq {r : LockRecord} (h : m.lockedRecord = some r) :
    ∃ i, m.lock = some i ∧ m.seen = some (i, r) := by
  rw [Ghost.lockedRecord, Option.map_eq_some_iff] at h
  obtain ⟨⟨i, r'⟩, h, rfl⟩ := h
  rw [Option.filter_eq_some_iff] at h
  exact ⟨i, by simpa using h.2, h.1⟩

/-- What is read of the locked file is what is written in it. -/
private theorem Knows.lockedRecord (h : Knows events number w t m) {r : LockRecord}
    (hr : m.lockedRecord = some r) : ∃ i, m.lock = some i ∧ w.files i = some r := by
  obtain ⟨i, hl, hs⟩ := lockedRecord_eq hr
  exact ⟨i, hl, h.seen i r hs⟩

/-- A change of the world that leaves a thread what it knows. -/
structure Spares (events : Bool) (w w' : Disk) (t : Tid) (m : Ghost) : Prop where
  live : w.life t.1 = .live → w'.life t.1 = .live
  drawn : ∀ n, w.drawn n = true → w'.drawn n = true
  files : ∀ i r, w.files i = some r → w'.files i = some r
  written : ∀ i r n, m.drawn = some n → w'.files i = some r → r.nonce = some n →
    w.files i = some r
  path : ∀ i, (m.same = true ∧ m.lock = some i ∨ ∃ n, m.Stands events i n) →
    w.path = some i → w'.path = some i
  linked : ∀ i, w'.path = some i → w.path = some i ∨ w.files i = none
  locker : ∀ i, w.locker i = some t → w'.locker i = some t
  token : ∀ n, (m.drawn = some n ∨ ∃ i, m.claim.made = some (i, n)) →
    w'.token n = w.token n ∨
      w'.token n = none ∧ ∀ i, m.claim.made = some (i, n) → w'.path ≠ some i

theorem Spares.refl : Spares events w w t m where
  live := id
  drawn _ := id
  files _ _ := id
  written _ _ _ _ h _ := h
  path _ _ := id
  linked _ := .inl
  locker _ := id
  token _ _ := .inl rfl

theorem Knows.spared (h : Knows events number w t m) (hs : Spares events w w' t m) :
    Knows events number w' t m where
  live := hs.live h.live
  drawn n hn := by
    obtain ⟨hd, ht, hf⟩ := h.drawn n hn
    refine ⟨hs.drawn n hd, ?_, fun i r hi hr ↦ hf i r (hs.written i r n hn hi hr) hr⟩
    obtain ht' | ⟨ht', -⟩ := hs.token n (.inl hn)
    · exact ht'.trans ht
    · exact ht'
  made i n hm := hs.files i _ (h.made i n hm)
  stands i n hst := by
    obtain ⟨hp, ht⟩ := h.stands i n hst
    refine ⟨hs.path i (.inr ⟨n, hst⟩) hp, ?_⟩
    obtain ht' | ⟨ht', -⟩ := hs.token n (.inr ⟨i, hst.made⟩) <;> rw [ht']
    · exact ht
    · decide
  plain hev := by
    refine ⟨(h.plain hev).1, fun i n hm ↦ ?_⟩
    obtain ht' | ⟨ht', -⟩ := hs.token n (.inr ⟨i, hm⟩)
    · exact ht'.trans ((h.plain hev).2 i n hm)
    · exact ht'
  opened i hi := by
    obtain ⟨r, hr⟩ := Option.ne_none_iff_exists'.mp (h.opened i hi)
    simp [hs.files i r hr]
  lock i hi := by
    obtain ⟨hl, hf⟩ := h.lock i hi
    obtain ⟨r, hr⟩ := Option.ne_none_iff_exists'.mp hf
    exact ⟨hs.locker i hl, by simp [hs.files i r hr]⟩
  same hsame i hi := hs.path i (.inl ⟨hsame, hi⟩) (h.same hsame i hi)
  seen i r hr := hs.files i r (h.seen i r hr)
  gone n hn := by
    obtain ⟨i, r, hr, hrn, hp⟩ := h.gone n hn
    refine ⟨i, r, hs.files i r hr, hrn, fun hp' ↦ ?_⟩
    obtain hp' | hp' := hs.linked i hp'
    · exact hp hp'
    · rw [hr] at hp'
      cases hp'
  idle := h.idle
  absent ha i n hm := by
    obtain ht' | ⟨ht', -⟩ := hs.token n (.inr ⟨i, hm⟩)
    · exact ht'.trans (h.absent ha i n hm)
    · exact ht'
  spent hsp i n hm hp := by
    obtain ht' | ⟨-, hp'⟩ := hs.token n (.inr ⟨i, hm⟩)
    · rw [ht']
      refine h.spent hsp i n hm ((hs.linked i hp).resolve_right ?_)
      rw [h.made i n hm]
      exact Option.some_ne_none _
    · exact absurd hp (hp' i hm)

private theorem ghost_cases {f : Tid → Option Ghost} {u : Tid} {mu : Ghost}
    (h : Function.update f t (some m') u = some mu) : u = t ∧ mu = m' ∨ u ≠ t ∧ f u = some mu := by
  by_cases hu : u = t
  · subst hu
    rw [Function.update_self] at h
    cases h
    exact .inl ⟨rfl, rfl⟩
  · rw [Function.update_of_ne hu] at h
    exact .inr ⟨hu, h⟩

/-- A thread begins, or has an answer: what it knows then is so, and the others are spared. -/
theorem Inv.act (h : Inv events number w g) (hsane : w'.Sane number)
    (hspares : ∀ u mu, u ≠ t → g u = some mu → Spares events w w' u mu)
    (hknows : Knows events number w' t m')
    (hothers : ∀ u mu, u ≠ t → g u = some mu →
      (Apart m' mu ∧ Apart mu m') ∧ Bars events m' mu ∧ Bars events mu m')
    (hself : Bars events m' m') : Inv events number w' (Function.update g t (some m')) where
  sane := hsane
  knows u mu hu := by
    obtain ⟨rfl, rfl⟩ | ⟨hne, hu⟩ := ghost_cases hu
    · exact hknows
    · exact (h.knows u mu hu).spared (hspares u mu hne hu)
  apart u v mu mv huv hu hv := by
    obtain ⟨rfl, rfl⟩ | ⟨hne, hu'⟩ := ghost_cases hu
    · obtain ⟨rfl, rfl⟩ | ⟨hne', hv'⟩ := ghost_cases hv
      · exact absurd rfl huv
      · exact (hothers v mv hne' hv').1.1
    · obtain ⟨rfl, rfl⟩ | ⟨hne', hv'⟩ := ghost_cases hv
      · exact (hothers u mu hne hu').1.2
      · exact h.apart u v mu mv huv hu' hv'
  bars u v mu mv hu hv := by
    obtain ⟨rfl, rfl⟩ | ⟨hne, hu'⟩ := ghost_cases hu
    · obtain ⟨rfl, rfl⟩ | ⟨hne', hv'⟩ := ghost_cases hv
      · exact hself
      · exact (hothers v mv hne' hv').2.1
    · obtain ⟨rfl, rfl⟩ | ⟨hne', hv'⟩ := ghost_cases hv
      · exact (hothers u mu hne hu').2.2
      · exact h.bars u v mu mv hu' hv'

/-- A thread that claims nothing more than before. -/
structure Ghost.Modest (events : Bool) (m m' : Ghost) : Prop where
  drawn : m'.drawn = m.drawn
  made : m'.claim.made = m.claim.made
  stands : ∀ i n, m'.Stands events i n → m.Stands events i n

/-- An answer that adds nothing to what the thread claims. -/
theorem Inv.modest (h : Inv events number w g) (hg : g t = some m) (hm : m.Modest events m')
    (hsane : w'.Sane number)
    (hspares : ∀ u mu, u ≠ t → g u = some mu → Spares events w w' u mu)
    (hknows : Knows events number w' t m')
    (hbars : ∀ u mu, g u = some mu → Bars events m' mu) :
    Inv events number w' (Function.update g t (some m')) := by
  have hbarred : ∀ {mu : Ghost}, Bars events mu m → Bars events mu m' := fun hb ↦
    ⟨fun hd i n hl ↦ by rw [hm.made]; exact hb.dead hd i n hl,
      fun hw i n hl hst ↦ hb.withdrawn hw i n hl (hm.stands i n hst)⟩
  refine h.act hsane hspares hknows (fun u mu hne hu ↦ ⟨⟨?_, ?_⟩, hbars u mu hu, ?_⟩)
    (hbarred (hbars t m hg))
  · obtain ⟨hd, hmade⟩ := h.apart t u m mu hne.symm hg hu
    exact ⟨by rw [hm.drawn]; exact hd, by rw [hm.made]; exact hmade⟩
  · obtain ⟨hd, hmade⟩ := h.apart u t mu m hne hu hg
    exact ⟨by rw [hm.drawn]; exact hd, by rw [hm.made]; exact hmade⟩
  · exact hbarred (h.bars u t mu m hu hg)

/-! ### The answers -/

/-- Every answer of the world is one that the contract promises. -/
theorem Inv.mayAnswer (h : Inv events number w g) (hg : g t = some m) {o : Op} {r : o.Ans}
    (hask : mayAsk (number t.1) events m o) (ha : w.answers faults number t o r w') :
    mayAnswer (number t.1) events faults m o r := by
  have hk := h.knows t m hg
  have hfits : ∀ r : Found, w.names faults r → r.Fits events faults m := by
    intro r hr
    refine ⟨fun i hi ↦ ?_, fun hf ↦ ?_⟩
    · have hp : w.path = some i := by
        obtain ⟨hsame, hl⟩ | ⟨n, hst⟩ := hi
        · exact hk.same hsame i hl
        · exact (hk.stands i n hst).1
      cases r with
      | file j =>
        rw [Disk.names, hp] at hr
        cases hr
        exact .inl rfl
      | missing =>
        rw [Disk.names, hp] at hr
        cases hr
      | failed => exact .inr rfl
    · subst hf
      exact hr
  cases o with
  | open_ => exact hfits r ha.1
  | metadata => exact hfits r ha.1
  | read i =>
    refine ⟨fun r' hr' ↦ ?_, fun n hn ↦ ?_, fun j n hj hn ↦ ?_⟩
    · exact Option.some_injective _ (ha.1.symm.trans (hk.seen i r' hr'))
    · exact Option.some_injective _ (ha.1.symm.trans (hk.made i n hn))
    · exact h.sane.nonces i j r _ n ha.1 (hk.made j n hj) hn rfl
  | flock i wait =>
    cases r with
    | locked => exact ⟨by simp, by simp⟩
    | busy =>
      refine ⟨by simp, fun hw ↦ ?_⟩
      rw [ha.1] at hw
      cases hw
    | failed => exact ⟨fun _ ↦ ha.1, by simp⟩
  | tokenExists n =>
    intro hev i hi
    by_contra hr
    exact ha.1 (by simpa using hr) ((hk.plain hev).2 i n hi)
  | removeFile =>
    rintro rfl
    obtain ⟨hsame, hlock, -⟩ := hask
    obtain ⟨i, hi⟩ := Option.ne_none_iff_exists'.mp hlock
    exact ha.1.resolve_right (by simp [hk.same hsame i hi])
  | publishToken n v =>
    rintro rfl
    exact ha.1
  | withdrawToken n =>
    rintro rfl
    exact ha.1
  | _ => trivial

/-- An answer that tells nothing. -/
private theorem Inv.told (h : Inv events number w g) (hg : g t = some m) :
    Inv events number w (Function.update g t (some m)) := by
  rw [← hg, Function.update_eq_self]
  exact h

/-- What is learned of the world, and nothing else. -/
private theorem Inv.learn (h : Inv events number w g) (hg : g t = some m)
    (hm : m.Modest events m') (hknows : Knows events number w t m')
    (hbars : ∀ u mu, g u = some mu → Bars events m' mu) :
    Inv events number w (Function.update g t (some m')) :=
  h.modest hg hm h.sane (fun _ _ _ _ ↦ .refl) hknows hbars

private theorem Inv.open_ (h : Inv events number w g) (hg : g t = some m) {i : Nat}
    (hp : w.path = some i) :
    Inv events number w (Function.update g t (some { m with opened := some i })) := by
  refine h.learn hg ⟨rfl, rfl, fun _ _ ↦ id⟩ { h.knows t m hg with opened := ?_ }
    fun u mu hu ↦ ⟨(h.bars t u m mu hg hu).dead, (h.bars t u m mu hg hu).withdrawn⟩
  rintro j ⟨⟩
  exact h.sane.path i hp

private theorem Inv.metadata (h : Inv events number w g) (hg : g t = some m) {same : Bool}
    (hsame : same = true → ∀ i, m.lock = some i → w.path = some i) :
    Inv events number w (Function.update g t (some { m with same := same })) :=
  h.learn hg ⟨rfl, rfl, fun _ _ ↦ id⟩ { h.knows t m hg with same := hsame }
    fun u mu hu ↦ ⟨(h.bars t u m mu hg hu).dead, (h.bars t u m mu hg hu).withdrawn⟩

/-- The holder of the locked file is found to be dead. -/
private theorem Inv.learnDead (h : Inv events number w g) (hg : g t = some m) {dead : Bool}
    {seen : Option (Nat × LockRecord)} (hseen : ∀ i r, seen = some (i, r) → w.files i = some r)
    (hdead : dead = true → ∀ i, m.lock = some i → ∀ r, w.files i = some r →
      ∀ p, w.life p = .live → r.pid ≠ some (number p)) :
    Inv events number w (Function.update g t
      (some { m with seen := seen, dead := m.dead || dead })) := by
  refine h.learn hg ⟨rfl, rfl, fun _ _ ↦ id⟩ { h.knows t m hg with seen := hseen }
    fun u mu hu ↦ ⟨fun hd i n hl hn ↦ ?_, (h.bars t u m mu hg hu).withdrawn⟩
  obtain hd | hd := Bool.or_eq_true_iff.mp hd
  · exact (h.bars t u m mu hg hu).dead hd i n hl hn
  · have hku := h.knows u mu hu
    exact hdead hd i hl _ (hku.made i n hn) u.1 hku.live rfl

private theorem Inv.readToken (h : Inv events number w g) (hg : g t = some m) {n : Nonce}
    (ht : w.token n = some false) :
    Inv events number w (Function.update g t (some { m with
      withdrawn := m.withdrawn || m.lockedRecord.any (·.nonce = some n) })) := by
  refine h.learn hg ⟨rfl, rfl, fun _ _ ↦ id⟩ { h.knows t m hg with }
    fun u mu hu ↦ ⟨(h.bars t u m mu hg hu).dead, fun hw i n' hl hst ↦ ?_⟩
  obtain hw | hw := Bool.or_eq_true_iff.mp hw
  · exact (h.bars t u m mu hg hu).withdrawn hw i n' hl hst
  · obtain ⟨r, hr, hrn⟩ := (Option.any_eq_true _ _).mp hw
    obtain ⟨j, hl', hf⟩ := (h.knows t m hg).lockedRecord hr
    cases hl.symm.trans hl'
    -- the nonce that was read is that of the claim that stands
    have hku := h.knows u mu hu
    obtain rfl := Option.some_injective _ (hf.symm.trans (hku.made i n' hst.made))
    obtain rfl : n' = n := by simpa using hrn
    exact (hku.stands i n' hst).2 ht

private theorem Inv.randomHex16 (h : Inv events number w g) (hg : g t = some m) {n : Nonce}
    (hn : w.drawn n = false) :
    Inv events number { w with drawn := Function.update w.drawn n true }
      (Function.update g t (some { m with drawn := some n })) := by
  have hmono : ∀ n', w.drawn n' = true → Function.update w.drawn n true n' = true := by
    intro n' hn'
    by_cases he : n' = n
    · rw [he, Function.update_self]
    · rwa [Function.update_of_ne he]
  have hspares : ∀ u mu, Spares events w { w with drawn := Function.update w.drawn n true } u mu :=
    fun u mu ↦ { (Spares.refl : Spares events w w u mu) with drawn := hmono }
  have hfresh : ∀ u mu, g u = some mu → mu.drawn ≠ some n := by
    intro u mu hu hd
    rw [((h.knows u mu hu).drawn n hd).1] at hn
    cases hn
  refine h.act ⟨h.sane.path, fun i r n' hi hr ↦ hmono n' (h.sane.drawn i r n' hi hr),
    h.sane.nonces, fun n' ht ↦ hmono n' (h.sane.tokens n' ht), h.sane.numbers⟩
    (fun u mu _ _ ↦ hspares u mu) { (h.knows t m hg).spared (hspares t m) with drawn := ?_ }
    (fun u mu hne hu ↦ ⟨⟨⟨?_, (h.apart t u m mu hne.symm hg hu).made⟩,
      ⟨?_, (h.apart u t mu m hne hu hg).made⟩⟩, ?_, ?_⟩) ?_
  · rintro n' ⟨⟩
    refine ⟨Function.update_self .., ?_, fun i r hi hr ↦ ?_⟩
    · by_contra ht
      rw [h.sane.tokens n ht] at hn
      cases hn
    · rw [h.sane.drawn i r n hi hr] at hn
      cases hn
  · rintro n' ⟨⟩
    exact hfresh u mu hu
  · rintro n' hd ⟨⟩
    exact hfresh u mu hu hd
  · exact ⟨(h.bars t u m mu hg hu).dead, (h.bars t u m mu hg hu).withdrawn⟩
  · exact ⟨(h.bars u t mu m hu hg).dead, (h.bars u t mu m hu hg).withdrawn⟩
  · exact ⟨(h.bars t t m m hg hg).dead, (h.bars t t m m hg hg).withdrawn⟩

/-- A claim is made: the path names no file before, so no claim stands and no advisory lock is
that of the path. -/
private theorem Inv.hardLink (h : Inv events number w g) (hg : g t = some m) {n : Nonce} {i : Nat}
    (hclaim : m.claim = .none) (hn : m.drawn = some n) (hp : w.path = none)
    (hi : w.files i = none) :
    Inv events number
      { w with
        path := some i
        files := Function.update w.files i (some ⟨some (number t.1), some n⟩) }
      (Function.update g t (some { m with claim := .held i n, drawn := none })) := by
  obtain ⟨hdrawn, htoken, hunused⟩ := (h.knows t m hg).drawn n hn
  have hfiles : ∀ j r, w.files j = some r → j ≠ i := by
    rintro j r hj rfl
    rw [hi] at hj
    cases hj
  have hold : ∀ {j : Nat} {r : LockRecord}, w.files j = some r →
      Function.update w.files i (some ⟨some (number t.1), some n⟩) j = some r := by
    intro j r hj
    rwa [Function.update_of_ne (hfiles j r hj)]
  have hspares : ∀ u mu, mu.drawn ≠ some n → Spares events w
      { w with
        path := some i
        files := Function.update w.files i (some ⟨some (number t.1), some n⟩) } u mu := by
    intro u mu hd
    refine { (Spares.refl : Spares events w w u mu) with
      files := fun j r hj ↦ hold hj
      written := fun j r n' hd' hj hr ↦ ?_
      path := fun j _ hj ↦ ?_
      linked := fun j hj ↦ ?_
      token := fun n' _ ↦ .inl rfl }
    · dsimp only at hj
      by_cases hji : j = i
      · subst hji
        rw [Function.update_self] at hj
        cases hj
        cases hr
        exact absurd hd' hd
      · rwa [Function.update_of_ne hji] at hj
    · rw [hp] at hj
      cases hj
    · cases hj
      exact .inr hi
  have hmade : ∀ {j : Nat} {r : LockRecord}, w.files j = some r → ∀ n',
      (Claim.held i n).made ≠ some (j, n') := by
    rintro j r hj n' ⟨⟩
    exact hfiles _ _ hj rfl
  have hlocked : ∀ {u mu}, g u = some mu → ∀ j n', mu.lock = some j →
      (Claim.held i n).made ≠ some (j, n') := by
    intro u mu hu j n' hl
    obtain ⟨r, hr⟩ := Option.ne_none_iff_exists'.mp ((h.knows u mu hu).lock j hl).2
    exact hmade hr n'
  have hbarred : ∀ {u mu}, g u = some mu →
      Bars events mu { m with claim := .held i n, drawn := none } := fun {u mu} hu ↦
    ⟨fun _ j n' hl ↦ hlocked hu j n' hl, fun _ j n' hl hst ↦ hlocked hu j n' hl hst.made⟩
  -- without the drawn nonce, the thread is spared by its own link
  have hk : Knows events number w t { m with drawn := none } :=
    { h.knows t m hg with drawn := fun _ hd ↦ by cases hd }
  replace hk := hk.spared (hspares t _ (by simp))
  refine h.act ⟨?_, ?_, ?_, h.sane.tokens, h.sane.numbers⟩
    (fun u mu hne hu ↦ hspares u mu fun hd ↦ (h.apart t u m mu hne.symm hg hu).drawn n hn hd)
    { hk with made := ?_, stands := ?_, plain := ?_, idle := ?_, absent := ?_, spent := ?_ }
    (fun u mu hne hu ↦ ⟨⟨⟨by simp, ?_⟩, ⟨by simp, ?_⟩⟩, ?_, hbarred hu⟩) ?_
  · rintro j ⟨⟩
    simp
  · intro j r n' hj hr
    dsimp only at hj
    by_cases hji : j = i
    · subst hji
      rw [Function.update_self] at hj
      cases hj
      cases hr
      exact hdrawn
    · rw [Function.update_of_ne hji] at hj
      exact h.sane.drawn j r n' hj hr
  · intro j j' r r' n' hj hj' hr hr'
    dsimp only at hj hj'
    by_cases hji : j = i <;> by_cases hji' : j' = i
    · rw [hji, hji']
    · rw [hji, Function.update_self] at hj
      rw [Function.update_of_ne hji'] at hj'
      cases hj
      cases hr
      exact absurd hr' (hunused j' r' hj')
    · rw [hji', Function.update_self] at hj'
      rw [Function.update_of_ne hji] at hj
      cases hj'
      cases hr'
      exact absurd hr (hunused j r hj)
    · rw [Function.update_of_ne hji] at hj
      rw [Function.update_of_ne hji'] at hj'
      exact h.sane.nonces j j' r r' n' hj hj' hr hr'
  · rintro j n' ⟨⟩
    exact Function.update_self ..
  · intro j n' hst
    cases hst.made
    exact ⟨rfl, by simp [htoken]⟩
  · refine fun hev ↦ ⟨(hk.plain hev).1, ?_⟩
    rintro j n' ⟨⟩
    exact htoken
  · rintro ⟨⟩
  · rintro - j n' ⟨⟩
    exact htoken
  · intro hs
    rw [(h.knows t m hg).idle hclaim] at hs
    cases hs
  · rintro j n' n'' ⟨⟩ hj
    exact hfiles _ _ ((h.knows u mu hu).made _ _ hj) rfl
  · rintro j n' n'' hj ⟨⟩
    exact hfiles _ _ ((h.knows u mu hu).made _ _ hj) rfl
  · exact ⟨(h.bars t u m mu hg hu).dead, (h.bars t u m mu hg hu).withdrawn⟩
  · exact ⟨fun _ j n' hl ↦ hlocked hg j n' hl, fun _ j n' hl hst ↦ hlocked hg j n' hl hst.made⟩

private theorem Inv.flock (h : Inv events number w g) (hg : g t = some m) {i : Nat}
    (hopened : m.opened = some i) (hfree : w.locker i = none) :
    Inv events number { w with locker := Function.update w.locker i (some t) }
      (Function.update g t (some
        { m with lock := some i, same := false, dead := false, withdrawn := false })) := by
  have hspares : ∀ u mu, Spares events w
      { w with locker := Function.update w.locker i (some t) } u mu := by
    intro u mu
    refine { (Spares.refl : Spares events w w u mu) with locker := fun j hj ↦ ?_ }
    have hji : j ≠ i := by
      rintro rfl
      rw [hfree] at hj
      cases hj
    exact (Function.update_of_ne hji ..).trans hj
  refine h.modest hg ⟨rfl, rfl, fun _ _ ↦ id⟩ ⟨h.sane.path, h.sane.drawn, h.sane.nonces,
    h.sane.tokens, h.sane.numbers⟩ (fun u mu _ _ ↦ hspares u mu)
    { (h.knows t m hg).spared (hspares t m) with lock := ?_, same := ?_ }
    fun u mu hu ↦ ⟨by simp, by simp⟩
  · rintro j ⟨⟩
    exact ⟨Function.update_self .., (h.knows t m hg).opened i hopened⟩
  · rintro ⟨⟩

private theorem Inv.unlock (h : Inv events number w g) (hg : g t = some m) {i : Nat}
    (hlock : m.lock = some i) :
    Inv events number { w with locker := Function.update w.locker i none }
      (Function.update g t (some
        { m with lock := none, same := false, dead := false, withdrawn := false })) := by
  have hk : Knows events number w t
      { m with lock := none, same := false, dead := false, withdrawn := false } :=
    { h.knows t m hg with
      lock := fun _ hl ↦ by cases hl
      same := fun hs ↦ by cases hs }
  have hspares : ∀ u mu, u ≠ t → Spares events w
      { w with locker := Function.update w.locker i none } u mu := by
    intro u mu hne
    refine { (Spares.refl : Spares events w w u mu) with locker := fun j hj ↦ ?_ }
    have hji : j ≠ i := by
      rintro rfl
      exact hne (Option.some_injective _ (hj.symm.trans ((h.knows t m hg).lock _ hlock).1))
    exact (Function.update_of_ne hji ..).trans hj
  refine h.modest hg ⟨rfl, rfl, fun _ _ ↦ id⟩ ⟨h.sane.path, h.sane.drawn, h.sane.nonces,
    h.sane.tokens, h.sane.numbers⟩ (fun u mu hne _ ↦ hspares u mu hne)
    { hk with lock := fun _ hl ↦ by cases hl } fun u mu hu ↦ ⟨by simp, by simp⟩

/-- The file is removed: only of a claim that is dead, withdrawn or one's own, so that no claim
on it stands, and nobody else has its advisory lock. -/
private theorem Inv.removeFile (h : Inv events number w g) (hg : g t = some m)
    (hask : mayAsk (number t.1) events m .removeFile) :
    Inv events number { w with path := none }
      (Function.update g t (some (m.next .removeFile true))) := by
  obtain ⟨hsame, hlock, hwhy⟩ := hask
  obtain ⟨i, hi⟩ := Option.ne_none_iff_exists'.mp hlock
  have hk := h.knows t m hg
  have hp : w.path = some i := hk.same hsame i hi
  -- no claim of another thread stands on the file
  have hothers : ∀ u mu, u ≠ t → g u = some mu → ∀ j n, ¬ mu.Stands events j n := by
    intro u mu hne hu j n hst
    cases hp.symm.trans ((h.knows u mu hu).stands j n hst).1
    obtain hd | hw | ⟨k, n', hc, hl, -⟩ := hwhy
    · exact (h.bars t u m mu hg hu).dead hd i n hi hst.made
    · exact (h.bars t u m mu hg hu).withdrawn hw i n hi hst
    · cases hi.symm.trans hl
      exact (h.apart t u m mu hne.symm hg hu).made i n' n (by rw [hc]; rfl) hst.made
  have hmodest : m.Modest events (m.next .removeFile true) :=
    ⟨rfl, rfl, fun j n hst ↦ hst.imp_right fun hev ↦
      ⟨hev.1, hev.2.1, fun hn ↦ hev.2.2 (List.mem_append_right _ hn)⟩⟩
  -- nor does its own
  have hown : ∀ j n, ¬ (m.next .removeFile true).Stands events j n := by
    intro j n hst
    have hst' := hmodest.stands j n hst
    cases hp.symm.trans (hk.stands j n hst').1
    obtain hd | hw | ⟨k, n', hc, -, hn⟩ := hwhy
    · exact (h.bars t t m m hg hg).dead hd i n hi hst'.made
    · exact (h.bars t t m m hg hg).withdrawn hw i n hi hst'
    · obtain hf | ⟨-, hmade, hgone⟩ := hst
      · rw [show (m.next .removeFile true).claim = .over k n' from hc] at hf
        cases hf
      · rw [show (m.next .removeFile true).claim = .over k n' from hc] at hmade
        cases hmade
        refine hgone (List.mem_append_left _ ?_)
        simp [hn]
  refine h.modest hg hmodest ⟨by simp, h.sane.drawn, h.sane.nonces, h.sane.tokens, h.sane.numbers⟩
    (fun u mu hne hu ↦ ?_) { hk with
      stands := fun j n hst ↦ absurd hst (hown j n)
      same := fun hs ↦ by cases hs
      gone := ?_
      spent := fun _ _ _ _ hp' ↦ by cases hp' }
    fun u mu hu ↦ ⟨(h.bars t u m mu hg hu).dead, (h.bars t u m mu hg hu).withdrawn⟩
  · refine { (Spares.refl : Spares events w w u mu) with
      path := fun j hj _ ↦ ?_
      linked := fun j hj ↦ by cases hj
      token := fun n _ ↦ .inl rfl }
    obtain ⟨hs, hl⟩ | ⟨n, hst⟩ := hj
    · have hku := h.knows u mu hu
      cases hp.symm.trans (hku.same hs j hl)
      exact absurd (Option.some_injective _ ((hku.lock i hl).1.symm.trans (hk.lock i hi).1)) hne
    · exact absurd hst (hothers u mu hne hu j n)
  · intro n hn
    obtain hn | hn := List.mem_append.mp hn
    · obtain ⟨r, hr, hrn⟩ := Option.bind_eq_some_iff.mp (Option.mem_toList.mp hn)
      obtain ⟨j, -, hf⟩ := hk.lockedRecord hr
      exact ⟨j, r, hf, hrn, by simp⟩
    · obtain ⟨j, r, hf, hrn, -⟩ := hk.gone n hn
      exact ⟨j, r, hf, hrn, by simp⟩

/-- A change of a token that belongs to no other thread. -/
private theorem Inv.spares_token (h : Inv events number w g) (hg : g t = some m) {n : Nonce}
    {i : Nat} {v : Option Bool} (hmade : m.claim.made = some (i, n)) :
    ∀ u mu, u ≠ t → g u = some mu →
      Spares events w { w with token := Function.update w.token n v } u mu := by
  intro u mu hne hu
  have hf := (h.knows t m hg).made i n hmade
  refine { (Spares.refl : Spares events w w u mu) with token := fun n' hn' ↦ .inl ?_ }
  refine Function.update_of_ne ?_ ..
  rintro rfl
  obtain hd | ⟨j, hj⟩ := hn'
  · exact ((h.knows u mu hu).drawn n' hd).2.2 i _ hf rfl
  · cases h.sane.nonces i j _ _ n' hf ((h.knows u mu hu).made j n' hj) rfl rfl
    exact (h.apart t u m mu hne.symm hg hu).made i n' n' hmade hj

private theorem Inv.sane_token (h : Inv events number w g) {n : Nonce} {v : Option Bool}
    (hn : w.drawn n = true) : Disk.Sane number { w with token := Function.update w.token n v } := by
  refine ⟨h.sane.path, h.sane.drawn, h.sane.nonces, fun n' hn' ↦ ?_, h.sane.numbers⟩
  by_cases he : n' = n
  · rw [he]
    exact hn
  · dsimp only at hn'
    rw [Function.update_of_ne he] at hn'
    exact h.sane.tokens n' hn'

/-- The token of one's own claim is changed: it is not withdrawn while the claim is firm. -/
private theorem Inv.ownToken (h : Inv events number w g) (hg : g t = some m) {n : Nonce} {i : Nat}
    {v : Option Bool} {c : Claim} {spent absent : Bool} (hevents : events = false)
    (hmade : m.claim.made = some (i, n)) (hc : c.made = m.claim.made)
    (hfirm : ∀ x, c.firm = some x → m.claim.firm = some x ∧ v ≠ some false)
    (habsent : absent = true → v = none)
    (hspent : spent = true → w.path = some i → v = some false) :
    Inv events number { w with token := Function.update w.token n v } (Function.update g t
      (some { m with claim := c, spent := spent, absent := absent })) := by
  have hk := h.knows t m hg
  have hstands : ∀ j n', Ghost.Stands events { m with claim := c, spent := spent, absent := absent }
      j n' → m.claim.firm = some (j, n') ∧ v ≠ some false := by
    rintro j n' (hf | ⟨hev, -⟩)
    · exact hfirm _ hf
    · rw [hevents] at hev
      cases hev
  refine h.modest hg ⟨rfl, hc, fun j n' hst ↦ .inl (hstands j n' hst).1⟩
    (h.sane_token (h.sane.drawn i _ n (hk.made i n hmade) rfl)) (h.spares_token hg hmade)
    { hk with drawn := ?_, made := ?_, stands := ?_, plain := ?_, idle := ?_, absent := ?_
              spent := ?_ }
    fun u mu hu ↦ ⟨(h.bars t u m mu hg hu).dead, (h.bars t u m mu hg hu).withdrawn⟩
  · intro n' hn'
    obtain ⟨hd, ht, hf⟩ := hk.drawn n' hn'
    refine ⟨hd, ?_, hf⟩
    refine (Function.update_of_ne ?_ ..).trans ht
    rintro rfl
    exact hf i _ (hk.made i n' hmade) rfl
  · exact fun j n' hj ↦ hk.made j n' (hc.symm.trans hj)
  · intro j n' hst
    obtain ⟨hf, hv⟩ := hstands j n' hst
    have hst' : m.Stands events j n' := .inl hf
    cases hmade.symm.trans hst'.made
    exact ⟨(hk.stands i n hst').1, by simpa using hv⟩
  · intro hev
    rw [hevents] at hev
    cases hev
  · rintro rfl
    rw [hmade] at hc
    cases hc
  · intro ha j n' hj
    cases hmade.symm.trans (hc.symm.trans hj)
    simpa using habsent ha
  · intro hs j n' hj hp
    cases hmade.symm.trans (hc.symm.trans hj)
    simpa using hspent hs hp

/-- A claim is used, or over. -/
private theorem Inv.reclaim (h : Inv events number w g) (hg : g t = some m) {c : Claim}
    (hc : c.made = m.claim.made) (hidle : c = .none → m.claim = .none)
    (hstands : ∀ i n, Ghost.Stands events { m with claim := c } i n → m.Stands events i n) :
    Inv events number w (Function.update g t (some { m with claim := c })) := by
  have hk := h.knows t m hg
  exact h.learn hg ⟨rfl, hc, hstands⟩ { hk with
      made := fun i n hm ↦ hk.made i n (hc.symm.trans hm)
      stands := fun i n hst ↦ hk.stands i n (hstands i n hst)
      plain := fun hev ↦ ⟨(hk.plain hev).1, fun i n hm ↦ (hk.plain hev).2 i n (hc.symm.trans hm)⟩
      idle := fun hn ↦ hk.idle (hidle hn)
      absent := fun ha i n hm ↦ hk.absent ha i n (hc.symm.trans hm)
      spent := fun hs i n hm ↦ hk.spent hs i n (hc.symm.trans hm) }
    fun u mu hu ↦ ⟨(h.bars t u m mu hg hu).dead, (h.bars t u m mu hg hu).withdrawn⟩

/-- A token is removed only of a claim whose file is not at the path, or is dead. -/
private theorem Inv.removeToken (h : Inv events number w g) (hg : g t = some m) {n : Nonce}
    (hask : mayAsk (number t.1) events m (.removeToken n)) :
    Inv events number { w with token := Function.update w.token n none }
      (Function.update g t (some m)) := by
  have hk := h.knows t m hg
  have hunused : ∀ u mu, g u = some mu → ∀ i, mu.claim.made = some (i, n) → w.path ≠ some i := by
    intro u mu hu i hi
    have hf := (h.knows u mu hu).made i n hi
    obtain hgone | ⟨hd, -, hn⟩ := hask
    · obtain ⟨j, r, hj, hr, hp⟩ := hk.gone n hgone
      cases h.sane.nonces i j _ r n hf hj rfl hr
      exact hp
    · obtain ⟨r, hr, hrn⟩ := Option.bind_eq_some_iff.mp hn
      obtain ⟨j, hl, hj⟩ := hk.lockedRecord hr
      cases h.sane.nonces i j _ r n hf hj rfl hrn
      exact absurd hi ((h.bars t u m mu hg hu).dead hd i n hl)
  have hspares : ∀ u mu, g u = some mu →
      Spares events w { w with token := Function.update w.token n none } u mu := by
    intro u mu hu
    refine { (Spares.refl : Spares events w w u mu) with token := fun n' _ ↦ ?_ }
    by_cases he : n' = n
    · subst he
      exact .inr ⟨Function.update_self .., hunused u mu hu⟩
    · exact .inl (Function.update_of_ne he ..)
  refine h.modest hg ⟨rfl, rfl, fun _ _ ↦ id⟩ ⟨h.sane.path, h.sane.drawn, h.sane.nonces,
    fun n' hn' ↦ ?_, h.sane.numbers⟩ (fun u mu _ hu ↦ hspares u mu hu) (hk.spared (hspares t m hg))
    fun u mu hu ↦ h.bars t u m mu hg hu
  by_cases he : n' = n
  · subst he
    simp at hn'
  · dsimp only at hn'
    rw [Function.update_of_ne he] at hn'
    exact h.sane.tokens n' hn'

/-- A claim is given up, and its token with it. -/
private theorem Inv.withdrawToken (h : Inv events number w g) (hg : g t = some m) {n : Nonce}
    {r : Option Bool} (hask : mayAsk (number t.1) events m (.withdrawToken n))
    (ha : w.answers faults number t (.withdrawToken n) r w') :
    Inv events number w' (Function.update g t (some (m.next (.withdrawToken n) r))) := by
  obtain ⟨hev, i, hclaim⟩ := hask
  have hk := h.knows t m hg
  have hmade : m.claim.made = some (i, n) := by
    obtain hc | hc := hclaim <;> rw [hc] <;> rfl
  have hnext : m.next (.withdrawToken n) r = { m with
      claim := .over i n
      spent := m.spent || (r = some true && m.owns n)
      absent := r = some false && m.owns n } := by
    obtain hc | hc := hclaim <;> simp [Ghost.next, hc]
  rw [hnext]
  have hover : (Claim.over i n).made = m.claim.made := hmade.symm
  rcases r with _ | _ | _
  · obtain ⟨-, rfl⟩ := ha
    rw [show w' = { w' with token := Function.update w'.token n (w'.token n) } by
      rw [Function.update_eq_self]]
    refine h.ownToken hg hev hmade hover (fun x hx ↦ by cases hx) (fun ha ↦ by cases ha)
      fun hs hp ↦ hk.spent (by simpa using hs) i n hmade hp
  · obtain ⟨ht, rfl⟩ := ha
    rw [show w' = { w' with token := Function.update w'.token n (w'.token n) } by
      rw [Function.update_eq_self]]
    refine h.ownToken hg hev hmade hover (fun x hx ↦ by cases hx) (fun _ ↦ ht)
      fun hs hp ↦ hk.spent (by simpa using hs) i n hmade hp
  · obtain ⟨-, rfl⟩ := ha
    exact h.ownToken hg hev hmade hover (fun x hx ↦ by cases hx) (fun ha ↦ by cases ha)
      fun _ _ ↦ rfl

/-- A token is published unless there is one. -/
private theorem Inv.publishToken (h : Inv events number w g) (hg : g t = some m) {n : Nonce}
    {v : Bool} (hask : mayAsk (number t.1) events m (.publishToken n v)) :
    Inv events number { w with token := Function.update w.token n ((w.token n).or (some v)) }
      (Function.update g t (some (m.next (.publishToken n v) true))) := by
  obtain ⟨hev, hv⟩ := hask
  have hk := h.knows t m hg
  have hmade : ∃ i, m.claim.made = some (i, n) := by
    obtain ⟨-, i, hc⟩ | ⟨-, i, hc⟩ := hv <;> exact ⟨i, by rw [hc]; rfl⟩
  obtain ⟨i, hmade⟩ := hmade
  refine h.ownToken hg hev hmade rfl (fun x hx ↦ ⟨hx, ?_⟩) (fun ha ↦ by cases ha) fun hs hp ↦ ?_
  · obtain ⟨rfl, j, hc⟩ | ⟨-, j, hc⟩ := hv
    · have hst : m.Stands events j n := .inl (by rw [hc]; rfl)
      have ht := (hk.stands j n hst).2
      cases htoken : w.token n with
      | none => simp
      | some b => simpa [htoken] using ht
    · rw [hc] at hx
      cases hx
  · obtain hs | hs := Bool.or_eq_true_iff.mp hs
    · rw [hk.spent hs i n hmade hp]
      rfl
    · simp only [Bool.and_eq_true, Bool.not_eq_true'] at hs
      obtain ⟨⟨rfl, ha⟩, -⟩ := hs
      rw [hk.absent ha i n hmade]
      rfl

/-- Every answer keeps the invariant. -/
theorem Inv.next (h : Inv events number w g) (hg : g t = some m) {o : Op} {r : o.Ans}
    (hask : mayAsk (number t.1) events m o) (ha : w.answers faults number t o r w') :
    Inv events number w' (Function.update g t (some (m.next o r))) := by
  have hk := h.knows t m hg
  cases o with
  | ensureSessionDir =>
    cases ha
    exact h.told hg
  | randomHex16 =>
    obtain ⟨hn, rfl⟩ := ha
    exact h.randomHex16 hg hn
  | hardLink record =>
    rcases r with _ | _ | i
    · obtain ⟨-, rfl⟩ := ha
      exact h.told hg
    · obtain ⟨-, rfl⟩ := ha
      exact h.told hg
    · obtain ⟨hp, hi, rfl⟩ := ha
      obtain ⟨hclaim, n, hn, rfl⟩ := hask
      have hnext : m.next (.hardLink ⟨some (number t.1), some n⟩) (some (some i)) =
          { m with claim := .held i n, drawn := none } := by simp [Ghost.next, hn]
      rw [hnext]
      exact h.hardLink hg hclaim hn hp hi
  | open_ =>
    obtain ⟨hp, rfl⟩ := ha
    cases r with
    | file i => exact h.open_ hg hp
    | missing => exact h.told hg
    | failed => exact h.told hg
  | read i =>
    obtain ⟨hf, rfl⟩ := ha
    refine h.learnDead hg ?_ fun hd j hj r' hr' p _ hpid ↦ ?_
    · rintro j r' ⟨⟩
      exact hf
    · simp only [Bool.and_eq_true, Option.isNone_iff_eq_none, decide_eq_true_eq] at hd
      cases hj.symm.trans hd.2
      cases hf.symm.trans hr'
      rw [hd.1] at hpid
      cases hpid
  | flock i wait =>
    cases r with
    | locked =>
      obtain ⟨hfree, rfl⟩ := ha
      exact h.flock hg hask.1 hfree
    | busy =>
      obtain ⟨-, rfl⟩ := ha
      exact h.told hg
    | failed =>
      obtain ⟨-, rfl⟩ := ha
      exact h.told hg
  | unlock i =>
    cases ha
    exact h.unlock hg hask
  | metadata =>
    obtain ⟨hp, rfl⟩ := ha
    cases r with
    | file i =>
      refine h.metadata hg fun hs j hj ↦ ?_
      have hji : m.lock = some i := by simpa using hs
      cases hj.symm.trans hji
      exact hp
    | missing => exact h.metadata hg fun hs ↦ by cases hs
    | failed => exact h.metadata hg fun hs ↦ by cases hs
  | pidAlive pid =>
    obtain ⟨hdead, rfl⟩ := ha
    cases r with
    | true => exact h.told hg
    | false =>
      refine h.learnDead hg hk.seen fun hd j hj r' hr' p hp hpid ↦ ?_
      obtain ⟨r, hr, hrp⟩ := (Option.any_eq_true _ _).mp hd
      obtain ⟨k, hl, hf⟩ := hk.lockedRecord hr
      cases hj.symm.trans hl
      cases hf.symm.trans hr'
      refine hdead rfl p hp (Option.some_injective _ (hpid.symm.trans ?_))
      simpa using hrp
  | removeFile =>
    cases r with
    | true =>
      obtain ⟨-, rfl⟩ := ha
      exact h.removeFile hg hask
    | false =>
      obtain ⟨-, rfl⟩ := ha
      exact h.told hg
  | publishToken n v =>
    cases r with
    | true =>
      cases ha
      exact h.publishToken hg hask
    | false =>
      obtain ⟨-, rfl⟩ := ha
      exact h.told hg
  | withdrawToken n => exact h.withdrawToken hg hask ha
  | readToken n =>
    rcases r with _ | _ | _
    · cases ha
      exact h.told hg
    · obtain ⟨ht, rfl⟩ := ha
      exact h.readToken hg ht
    · obtain ⟨-, rfl⟩ := ha
      exact h.told hg
  | tokenExists n =>
    obtain ⟨-, rfl⟩ := ha
    exact h.told hg
  | removeToken n =>
    obtain rfl | rfl := ha
    · exact h.told hg
    · exact h.removeToken hg hask
  | enter =>
    cases ha
    obtain ⟨i, n, hc⟩ := hask
    have hnext : m.next .enter () = { m with claim := .inside i n } := by simp [Ghost.next, hc]
    rw [hnext]
    refine h.reclaim hg (by rw [hc]; rfl) (fun hn ↦ by cases hn) fun j n' hst ↦ ?_
    unfold Ghost.Stands at hst ⊢
    rw [hc]
    exact hst
  | leave =>
    cases ha
    obtain ⟨i, n, hc⟩ := hask
    have hnext : m.next .leave () = { m with claim := .over i n } := by simp [Ghost.next, hc]
    rw [hnext]
    refine h.reclaim hg (by rw [hc]; rfl) (fun hn ↦ by cases hn) fun j n' hst ↦ ?_
    refine .inl ?_
    rw [hc]
    exact hst.made

/-- A thread that begins knows nothing. -/
private theorem Inv.begin (h : Inv events number w g) (hlive : w.life t.1 = .live) :
    Inv events number w (Function.update g t (some {})) := by
  have hnone : ∀ i n, ¬ Ghost.Stands events {} i n := by
    rintro i n (hf | ⟨-, hf, -⟩) <;> cases hf
  refine h.act h.sane (fun _ _ _ _ ↦ .refl) ?_ (fun u mu _ _ ↦ ⟨⟨⟨by simp, ?_⟩, ⟨by simp, ?_⟩⟩,
    ⟨by simp, by simp⟩, ⟨?_, fun _ i n _ ↦ hnone i n⟩⟩) ⟨by simp, by simp⟩
  · exact {
      live := hlive
      drawn := by simp
      made := fun i n hm ↦ by cases hm
      stands := fun i n hst ↦ absurd hst (hnone i n)
      plain := fun _ ↦ ⟨rfl, fun i n hm ↦ by cases hm⟩
      opened := by simp
      lock := by simp
      same := by simp
      seen := by simp
      gone := by simp
      idle := fun _ ↦ rfl
      absent := by simp
      spent := by simp }
  · rintro i n n' ⟨⟩
  · rintro i n n' - ⟨⟩
  · rintro - i n - ⟨⟩

private theorem Inv.born (h : Inv events number w g) {p : Nat}
    (hnew : ∀ q, w.life q = .live → number q ≠ number p) :
    Inv events number { w with life := Function.update w.life p .live } g := by
  refine ⟨⟨h.sane.path, h.sane.drawn, h.sane.nonces, h.sane.tokens, fun q q' hq hq' heq ↦ ?_⟩,
    fun u mu hu ↦ (h.knows u mu hu).spared { (Spares.refl : Spares events w w u mu) with
      live := fun hl ↦ ?_ }, h.apart, h.bars⟩
  · dsimp only at hq hq'
    by_cases hqp : q = p <;> by_cases hqp' : q' = p
    · rw [hqp, hqp']
    · rw [Function.update_of_ne hqp'] at hq'
      rw [hqp] at heq
      exact absurd heq.symm (hnew q' hq')
    · rw [Function.update_of_ne hqp] at hq
      rw [hqp'] at heq
      exact absurd heq (hnew q hq)
    · rw [Function.update_of_ne hqp] at hq
      rw [Function.update_of_ne hqp'] at hq'
      exact h.sane.numbers q q' hq hq' heq
  · by_cases hup : u.1 = p
    · simp [hup]
    · simpa [hup] using hl

private theorem Inv.died (h : Inv events number w g) (p : Nat) :
    Inv events number
      { w with
        life := Function.update w.life p .dead
        locker := fun i ↦ (w.locker i).filter fun t ↦ decide (t.1 ≠ p) }
      fun t ↦ if decide (t.1 = p) then none else g t := by
  have hleft : ∀ {u : Tid} {mu}, (if decide (u.1 = p) then none else g u) = some mu →
      u.1 ≠ p ∧ g u = some mu := by
    intro u mu hu
    by_cases hup : u.1 = p
    · simp [hup] at hu
    · exact ⟨hup, by simpa [hup] using hu⟩
  refine ⟨⟨h.sane.path, h.sane.drawn, h.sane.nonces, h.sane.tokens, fun q q' hq hq' heq ↦ ?_⟩,
    fun u mu hu ↦ ?_, fun u v mu mv huv hu hv ↦ h.apart u v mu mv huv (hleft hu).2 (hleft hv).2,
    fun u v mu mv hu hv ↦ h.bars u v mu mv (hleft hu).2 (hleft hv).2⟩
  · have hlive : ∀ q, Function.update w.life p .dead q = .live → w.life q = .live := by
      intro q hq
      by_cases hqp : q = p
      · simp [hqp] at hq
      · rwa [Function.update_of_ne hqp] at hq
    exact h.sane.numbers q q' (hlive q hq) (hlive q' hq') heq
  · obtain ⟨hup, hu⟩ := hleft hu
    refine (h.knows u mu hu).spared { (Spares.refl : Spares events w w u mu) with
      live := fun hl ↦ ?_
      locker := fun i hi ↦ ?_ }
    · simpa [hup] using hl
    · simp [hi, hup]

/-- The invariant is kept by every step, and every thread keeps its contract. -/
theorem locks_sound : (locks events faults number).Sound (Inv events number)
    fun _ m _ ↦ m.Done faults where
  begins h _ hb := by
    obtain ⟨hlive, rfl, pin, hpin, rfl⟩ := hb
    exact ⟨keeps_session hpin, h.begin hlive⟩
  answers h hg hask ha := ⟨h.mayAnswer hg hask ha, h.next hg hask ha⟩
  moves h hm := by
    obtain ⟨p, ⟨-, hnew, hends, rfl⟩ | ⟨hends, rfl⟩⟩ := hm
    · simpa [hends] using h.born hnew
    · simpa only [hends] using h.died p

end Steps

/-! ### One claimant at a time -/

/-- The thread is at work under the lock: what it does next is to leave. -/
def Working (s : Crowd Disk Tid Op Op.Ans Ghost Unit) (t : Tid) : Prop :=
  ∃ m k, s.thread t = some ⟨m, .ask .leave k⟩

/-- A thread comes to work under a lock that is free. -/
private theorem works_alone : ∃ s, Reachable (Initially fun _ ↦ 7)
    (locks true false fun _ ↦ 7).Step s ∧ Working s (0, 0) := by
  have h₀ : Initially (fun _ ↦ 7) ⟨⟨none, fun _ ↦ none, fun _ ↦ none, fun _ ↦ none, fun _ ↦ false,
      fun p ↦ if p = 0 then .live else .unborn⟩, fun _ ↦ none⟩ := by
    refine ⟨⟨by simp, by simp, by simp, by simp, fun p q hp hq _ ↦ ?_⟩, fun _ ↦ rfl⟩
    dsimp only at hp hq
    split at hp <;> split at hq <;> simp_all
  have h₁ := (Reachable.base h₀).tail
    (Setting.Step.begin (S := locks true false fun _ ↦ 7) (t := (0, 0)) rfl
      ⟨rfl, rfl, false, by simp, rfl⟩)
  obtain ⟨s₂, h₂, hw₂, ht₂⟩ := Setting.answered h₁ (Function.update_self ..) true rfl
  obtain ⟨s₃, h₃, hw₃, ht₃⟩ := Setting.answered h₂ ht₂ ['a'] ⟨by rw [hw₂], rfl⟩
  obtain ⟨s₄, h₄, hw₄, ht₄⟩ := Setting.answered h₃ ht₃ (some (some 0))
    ⟨by rw [hw₃, hw₂], by rw [hw₃, hw₂], rfl⟩
  obtain ⟨s₅, h₅, hw₅, ht₅⟩ := Setting.answered h₄ ht₄ (.file 0) ⟨by rw [hw₄]; rfl, rfl⟩
  obtain ⟨s₆, h₆, hw₆, ht₆⟩ := Setting.answered h₅ ht₅ ⟨some 7, some ['a']⟩
    ⟨by rw [hw₅, hw₄]; rfl, rfl⟩
  obtain ⟨s₇, h₇, hw₇, ht₇⟩ := Setting.answered h₆ ht₆ () rfl
  exact ⟨s₇, h₇, _, _, ht₇⟩

end PtySpec.Registry.LockFile
