import PtySpec.Registry.LockFile

/-!
# What a lock's claimant keeps

The contract of the programs of a lock file: what each knows of the file from the answers it has
had, and that it removes the file only under the advisory lock of the inode that the path
names, of a claim that is dead, withdrawn or its own. Whether the lock is that of the events, and
whether calls may fail without cause, are parameters.
-/

namespace PtySpec.Registry.LockFile

open Lib Prog

/-! ### What is known -/

/-- A claim: its inode and its nonce, while it is held, used, or over. -/
inductive Claim where
  | none
  | held (inode : Nat) (nonce : Nonce)
  | inside (inode : Nat) (nonce : Nonce)
  | over (inode : Nat) (nonce : Nonce)
  deriving DecidableEq

/-- The inode and the nonce of a claim. -/
def Claim.made : Claim → Option (Nat × Nonce)
  | .none => Option.none
  | .held i n | .inside i n | .over i n => some (i, n)

/-- Those of a claim that is not over. -/
def Claim.firm : Claim → Option (Nat × Nonce)
  | .held i n | .inside i n => some (i, n)
  | _ => Option.none

/-- What a claimant knows: the nonce it drew last, its claim, the inode it opened last, the one
whose advisory lock it has, whether the path names that one, what it read of an inode, whether
the locked one's claim is dead or withdrawn, the nonces of claims that were removed, and whether
its own token was not there or is withdrawn. -/
structure Ghost where
  drawn : Option Nonce := none
  claim : Claim := .none
  opened : Option Nat := none
  lock : Option Nat := none
  same : Bool := false
  seen : Option (Nat × LockRecord) := none
  dead : Bool := false
  withdrawn : Bool := false
  gone : List Nonce := []
  absent : Bool := false
  spent : Bool := false

namespace Ghost

/-- What was read of the locked inode. -/
def lockedRecord (m : Ghost) : Option LockRecord :=
  (m.seen.filter fun x ↦ m.lock = some x.1).map (·.2)

/-- The nonce is that of the claim. -/
def owns (m : Ghost) (nonce : Nonce) : Bool := (m.claim.made.map (·.2)) = some nonce

/-- What is known after an answer. -/
def next (m : Ghost) : (o : Op) → o.Ans → Ghost
  | .randomHex16, n => { m with drawn := some n }
  | .hardLink _, some (some i) =>
    match m.drawn with
    | some n => { m with claim := .held i n, drawn := none }
    | none => m
  | .open_, .file i => { m with opened := some i }
  | .metadata, .file i => { m with same := m.lock = some i }
  | .metadata, _ => { m with same := false }
  | .read i, r =>
    { m with seen := some (i, r), dead := m.dead || (r.pid.isNone && m.lock = some i) }
  | .flock i _, .locked =>
    { m with lock := some i, same := false, dead := false, withdrawn := false }
  | .unlock _, _ => { m with lock := none, same := false, dead := false, withdrawn := false }
  | .pidAlive pid, false => { m with dead := m.dead || m.lockedRecord.any (·.pid = some pid) }
  | .removeFile, true =>
    { m with same := false, gone := (m.lockedRecord.bind (·.nonce)).toList ++ m.gone }
  | .readToken n, some false =>
    { m with withdrawn := m.withdrawn || m.lockedRecord.any (·.nonce = some n) }
  | .publishToken n v, true =>
    { m with spent := m.spent || (!v && m.absent && m.owns n), absent := false }
  | .withdrawToken n, r =>
    { m with
      claim := match m.claim with
        | .held i n | .inside i n => .over i n
        | c => c
      spent := m.spent || (r = some true && m.owns n)
      absent := r = some false && m.owns n }
  | .enter, _ =>
    match m.claim with
    | .held i n => { m with claim := .inside i n }
    | _ => m
  | .leave, _ =>
    match m.claim with
    | .inside i n => { m with claim := .over i n }
    | _ => m
  | _, _ => m

end Ghost

/-! ### The contract -/

/-- What a claimant may ask. -/
def mayAsk (me : Int32) (events : Bool) (m : Ghost) : Op → Prop
  | .hardLink record =>
    m.claim = .none ∧ ∃ n, m.drawn = some n ∧ record = ⟨some me, some n⟩
  | .read i => m.opened = some i ∨ m.lock = some i
  | .flock i _ => m.opened = some i ∧ m.lock = none
  | .unlock i => m.lock = some i
  | .removeFile => m.same = true ∧ m.lock ≠ none ∧ (m.dead = true ∨ m.withdrawn = true ∨
      ∃ i n, m.claim = .over i n ∧ m.lock = some i ∧ (m.lockedRecord.bind (·.nonce)) = some n)
  | .publishToken n v => events = false ∧
      ((v = true ∧ ∃ i, m.claim = .held i n) ∨ (v = false ∧ ∃ i, m.claim = .over i n))
  | .withdrawToken n => events = false ∧ ∃ i, m.claim = .held i n ∨ m.claim = .over i n
  | .removeToken n => n ∈ m.gone ∨
      m.dead = true ∧ m.same = true ∧ (m.lockedRecord.bind (·.nonce)) = some n
  | .enter => ∃ i n, m.claim = .held i n
  | .leave => ∃ i n, m.claim = .inside i n
  | _ => True

/-- The path still names the inode of the claim: it is not over, or it is one of the events and
was not removed. -/
def Ghost.Stands (events : Bool) (m : Ghost) (i : Nat) (n : Nonce) : Prop :=
  m.claim.firm = some (i, n) ∨ events = true ∧ m.claim.made = some (i, n) ∧ n ∉ m.gone

/-- What an answer about the path tells: it names what it was known to name. -/
def Found.Fits (events faults : Bool) (m : Ghost) (r : Found) : Prop :=
  (∀ i, (m.same = true ∧ m.lock = some i ∨ ∃ n, m.Stands events i n) →
    r = .file i ∨ r = .failed) ∧ (r = .failed → faults = true)

/-- Which answers a claimant may rely on. -/
def mayAnswer (me : Int32) (events faults : Bool) (m : Ghost) : (o : Op) → o.Ans → Prop
  | .open_, r | .metadata, r => r.Fits events faults m
  | .read i, r => (∀ r', m.seen = some (i, r') → r = r') ∧
      (∀ n, m.claim.made = some (i, n) → r = ⟨some me, some n⟩) ∧
      ∀ j n, m.claim.made = some (j, n) → r.nonce = some n → i = j
  | .flock _ wait, r => (r = .failed → faults = true) ∧ (wait = true → r ≠ .busy)
  | .tokenExists n, r => events = true → ∀ i, m.claim.made = some (i, n) → r = false
  | .removeFile, r | .publishToken .., r => r = false → faults = true
  | .withdrawToken _, r => r = none → faults = true
  | _, _ => True

/-- The contract of a lock's claimants. -/
def duty (me : Int32) (events faults : Bool) : Contract Op Op.Ans Ghost where
  asks := mayAsk me events
  answers := mayAnswer me events faults
  next := Ghost.next

/-! ### One rule per call -/

section Rules

variable {me : Int32} {events faults : Bool} {m : Ghost}

/-- One call: it is allowed, and every answer keeps what follows. -/
theorem keeps_query {o : Op} {Q : Ghost → o.Ans → Prop} (hask : mayAsk me events m o)
    (h : ∀ r, mayAnswer me events faults m o r → Q (m.next o r) r) :
    (@Prog.query Op Op.Ans o).Keeps (duty me events faults) m Q := ⟨hask, h⟩

theorem keeps_tryCreate {Q : Ghost → Option Bool → Prop} (hclaim : m.claim = .none)
    (hmade : ∀ i n, Q { m with claim := .held i n, drawn := none } (some true))
    (hnot : ∀ n r, r ≠ some true → Q { m with drawn := some n } r) :
    (tryCreate me).Keeps (duty me events faults) m Q := by
  refine keeps_bind.mpr (keeps_query trivial fun n _ ↦ keeps_bind.mpr (keeps_query
    ⟨hclaim, n, rfl, rfl⟩ fun r _ ↦ ?_))
  rcases r with _ | _ | i
  · exact hnot n none (by decide)
  · exact hnot n (some false) (by decide)
  · exact hmade i n

/-- What tidying up under the advisory lock may change. -/
structure Ghost.Tidied (m m' : Ghost) : Prop where
  claim : m'.claim = m.claim
  lock : m'.lock = m.lock
  gone : ∀ n ∈ m.gone, n ∈ m'.gone
  spent : m'.spent = m.spent

theorem Ghost.Tidied.refl (m : Ghost) : m.Tidied m := ⟨rfl, rfl, fun _ ↦ id, rfl⟩

theorem Ghost.Tidied.trans {m m' m'' : Ghost} (h : m.Tidied m') (h' : m'.Tidied m'') :
    m.Tidied m'' :=
  ⟨h'.claim.trans h.claim, h'.lock.trans h.lock, fun n hn ↦ h'.gone n (h.gone n hn),
    h'.spent.trans h.spent⟩

/-- A call that bears on neither the claim nor the advisory lock. -/
def Op.plain : Op → Bool
  | .hardLink _ | .flock .. | .unlock _ | .publishToken .. | .withdrawToken _ | .enter
  | .leave => false
  | _ => true

theorem Ghost.Tidied.next {o : Op} (ho : o.plain = true) (r : o.Ans) : m.Tidied (m.next o r) := by
  unfold Ghost.next
  split <;> first
    | exact ⟨rfl, rfl, fun _ ↦ id, rfl⟩
    | exact ⟨rfl, rfl, fun _ ↦ List.mem_append_right _, rfl⟩
    | cases ho

/-- A call that bears on neither goes on from a ghost state that is tidied. -/
theorem keeps_plain {o : Op} (ho : o.plain = true) {Q : Ghost → o.Ans → Prop}
    (hask : mayAsk me events m o) (h : ∀ r m', m.Tidied m' → m' = m.next o r →
      mayAnswer me events faults m o r → Q m' r) :
    (@Prog.query Op Op.Ans o).Keeps (duty me events faults) m Q :=
  ⟨hask, fun r hr ↦ h r _ (.next ho r) rfl hr⟩

/-- Tidying up is allowed to whoever has the advisory lock, and what was read of its inode is
read again. A record without a nonce is not taken for a withdrawn one. -/
theorem keeps_cleanUp {inode : Nat} {legacy : Option (Int32 × Nonce)} {Q : Ghost → Unit → Prop}
    (hlock : m.lock = some inode)
    (hlegacy : legacy = none ∨ (∃ r n, m.seen = some (inode, r) ∧ r.nonce = some n) ∨
      ∃ n, m.claim.made = some (inode, n))
    (h : ∀ m', m.Tidied m' → Q m' ()) :
    (cleanUp inode legacy).Keeps (duty me events faults) m Q := by
  refine keeps_bind.mpr (keeps_plain rfl trivial fun r m₁ h₁ he₁ _ ↦ ?_)
  split
  · next hr =>
    have hseen : m₁.seen = m.seen := by rw [he₁]; cases r <;> rfl
    have hsame : m₁.same = true := by
      rw [he₁, hr]
      simp [Ghost.next, hlock]
    refine keeps_bind.mpr (keeps_plain rfl (.inr (h₁.lock.trans hlock))
      fun record m₂ h₂ he₂ ha₂ ↦ ?_)
    have hlock₂ : m₂.lock = some inode := (h₂.lock.trans h₁.lock).trans hlock
    have hrecord : m₂.lockedRecord = some record := by
      rw [Ghost.lockedRecord, he₂]
      simp [Ghost.next, h₁.lock.trans hlock]
    have hsame₂ : m₂.same = true := by rw [he₂]; exact hsame
    have hnonce : ∀ nonce, record.nonce.or
        ((legacy.filter fun l ↦ record.pid = some l.1).map (·.2)) = some nonce →
        record.nonce = some nonce := by
      intro nonce hor
      cases hn : record.nonce with
      | some n =>
        rw [hn] at hor
        exact hor
      | none =>
        obtain rfl | ⟨r', n, hr', hn'⟩ | ⟨n, hn'⟩ := hlegacy
        · rw [hn] at hor
          cases hor
        · rw [ha₂.1 r' (hseen.trans hr'), hn'] at hn
          cases hn
        · rw [ha₂.2.1 n (by rw [h₁.claim, hn'])] at hn
          cases hn
    dsimp only
    split
    · next nonce hor =>
      refine keeps_bind.mpr (keeps_plain rfl trivial fun r₃ m₃ h₃ he₃ _ ↦ ?_)
      split
      · next hr₃ =>
        have hw : m₃.withdrawn = true := by
          rw [he₃, hr₃]
          simp [Ghost.next, hrecord, hnonce nonce hor]
        have hrecord₃ : m₃.lockedRecord = some record := by
          rw [he₃]
          cases r₃ with
          | none => exact hrecord
          | some v => cases v <;> exact hrecord
        have hsame₃ : m₃.same = true := by
          rw [he₃, hr₃]
          exact hsame₂
        refine keeps_bind.mpr (keeps_plain rfl
          ⟨hsame₃, by simp [h₃.lock, hlock₂], .inr (.inl hw)⟩ fun r₄ m₄ h₄ he₄ _ ↦ ?_)
        have htidied := ((h₁.trans h₂).trans h₃).trans h₄
        split
        · next hr₄ =>
          refine keeps_plain rfl (.inl ?_) fun _ m₅ h₅ _ _ ↦ h m₅ (htidied.trans h₅)
          rw [he₄, hr₄]
          simp [Ghost.next, hrecord₃, hnonce nonce hor]
        · exact h _ htidied
      · exact h _ ((h₁.trans h₂).trans h₃)
    · exact h _ (h₁.trans h₂)
  · exact h _ h₁

/-- Whether a claim was made, and what is then known. -/
def Ghost.Claimed (m : Ghost) (r : Option Bool) : Prop :=
  (r = some true → ∃ i n, m.claim = .held i n) ∧ (r ≠ some true → m.claim = .none)

theorem keeps_tryCreate_claimed {Q : Ghost → Option Bool → Prop} (hclaim : m.claim = .none)
    (h : ∀ m' r, m'.lock = m.lock → m'.Claimed r → Q m' r) :
    (tryCreate me).Keeps (duty me events faults) m Q :=
  keeps_tryCreate hclaim (fun i n ↦ h _ _ rfl ⟨fun _ ↦ ⟨i, n, rfl⟩, fun hr ↦ absurd rfl hr⟩)
    fun _ _ hr ↦ h _ _ rfl ⟨fun hr' ↦ absurd hr' hr, fun _ ↦ hclaim⟩

/-- A holder that is found not to live has a claim that is dead. -/
theorem keeps_holderIsAlive {inode : Nat} {Q : Ghost → Bool → Prop} (hlock : m.lock = some inode)
    (h : ∀ m' alive, m.Tidied m' → m'.same = m.same → (alive = false → m'.dead = true) →
      Q m' alive) :
    (holderIsAlive inode).Keeps (duty me events faults) m Q := by
  refine keeps_bind.mpr (keeps_plain rfl (.inr hlock) fun record m₁ h₁ he₁ _ ↦ ?_)
  have hsame₁ : m₁.same = m.same := by rw [he₁]; rfl
  split
  · next pid hpid =>
    refine keeps_plain rfl trivial fun alive m₂ h₂ he₂ _ ↦ h m₂ alive (h₁.trans h₂) ?_ ?_
    · rw [he₂, ← hsame₁]
      cases alive <;> rfl
    · rintro rfl
      have hrecord : m₁.lockedRecord = some record := by
        rw [Ghost.lockedRecord, he₁]
        simp [Ghost.next, hlock]
      rw [he₂]
      simp [Ghost.next, hrecord, hpid]
  · next hpid =>
    refine h m₁ false h₁ hsame₁ fun _ ↦ ?_
    rw [he₁]
    simp [Ghost.next, hpid, hlock]

/-- What is read of the path is read of the inode that it is known to name. -/
theorem keeps_readPath {Q : Ghost → Option LockRecord → Prop}
    (h : ∀ m' r, m.Tidied m' → m'.same = m.same → (m.dead = true → m'.dead = true) →
      (∀ record, r = some record → ∀ i, (m.same = true ∧ m.lock = some i ∨
        ∃ n, m.Stands events i n) → m'.seen = some (i, record) ∧
          ∀ n, m.claim.made = some (i, n) → record = ⟨some me, some n⟩) →
      (r = none → ∀ i, (m.same = true ∧ m.lock = some i ∨ ∃ n, m.Stands events i n) →
        faults = true) → Q m' r) :
    readPath.Keeps (duty me events faults) m Q := by
  refine keeps_bind.mpr (keeps_plain rfl trivial fun r m₁ h₁ he₁ ha₁ ↦ ?_)
  have hsame₁ : m₁.same = m.same := by rw [he₁]; cases r <;> rfl
  have hdead₁ : m₁.dead = m.dead := by rw [he₁]; cases r <;> rfl
  split
  · next inode =>
    refine keeps_bind.mpr (keeps_plain rfl (.inl (by rw [he₁]; rfl)) fun record m₂ h₂ he₂ ha₂ ↦ ?_)
    refine h m₂ (some record) (h₁.trans h₂) (by rw [he₂, ← hsame₁]; rfl) (fun hd ↦ ?_)
      (fun record' hr i hi ↦ ?_) fun hr ↦ by cases hr
    · rw [he₂]
      simp [Ghost.next, hdead₁, hd]
    · cases hr
      obtain hri | hri := ha₁.1 i hi
      · cases hri
        exact ⟨by rw [he₂]; rfl, fun n hn ↦ ha₂.2.1 n (by rw [h₁.claim, hn])⟩
      · cases hri
  · next hnot =>
    refine h m₁ none h₁ hsame₁ (fun hd ↦ hdead₁.trans hd) (fun _ hr ↦ by cases hr)
      fun _ i hi ↦ ?_
    obtain hri | hri := ha₁.1 i hi
    · exact absurd hri (hnot i)
    · exact ha₁.2 hri

theorem keeps_stealing {inode : Nat} {Q : Ghost → Option Bool → Prop}
    (hlock : m.lock = some inode) (hclaim : m.claim = .none)
    (h : ∀ m' r, m'.lock = some inode → m'.Claimed r → Q m' r) :
    (stealing me inode).Keeps (duty me events faults) m Q := by
  have hfree : ∀ {m' : Ghost} (r : Option Bool), m.Tidied m' → r ≠ some true → Q m' r :=
    fun r ht hr ↦ h _ r (ht.lock.trans hlock)
      ⟨fun hr' ↦ absurd hr' hr, fun _ ↦ ht.claim.trans hclaim⟩
  refine keeps_bind.mpr (keeps_plain rfl trivial fun r m₁ h₁ he₁ _ ↦ ?_)
  cases r with
  | missing =>
    exact keeps_tryCreate_claimed (h₁.claim.trans hclaim) fun m' r hl hc ↦
      h m' r (hl.trans (h₁.lock.trans hlock)) hc
  | failed => exact hfree none h₁ (by decide)
  | file current =>
    dsimp only
    split
    · exact hfree (some false) h₁ (by decide)
    · next heq =>
      obtain rfl : current = inode := not_not.mp heq
      have hsame₁ : m₁.same = true := by
        rw [he₁]
        simp [Ghost.next, hlock]
      refine keeps_bind.mpr (keeps_holderIsAlive (h₁.lock.trans hlock) fun m₂ alive h₂ hs₂ hd₂ ↦ ?_)
      have h₁₂ := h₁.trans h₂
      have hlock₂ := h₁₂.lock.trans hlock
      split
      · exact hfree (some false) h₁₂ (by decide)
      · next halive =>
        have hdead₂ := hd₂ (by simpa using halive)
        refine keeps_bind.mpr (keeps_readPath fun m₃ r₃ h₃ hs₃ hd₃ hr₃ _ ↦ ?_)
        have h₁₃ := h₁₂.trans h₃
        have hlock₃ := h₁₃.lock.trans hlock
        have hsame₃ : m₃.same = true := hs₃.trans (hs₂.trans hsame₁)
        -- the rest, whether or not a token is removed first
        have hrest : ∀ m₄, m₃.Tidied m₄ → m₄.same = true → m₄.dead = true →
            (do if ← removeFile then tryCreate me else return none : Act (Option Bool)).Keeps
              (duty me events faults) m₄ Q := by
          intro m₄ h₄ hs₄ hd₄
          have h₁₄ := h₁₃.trans h₄
          refine keeps_bind.mpr (keeps_plain rfl
            ⟨hs₄, by simp [h₁₄.lock, hlock], .inl hd₄⟩ fun r₅ m₅ h₅ _ _ ↦ ?_)
          split
          · exact keeps_tryCreate_claimed ((h₁₄.trans h₅).claim.trans hclaim) fun m' r hl hc ↦
              h m' r (hl.trans ((h₁₄.trans h₅).lock.trans hlock)) hc
          · exact hfree none (h₁₄.trans h₅) (by decide)
        have hdead₃ := hd₃ hdead₂
        split
        · next nonce hnonce =>
          obtain ⟨record, rfl, hrn⟩ := Option.bind_eq_some_iff.mp hnonce
          obtain ⟨hseen, -⟩ := hr₃ record rfl current (.inl ⟨hs₂.trans hsame₁, hlock₂⟩)
          have hrecord : m₃.lockedRecord = some record := by
            simp [Ghost.lockedRecord, hseen, hlock₃]
          exact keeps_bind.mpr (keeps_plain rfl (.inr ⟨hdead₃, hsame₃, by rw [hrecord]; exact hrn⟩)
            fun _ m₄ h₄ he₄ _ ↦ hrest m₄ h₄ (by rw [he₄]; exact hsame₃) (by rw [he₄]; exact hdead₃))
        · exact hrest m₃ (.refl m₃) hsame₃ hdead₃

theorem keeps_stealOpenedLock {inode : Nat} {Q : Ghost → Option Bool → Prop}
    (hopened : m.opened = some inode) (hlock : m.lock = none) (hclaim : m.claim = .none)
    (h : ∀ m' r, m'.lock = none → m'.Claimed r → Q m' r) :
    (stealOpenedLock me inode).Keeps (duty me events faults) m Q := by
  refine keeps_bind.mpr (keeps_query ⟨hopened, hlock⟩ fun r _ ↦ ?_)
  cases r with
  | busy => exact h m (some false) hlock ⟨(by cases ·), fun _ ↦ hclaim⟩
  | failed => exact h m none hlock ⟨(by cases ·), fun _ ↦ hclaim⟩
  | locked =>
    refine keeps_bind.mpr (keeps_stealing rfl hclaim fun m₁ r₁ hlock₁ hclaimed ↦ ?_)
    refine keeps_bind.mpr (keeps_cleanUp hlock₁ (.inl rfl) fun m₂ h₂ ↦ ?_)
    refine keeps_bind.mpr (keeps_query (h₂.lock.trans hlock₁) fun _ _ ↦ h _ r₁ rfl ?_)
    refine ⟨fun hr ↦ ?_, fun hr ↦ h₂.claim.trans (hclaimed.2 hr)⟩
    obtain ⟨i, n, hc⟩ := hclaimed.1 hr
    exact ⟨i, n, h₂.claim.trans hc⟩

/-- The guard of a claim has its nonce. -/
theorem keeps_guardOf {r : Option Bool} {Q : Ghost → Option (Option LockGuard) → Prop}
    (hlock : m.lock = none) (hclaimed : m.Claimed r)
    (hgot : ∀ m' i n, m'.lock = none → m'.claim = .held i n → Q m' (some (some ⟨me, n, false⟩)))
    (hnot : ∀ m' r, (faults = false → m'.claim = .none) → (∀ g, r ≠ some (some g)) → Q m' r) :
    (guardOf me r).Keeps (duty me events faults) m Q := by
  rcases r with _ | _ | _
  · exact hnot m none (fun _ ↦ hclaimed.2 (by decide)) fun _ hr ↦ by cases hr
  · exact hnot m (some none) (fun _ ↦ hclaimed.2 (by decide)) fun _ hr ↦ by cases hr
  · obtain ⟨i, n, hclaim⟩ := hclaimed.1 rfl
    have hstands : m.Stands events i n := .inl (by rw [hclaim]; rfl)
    refine keeps_bind.mpr (keeps_bind.mpr
      (keeps_readPath fun m₁ r₁ h₁ _ _ hsome hnone ↦ ?_))
    cases r₁ with
    | none =>
      refine hnot m₁ none (fun hf ↦ ?_) fun _ hr ↦ by cases hr
      rw [hnone rfl i (.inr ⟨n, hstands⟩)] at hf
      cases hf
    | some record =>
      obtain ⟨-, hrecord⟩ := hsome record rfl i (.inr ⟨n, hstands⟩)
      obtain rfl := hrecord n (by rw [hclaim]; rfl)
      exact hgot m₁ i n (h₁.lock.trans hlock) (h₁.claim.trans hclaim)

theorem keeps_tryAcquireFileLock {Q : Ghost → Option (Option LockGuard) → Prop}
    (hlock : m.lock = none) (hclaim : m.claim = .none)
    (hgot : ∀ m' i n, m'.lock = none → m'.claim = .held i n → Q m' (some (some ⟨me, n, false⟩)))
    (hnot : ∀ m' r, (faults = false → m'.claim = .none) → (∀ g, r ≠ some (some g)) → Q m' r) :
    (tryAcquireFileLock me).Keeps (duty me events faults) m Q := by
  refine keeps_bind.mpr (keeps_plain rfl trivial fun ok m₁ h₁ _ _ ↦ ?_)
  split
  · exact hnot m₁ none (fun _ ↦ h₁.claim.trans hclaim) fun _ hr ↦ by cases hr
  · refine keeps_bind.mpr (keeps_tryCreate_claimed (h₁.claim.trans hclaim) fun m₂ r₂ hl₂ hc₂ ↦ ?_)
    have hlock₂ : m₂.lock = none := hl₂.trans (h₁.lock.trans hlock)
    split
    · exact keeps_guardOf hlock₂ hc₂ hgot hnot
    · next hr₂ =>
      have hclaim₂ := hc₂.2 (by rw [not_not.mp hr₂]; decide)
      refine keeps_bind.mpr (keeps_plain rfl trivial fun r₃ m₃ h₃ he₃ _ ↦ ?_)
      have hlock₃ := h₃.lock.trans hlock₂
      have hclaim₃ := h₃.claim.trans hclaim₂
      cases r₃ with
      | file inode =>
        exact keeps_bind.mpr (keeps_stealOpenedLock (by rw [he₃]; rfl) hlock₃ hclaim₃
          fun m₄ r₄ hl₄ hc₄ ↦ keeps_guardOf hl₄ hc₄ hgot hnot)
      | missing =>
        exact keeps_bind.mpr (keeps_tryCreate_claimed hclaim₃
          fun m₄ r₄ hl₄ hc₄ ↦ keeps_guardOf (hl₄.trans hlock₃) hc₄ hgot hnot)
      | failed => exact hnot m₃ none (fun _ ↦ hclaim₃) fun _ hr ↦ by cases hr

/-! ### Release -/

variable {i : Nat} {n : Nonce}

/-- A claim that is given up: without faults its token is withdrawn. -/
theorem keeps_withdrawClaim {Q : Ghost → Unit → Prop} (hevents : events = false)
    (hclaim : m.claim = .held i n ∨ m.claim = .over i n)
    (h : ∀ m', m'.claim = .over i n → m'.lock = m.lock →
      (faults = false → m'.spent = true) → Q m' ()) :
    (withdrawClaim n).Keeps (duty me events faults) m Q := by
  have howns : ∀ {m' : Ghost}, m'.claim = .held i n ∨ m'.claim = .over i n →
      m'.owns n = true := by
    rintro m' (hc | hc) <;> simp [Ghost.owns, Claim.made, hc]
  have hnext : ∀ {m' : Ghost} (r : Option Bool), m'.claim = .held i n ∨ m'.claim = .over i n →
      (m'.next (.withdrawToken n) r).claim = .over i n := by
    rintro m' r (hc | hc) <;> simp [Ghost.next, hc]
  refine keeps_bind.mpr (keeps_query ⟨hevents, i, hclaim⟩ fun r hr ↦ ?_)
  have hc₁ := hnext r hclaim
  split
  · next hr' =>
    subst hr'
    have habsent : (m.next (.withdrawToken n) (some false)).absent = true := by
      simp [Ghost.next, howns hclaim]
    generalize hm₁ : m.next (.withdrawToken n) (some false) = m₁ at hc₁ habsent
    have hlock₁ : m₁.lock = m.lock := by rw [← hm₁]; rfl
    refine keeps_bind.mpr (keeps_query ⟨hevents, .inr ⟨rfl, i, hc₁⟩⟩ fun r₂ hr₂ ↦ ?_)
    cases r₂ with
    | false =>
      refine h m₁ hc₁ hlock₁ fun hf ↦ ?_
      rw [hr₂ rfl] at hf
      cases hf
    | true =>
      have hspent : (m₁.next (.publishToken n false) true).spent = true := by
        simp [Ghost.next, habsent, howns (.inr hc₁)]
      have hc₂ : (m₁.next (.publishToken n false) true).claim = .over i n := hc₁
      have hlock₂ : (m₁.next (.publishToken n false) true).lock = m.lock := hlock₁
      generalize m₁.next (.publishToken n false) true = m₂ at hspent hc₂ hlock₂
      refine keeps_bind.mpr (keeps_query ⟨hevents, i, .inr hc₂⟩
        fun r₃ _ ↦ h _ (hnext r₃ (.inr hc₂)) hlock₂ fun _ ↦ ?_)
      simp [Ghost.next, hspent]
  · next hr' =>
    refine h _ hc₁ rfl fun hf ↦ ?_
    rcases r with _ | _ | _
    · rw [hr rfl] at hf
      cases hf
    · exact absurd rfl hr'
    · simp [Ghost.next, howns hclaim]

/-- The removal of one's own lock file, under its advisory lock. -/
theorem keeps_releasing {Q : Ghost → Bool → Prop} (hlock : m.lock = some i)
    (hclaim : m.claim = .over i n)
    (h : ∀ m' r, m.Tidied m' → (events = true → faults = false → n ∈ m'.gone) → Q m' r) :
    (releasing events i (some me) (some n)).Keeps (duty me events faults) m Q := by
  have hmade : m.claim.made = some (i, n) := by rw [hclaim]; rfl
  refine keeps_bind.mpr (keeps_plain rfl (.inr hlock) fun record m₁ h₁ he₁ ha₁ ↦ ?_)
  obtain rfl := ha₁.2.1 n hmade
  have hrecord : m₁.lockedRecord = some ⟨some me, some n⟩ := by
    rw [Ghost.lockedRecord, he₁]
    simp [Ghost.next, hlock]
  rw [if_neg (by simp [LockRecord.expected])]
  refine keeps_bind.mpr (keeps_plain rfl trivial fun r₂ m₂ h₂ he₂ ha₂ ↦ ?_)
  have h₁₂ := h₁.trans h₂
  have hrecord₂ : m₂.lockedRecord = some ⟨some me, some n⟩ := by
    rw [he₂]
    cases r₂ <;> exact hrecord
  -- if it is not removed although it is one of the events, it was before
  have hnot : events = true → faults = false → r₂ ≠ .file i → n ∈ m₁.gone := by
    intro hev hf hr
    by_contra hn
    obtain hr' | hr' := ha₂.1 i (.inr ⟨n, .inr ⟨hev, by rw [h₁.claim, hmade], hn⟩⟩)
    · exact hr hr'
    · rw [ha₂.2 hr'] at hf
      cases hf
  split
  · next hr₂ =>
    subst hr₂
    have hsame₂ : m₂.same = true := by
      rw [he₂]
      simp [Ghost.next, h₁.lock, hlock]
    refine keeps_bind.mpr (keeps_plain rfl ⟨hsame₂, by simp [h₁₂.lock, hlock],
      .inr (.inr ⟨i, n, h₁₂.claim.trans hclaim, h₁₂.lock.trans hlock, by rw [hrecord₂]; rfl⟩)⟩
      fun r₃ m₃ h₃ he₃ ha₃ ↦ ?_)
    have h₁₃ := h₁₂.trans h₃
    split
    · next hr₃ =>
      have hgone : n ∈ m₃.gone := by
        rw [he₃, hr₃]
        simp [Ghost.next, hrecord₂]
      dsimp only
      split
      · exact h m₃ true h₁₃ fun _ _ ↦ hgone
      · exact keeps_bind.mpr (keeps_plain rfl (.inl hgone) fun _ m₄ h₄ _ _ ↦
          h m₄ true (h₁₃.trans h₄) fun _ _ ↦ h₄.gone n hgone)
    · next hr₃ =>
      refine h m₃ false h₁₃ fun _ hf ↦ ?_
      rw [ha₃ (by simpa using hr₃)] at hf
      cases hf
  · next hr₂ => exact h m₂ false h₁₂ fun hev hf ↦ h₂.gone n (hnot hev hf hr₂)

/-- What a release leaves: the claim over, and without faults one of the events gone. -/
structure Ghost.Released (events faults : Bool) (m m' : Ghost) (n : Nonce) : Prop where
  claim : m'.claim = m.claim
  spent : m'.spent = m.spent
  gone : events = true → faults = false → n ∈ m'.gone

theorem keeps_waitForChecker {Q : Ghost → Bool → Prop} (hmade : m.claim.made = some (i, n))
    (h : ∀ m' wait, m.Tidied m' → m'.opened = m.opened → (events = true → wait = true) →
      Q m' wait) :
    (waitForChecker events ⟨some me, some n⟩).Keeps (duty me events faults) m Q := by
  unfold waitForChecker
  split
  · next hev =>
    refine keeps_bind.mpr (keeps_plain rfl trivial fun r m₁ h₁ he₁ ha₁ ↦ ?_)
    refine h m₁ (!r) h₁ (by rw [he₁]; rfl) fun _ ↦ ?_
    rw [ha₁ hev i hmade]
    rfl
  · next hev => exact h m false (.refl m) rfl fun hev' ↦ absurd hev' hev

theorem keeps_releaseFileLock {Q : Ghost → Bool → Prop} (hlock : m.lock = none)
    (hclaim : m.claim = .over i n)
    (h : ∀ m' r, m.Released events faults m' n → Q m' r) :
    (releaseFileLockCheckedNonce events (some me) (some n)).Keeps (duty me events faults) m Q := by
  have hmade : m.claim.made = some (i, n) := by rw [hclaim]; rfl
  refine keeps_bind.mpr (keeps_plain rfl trivial fun r m₁ h₁ he₁ ha₁ ↦ ?_)
  -- an answer that is not of one's own inode is given only of a claim that is gone
  have hnot : ∀ {m'}, m.Tidied m' → r ≠ .file i → m.Released events faults m' n := by
    refine fun {m'} ht hr ↦ ⟨ht.claim, ht.spent, fun hev hf ↦ ht.gone n ?_⟩
    by_contra hn
    obtain hr' | hr' := ha₁.1 i (.inr ⟨n, .inr ⟨hev, hmade, hn⟩⟩)
    · exact hr hr'
    · rw [ha₁.2 hr'] at hf
      cases hf
  cases r with
  | missing => exact h m₁ false (hnot h₁ (by simp))
  | failed => exact h m₁ false (hnot h₁ (by simp))
  | file inode =>
    have hopened : m₁.opened = some inode := by rw [he₁]; rfl
    refine keeps_bind.mpr (keeps_plain rfl (.inl hopened) fun owner m₂ h₂ he₂ ha₂ ↦ ?_)
    have h₁₂ := h₁.trans h₂
    have hopened₂ : m₂.opened = some inode := by rw [he₂]; exact hopened
    by_cases hown : owner.expected (some me) (some n) = true
    · have howner : owner.nonce = some n := by
        simp only [LockRecord.expected, Option.all_some, Bool.and_eq_true,
          decide_eq_true_eq] at hown
        exact hown.2
      obtain rfl := ha₂.2.2 i n (by rw [h₁.claim, hmade]) howner
      obtain rfl := ha₂.2.1 n (by rw [h₁.claim, hmade])
      rw [if_neg (by simp [LockRecord.expected])]
      refine keeps_bind.mpr (keeps_waitForChecker (by rw [h₁₂.claim, hmade])
        fun m₃ wait h₃ ho₃ hwait ↦ ?_)
      have h₁₃ := h₁₂.trans h₃
      refine keeps_bind.mpr (keeps_query ⟨ho₃.trans hopened₂, h₁₃.lock.trans hlock⟩
        fun r₄ ha₄ ↦ ?_)
      cases r₄ with
      | busy =>
        exact h m₃ false ⟨h₁₃.claim, h₁₃.spent, fun hev _ ↦ absurd rfl (ha₄.2 (hwait hev))⟩
      | failed =>
        refine h m₃ false ⟨h₁₃.claim, h₁₃.spent, fun _ hf ↦ ?_⟩
        rw [ha₄.1 rfl] at hf
        cases hf
      | locked =>
        have hclaim₄ : (m₃.next (.flock inode wait) .locked).claim = .over inode n :=
          h₁₃.claim.trans hclaim
        have hspent₄ : (m₃.next (.flock inode wait) .locked).spent = m.spent := h₁₃.spent
        have hlock₄ : (m₃.next (.flock inode wait) .locked).lock = some inode := rfl
        generalize m₃.next (.flock inode wait) .locked = m₄ at hclaim₄ hspent₄ hlock₄
        refine keeps_bind.mpr (keeps_releasing hlock₄ hclaim₄ fun m₅ r₅ h₅ hgone₅ ↦ ?_)
        refine keeps_bind.mpr (keeps_cleanUp (h₅.lock.trans hlock₄)
          (.inr (.inr ⟨n, by rw [h₅.claim, hclaim₄]; rfl⟩)) fun m₆ h₆ ↦ ?_)
        refine keeps_bind.mpr (keeps_query (h₆.lock.trans (h₅.lock.trans hlock₄)) fun _ _ ↦ ?_)
        exact h _ r₅ ⟨(h₆.claim.trans (h₅.claim.trans hclaim₄)).trans hclaim.symm,
          h₆.spent.trans (h₅.spent.trans hspent₄), fun hev hf ↦ h₆.gone n (hgone₅ hev hf)⟩
    · rw [if_pos (by simpa using hown)]
      refine h m₂ false (hnot h₁₂ ?_)
      rintro ⟨⟩
      obtain rfl := ha₂.2.1 n (by rw [h₁.claim, hmade])
      exact hown (by simp [LockRecord.expected])

/-- Without faults, a claim that was made is over, and its file was removed or its token
withdrawn. -/
def Ghost.Done (faults : Bool) (m : Ghost) : Prop :=
  faults = false → ∀ i n, m.claim.made = some (i, n) →
    m.claim = .over i n ∧ (n ∈ m.gone ∨ m.spent = true)

/-- A claim of the events is over when it is released; any other is withdrawn then. -/
theorem keeps_release {delegated : Bool} (hlock : m.lock = none)
    (hclaim : events = true ∧ delegated = false ∧ m.claim = .over i n ∨
      events = false ∧ (m.claim = .held i n ∨ m.claim = .over i n)) :
    (LockGuard.release ⟨me, n, delegated⟩ events).Keeps (duty me events faults) m
      fun m' _ ↦ m'.Done faults := by
  have hrest : ∀ m₁ : Ghost, m₁.lock = none → m₁.claim = .over i n →
      (events = false → faults = false → m₁.spent = true) →
      (do let _ ← releaseFileLockCheckedNonce events (some me) (some n) : Act Unit).Keeps
        (duty me events faults) m₁ fun m' _ ↦ m'.Done faults := by
    intro m₁ hlock₁ hclaim₁ hspent₁
    refine keeps_bind.mpr (keeps_releaseFileLock hlock₁ hclaim₁ fun m₂ r₂ h₂ ↦ ?_)
    intro hf j n' hj
    rw [h₂.claim, hclaim₁] at hj
    cases hj
    refine ⟨h₂.claim.trans hclaim₁, ?_⟩
    cases hev : events with
    | true => exact .inl (h₂.gone hev hf)
    | false => exact .inr (h₂.spent.trans (hspent₁ hev hf))
  obtain ⟨hev, rfl, hc⟩ | ⟨hev, hc⟩ := hclaim
  · rw [LockGuard.release, hev]
    subst hev
    exact hrest m hlock hc fun hev ↦ by cases hev
  · rw [LockGuard.release, hev]
    subst hev
    dsimp only
    rw [if_pos (by simp)]
    exact keeps_bind.mpr (keeps_withdrawClaim rfl hc fun m₁ hc₁ hl₁ hs₁ ↦
      hrest m₁ (hl₁.trans hlock) hc₁ fun _ ↦ hs₁)

/-! ### Pins and sessions -/

theorem keeps_claimActive {Q : Ghost → Bool → Prop}
    (h : ∀ m' active, m.Tidied m' → m'.seen = m.seen → Q m' active) :
    (claimActive n).Keeps (duty me events faults) m Q := by
  refine keeps_bind.mpr (keeps_plain rfl trivial fun token m₁ h₁ he₁ _ ↦ h m₁ _ h₁ ?_)
  rw [he₁]
  rcases token with _ | _ | _ <;> rfl

theorem keeps_unchanged {expected : Bool} {ownerPid : Int32} {Q : Ghost → Bool → Prop}
    (h : ∀ m' r, m.Tidied m' → m'.seen = m.seen → Q m' r) :
    (unchanged expected ownerPid n).Keeps (duty me events faults) m Q := by
  unfold unchanged
  split
  · exact h m false (.refl m) rfl
  · refine keeps_bind.mpr (keeps_plain rfl trivial fun alive m₁ h₁ he₁ _ ↦ ?_)
    have hs₁ : m₁.seen = m.seen := by rw [he₁]; cases alive <;> rfl
    split
    · exact keeps_claimActive fun m₂ active h₂ hs₂ ↦ h m₂ active (h₁.trans h₂) (hs₂.trans hs₁)
    · exact h m₁ false h₁ hs₁

/-- A pin has the advisory lock of one's own inode. -/
theorem keeps_pinClaim {Q : Ghost → Option Nat → Prop} (hlock : m.lock = none)
    (hclaim : m.claim = .held i n)
    (hgot : ∀ m', m'.claim = .held i n → m'.lock = some i →
      m'.seen = some (i, ⟨some me, some n⟩) → Q m' (some i))
    (hnot : ∀ m', m'.claim = .held i n → m'.lock = none → Q m' none) :
    (pinClaim me n).Keeps (duty me events faults) m Q := by
  have hfirm : m.claim.firm = some (i, n) := by rw [hclaim]; rfl
  refine keeps_bind.mpr (keeps_plain rfl trivial fun r m₁ h₁ he₁ ha₁ ↦ ?_)
  have hclaim₁ := h₁.claim.trans hclaim
  cases r with
  | missing => exact hnot m₁ hclaim₁ (h₁.lock.trans hlock)
  | failed => exact hnot m₁ hclaim₁ (h₁.lock.trans hlock)
  | file inode =>
    obtain hr | hr := ha₁.1 i (.inr ⟨n, .inl hfirm⟩)
    · cases hr
      refine keeps_bind.mpr (keeps_query ⟨by rw [he₁]; rfl, h₁.lock.trans hlock⟩ fun r₂ _ ↦ ?_)
      cases r₂ with
      | busy => exact hnot m₁ hclaim₁ (h₁.lock.trans hlock)
      | failed => exact hnot m₁ hclaim₁ (h₁.lock.trans hlock)
      | locked =>
        have hclaim₂ : (m₁.next (.flock i false) .locked).claim = .held i n := hclaim₁
        have hlock₂ : (m₁.next (.flock i false) .locked).lock = some i := rfl
        generalize m₁.next (.flock i false) .locked = m₂ at hclaim₂ hlock₂
        refine keeps_bind.mpr (keeps_plain rfl trivial fun current m₃ h₃ _ _ ↦ ?_)
        refine keeps_bind.mpr (keeps_plain rfl (.inr (h₃.lock.trans hlock₂))
          fun owner m₄ h₄ he₄ ha₄ ↦ ?_)
        obtain rfl := ha₄.2.1 n (by rw [h₃.claim, hclaim₂]; rfl)
        have hseen₄ : m₄.seen = some (i, ⟨some me, some n⟩) := by rw [he₄]; rfl
        refine keeps_bind.mpr (keeps_unchanged fun m₅ r₅ h₅ hs₅ ↦ ?_)
        have h₂₅ := (h₃.trans h₄).trans h₅
        split
        · exact hgot m₅ (h₂₅.claim.trans hclaim₂) (h₂₅.lock.trans hlock₂) (hs₅.trans hseen₄)
        · refine keeps_bind.mpr (keeps_cleanUp (h₂₅.lock.trans hlock₂)
            (.inr (.inr ⟨n, by rw [h₂₅.claim, hclaim₂]; rfl⟩)) fun m₆ h₆ ↦ ?_)
          exact keeps_bind.mpr (keeps_query ((h₂₅.trans h₆).lock.trans hlock₂) fun _ _ ↦
            hnot _ ((h₂₅.trans h₆).claim.trans hclaim₂) rfl)
    · cases hr

theorem keeps_dropPin {Q : Ghost → Unit → Prop} (hlock : m.lock = some i)
    (hclaim : m.claim = .over i n) (hseen : m.seen = some (i, ⟨some me, some n⟩))
    (h : ∀ m', m'.claim = .over i n → m'.lock = none → Q m' ()) :
    (dropPin i n).Keeps (duty me events faults) m Q := by
  have hunlock : ∀ m₁, m.Tidied m₁ → (unlock i).Keeps (duty me events faults) m₁ Q := by
    intro m₁ h₁
    exact keeps_query (h₁.lock.trans hlock) fun _ _ ↦ h _ (h₁.claim.trans hclaim) rfl
  refine keeps_bind.mpr (keeps_claimActive fun m₁ active h₁ hs₁ ↦ ?_)
  have hseen₁ := hs₁.trans hseen
  split
  · refine keeps_bind.mpr (keeps_plain rfl trivial fun r₂ m₂ h₂ he₂ _ ↦ ?_)
    have h₁₂ := h₁.trans h₂
    split
    · next hr₂ =>
      subst hr₂
      have hsame₂ : m₂.same = true := by
        rw [he₂]
        simp [Ghost.next, h₁.lock, hlock]
      have hrecord₂ : m₂.lockedRecord = some ⟨some me, some n⟩ := by
        rw [Ghost.lockedRecord, he₂]
        simp [Ghost.next, hseen₁, h₁.lock, hlock]
      refine keeps_bind.mpr (keeps_plain rfl ⟨hsame₂, by simp [h₁₂.lock, hlock],
        .inr (.inr ⟨i, n, h₁₂.claim.trans hclaim, h₁₂.lock.trans hlock, by rw [hrecord₂]; rfl⟩)⟩
        fun r₃ m₃ h₃ he₃ _ ↦ ?_)
      have h₁₃ := h₁₂.trans h₃
      split
      · next hr₃ =>
        refine keeps_bind.mpr (keeps_plain rfl (.inl ?_) fun _ m₄ h₄ _ _ ↦
          hunlock m₄ (h₁₃.trans h₄))
        rw [he₃, hr₃]
        simp [Ghost.next, hrecord₂]
      · exact hunlock m₃ h₁₃
    · exact hunlock m₂ h₁₂
  · exact hunlock m₁ h₁

theorem keeps_activateClaim {Q : Ghost → Bool → Prop} (hevents : events = false)
    (hclaim : m.claim = .held i n)
    (h : ∀ m' r, m'.claim = .held i n → m'.lock = m.lock → Q m' r) :
    (activateClaim n).Keeps (duty me events faults) m Q := by
  refine keeps_bind.mpr (keeps_query ⟨hevents, .inl ⟨rfl, i, hclaim⟩⟩ fun r _ ↦ ?_)
  have hclaim₁ : (m.next (.publishToken n true) r).claim = .held i n := by cases r <;> exact hclaim
  have hlock₁ : (m.next (.publishToken n true) r).lock = m.lock := by cases r <;> rfl
  split
  · exact keeps_bind.mpr (keeps_plain rfl trivial fun token m₂ h₂ _ _ ↦
      h m₂ _ (h₂.claim.trans hclaim₁) (h₂.lock.trans hlock₁))
  · exact h _ false hclaim₁ hlock₁

/-- A claimant keeps its contract; a creation lock may be pinned. -/
theorem keeps_session {pin : Bool} (hpin : pin = true → events = false) :
    (session events pin me).Keeps (duty me events faults) {} fun m _ ↦ m.Done faults := by
  refine keeps_bind.mpr (keeps_tryAcquireFileLock rfl rfl (fun m i n hlock hclaim ↦ ?_)
    fun m r hnone hr ↦ ?_)
  · have hused : ∀ m' : Ghost, m'.claim = .held i n →
        ((m'.next .enter ()).next .leave ()).claim = .over i n := by
      intro m' hc
      simp [Ghost.next, hc]
    have hinside : ∀ m' : Ghost, m'.claim = .held i n →
        (m'.next .enter ()).claim = .inside i n := by
      intro m' hc
      simp [Ghost.next, hc]
    dsimp only
    split
    · next hp =>
      have hev := hpin hp
      refine keeps_bind.mpr (keeps_activateClaim hev hclaim fun m₁ active hc₁ hl₁ ↦ ?_)
      split
      · refine keeps_bind.mpr (keeps_pinClaim (hl₁.trans hlock) hc₁
          (fun m₂ hc₂ hl₂ hs₂ ↦ ?_) fun m₂ hc₂ hl₂ ↦ ?_)
        · refine keeps_bind.mpr (keeps_query ⟨i, n, hc₂⟩ fun _ _ ↦ ?_)
          refine keeps_bind.mpr (keeps_query ⟨i, n, hinside m₂ hc₂⟩ fun _ _ ↦ ?_)
          refine keeps_bind.mpr (keeps_dropPin ?_ (hused m₂ hc₂) ?_ fun m₃ hc₃ hl₃ ↦ ?_)
          · simp [Ghost.next, hc₂, hl₂]
          · simp [Ghost.next, hc₂, hs₂]
          · subst hev
            exact keeps_release hl₃ (.inr ⟨rfl, .inr hc₃⟩)
        · subst hev
          exact keeps_release hl₂ (.inr ⟨rfl, .inl hc₂⟩)
      · subst hev
        exact keeps_release (hl₁.trans hlock) (.inr ⟨rfl, .inl hc₁⟩)
    · refine keeps_bind.mpr (keeps_query ⟨i, n, hclaim⟩ fun _ _ ↦ ?_)
      refine keeps_bind.mpr (keeps_query ⟨i, n, hinside m hclaim⟩ fun _ _ ↦ ?_)
      refine keeps_release (i := i) ?_ ?_
      · simp [Ghost.next, hclaim, hlock]
      · cases hev : events with
        | true => exact .inl ⟨rfl, rfl, hused m hclaim⟩
        | false => exact .inr ⟨rfl, .inr (hused m hclaim)⟩
  · have hdone : m.Done faults := by
      intro hf i n hmade
      rw [hnone hf] at hmade
      cases hmade
    rcases r with _ | _ | g
    · exact hdone
    · exact hdone
    · exact absurd rfl (hr g)

end Rules

end PtySpec.Registry.LockFile
