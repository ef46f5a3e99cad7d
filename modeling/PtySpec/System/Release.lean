import PtySpec.System.Record

/-!
# The release byte

In every run of the record's participants the release byte of a held child follows a
durable transfer by the same actor. A record that was ever asked to retire is never
transferred, so once an operation is closed its command has not run and never will.
-/

namespace PtySpec.System

open Lib Operation Daemon

/-- Thread `i` has written a transferred record. -/
def HasTransferred (i : Nat) (log : List Entry) : Prop :=
  ∃ r, Entry.wrote i r ∈ log ∧ r.state = .transferred

/-- Some thread has tried to release the child behind the gate. -/
def Released (gate : Nat) (log : List Entry) : Prop := ∃ i, Entry.released i gate ∈ log

/-- Where release bytes come from. -/
structure Accounted (s : Sys) : Prop where
  wrote : ∀ i r, Entry.wrote i r ∈ s.log → r ∈ s.versions
  committed : ∀ i t, s.threads[i]? = some t → t.ghost.committed = true → HasTransferred i s.log
  released : ∀ i g rest, (Entry.released i g :: rest) <:+ s.log → HasTransferred i rest
  gates : ∀ g, s.gates g ≠ [] → Released g s.log
  children : ∀ g, HeldChild.executing g ∈ s.children → Released g s.log

theorem HasTransferred.mono {i : Nat} {log log' : List Entry} (h : HasTransferred i log)
    (hl : ∀ e ∈ log, e ∈ log') : HasTransferred i log' := by
  obtain ⟨r, hr, hs⟩ := h
  exact ⟨r, hl _ hr, hs⟩

theorem Released.mono {g : Nat} {log log' : List Entry} (h : Released g log)
    (hl : ∀ e ∈ log, e ∈ log') : Released g log' := by
  obtain ⟨i, hi⟩ := h
  exact ⟨i, hl _ hi⟩

namespace Accounted

variable {s : Sys}

/-- A thread whose transfer, if any, is in the log may take another's place. -/
theorem goOn (h : Accounted s) {i : Nat} {t : Thread Op Op.Ans Ghost (Option Actor)}
    (ht : t.ghost.committed = true → HasTransferred i s.log) : Accounted (s.goOn i t) where
  wrote := h.wrote
  committed := by
    intro j u hj hu
    simp only [Sys.goOn, List.getElem?_set] at hj
    split at hj
    · next hij =>
      split at hj
      · cases hj
        exact hij ▸ ht hu
      · cases hj
    · exact h.committed j u hj hu
  released := h.released
  gates := h.gates
  children := h.children

/-- After a write the log holds its success, and the success is a version. -/
theorem land (h : Accounted s) (hi : Inv s) (i : Nat) (io : Io) (path : String)
    {expected next : OperationRecord} {label : String}
    (hm : next.check = .ok () → Move expected next) :
    Accounted (s.land i (writeCasAs io path s.dir expected next label)) := by
  obtain ⟨-, hv, hok⟩ := hi.record.write s.dir rfl io path label hm
  have hmem : ∀ v ∈ s.versions,
      v ∈ (s.land i (writeCasAs io path s.dir expected next label)).versions :=
    fun v hv' ↦ hv.subset hv'
  cases hw : (writeCasAs io path s.dir expected next label).1 with
  | error e =>
    have hlog : (s.land i (writeCasAs io path s.dir expected next label)).log = s.log := by
      simp [Sys.land, hw]
    refine ⟨?_, ?_, ?_, ?_, ?_⟩ <;> rw [hlog]
    · exact fun j r hr ↦ hmem r (h.wrote j r hr)
    · exact h.committed
    · exact h.released
    · exact h.gates
    · exact h.children
  | ok w =>
    have hlog : (s.land i (writeCasAs io path s.dir expected next label)).log =
        .wrote i w :: s.log := by
      simp [Sys.land, hw]
    have hmono : ∀ e ∈ s.log, e ∈ Entry.wrote i w :: s.log := fun _ he ↦ List.mem_cons_of_mem _ he
    refine ⟨?_, ?_, ?_, ?_, ?_⟩ <;> rw [hlog]
    · intro j r hr
      rcases List.mem_cons.mp hr with heq | hr
      · cases heq
        exact (hok w hw).2.2
      · exact hmem r (h.wrote j r hr)
    · exact fun j t hj ht ↦ (h.committed j t hj ht).mono hmono
    · intro j g rest hr
      rcases List.suffix_cons_iff.mp hr with heq | hr
      · cases heq
      · exact h.released j g rest hr
    · exact fun g hg ↦ (h.gates g hg).mono hmono
    · exact fun g hg ↦ (h.children g hg).mono hmono

/-- A release by a thread that has transferred is accounted for. -/
theorem release (h : Accounted s) {i gate : Nat} {written : Bool} (hi : HasTransferred i s.log) :
    Accounted (s.release i gate written) := by
  have hmono : ∀ e ∈ s.log, e ∈ Entry.released i gate :: s.log :=
    fun _ he ↦ List.mem_cons_of_mem _ he
  refine ⟨?_, ?_, ?_, ?_, ?_⟩
  · intro j r hr
    rcases List.mem_cons.mp hr with heq | hr
    · cases heq
    · exact h.wrote j r hr
  · exact fun j t hj ht ↦ (h.committed j t hj ht).mono hmono
  · intro j g rest hr
    rcases List.suffix_cons_iff.mp hr with heq | hr
    · cases heq
      exact hi
    · exact h.released j g rest hr
  · intro g hg
    by_cases hgate : g = gate
    · exact ⟨i, hgate ▸ List.mem_cons_self⟩
    · simp only [Sys.release, hgate, and_false, if_false] at hg
      exact (h.gates g hg).mono hmono
  · exact fun g hg ↦ (h.children g hg).mono hmono

/-- Serving an interaction that the contract admits keeps the account. -/
theorem serves (h : Accounted s) (hi : Inv s) {s' : Sys} {path : String} {i : Nat}
    {t : Thread Op Op.Ans Ghost (Option Actor)} (ht : s.threads[i]? = some t) {o : Op} {r : o.Ans}
    (hask : mayAsk t.ghost o) (hr : s.Serves path i o r s') :
    Accounted s' ∧ ((t.ghost.next o r).committed = true → HasTransferred i s'.log) := by
  have hsame : Accounted s ∧ (t.ghost.committed = true → HasTransferred i s.log) :=
    ⟨h, h.committed i t ht⟩
  cases o with
  | writeCas expected next label =>
    obtain ⟨io, rfl, rfl⟩ := hr
    refine ⟨h.land hi i io path hask.1, fun hc ↦ ?_⟩
    have hlater : HasTransferred i s.log →
        HasTransferred i (s.land i (writeCasAs io path s.dir expected next label)).log :=
      fun ht ↦ ht.mono fun e he ↦ by
        simp only [Sys.land]
        split
        · exact List.mem_cons_of_mem _ he
        · exact he
    cases hw : (writeCasAs io path s.dir expected next label).1 with
    | error e =>
      simp only [Ghost.next, hw, Ghost.wrote, Bool.false_and, Bool.or_false] at hc
      exact hlater (hsame.2 hc)
    | ok w =>
      simp only [Ghost.next, hw, Ghost.wrote, Bool.true_and, Bool.or_eq_true,
        decide_eq_true_eq] at hc
      rcases hc with hc | hc
      · exact hlater (hsame.2 hc)
      · obtain ⟨-, hstamp, -⟩ := (hi.record.write s.dir rfl io path label hask.1).2.2 w hw
        refine ⟨w, by simp [Sys.land, hw], ?_⟩
        rw [hstamp]
        exact hc
  | readRecord =>
    obtain ⟨-, rfl⟩ := hr
    exact hsame
  | release gate =>
    cases hr
    refine ⟨h.release (hsame.2 hask), fun hc ↦ ?_⟩
    exact (hsame.2 hc).mono fun _ he ↦ List.mem_cons_of_mem _ he
  | setTransferred =>
    cases hr
    exact hsame
  | replyCommit reply ticket answer =>
    cases hr
    cases answer <;> exact hsame
  | replyReady reply answer =>
    cases hr
    cases answer <;> exact hsame
  | tellWorker cmd =>
    cases hr
    cases cmd <;> exact hsame
  | tellLoop msg =>
    cases hr
    cases msg <;> exact hsame
  | env q =>
    cases hr
    exact hsame

/-- A child's turn at its gate keeps the account: it runs only on a byte that was sent. -/
theorem turn (h : Accounted s) {j gate : Nat} {read : GateRead} {gates : Nat → List UInt8}
    (hr : ∀ b, read = .byte b → s.gates gate ≠ [])
    (hg : ∀ g, gates g ≠ [] → s.gates g ≠ []) :
    Accounted { s with children := s.children.set j (.turn gate read), gates := gates } where
  wrote := h.wrote
  committed := h.committed
  released := h.released
  gates := fun g hne ↦ h.gates g (hg g hne)
  children := by
    intro g hmem
    rcases List.mem_or_eq_of_mem_set hmem with hmem | heq
    · exact h.children g hmem
    · cases read with
      | byte b =>
        simp only [HeldChild.turn] at heq
        split at heq
        · cases heq
          exact h.gates gate (hr b rfl)
        · cases heq
      | interrupted => cases heq
      | closed => cases heq

/-- Every step keeps the account and forgets nothing. -/
theorem step (h : Accounted s) (hi : Inv s) {operationDigest : String → String} {path : String}
    {t : Sys} (hs : Sys.Step operationDigest path s t) : Accounted t := by
  cases hs with
  | reserve io envelope now =>
    obtain ⟨-, hv⟩ := hi.record.reserve s.dir rfl io envelope now
    exact ⟨fun i r hr ↦ hv.subset (h.wrote i r hr), h.committed, h.released, h.gates, h.children⟩
  | join role =>
    refine ⟨h.wrote, fun i t ht hc ↦ ?_, h.released, h.gates, h.children⟩
    rw [List.getElem?_append] at ht
    split at ht
    · exact h.committed i t ht hc
    · have := List.mem_singleton.mp (List.mem_of_getElem? ht)
      rw [this] at hc
      cases hc
  | answer s' i m o k r ht hr =>
    have hk := hi.threads _ (List.mem_of_getElem? ht)
    obtain ⟨h', hc⟩ := h.serves hi ht hk.1 hr
    exact h'.goOn hc
  | event i m a e ht hd =>
    refine h.goOn fun hc ↦ h.committed i _ ht ?_
    cases e <;> exact hc
  | fork gate =>
    refine ⟨h.wrote, h.committed, h.released, h.gates, fun g hg ↦ ?_⟩
    rcases List.mem_append.mp hg with hg | hg
    · exact h.children g hg
    · cases List.mem_singleton.mp hg
  | childReads j gate b rest hc hb =>
    refine h.turn (fun b' hb' ↦ by simp [hb]) fun g hg ↦ ?_
    split at hg
    · next heq => simp [heq, hb]
    · exact hg
  | childWaits j gate read hc hr =>
    exact h.turn (fun b hb ↦ absurd hb (hr b)) fun _ hg ↦ hg

end Accounted

/-- Every reached state accounts for its release bytes. -/
theorem accounted_of_reached {operationDigest : String → String} {path : String} {s : Sys}
    (h : Reached operationDigest path s) : Accounted s := by
  refine h.induct (fun s hs ↦ ?_) fun s t hr ha hs ↦ ha.step (inv_of_reached hr) hs
  obtain ⟨-, hv, hl, ht, hg, hc⟩ := hs
  exact ⟨by simp [hl], by simp [ht], by simp [hl], by simp [hg], by simp [hc]⟩

/-! ### Retirement and transfer exclude each other -/

/-- Of two versions one keeps what the other settled. -/
theorem Sound.kept_or_kept {file : RecordFile} {versions : List OperationRecord}
    (h : Sound file versions) {v w : OperationRecord} (hv : v ∈ versions) (hw : w ∈ versions) :
    v = w ∨ Kept w v ∨ Kept v w := by
  let R (v w : OperationRecord) : Prop := Kept w v ∨ Kept v w
  have : Std.Symm R := ⟨fun _ _ h ↦ h.symm⟩
  have hall := (h.pairwise.imp (S := R) fun hk ↦ .inl hk).forall
  by_cases heq : v = w
  · exact .inl heq
  · exact .inr (hall hv hw heq)

/-- A version that shares a history with one that was asked to retire, or was cancelled,
is not transferred. -/
theorem Sound.not_transferred {file : RecordFile} {versions : List OperationRecord}
    (h : Sound file versions) {v w : OperationRecord} (hv : v ∈ versions) (hw : w ∈ versions)
    (hc : v.retirement.isSome = true ∨ v.state = .cancelled) : w.state ≠ .transferred := by
  intro ht
  have hnone := (OperationRecord.transferred_of_check (h.checked w hw) ht).1
  have hn : v.state ≠ .transferred := by
    intro hv'
    have := (OperationRecord.transferred_of_check (h.checked v hv) hv').1
    simp_all
  rcases h.kept_or_kept hv hw with rfl | hkept | hkept
  · exact hn ht
  · -- the transferred version is the older one: its state would have stayed
    exact hn ((hkept.ended (.inr ht)).trans ht)
  · rcases hc with hc | hc
    · simpa [hnone] using hkept.retirement hc
    · have := hkept.ended (.inl hc)
      rw [ht, hc] at this
      cases this

/-- Once an operation is closed, no version of its record is transferred. -/
theorem Sound.not_transferred_of_closed {file : RecordFile} {versions : List OperationRecord}
    (h : Sound file versions) {e : Evidence} {snap : Snapshot} {digest : String}
    {record : OperationRecord} (hc : ClosedBy e snap digest record) (hr : record ∈ versions)
    {w : OperationRecord} (hw : w ∈ versions) : w.state ≠ .transferred := by
  have hd := hc.durableEnd
  unfold OperationRecord.durableEnd at hd
  split at hd
  · next hs => exact h.not_transferred hr hw (.inr hs)
  · next hs =>
    refine h.not_transferred hr hw (.inl ?_)
    cases hret : record.retirement <;> simp_all [OperationRecord.retirementPhase]
  · cases hd

/-- Nothing of the operation's command has run: no release was tried, no byte is under way
and no child executes. -/
structure NeverRan (s : Sys) : Prop where
  released : ∀ i g, Entry.released i g ∉ s.log
  gates : ∀ g, s.gates g = []
  children : ∀ g, HeldChild.executing g ∉ s.children

/-- Without a transferred version nothing was released. -/
theorem Accounted.neverRan {s : Sys} (h : Accounted s)
    (hv : ∀ v ∈ s.versions, v.state ≠ .transferred) : NeverRan s := by
  have hrel : ∀ i g, Entry.released i g ∉ s.log := by
    intro i g hmem
    obtain ⟨l₁, l₂, hl⟩ := List.append_of_mem hmem
    obtain ⟨r, hr, hs⟩ := h.released i g l₂ ⟨l₁, hl.symm⟩
    refine hv r (h.wrote i r ?_) hs
    rw [hl]
    exact List.mem_append_right _ (List.mem_cons_of_mem _ hr)
  have hno : ∀ g, ¬Released g s.log := fun g ⟨i, hi⟩ ↦ hrel i g hi
  exact ⟨hrel, fun g ↦ Decidable.byContradiction fun hne ↦ hno g (h.gates g hne),
    fun g hg ↦ hno g (h.children g hg)⟩

/-- Later states hold every version of earlier ones. -/
theorem versions_suffix {operationDigest : String → String} {path : String} {s t : Sys}
    (h : Reached operationDigest path s)
    (hst : Relation.ReflTransGen (Sys.Step operationDigest path) s t) :
    Reached operationDigest path t ∧ s.versions <:+ t.versions := by
  induction hst with
  | refl => exact ⟨h, List.suffix_refl _⟩
  | tail _ hs ih => exact ⟨ih.1.tail hs, ih.2.trans ((inv_of_reached ih.1).step hs).2⟩

/-- In every run the release byte follows a transfer by the same thread, a record that was
ever asked to retire is not transferred, and an operation that `settle` finds closed has
not run its command and never will. -/
theorem released_of_reached (operationDigest : String → String) (path : String) (s : Sys)
    (h : Reached operationDigest path s) :
    (∀ i g rest, (Entry.released i g :: rest) <:+ s.log → HasTransferred i rest) ∧
      (∀ v rest, (v :: rest) <:+ s.versions →
        (∃ o ∈ v :: rest, o.retirement.isSome = true) → v.state ≠ .transferred) ∧
      ∀ e snap digest io, e.read = readRecord io path s.dir.record →
        (settle e snap digest).Closed →
        ∀ t, Relation.ReflTransGen (Sys.Step operationDigest path) s t → NeverRan t := by
  have hs := (inv_of_reached h).record
  refine ⟨(accounted_of_reached h).released, ?_, ?_⟩
  · rintro v rest hv ⟨o, ho, hr⟩
    exact hs.not_transferred (hv.subset ho) (hv.subset List.mem_cons_self) (.inl hr)
  · intro e snap digest io hread hclosed t hst
    obtain ⟨record, hc⟩ := (settle_closed_iff e snap digest).mp hclosed
    obtain ⟨ht, hsuffix⟩ := versions_suffix h hst
    have hmem : record ∈ t.versions :=
      hsuffix.subset (List.mem_of_mem_head? (hs.head_of_read (hread ▸ hc.read)))
    refine (accounted_of_reached ht).neverRan fun v hv ↦ ?_
    exact (inv_of_reached ht).record.not_transferred_of_closed hc hmem hv

/-- The withdrawn reservation is closed and its command has not run. -/
theorem released_of_reached_recovered : ∃ s, Reached id "op.json" s ∧
    s.dir.record = .text (.ok recoveredRecord) ∧ NeverRan s := by
  obtain ⟨s, hs, hd, -⟩ := recovered_reached
  let e : Evidence :=
    { cancelledEvidence .unreadable with
      read := readRecord (.quiet "") "op.json" (.text (.ok recoveredRecord)) }
  have hclosed : (settle e ⟨"op", "sha", .retire, some "r1"⟩ "h").Closed := by rfl
  exact ⟨s, hs, hd, (released_of_reached id "op.json" s hs).2.2 e _ _ (.quiet "") (hd ▸ rfl)
    hclosed s .refl⟩

end PtySpec.System
