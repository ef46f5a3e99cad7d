import PtySpec.Client.Stats

/-!
# What a status query comes to

What a session's socket has to give decides what a status query comes to, from whatever stage it
has reached. The single query comes to it when its budget lasts.
-/

namespace PtySpec.Client.Stats

open Protocol

/-! ### What a query comes to -/

/-- What the rest of a query comes to: the first instant at which everything it asks for is there,
how many calls it takes, and its result. -/
structure Ending (σ : Type) where
  instant : Nat
  calls : Nat
  result : Except StatsError σ

/-- An ending that a call precedes which has to wait for an instant. -/
def Ending.after {σ : Type} (since : Nat) (e : Ending σ) : Ending σ :=
  ⟨max since e.instant, e.calls + 1, e.result⟩

/-- What a read comes to for a query: another state of its reader, or its payload or error. -/
def readOutcome (name : String) (reader : PacketReader) (sawUnknown : Bool) :
    Except Failure (List UInt8) → (PacketReader × Bool) ⊕ Except StatsError (List UInt8)
  | .ok [] => .inr (.error (missingStatusError name sawUnknown))
  | .ok chunk =>
    match reader.feed chunk with
    | (reader, .ok packets) =>
      match scanPackets packets sawUnknown with
      | .inl json => .inr (.ok json)
      | .inr sawUnknown => .inl (reader, sawUnknown)
    | (_, .error _) => .inr (.error (.statsTimeout name))
  | .error e => .inr (.error (ioError name "read" none e.1))

section

variable {σ : Type} (parse : List UInt8 → Option σ) (s : Session)

/-- What the reads of a query come to. -/
def readEnding : List ReadAnswer → PacketReader → Bool → Option (Ending σ)
  | [], _, _ => none
  | a :: reads, reader, sawUnknown =>
    match readOutcome s.name reader sawUnknown a.value with
    | .inl (reader, sawUnknown) => (readEnding reads reader sawUnknown).map (·.after a.since)
    | .inr r => some ⟨a.since, 1, parsed parse s.name r⟩

/-- What the writes and the reads of a query come to. -/
def writeEnding (reads : List ReadAnswer) : List WriteAnswer → (written : Nat) → Option (Ending σ)
  | [], written =>
    if encodeStatus.length ≤ written then readEnding parse s reads {} false else none
  | a :: writes, written =>
    if encodeStatus.length ≤ written then readEnding parse s reads {} false
    else
      match a.value with
      | .error e => some ⟨a.since, 1, .error (ioError s.name "write" (some s.path) e.1)⟩
      | .ok n =>
        (writeEnding reads writes (written + min n.1 (encodeStatus.length - written))).map
          (·.after a.since)

/-- What a connect that has room comes to. -/
def outcomeEnding : Outcome → Option (Ending σ)
  | .connected => writeEnding parse s s.listener.stream.reads s.listener.stream.writes 0
  | .inProgress settled none =>
    (writeEnding parse s s.listener.stream.reads s.listener.stream.writes 0).map (·.after settled)
  | .inProgress settled (some e) =>
    some ⟨settled, 1, .error (ioError s.name "connect" (some s.path) e)⟩
  | .failed e => some ⟨0, 0, .error (ioError s.name "connect" (some s.path) e)⟩

/-- What a query of a session comes to from the start. -/
def ending : Option (Ending σ) :=
  s.listener.room.bind fun room ↦ (outcomeEnding parse s s.listener.outcome).map (·.after room)

/-- What a batched query comes to from where it stands. -/
def Step.ending : Step σ → Option (Ending σ)
  | .connect _ => Stats.ending parse s
  | .connecting stream settled none =>
    (writeEnding parse s stream.reads stream.writes 0).map (·.after settled)
  | .connecting _ settled (some e) =>
    some ⟨settled, 1, .error (ioError s.name "connect" (some s.path) e)⟩
  | .writing stream written => writeEnding parse s stream.reads stream.writes written
  | .reading stream reader sawUnknown => readEnding parse s stream.reads reader sawUnknown
  | .done result => some ⟨0, 0, result⟩

/-- An ending waits for the next read. -/
theorem since_le_readEnding {a : ReadAnswer} {reads : List ReadAnswer} {reader : PacketReader}
    {saw : Bool} {e : Ending σ} (h : readEnding parse s (a :: reads) reader saw = some e) :
    a.since ≤ e.instant ∧ 0 < e.calls := by
  rw [readEnding] at h
  split at h
  · obtain ⟨e', -, rfl⟩ := Option.map_eq_some_iff.1 h
    exact ⟨Nat.le_max_left _ _, Nat.succ_pos _⟩
  · obtain rfl := Option.some.inj h
    exact ⟨Nat.le_refl _, Nat.one_pos⟩

/-- An ending of a request that is not written whole waits for the next write. -/
theorem since_le_writeEnding {a : WriteAnswer} {writes : List WriteAnswer}
    {reads : List ReadAnswer} {written : Nat} {e : Ending σ}
    (hw : written < encodeStatus.length)
    (h : writeEnding parse s reads (a :: writes) written = some e) :
    a.since ≤ e.instant ∧ 0 < e.calls := by
  rw [writeEnding, if_neg (by omega)] at h
  split at h
  · obtain rfl := Option.some.inj h
    exact ⟨Nat.le_refl _, Nat.one_pos⟩
  · obtain ⟨e', -, rfl⟩ := Option.map_eq_some_iff.1 h
    exact ⟨Nat.le_max_left _ _, Nat.succ_pos _⟩

/-! ### The single query comes to it -/

/-- What calls come to that are made after an instant and after other calls: what an ending says,
exactly when the deadline is later. The ending counts some waits that are no calls. -/
structure Meets (deadline waits now calls : Nat)
    (f : Option (Finish (Except StatsError (List UInt8)))) (e : Option (Ending σ)) : Prop where
  finish : ∀ e' ∈ e, max now e'.instant < deadline →
    ∃ f' ∈ f, f'.instant = max now e'.instant ∧ calls + e'.calls ≤ f'.calls + waits ∧
      parsed parse s.name f'.result = e'.result
  ending : ∀ f' ∈ f, f'.instant < deadline → ∃ e' ∈ e, max now e'.instant < deadline

/-- What comes after a call that has to wait comes to what the call and the rest come to. -/
theorem Meets.after {deadline waits now calls since : Nat}
    {f : Option (Finish (Except StatsError (List UInt8)))} {e : Option (Ending σ)}
    (h : Meets parse s deadline waits (max now since) (calls + 1) f e) :
    Meets parse s deadline waits now calls f (e.map (·.after since)) := by
  refine ⟨fun e' he' hlt ↦ ?_, fun f' hf' hlt ↦ ?_⟩
  · obtain ⟨e, he, rfl⟩ := Option.map_eq_some_iff.1 he'
    simp only [Ending.after] at hlt ⊢
    obtain ⟨f', hf', hinstant, hcalls, hresult⟩ := h.finish e he (by omega)
    exact ⟨f', hf', by omega, by omega, hresult⟩
  · obtain ⟨e, he, hlt⟩ := h.ending f' hf' hlt
    refine ⟨e.after since, Option.map_eq_some_iff.2 ⟨e, he, rfl⟩, ?_⟩
    simp only [Ending.after]
    omega

/-- A wait that is no call of its own. -/
theorem Meets.wait {deadline waits now calls since : Nat}
    {f : Option (Finish (Except StatsError (List UInt8)))} {e : Option (Ending σ)}
    (h : Meets parse s deadline waits (max now since) calls f e) :
    Meets parse s deadline (waits + 1) now calls f (e.map (·.after since)) := by
  refine Meets.after parse s ⟨fun e' he' hlt ↦ ?_, h.ending⟩
  obtain ⟨f', hf', hinstant, hcalls, hresult⟩ := h.finish e' he' hlt
  exact ⟨f', hf', hinstant, by omega, hresult⟩

/-- A call that ends the query comes to what it gives. -/
theorem Meets.last (deadline now calls since : Nat) (r : Except StatsError (List UInt8)) :
    Meets parse s deadline 0 now calls (some ⟨max now since, calls + 1, r⟩)
      (some ⟨since, 1, parsed parse s.name r⟩) := by
  refine ⟨fun e' he' _ ↦ ?_, fun f' hf' hlt ↦ ?_⟩
  · obtain rfl := Option.some.inj he'
    exact ⟨_, rfl, rfl, Nat.le_refl _, rfl⟩
  · obtain rfl := Option.some.inj hf'
    exact ⟨_, rfl, hlt⟩

private theorem readLoop_nil (deadline now calls : Nat) (reader : PacketReader) (saw : Bool) :
    deadline ≤ (readLoop s.name deadline [] now calls reader saw).instant := by
  rw [readLoop]
  split
  · assumption
  · exact Nat.le_refl _

private theorem readLoop_late {deadline now : Nat} {a : ReadAnswer} (h : deadline ≤ max now a.since)
    (reads : List ReadAnswer) (calls : Nat) (reader : PacketReader) (saw : Bool) :
    deadline ≤ (readLoop s.name deadline (a :: reads) now calls reader saw).instant := by
  rw [readLoop]
  split
  · assumption
  · rw [if_pos (by omega)]

/-- One turn of the loop of the single query. -/
theorem readLoop_cons {deadline now : Nat} {a : ReadAnswer} (h : max now a.since < deadline)
    (reads : List ReadAnswer) (calls : Nat) (reader : PacketReader) (saw : Bool) :
    readLoop s.name deadline (a :: reads) now calls reader saw =
      (readOutcome s.name reader saw a.value).elim
        (fun next ↦
          readLoop s.name deadline reads (max now a.since) (calls + 1) next.1 next.2)
        fun r ↦ ⟨max now a.since, calls + 1, r⟩ := by
  rw [readLoop, if_neg (by omega), if_neg (by omega)]
  unfold readOutcome
  obtain ⟨since, value⟩ := a
  cases value with
  | error e =>
    have hkind : ¬ (e.1.kind = .wouldBlock ∨ e.1.kind = .timedOut) := not_or.2 e.2
    simp only [hkind, if_false, Sum.elim_inr]
  | ok chunk =>
    cases chunk with
    | nil => rfl
    | cons b chunk =>
      dsimp only
      rcases reader.feed (b :: chunk) with ⟨reader', packets | packets⟩
      · rfl
      · dsimp only
        cases scanPackets packets saw <;> rfl

theorem meets_readLoop (deadline : Nat) (reads : List ReadAnswer) (now calls : Nat)
    (reader : PacketReader) (saw : Bool) :
    Meets parse s deadline 0 now calls (some (readLoop s.name deadline reads now calls reader saw))
      (readEnding parse s reads reader saw) := by
  induction reads generalizing now calls reader saw with
  | nil =>
    refine ⟨by simp [readEnding], fun f' hf' hlt ↦ ?_⟩
    obtain rfl := Option.some.inj hf'
    have := readLoop_nil s deadline now calls reader saw
    omega
  | cons a reads ih =>
    by_cases h : max now a.since < deadline
    · rw [readLoop_cons s h, readEnding]
      cases readOutcome s.name reader saw a.value with
      | inr r => exact Meets.last parse s deadline now calls a.since r
      | inl next => exact (ih (max now a.since) (calls + 1) next.1 next.2).after
    · refine ⟨fun e' he' hlt ↦ ?_, fun f' hf' hlt ↦ ?_⟩
      · have hsince := (since_le_readEnding parse s he').1
        omega
      · obtain rfl := Option.some.inj hf'
        have := readLoop_late s (by omega : deadline ≤ max now a.since) reads calls reader saw
        omega

theorem meets_afterConnect (deadline : Nat) (reads : List ReadAnswer) (writes : List WriteAnswer)
    (now calls written : Nat) :
    Meets parse s deadline 0 now calls (afterConnect s deadline reads writes now calls written)
      (writeEnding parse s reads writes written) := by
  induction writes generalizing now calls written with
  | nil =>
    unfold afterConnect
    rw [writeAll, writeEnding]
    split
    · exact meets_readLoop parse s deadline reads now calls {} false
    · exact ⟨by simp, by simp⟩
  | cons a writes ih =>
    unfold afterConnect
    rw [writeAll, writeEnding]
    split
    · exact meets_readLoop parse s deadline reads now calls {} false
    · obtain ⟨since, value⟩ := a
      cases value with
      | error e => exact Meets.last parse s deadline now calls since _
      | ok n =>
        dsimp only
        rw [if_neg (by have := n.2; omega)]
        exact (ih (max now since) (calls + 1) _).after

theorem meets_queryStatusAt (deadline : Nat) :
    Meets parse s deadline 1 0 0 (queryStatusAt s deadline) (ending parse s) := by
  have hmore {now calls : Nat} {f : Option (Finish (Except StatsError (List UInt8)))}
      {e : Option (Ending σ)} (h : Meets parse s deadline 0 now calls f e) :
      Meets parse s deadline 1 now calls f e := by
    refine ⟨fun e' he' hlt ↦ ?_, h.ending⟩
    obtain ⟨f', hf', hinstant, hcalls, hresult⟩ := h.finish e' he' hlt
    exact ⟨f', hf', hinstant, by omega, hresult⟩
  unfold queryStatusAt Listener.connectBlocking ending
  cases s.listener.room with
  | none => exact ⟨by simp, by simp⟩
  | some room =>
    simp only [Option.map_some, Option.bind_some]
    cases s.listener.outcome with
    | connected =>
      refine hmore (Meets.after parse s ?_)
      rw [Nat.zero_max]
      exact meets_afterConnect parse s deadline _ _ _ _ _
    | inProgress settled error =>
      cases error with
      | none =>
        have hrest := meets_afterConnect parse s deadline s.listener.stream.reads
          s.listener.stream.writes (max room settled) 1 0
        have hwait := Meets.wait parse s (hrest : Meets parse s deadline 0 (max room settled) 1 _ _)
        refine Meets.after parse s ?_
        rw [Nat.zero_max]
        exact hwait
      | some e =>
        have hlast := Meets.last parse s deadline room 0 settled
          (.error (ioError s.name "connect" (some s.path) e))
        refine Meets.wait parse s ?_
        rw [Nat.zero_max]
        exact hlast
    | failed e =>
      have hlast := Meets.last parse s deadline 0 0 room
        (.error (ioError s.name "connect" (some s.path) e))
      rw [Nat.zero_max] at hlast
      rw [outcomeEnding, Option.map_some, Ending.after, Nat.max_zero]
      exact hmore hlast

/-- The single query returns with its ending when its budget is longer. -/
theorem queryStatsInWithTimeout_of_ending {timeout : Nat} {e : Ending σ}
    (h : ending parse s = some e) (hlt : e.instant < timeout) :
    ∃ f, queryStatsInWithTimeout parse s timeout = some f ∧ f.instant < timeout ∧
      f.result = e.result := by
  obtain ⟨f, hf, hinstant, -, hresult⟩ :=
    (meets_queryStatusAt parse s timeout).finish e h (by omega)
  exact ⟨_, Option.map_eq_some_iff.2 ⟨f, hf, rfl⟩, by dsimp only; omega, hresult⟩

/-- A single query that returns before its deadline returns with its ending. -/
theorem ending_of_queryStatsInWithTimeout {timeout : Nat} {f : Finish (Except StatsError σ)}
    (h : queryStatsInWithTimeout parse s timeout = some f) (hlt : f.instant < timeout) :
    ∃ e, ending parse s = some e ∧ e.instant = f.instant ∧ e.result = f.result ∧
      e.calls ≤ f.calls + 1 := by
  obtain ⟨f, hf, rfl⟩ := Option.map_eq_some_iff.1 h
  obtain ⟨e, he, hend⟩ := (meets_queryStatusAt parse s timeout).ending f hf hlt
  obtain ⟨f', hf', hinstant, hcalls, hresult⟩ :=
    (meets_queryStatusAt parse s timeout).finish e he hend
  obtain rfl := Option.some.inj (hf.symm.trans hf')
  exact ⟨e, he, by dsimp only; omega, hresult.symm, by dsimp only; omega⟩

/-- An ending waits for room in the queue. -/
theorem room_le_ending {e : Ending σ} (h : ending parse s = some e) :
    ∃ room, s.listener.room = some room ∧ room ≤ e.instant ∧ 0 < e.calls := by
  obtain ⟨room, hroom, he⟩ := Option.bind_eq_some_iff.1 h
  obtain ⟨e', -, rfl⟩ := Option.map_eq_some_iff.1 he
  exact ⟨room, hroom, Nat.le_max_left _ _, Nat.succ_pos _⟩

end

end PtySpec.Client.Stats
