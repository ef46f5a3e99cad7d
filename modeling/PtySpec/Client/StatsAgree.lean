import PtySpec.Client.StatsEnding
import PtySpec.Lib.Multiplex

/-!
# The batched status query against the single one

Each step of the loop leaves a query with what it comes to, so a batched query ends with the
result of the single one or with none. It ends with it when the loop has enough rounds between the
instant at which the single one returns and the deadline.
-/

namespace PtySpec.Client.Stats

open Protocol
open Lib (Multiplexer)

variable {σ : Type} (parse : List UInt8 → Option σ)

/-! ### Steps -/

/-- An ending that is left of another one, after some of its calls. -/
inductive Closer (calls : Nat) : Option (Ending σ) → Option (Ending σ) → Prop
  | never : Closer calls none none
  | left {before after : Ending σ} (result_eq : after.result = before.result)
    (instant_le : after.instant ≤ before.instant)
    (calls_le : after.calls + calls ≤ before.calls) : Closer calls (some before) (some after)

namespace Closer

theorem refl (e : Option (Ending σ)) : Closer 0 e e := by
  cases e with
  | none => exact never
  | some e => exact left rfl (Nat.le_refl _) (Nat.le_refl _)

theorem trans {m n : Nat} {e e' e'' : Option (Ending σ)} (h : Closer m e e')
    (h' : Closer n e' e'') : Closer (m + n) e e'' := by
  cases h with
  | never =>
    cases h'
    exact never
  | left result_eq instant_le calls_le =>
    cases h' with
    | left result_eq' instant_le' calls_le' =>
      exact left (result_eq'.trans result_eq) (Nat.le_trans instant_le' instant_le) (by omega)

theorem mono {m n : Nat} {e e' : Option (Ending σ)} (h : Closer m e e') (hn : n ≤ m) :
    Closer n e e' := by
  cases h with
  | never => exact never
  | left result_eq instant_le calls_le => exact left result_eq instant_le (by omega)

/-- The wait of an ending is over. -/
theorem waited (since : Nat) (e : Option (Ending σ)) : Closer 1 (e.map (·.after since)) e := by
  cases e with
  | none => exact never
  | some e => exact left rfl (Nat.le_max_right _ _) (Nat.le_refl _)

/-- A query is done with the result of its ending. -/
theorem done (instant : Nat) (r : Except StatsError σ) :
    Closer 1 (some ⟨instant, 1, r⟩) (some ⟨0, 0, r⟩) :=
  left rfl (Nat.zero_le _) (Nat.le_refl _)

end Closer

variable (s : Session)

/-- A scan of packets finds the first STATUS. -/
theorem scanPackets_eq (packets : List Packet) (saw : Bool) :
    scanPackets packets saw =
      (packets.find? (·.type_ = .status)).elim (.inr (saw || packets.any isUnknown))
        fun p ↦ .inl p.payload := by
  induction packets generalizing saw with
  | nil => simp [scanPackets]
  | cons p packets ih =>
    rw [scanPackets, List.find?_cons, List.any_cons]
    by_cases hp : p.type_ = .status
    · simp [hp]
    · simp [hp, ih, Bool.or_assoc]

/-- `read_response` on a socket that has something to read. -/
theorem readResponse_ready {now : Nat} {stream : Stream} {a : ReadAnswer} {reads : List ReadAnswer}
    (hr : stream.reads = a :: reads) (ha : a.since ≤ now) (reader : PacketReader) (saw : Bool) :
    readResponse parse s.name now stream reader saw =
      (readOutcome s.name reader saw a.value).elim
        (fun next ↦ .reading { stream with reads := reads } next.1 next.2)
        fun r ↦ .done (parsed parse s.name r) := by
  obtain ⟨since, value⟩ := a
  simp only [readResponse, Stream.read, hr, Nat.not_lt.2 ha, if_false]
  unfold readOutcome
  cases value with
  | error e => simp [e.2.1, parsed]
  | ok chunk =>
    cases chunk with
    | nil => rfl
    | cons b chunk =>
      dsimp only
      rcases reader.feed (b :: chunk) with ⟨reader', packets | packets⟩
      · rfl
      · dsimp only
        rw [scanPackets_eq]
        cases packets.find? (·.type_ = .status) <;> rfl

/-- `read_response` on a socket that has nothing to read. -/
theorem readResponse_wait {now : Nat} {stream : Stream}
    (h : ∀ a ∈ stream.reads.head?, now < a.since) (reader : PacketReader) (saw : Bool) :
    readResponse parse s.name now stream reader saw = .reading stream reader saw := by
  have hread : stream.read now = (.error again, stream) := by
    unfold Stream.read
    split
    · rfl
    · next a reads hr =>
      rw [if_pos (h a (by rw [hr]; rfl))]
  rw [readResponse, hread]
  rfl

/-- A query that is writing has some of its request left. -/
def Step.Wf : Step σ → Prop
  | .writing _ written => written < encodeStatus.length
  | _ => True

/-- A query that is past its connect, and has some of its request left if it is writing. -/
def Step.Connected (step : Step σ) : Prop := step.Wf ∧ ∀ due, step ≠ .connect due

theorem Step.connected_connecting (stream : Stream) (settled : Nat) (error : Option SocketError) :
    (Step.connecting stream settled error : Step σ).Connected :=
  ⟨trivial, fun _ h ↦ by cases h⟩

theorem Step.connected_writing (stream : Stream) {written : Nat}
    (h : written < encodeStatus.length) : (Step.writing stream written : Step σ).Connected :=
  ⟨h, fun _ h ↦ by cases h⟩

theorem Step.connected_reading (stream : Stream) (reader : PacketReader) (saw : Bool) :
    (Step.reading stream reader saw : Step σ).Connected :=
  ⟨trivial, fun _ h ↦ by cases h⟩

theorem Step.connected_done (r : Except StatsError σ) : (Step.done r).Connected :=
  ⟨trivial, fun _ h ↦ by cases h⟩

/-- A read leaves a query with its ending, and is one of its calls when something is there. -/
theorem readResponse_closer (now : Nat) (stream : Stream) (reader : PacketReader) (saw : Bool) :
    (readResponse parse s.name now stream reader saw).Connected ∧
      Closer 0 (readEnding parse s stream.reads reader saw)
        ((readResponse parse s.name now stream reader saw).ending parse s) ∧
      ((∀ a ∈ stream.reads.head?, a.since ≤ now) →
        Closer 1 (readEnding parse s stream.reads reader saw)
          ((readResponse parse s.name now stream reader saw).ending parse s)) := by
  cases hr : stream.reads with
  | nil =>
    rw [readResponse_wait parse s (by simp [hr]), Step.ending, hr]
    exact ⟨Step.connected_reading _ _ _, .never, fun _ ↦ .never⟩
  | cons a reads =>
    by_cases ha : a.since ≤ now
    · have hnext : (readResponse parse s.name now stream reader saw).Connected ∧
          Closer 1 (readEnding parse s (a :: reads) reader saw)
            ((readResponse parse s.name now stream reader saw).ending parse s) := by
        rw [readResponse_ready parse s hr ha, readEnding]
        cases readOutcome s.name reader saw a.value with
        | inl next => exact ⟨Step.connected_reading _ _ _, Closer.waited a.since _⟩
        | inr r => exact ⟨Step.connected_done _, Closer.done a.since _⟩
      exact ⟨hnext.1, hnext.2.mono (Nat.zero_le _), fun _ ↦ hnext.2⟩
    · rw [readResponse_wait parse s (by simpa [hr] using ha), Step.ending, hr]
      exact ⟨Step.connected_reading _ _ _, Closer.refl _, fun h ↦ absurd (h a rfl) ha⟩

theorem writeEnding_whole (reads : List ReadAnswer) (writes : List WriteAnswer) {written : Nat}
    (h : encodeStatus.length ≤ written) :
    writeEnding parse s reads writes written = readEnding parse s reads {} false := by
  cases writes <;> rw [writeEnding, if_pos h]

theorem writeRequest_whole (now : Nat) (stream : Stream) {written : Nat}
    (h : encodeStatus.length ≤ written) :
    (writeRequest s now stream written : Step σ) = .reading stream {} false := by
  rw [writeRequest, if_neg (by omega)]

/-- `write_request` on a socket that has no room. -/
theorem writeRequest_wait {now : Nat} {stream : Stream} {written : Nat}
    (hw : written < encodeStatus.length) (h : ∀ a ∈ stream.writes.head?, now < a.since) :
    (writeRequest s now stream written : Step σ) = .writing stream written := by
  have hwrite : stream.write now (encodeStatus.length - written) = (.error again, stream) := by
    unfold Stream.write
    split
    · rfl
    · next a writes hr =>
      rw [if_pos (h a (by rw [hr]; rfl))]
  rw [writeRequest, if_pos hw, hwrite]
  rfl

/-- `write_request` on a socket that has room: one write, and the rest. -/
theorem writeRequest_ready {now : Nat} {stream : Stream} {a : WriteAnswer}
    {writes : List WriteAnswer} {written : Nat} (hw : written < encodeStatus.length)
    (hr : stream.writes = a :: writes) (ha : a.since ≤ now) :
    (writeRequest s now stream written : Step σ) =
      match a.value with
      | .error e => .done (.error (ioError s.name "write" (some s.path) e.1))
      | .ok n =>
        writeRequest s now { stream with writes := writes }
          (written + min n.1 (encodeStatus.length - written)) := by
  obtain ⟨since, value⟩ := a
  rw [writeRequest, if_pos hw, Stream.write, hr]
  dsimp only
  rw [if_neg (Nat.not_lt.2 ha)]
  cases value with
  | error e =>
    dsimp only
    rw [if_neg e.2.1]
  | ok n =>
    dsimp only
    rw [if_neg (by have := n.2; omega)]

/-- Writing leaves a query with its ending, and makes one of its calls when there is room. -/
theorem writeRequest_closer (now : Nat) (stream : Stream) (written : Nat) :
    (writeRequest s now stream written : Step σ).Connected ∧
      Closer 0 (writeEnding parse s stream.reads stream.writes written)
        ((writeRequest s now stream written).ending parse s) ∧
      (written < encodeStatus.length → (∀ a ∈ stream.writes.head?, a.since ≤ now) →
        Closer 1 (writeEnding parse s stream.reads stream.writes written)
          ((writeRequest s now stream written).ending parse s)) := by
  induction hwrites : stream.writes generalizing stream written with
  | nil =>
    by_cases hw : written < encodeStatus.length
    · rw [writeRequest_wait s hw (by simp [hwrites]), Step.ending, hwrites, writeEnding,
        if_neg (by omega)]
      exact ⟨Step.connected_writing _ hw, .never, fun _ _ ↦ .never⟩
    · rw [writeRequest_whole s now stream (by omega), writeEnding_whole parse s _ _ (by omega)]
      exact ⟨Step.connected_reading _ _ _, Closer.refl _, fun h ↦ absurd h hw⟩
  | cons a writes ih =>
    by_cases hw : written < encodeStatus.length
    · by_cases ha : a.since ≤ now
      · have hnext : (writeRequest s now stream written : Step σ).Connected ∧
            Closer 1 (writeEnding parse s stream.reads (a :: writes) written)
              ((writeRequest s now stream written).ending parse s) := by
          rw [writeRequest_ready s hw hwrites ha, writeEnding, if_neg (by omega)]
          cases a.value with
          | error e => exact ⟨Step.connected_done _, Closer.done a.since _⟩
          | ok n =>
            obtain ⟨hwf, hcloser, -⟩ := ih { stream with writes := writes }
              (written + min n.1 (encodeStatus.length - written)) rfl
            exact ⟨hwf, (Closer.waited a.since _).trans hcloser⟩
        exact ⟨hnext.1, hnext.2.mono (Nat.zero_le _), fun _ _ ↦ hnext.2⟩
      · rw [writeRequest_wait s hw (by simpa [hwrites] using ha), Step.ending, hwrites]
        exact ⟨Step.connected_writing _ hw, Closer.refl _, fun _ h ↦ absurd (h a rfl) ha⟩
    · rw [writeRequest_whole s now stream (by omega), writeEnding_whole parse s _ _ (by omega)]
      exact ⟨Step.connected_reading _ _ _, Closer.refl _, fun h ↦ absurd h hw⟩

/-! ### Rounds -/

/-- A connect that the queue has room for is one of the calls of its ending. -/
theorem begin_closer {now : Nat} (h : s.listener.full now = false) :
    (begin s now : Step σ).Connected ∧
      Closer 1 (ending parse s) ((begin s now).ending parse s) := by
  obtain ⟨room, hroom⟩ : ∃ room, s.listener.room = some room := by
    by_contra hnone
    have hfull := s.listener.full_before now fun instant hi ↦ absurd ⟨instant, hi⟩ hnone
    rw [hfull] at h
    cases h
  rw [ending, hroom, Option.bind_some, begin, Listener.connect, if_neg (by simp [h])]
  cases s.listener.outcome with
  | connected =>
    obtain ⟨hwf, hcloser, -⟩ := writeRequest_closer parse s now s.listener.stream 0
    exact ⟨hwf, (Closer.waited room _).trans hcloser⟩
  | inProgress settled error =>
    cases error with
    | none => exact ⟨Step.connected_connecting _ _ _, Closer.waited room _⟩
    | some e => exact ⟨Step.connected_connecting _ _ _, Closer.waited room _⟩
  | failed e => exact ⟨Step.connected_done _, Closer.waited room _⟩

/-- The start of a round leaves a query of the session with its ending. -/
theorem connectDue_closer (firstRound : Bool) (now deadline : Nat) {q : BatchQuery σ}
    (hs : q.session = s) (hwf : q.step.Wf) :
    (q.connectDue firstRound now deadline).session = s ∧
      (q.connectDue firstRound now deadline).step.Wf ∧
      Closer 0 (q.step.ending parse s)
        ((q.connectDue firstRound now deadline).step.ending parse s) := by
  subst hs
  unfold BatchQuery.connectDue
  split
  · next due hq =>
    split
    · rw [hq]
      cases hfull : q.session.listener.full now with
      | true =>
        have hbusy : (begin q.session now : Step σ) = .connect (now + RETRY_TICK) := by
          rw [begin, Listener.connect, if_pos hfull]
        rw [hbusy]
        exact ⟨rfl, trivial, Closer.refl _⟩
      | false =>
        have hbegin := begin_closer parse q.session hfull
        exact ⟨rfl, hbegin.1.1, hbegin.2.mono (Nat.zero_le _)⟩
    · exact ⟨rfl, hwf, Closer.refl _⟩
  · exact ⟨rfl, hwf, Closer.refl _⟩

/-- The step after a `poll` leaves a query with its ending, and makes one of its calls when
everything that it asks for is there. -/
theorem advance_closer (now : Nat) {q : BatchQuery σ} (hs : q.session = s) (hwf : q.step.Wf) :
    (q.advance parse now).Wf ∧
      ((∀ due, q.step ≠ .connect due) → (q.advance parse now).Connected) ∧
      Closer 0 (q.step.ending parse s) ((q.advance parse now).ending parse s) ∧
      ∀ e ∈ q.step.ending parse s, e.instant ≤ now → 0 < e.calls →
        (∀ due, q.step ≠ .connect due) →
        Closer 1 (some e) ((q.advance parse now).ending parse s) := by
  subst hs
  obtain ⟨session, step⟩ := q
  cases step with
  | connect due =>
    exact ⟨trivial, fun h ↦ absurd rfl (h due), Closer.refl _, fun e _ _ _ h ↦ absurd rfl (h due)⟩
  | connecting stream settled error =>
    cases error with
    | none =>
      obtain ⟨hwf, hcloser, -⟩ := writeRequest_closer parse session now stream 0
      have hnext := (Closer.waited settled _).trans hcloser
      exact ⟨hwf.1, fun _ ↦ hwf, hnext.mono (Nat.zero_le _), fun e he _ _ _ ↦ by
        rw [← he]
        exact hnext⟩
    | some error =>
      have hnext := Closer.done settled
        (.error (ioError session.name "connect" (some session.path) error) : Except StatsError σ)
      exact ⟨trivial, fun _ ↦ Step.connected_done _, hnext.mono (Nat.zero_le _), fun e he _ _ _ ↦ by
        rw [← he]
        exact hnext⟩
  | writing stream written =>
    obtain ⟨hwf', hcloser, hnext⟩ := writeRequest_closer parse session now stream written
    refine ⟨hwf'.1, fun _ ↦ hwf', hcloser, fun e he hnow _ _ ↦ ?_⟩
    rw [← he]
    refine hnext hwf fun a ha ↦ ?_
    obtain ⟨writes, hwrites⟩ := List.head?_eq_some_iff.1 ha
    have he : writeEnding parse session stream.reads stream.writes written = some e := he
    rw [hwrites] at he
    exact Nat.le_trans (since_le_writeEnding parse session hwf he).1 hnow
  | reading stream reader saw =>
    obtain ⟨hwf', hcloser, hnext⟩ := readResponse_closer parse session now stream reader saw
    refine ⟨hwf'.1, fun _ ↦ hwf', hcloser, fun e he hnow _ _ ↦ ?_⟩
    rw [← he]
    refine hnext fun a ha ↦ ?_
    obtain ⟨reads, hreads⟩ := List.head?_eq_some_iff.1 ha
    have he : readEnding parse session stream.reads reader saw = some e := he
    rw [hreads] at he
    exact Nat.le_trans (since_le_readEnding parse session he).1 hnow
  | done r =>
    refine ⟨trivial, fun _ ↦ Step.connected_done _, Closer.refl _, fun e he _ hcalls _ ↦ ?_⟩
    obtain rfl := Option.some.inj he
    exact absurd hcalls (Nat.lt_irrefl 0)

/-- `poll` reports a query when everything that it asks for is there. -/
theorem reported_of_ending {now : Nat} {q : BatchQuery σ} (hs : q.session = s) (hwf : q.step.Wf)
    {e : Ending σ} (he : q.step.ending parse s = some e) (hnow : e.instant ≤ now)
    (hcalls : 0 < e.calls) (hconnect : ∀ due, q.step ≠ .connect due) :
    q.reported now = true := by
  subst hs
  obtain ⟨session, step⟩ := q
  cases step with
  | connect due => exact absurd rfl (hconnect due)
  | connecting stream settled error =>
    have hsettled : settled ≤ e.instant := by
      cases error with
      | none =>
        obtain ⟨e', -, rfl⟩ := Option.map_eq_some_iff.1 he
        exact Nat.le_max_left _ _
      | some error =>
        obtain rfl := Option.some.inj he
        exact Nat.le_refl _
    exact decide_eq_true (Nat.le_trans hsettled hnow)
  | writing stream written =>
    have he : writeEnding parse session stream.reads stream.writes written = some e := he
    have hw : written < encodeStatus.length := hwf
    cases hwrites : stream.writes with
    | nil =>
      rw [hwrites, writeEnding, if_neg (by omega)] at he
      cases he
    | cons a writes =>
      rw [hwrites] at he
      have hsince := (since_le_writeEnding parse session hw he).1
      simp [BatchQuery.reported, Stream.writable, hwrites, Nat.le_trans hsince hnow]
  | reading stream reader saw =>
    have he : readEnding parse session stream.reads reader saw = some e := he
    cases hreads : stream.reads with
    | nil =>
      rw [hreads] at he
      cases he
    | cons a reads =>
      rw [hreads] at he
      have hsince := (since_le_readEnding parse session he).1
      simp [BatchQuery.reported, Stream.readable, hreads, Nat.le_trans hsince hnow]
  | done r =>
    obtain rfl := Option.some.inj he
    exact absurd hcalls (Nat.lt_irrefl 0)

/-- What follows a `poll` leaves a query of the session with its ending, and makes one of its
calls when everything that it asks for is there. -/
theorem serve_closer (now : Nat) {q : BatchQuery σ} (hs : q.session = s) (hwf : q.step.Wf) :
    (q.serve parse now).session = s ∧ (q.serve parse now).step.Wf ∧
      Closer 0 (q.step.ending parse s) ((q.serve parse now).step.ending parse s) ∧
      ∀ e ∈ q.step.ending parse s, e.instant ≤ now → 0 < e.calls →
        (∀ due, q.step ≠ .connect due) →
        Closer 1 (some e) ((q.serve parse now).step.ending parse s) := by
  obtain ⟨hwf', -, hcloser, hnext⟩ := advance_closer parse s now hs hwf
  unfold BatchQuery.serve
  split
  · exact ⟨hs, hwf', hcloser, hnext⟩
  · next hr =>
    refine ⟨hs, hwf, Closer.refl _, fun e he hnow hcalls hconnect ↦ ?_⟩
    exact absurd (reported_of_ending parse s hs hwf he hnow hcalls hconnect) hr

/-! ### Runs -/

/-- The rounds of the loop, with which of them is the first. -/
def tagged (firstRound : Bool) : List Round → List (Bool × Round)
  | [] => []
  | r :: rounds => (firstRound, r) :: rounds.map (false, ·)

/-- The loop over queries. -/
def batch (deadline : Nat) : Multiplexer (Bool × Round) (BatchQuery σ) where
  start r q := q.connectDue r.1 r.2.now deadline
  serve r q := q.serve parse r.2.wake
  done q := q.isDone
  last r := r.2.over deadline
  start_done := by
    intro q hq r
    obtain ⟨session, step⟩ := q
    cases step with
    | done r => rfl
    | _ => cases hq
  serve_done := by
    intro q hq r
    obtain ⟨session, step⟩ := q
    cases step with
    | done r => rfl
    | _ => cases hq

theorem batchLoop_eq (deadline : Nat) (firstRound : Bool) (rounds : List Round)
    (queries : List (BatchQuery σ)) :
    batchLoop parse deadline firstRound rounds queries =
      queries.map ((batch parse deadline).runOne (tagged firstRound rounds)) := by
  rw [← Multiplexer.run_eq]
  induction rounds generalizing firstRound queries with
  | nil => rfl
  | cons r rounds ih =>
    have htail : rounds.map (false, ·) = tagged false rounds := by cases rounds <;> rfl
    rw [batchLoop, tagged, Multiplexer.run, htail, ih]
    rfl

/-- One query after the loop. -/
def alone {deadline : Nat} (schedule : Schedule deadline) (s : Session) : BatchQuery σ :=
  (batch parse deadline).runOne (tagged true schedule.rounds) ⟨s, .connect 0⟩

/-- Each result is that of its own query. -/
theorem queryStatsBatchIn_eq {deadline : Nat} (schedule : Schedule deadline)
    (sessions : List Session) :
    queryStatsBatchIn parse schedule sessions =
      sessions.map fun s ↦
        ((alone parse schedule s).session.name, (alone parse schedule s).result) := by
  simp only [queryStatsBatchIn, batchLoop_eq, List.map_map]
  rfl

/-- A query ends with the session that it had and with what it comes to. -/
theorem alone_closer {deadline : Nat} (schedule : Schedule deadline) :
    (alone parse schedule s).session = s ∧
      Closer 0 (ending parse s) ((alone parse schedule s).step.ending parse s) := by
  have hkeeps := (batch parse deadline).runOne_keeps
    (P := fun q ↦ q.session = s ∧ q.step.Wf ∧ Closer 0 (ending parse s) (q.step.ending parse s))
    ?_ ?_ (tagged true schedule.rounds) (s := ⟨s, .connect 0⟩) ⟨rfl, trivial, Closer.refl _⟩
  · exact ⟨hkeeps.1, hkeeps.2.2⟩
  · rintro r q ⟨hs, hwf, hcloser⟩
    obtain ⟨hs', hwf', hnext⟩ := connectDue_closer parse s r.1 r.2.now deadline hs hwf
    exact ⟨hs', hwf', hcloser.trans hnext⟩
  · rintro r q ⟨hs, hwf, hcloser⟩
    obtain ⟨hs', hwf', hnext, -⟩ := serve_closer parse s r.2.wake hs hwf
    exact ⟨hs', hwf', hcloser.trans hnext⟩

/-- A query that asks for nothing more is done. -/
theorem step_of_calls {q : BatchQuery σ} (hwf : q.step.Wf) {e : Ending σ}
    (he : q.step.ending parse s = some e) (hcalls : e.calls = 0) : q.result = e.result := by
  obtain ⟨session, step⟩ := q
  cases step with
  | connect due =>
    obtain ⟨room, -, -, hpos⟩ := room_le_ending parse s he
    omega
  | connecting stream settled error =>
    cases error with
    | none =>
      obtain ⟨e', -, rfl⟩ := Option.map_eq_some_iff.1 he
      cases hcalls
    | some error =>
      obtain rfl := Option.some.inj he
      cases hcalls
  | writing stream written =>
    have he : writeEnding parse s stream.reads stream.writes written = some e := he
    have hw : written < encodeStatus.length := hwf
    cases hwrites : stream.writes with
    | nil =>
      rw [hwrites, writeEnding, if_neg (by omega)] at he
      cases he
    | cons a writes =>
      rw [hwrites] at he
      have := (since_le_writeEnding parse s hw he).2
      omega
  | reading stream reader saw =>
    have he : readEnding parse s stream.reads reader saw = some e := he
    cases hreads : stream.reads with
    | nil =>
      rw [hreads] at he
      cases he
    | cons a reads =>
      rw [hreads] at he
      have := (since_le_readEnding parse s he).2
      omega
  | done r =>
    obtain rfl := Option.some.inj he
    rfl

/-- A query on its way to a result that everything is there for at an instant. -/
structure OnTime (instant : Nat) (r : Except StatsError σ) (q : BatchQuery σ) : Prop where
  session_eq : q.session = s
  wf : q.step.Wf
  ending : ∃ e, q.step.ending parse s = some e ∧ e.instant ≤ instant ∧ e.result = r
  due_le : ∀ due, q.step = .connect due → due ≤ instant + RETRY_TICK

/-- The calls that a query has left. -/
def callsLeft (q : BatchQuery σ) : Nat := ((q.step.ending parse s).map Ending.calls).getD 0

theorem OnTime.closer {instant calls : Nat} {r : Except StatsError σ} {q q' : BatchQuery σ}
    (h : OnTime parse s instant r q) (hs : q'.session = s) (hwf : q'.step.Wf)
    (hcloser : Closer calls (q.step.ending parse s) (q'.step.ending parse s))
    (hdue : ∀ due, q'.step = .connect due → due ≤ instant + RETRY_TICK) :
    OnTime parse s instant r q' ∧ callsLeft parse s q' + calls ≤ callsLeft parse s q := by
  obtain ⟨e, he, hinstant, hresult⟩ := h.ending
  unfold callsLeft
  rw [he] at hcloser ⊢
  generalize ho : q'.step.ending parse s = o at hcloser
  cases hcloser with
  | left result_eq instant_le calls_le =>
    exact ⟨⟨hs, hwf, ⟨_, ho, Nat.le_trans instant_le hinstant, result_eq.trans hresult⟩, hdue⟩,
      calls_le⟩

/-- The queue keeps the room that it has once. -/
def Listener.StaysOpen (l : Listener) : Prop :=
  ∀ room ∈ l.room, ∀ now, room ≤ now → l.full now = false

section

variable {s} {instant : Nat} {r : Except StatsError σ} {q : BatchQuery σ}

/-- A retry that finds the queue full is due before the room lasts for a tick. -/
theorem OnTime.connectDue (hopen : s.listener.StaysOpen) (h : OnTime parse s instant r q)
    (firstRound : Bool) (now deadline : Nat) :
    OnTime parse s instant r (q.connectDue firstRound now deadline) ∧
      callsLeft parse s (q.connectDue firstRound now deadline) ≤ callsLeft parse s q := by
  obtain ⟨hs, hwf, hcloser⟩ := connectDue_closer parse s firstRound now deadline h.session_eq h.wf
  refine h.closer parse s hs hwf hcloser fun due hdue ↦ ?_
  unfold BatchQuery.connectDue at hdue
  split at hdue
  · next due' hq =>
    split at hdue
    · obtain ⟨e, he, hinstant, -⟩ := h.ending
      rw [hq] at he
      obtain ⟨room, hroom, hle, -⟩ := room_le_ending parse s he
      have hbusy : s.listener.full now = true → now < room := by
        intro hfull
        by_contra hlate
        rw [hopen room hroom now (by omega)] at hfull
        cases hfull
      rw [h.session_eq] at hdue
      cases hfull : s.listener.full now with
      | true =>
        have hbegin : (begin s now : Step σ) = .connect (now + RETRY_TICK) := by
          rw [begin, Listener.connect, if_pos hfull]
        have := hbusy hfull
        rw [hbegin] at hdue
        obtain rfl := Step.connect.inj hdue
        omega
      | false =>
        have hbegin := (begin_closer parse s hfull).1.2
        exact absurd hdue (hbegin due)
    · exact h.due_le due hdue
  · next hq => exact h.due_le due hdue

theorem OnTime.serve (h : OnTime parse s instant r q) (now : Nat) :
    OnTime parse s instant r (q.serve parse now) ∧
      callsLeft parse s (q.serve parse now) ≤ callsLeft parse s q := by
  obtain ⟨hs, hwf, hcloser, -⟩ := serve_closer parse s now h.session_eq h.wf
  refine h.closer parse s hs hwf hcloser fun due hdue ↦ ?_
  have hconnected := (advance_closer parse s now h.session_eq h.wf).2.1
  unfold BatchQuery.serve at hdue
  split at hdue
  · next hr =>
    refine absurd hdue ((hconnected fun due' hq ↦ ?_).2 due)
    unfold BatchQuery.reported at hr
    rw [hq] at hr
    cases hr
  · exact h.due_le due hdue

/-- A round that begins a tick after everything is there makes a call of the query. -/
theorem OnTime.round (hopen : s.listener.StaysOpen) (h : OnTime parse s instant r q)
    {deadline : Nat} (firstRound : Bool) {round : Round} (hover : round.over deadline = false)
    (hround : instant + RETRY_TICK ≤ round.now) (hleft : 0 < callsLeft parse s q) :
    callsLeft parse s ((q.connectDue firstRound round.now deadline).serve parse round.wake) <
      callsLeft parse s q := by
  have hlater := round.now_le
  have hwake := round.polled_le
  have hdeadline : round.now < deadline := by
    have : ¬ deadline ≤ round.polled := by
      intro hle
      simp [Round.over, hle] at hover
    omega
  by_cases hconnect : ∃ due, q.step = .connect due
  · obtain ⟨due, hq⟩ := hconnect
    obtain ⟨e, he, hinstant, -⟩ := h.ending
    have hdue := h.due_le due hq
    have hfull : s.listener.full round.now = false := by
      rw [hq] at he
      obtain ⟨room, hroom, hle, -⟩ := room_le_ending parse s he
      exact hopen room hroom _ (by omega)
    have hbegun : q.connectDue firstRound round.now deadline = ⟨s, begin s round.now⟩ := by
      rw [BatchQuery.connectDue, hq]
      dsimp only
      rw [if_pos ⟨by omega, .inr hdeadline⟩, h.session_eq]
    obtain ⟨hconnected, hcloser⟩ := begin_closer parse s hfull
    have hsession : (⟨s, begin s round.now⟩ : BatchQuery σ).session = s := rfl
    have hstep : Closer 1 (q.step.ending parse s) ((begin s round.now).ending parse s) := by
      rw [hq]
      exact hcloser
    obtain ⟨hstarted, hless⟩ := h.closer parse s hsession hconnected.1 hstep
      fun due' hdue' ↦ absurd hdue' (hconnected.2 due')
    rw [hbegun]
    have hserved := (hstarted.serve parse round.wake).2
    omega
  · have hne : ∀ due, q.step ≠ .connect due := fun due hq ↦ hconnect ⟨due, hq⟩
    have hsame : q.connectDue firstRound round.now deadline = q := by
      unfold BatchQuery.connectDue
      split
      · next due hq => exact absurd hq (hne due)
      · rfl
    obtain ⟨e, he, hinstant, -⟩ := h.ending
    have hcalls : 0 < e.calls := by simpa [callsLeft, he] using hleft
    obtain ⟨hs, hwf, -, hnext⟩ := serve_closer parse s round.wake h.session_eq h.wf
    have hcloser := hnext e he (by omega) hcalls hne
    rw [hsame]
    unfold callsLeft
    rw [he]
    generalize ((q.serve parse round.wake).step.ending parse s) = o at hcloser
    cases hcloser with
    | left result_eq instant_le calls_le => exact calls_le

end

/-! ### Agreement -/

/-- How many rounds that serve the queries begin at or after an instant. -/
def Schedule.roundsFrom {deadline : Nat} (schedule : Schedule deadline) (instant : Nat) : Nat :=
  (schedule.rounds.takeWhile fun r ↦ !r.over deadline).countP fun r ↦ instant ≤ r.now

theorem served_tagged (deadline : Nat) (firstRound : Bool) (rounds : List Round) (instant : Nat) :
    ((batch parse deadline).served (tagged firstRound rounds)).countP (fun r ↦ instant ≤ r.2.now) =
      (rounds.takeWhile fun r ↦ !r.over deadline).countP fun r ↦ instant ≤ r.now := by
  induction rounds generalizing firstRound with
  | nil => rfl
  | cons r rounds ih =>
    have htail : rounds.map (false, ·) = tagged false rounds := by cases rounds <;> rfl
    have hrest := ih false
    unfold Multiplexer.served at hrest ⊢
    rw [tagged, htail]
    simp only [batch, List.takeWhile_cons] at hrest ⊢
    split
    · rw [List.countP_cons, List.countP_cons, hrest]
    · rfl

/-- A query of which the single one returns before the deadline ends with the same result, when
the loop has enough rounds from a tick later on. -/
theorem alone_result {deadline : Nat} (schedule : Schedule deadline)
    (hopen : s.listener.StaysOpen) {f : Finish (Except StatsError σ)}
    (hf : queryStatsInWithTimeout parse s deadline = some f) (hlt : f.instant < deadline)
    (hrounds : f.calls + 1 ≤ schedule.roundsFrom (f.instant + RETRY_TICK)) :
    (alone parse schedule s).result = f.result := by
  obtain ⟨e, he, hinstant, hresult, hcalls⟩ := ending_of_queryStatsInWithTimeout parse s hf hlt
  have hstart : OnTime parse s f.instant f.result ⟨s, .connect 0⟩ :=
    ⟨rfl, trivial, ⟨e, he, Nat.le_of_eq hinstant, hresult⟩, fun due hdue ↦ by
      obtain rfl := Step.connect.inj hdue
      exact Nat.zero_le _⟩
  have hleft : callsLeft parse s ⟨s, .connect 0⟩ ≤
      ((batch parse deadline).served (tagged true schedule.rounds)).countP
        fun r ↦ f.instant + RETRY_TICK ≤ r.2.now := by
    rw [served_tagged]
    have : callsLeft parse s ⟨s, .connect 0⟩ = e.calls := by
      simp [callsLeft, Step.ending, he]
    exact this ▸ Nat.le_trans hcalls hrounds
  obtain ⟨hend, hzero⟩ := (batch parse deadline).runOne_finishes
    (P := OnTime parse s f.instant f.result)
    (fun r q hq ↦ hq.connectDue parse hopen r.1 r.2.now deadline)
    (fun r q hq ↦ hq.serve parse r.2.wake)
    (fun r q hq hl hr hpos ↦
      hq.round parse hopen r.1 hl (of_decide_eq_true hr) hpos)
    (tagged true schedule.rounds) hstart hleft
  obtain ⟨e', he', -, hresult'⟩ := hend.ending
  have hnone : e'.calls = 0 := by
    have hzero : callsLeft parse s (alone parse schedule s) = 0 := hzero
    have he' : (alone parse schedule s).step.ending parse s = some e' := he'
    simpa [callsLeft, he'] using hzero
  exact (step_of_calls parse s hend.wf he' hnone).trans hresult'

/-- What a batched result of a session is to the single query of it. -/
structure Agrees {deadline : Nat} (schedule : Schedule deadline) (s : Session)
    (r : String × Except StatsError σ) : Prop where
  name_eq : r.1 = s.name
  answered : (∃ timeout f, queryStatsInWithTimeout parse s timeout = some f ∧
    f.instant < timeout ∧ f.result = r.2) ∨ ∃ saw, r.2 = .error (missingStatusError s.name saw)
  inTime : s.listener.StaysOpen → ∀ f, queryStatsInWithTimeout parse s deadline = some f →
    f.instant < deadline → f.calls + 1 ≤ schedule.roundsFrom (f.instant + RETRY_TICK) →
    r.2 = f.result

/-- The result of a query is that of a single query, or that of one that misses its status. -/
theorem alone_answered {deadline : Nat} (schedule : Schedule deadline) :
    (∃ timeout f, queryStatsInWithTimeout parse s timeout = some f ∧ f.instant < timeout ∧
      f.result = (alone parse schedule s).result) ∨
      ∃ saw, (alone parse schedule s).result = .error (missingStatusError s.name saw) := by
  obtain ⟨hs, hcloser⟩ := alone_closer parse s schedule
  unfold BatchQuery.result
  split
  · next r hr =>
    rw [hr, Step.ending] at hcloser
    generalize ho : ending parse s = o at hcloser
    cases hcloser with
    | @left e _ result_eq instant_le calls_le =>
      obtain ⟨f, hf, hlt, hresult⟩ :=
        queryStatsInWithTimeout_of_ending parse s ho (Nat.lt_succ_self e.instant)
      exact .inl ⟨_, f, hf, hlt, hresult.trans result_eq.symm⟩
  · next saw _ => exact .inr ⟨saw, by rw [hs]⟩
  · exact .inr ⟨false, by rw [hs]; rfl⟩

/-- A daemon whose queue is full for 15 ms, and which answers at once then. -/
def busyListener : Listener where
  full now := now < 15000000
  room := some 15000000
  full_room := by
    intro instant hi
    obtain rfl := Option.some.inj hi
    rfl
  full_before := by
    intro now h
    exact decide_eq_true (h _ rfl)
  outcome := .connected
  stream :=
    { writes := [⟨0, .ok ⟨5, by decide⟩⟩]
      reads := [⟨0, .ok (encodePacket .status [123, 125])⟩] }

/-- The rounds of a loop with a budget of 18 ms, in which `poll` returns when a retry is due and at
the deadline. -/
def busySchedule : Schedule 18000000 where
  rounds :=
    [⟨0, 0, 10000000, false, by decide, by decide⟩,
      ⟨10000000, 10000000, 18000000, false, by decide, by decide⟩,
      ⟨18000000, 18000000, 18000000, false, by decide, by decide⟩]
  ends := by decide

private theorem feed_status :
    PacketReader.feed {} (encodePacket .status [123, 125]) =
      (⟨[]⟩, .ok [⟨.status, [123, 125]⟩]) := by
  have hdrain := drain_encode [⟨.status, [123, 125]⟩] (by decide)
  have hwhole : ({} : PacketReader).buffer ++ encodePacket .status [123, 125] =
      ([⟨.status, [123, 125]⟩].map Packet.encode).flatten := rfl
  rw [PacketReader.feed, feedLoop_eq_drain, hwhole, hdrain]
  rfl

end PtySpec.Client.Stats
