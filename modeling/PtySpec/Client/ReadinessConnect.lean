import PtySpec.Client.ReadinessProven
import PtySpec.Client.StatsAgree

/-!
# Connecting to a full queue

`connect_until` beside `unix_connect::connect` tried again while it is busy, as the batched status
query does, over the accept queue of a live daemon that fills and drains. A connect to a full queue
fails and leaves its socket unconnected, writable and without an error; `connect_until` waits for
such a socket as for one whose connect is under way.
-/

namespace PtySpec.Client.Readiness

open Lib Protocol Metadata
open Prog (ask ret)
open Stats (Listener Round BatchQuery batchLoop begin RETRY_TICK again)

variable {C : Type}

/-! ### Trying again -/

/-- The instants at which the loop of a batch tries to connect, `stats.rs:84-141`, as long as each
try finds the queue full. -/
def attempts (deadline : Nat) : (firstRound : Bool) → (due : Nat) → List Round → List Nat
  | _, _, [] => []
  | firstRound, due, r :: rounds =>
    if due ≤ r.now ∧ (firstRound = true ∨ r.now < deadline) then
      r.now :: if r.over deadline then [] else attempts deadline false (r.now + RETRY_TICK) rounds
    else if r.over deadline then [] else attempts deadline false due rounds

/-- A connect that is not busy. -/
def settled : Stats.Connect → Option Stats.Connect
  | .busy => none
  | other => some other

/-- `unix_connect::connect` tried again while it is busy: the first try that is not, if one comes
before the deadline. -/
def connectRetried (l : Listener) (deadline : Nat) (rounds : List Round) : Option Stats.Connect :=
  (attempts deadline true 0 rounds).findSome? fun now ↦ settled (l.connect now)

section

variable {σ : Type} (parse : List UInt8 → Option σ)

private theorem settled_eq_none_iff {l : Listener} {now : Nat} :
    settled (l.connect now) = none ↔ l.full now = true := by
  unfold Listener.connect
  cases hfull : l.full now with
  | true => simp [settled]
  | false => cases l.outcome <;> simp [settled]

private theorem serve_connected {s : Stats.Session} {q : BatchQuery σ} (wake : Nat)
    (hs : q.session = s) (hq : q.step.Connected) :
    (q.serve parse wake).session = s ∧ (q.serve parse wake).step.Connected := by
  unfold BatchQuery.serve
  split
  · exact ⟨hs, (Stats.advance_closer parse s wake hs hq.1).2.1 hq.2⟩
  · exact ⟨hs, hq⟩

/-- A query that is past its connect stays so. -/
private theorem batchLoop_connected {s : Stats.Session} (deadline : Nat) (first : Bool)
    (rounds : List Round) {q : BatchQuery σ} (hs : q.session = s) (hq : q.step.Connected) :
    ∃ q', batchLoop parse deadline first rounds [q] = [q'] ∧ ∀ due, q'.step ≠ .connect due := by
  induction rounds generalizing first q with
  | nil => exact ⟨q, rfl, hq.2⟩
  | cons r rounds ih =>
    have hdue : q.connectDue first r.now deadline = q := by
      unfold BatchQuery.connectDue
      split
      · next due h => exact absurd h (hq.2 due)
      · rfl
    rw [batchLoop, List.map_singleton, hdue]
    split
    · exact ⟨q, rfl, hq.2⟩
    · obtain ⟨hs', hq'⟩ := serve_connected parse r.wake hs hq
      exact ih false hs' hq'

/-- The batched query is still to connect at its end exactly when every try found the queue
full. -/
theorem batchLoop_connect_iff (s : Stats.Session) (deadline : Nat) (first : Bool) (due : Nat)
    (rounds : List Round) :
    (∃ due', batchLoop parse deadline first rounds [⟨s, .connect due⟩] = [⟨s, .connect due'⟩]) ↔
      (attempts deadline first due rounds).findSome?
        (fun now ↦ settled (s.listener.connect now)) = none := by
  induction rounds generalizing first due with
  | nil => exact iff_of_true ⟨due, rfl⟩ rfl
  | cons r rounds ih =>
    have hserve (due : Nat) : BatchQuery.serve parse r.wake ⟨s, .connect due⟩ =
        ⟨s, .connect due⟩ := rfl
    have hwait (due : Nat) :
        (∃ due', (if r.over deadline then [⟨s, .connect due⟩]
          else batchLoop parse deadline false rounds [⟨s, .connect due⟩]) =
            [⟨s, .connect due'⟩]) ↔
        (if r.over deadline then [] else attempts deadline false due rounds).findSome?
          (fun now ↦ settled (s.listener.connect now)) = none := by
      split
      · exact iff_of_true ⟨due, rfl⟩ rfl
      · exact ih false due
    rw [batchLoop, attempts, List.map_singleton]
    unfold BatchQuery.connectDue
    dsimp only
    split
    · rw [List.findSome?_cons]
      cases hfull : s.listener.full r.now with
      | true =>
        have hbegin : (begin s r.now : Stats.Step σ) = .connect (r.now + RETRY_TICK) := by
          unfold begin Listener.connect
          rw [if_pos hfull]
        rw [hbegin, settled_eq_none_iff.2 hfull]
        exact hwait _
      | false =>
        have hnone : settled (s.listener.connect r.now) ≠ none := fun h ↦ by
          rw [settled_eq_none_iff, hfull] at h
          cases h
        obtain ⟨c, hc⟩ := Option.ne_none_iff_exists'.1 hnone
        rw [hc]
        refine iff_of_false ?_ (by simp)
        rintro ⟨due', he⟩
        have hconnected := (Stats.begin_closer parse s hfull).1
        split at he
        · exact hconnected.2 due' (congrArg BatchQuery.step (List.singleton_inj.1 he))
        · obtain ⟨hs, hq⟩ := serve_connected parse r.wake (q := ⟨s, begin s r.now⟩) rfl hconnected
          obtain ⟨q', hq', hnot⟩ := batchLoop_connected parse deadline false rounds hs hq
          rw [List.map_singleton, hq'] at he
          exact hnot due' (congrArg BatchQuery.step (List.singleton_inj.1 he))
    · exact hwait due

/-- In a batch of any size, a query is still to connect at its end exactly when each of its own
tries found the queue full. -/
theorem unconnected_iff_full {deadline : Nat} (schedule : Stats.Schedule deadline)
    (sessions : List Stats.Session) (i : Nat) :
    (∃ s due, (batchLoop parse deadline true schedule.rounds
        (sessions.map (⟨·, .connect 0⟩)))[i]? = some ⟨s, .connect due⟩) ↔
      ∃ s, sessions[i]? = some s ∧ connectRetried s.listener deadline schedule.rounds = none := by
  rw [Stats.batchLoop_eq, List.getElem?_map, List.getElem?_map]
  cases sessions[i]? with
  | none => simp
  | some s =>
    have halone := batchLoop_connect_iff parse s deadline true 0 schedule.rounds
    rw [Stats.batchLoop_eq, List.map_singleton] at halone
    have hsession := (Stats.alone_closer parse s schedule).1
    unfold Stats.alone at hsession
    simp only [List.singleton_inj] at halone
    simp only [Option.map_some, Option.some.injEq, exists_eq_left']
    refine Iff.trans ⟨?_, fun h ↦ ⟨s, h⟩⟩ halone
    rintro ⟨s', due, h⟩
    obtain rfl : s' = s := by rw [← hsession, h]
    exact ⟨due, h⟩

end

/-! ### A live daemon -/

/-- A daemon that lives and is recorded under its generation, of the user that asks. -/
structure Daemon where
  pid : Int32
  pid_pos : 0 < pid
  startToken : String
  uid : UInt32

/-- What is answered about a live daemon whose accept queue fills and drains. A socket is linked if
its connect found room; one whose connect did not is writable at once and has no error. -/
def Daemon.answers (d : Daemon) (l : Listener) (generation : String) (linked : C → Prop)
    (m : Moment (Op C) Op.Ans) : Prop :=
  match m with
  | ⟨u, .now, r⟩ => r = u
  | ⟨_, .socket, r⟩ => ∃ c, r = .ok c
  | ⟨u, .connect c _, r⟩ =>
    (l.full u = false ∧ linked c ∧ r = .ok ()) ∨
      (l.full u = true ∧ ¬linked c ∧ r = .error again)
  | ⟨_, .poll c _ _, r⟩ => ¬linked c → r = .interrupted ∨ ∃ broken, r = .reports true broken
  | ⟨_, .takeError c, r⟩ => ¬linked c → r = .ok none
  | ⟨_, .readMetadata _, r⟩ => ∃ metadata, r = some metadata ∧
      Names metadata generation ⟨d.pid, d.startToken⟩
  | ⟨_, .peer c, r⟩ => (linked c ∧ r = some (d.pid, d.uid)) ∨
      (¬linked c ∧ ∃ uid, r = some (0, uid))
  | ⟨_, .process pid, r⟩ => (pid = d.pid → ∃ row token, r = some row ∧ row.isZombie = false ∧
      isExiting row = false ∧ row.identity = some token) ∧ (pid = 0 → r = none)
  | ⟨_, .effectiveUid, r⟩ => r = d.uid
  | ⟨_, .startToken pid, r⟩ => pid = d.pid → r = some d.startToken
  | _ => True

/-- A `poll` that reports its socket. -/
def Reported (m : Moment (Op C) Op.Ans) : Prop :=
  match m with
  | ⟨_, .poll _ _ _, .reports _ _⟩ => True
  | _ => False

/-- Whether a question is a connect. -/
def Op.isConnect : Op C → Bool
  | connect _ _ => true
  | _ => false

section

variable {d : Daemon} {l : Listener} {generation : String} {linked : C → Prop}

/-- A wait for a socket that is not linked ends as soon as a `poll` is not interrupted, unless the
deadline comes before. -/
private theorem upholds_waitFd {c : C} (hc : ¬linked c) (events : PollEvents)
    (deadline turns : Nat) (past : Trace C) :
    (waitFd c events deadline turns).Upholds (d.answers l generation linked) (fun _ _ ↦ True) past
      fun past' r ↦ ∃ extra, past' = past ++ extra ∧ (∀ m ∈ extra, m.op.isConnect = false) ∧
        ((r = .ok () ∧ ∃ m ∈ extra, Reported m) ∨
          (r = .error deadlineElapsed ∧ ∀ m ∈ extra, ¬Reported m)) := by
  induction turns generalizing past with
  | zero => exact fun _ r ↦ r.elim
  | succ turns ih =>
    intro u (now : Nat) _
    refine ⟨trivial, ?_⟩
    by_cases hdeadline : deadline ≤ now
    · dsimp only
      rw [if_pos hdeadline]
      exact ⟨[_], rfl, by simp [Op.isConnect], .inr ⟨rfl, by simp [Reported]⟩⟩
    · dsimp only
      rw [if_neg hdeadline]
      refine fun v r hr ↦ ⟨trivial, ?_⟩
      obtain rfl | ⟨broken, rfl⟩ := hr hc
      · refine (ih _).mono fun past' a h ↦ ?_
        obtain ⟨extra, rfl, hconnect, hend⟩ := h
        refine ⟨_, by rw [List.append_assoc, List.append_assoc], ?_, ?_⟩
        · simpa [Op.isConnect] using hconnect
        · simpa [Reported] using hend
      · exact ⟨_, List.append_assoc past [_] [_], by simp [Op.isConnect],
          .inl ⟨rfl, by simp [Reported]⟩⟩

/-- The moment of the connect, among those of one attempt. -/
private theorem instant_of_isConnect {c : C} {path : List UInt8} {u v : Nat}
    {r : Except SocketError C} {r' : Except SocketError Unit} {more : Trace C}
    {m : Moment (Op C) Op.Ans} (hmore : ∀ x ∈ more, x.op.isConnect = false)
    (hm : m ∈ (⟨u, .socket, r⟩ : Moment (Op C) Op.Ans) :: ⟨v, .connect c path, r'⟩ :: more)
    (hop : m.op.isConnect = true) : m.instant = v := by
  obtain rfl | hm := List.mem_cons.1 hm
  · cases hop
  obtain rfl | hm := List.mem_cons.1 hm
  · rfl
  · exact absurd hop (by simp [hmore m hm])

/-- What `connect_until` comes to: a socket that is linked if the queue had room; else a socket that
is not, as soon as a `poll` is not interrupted, or the deadline. -/
theorem upholds_connectUntil (path : List UInt8) (deadline turns : Nat) :
    (connectUntil (C := C) path deadline turns).Upholds (d.answers l generation linked)
      (fun _ _ ↦ True) [] fun past r ↦ ∀ m ∈ past, m.op.isConnect = true →
        ∃ c, (l.full m.instant = false ∧ linked c ∧ r = .ok c) ∨
          (l.full m.instant = true ∧ ¬linked c ∧
            ((r = .ok c ∧ ∃ m ∈ past, Reported m) ∨
              (r = .error deadlineElapsed ∧ ∀ m ∈ past, ¬Reported m))) := by
  unfold connectUntil
  split
  · exact fun m hm ↦ by simp at hm
  · refine fun u r hr ↦ ⟨trivial, ?_⟩
    obtain ⟨c, rfl⟩ := hr
    refine fun v r hr ↦ ⟨trivial, ?_⟩
    obtain ⟨hroom, hlinked, rfl⟩ | ⟨hfull, hlinked, rfl⟩ := hr
    · intro m hm hop
      have hinstant := instant_of_isConnect (List.forall_mem_nil _) (by simpa using hm) hop
      exact ⟨c, .inl ⟨hinstant ▸ hroom, hlinked, rfl⟩⟩
    · have hprogress : inProgress again = true := by decide
      dsimp only
      rw [if_pos hprogress]
      refine (upholds_waitFd hlinked .pollout deadline turns _).thenOk ?_ ?_
      · rintro past e ⟨extra, rfl, hconnect, hend⟩ m hm hop
        have hinstant := instant_of_isConnect hconnect (by simpa using hm) hop
        obtain ⟨h, -⟩ | ⟨he, hsilent⟩ := hend
        · cases h
        · refine ⟨c, .inr ⟨hinstant ▸ hfull, hlinked, .inr ⟨?_, ?_⟩⟩⟩
          · rw [Except.error.inj he]
          · simpa [or_imp, forall_and, Reported] using hsilent
      · rintro past _ ⟨extra, rfl, hconnect, hend⟩ w r hr
        obtain ⟨-, k, hk, hreported⟩ | ⟨h, -⟩ := hend
        · rw [hr hlinked]
          refine ⟨trivial, fun m hm hop ↦ ⟨c, .inr ⟨?_, hlinked, .inl ⟨rfl, k, ?_, hreported⟩⟩⟩⟩
          · have hlast : ∀ x ∈ extra ++ [⟨w, .takeError c, .ok none⟩], x.op.isConnect = false := by
              simpa [or_imp, forall_and, Op.isConnect] using hconnect
            rw [instant_of_isConnect hlast (by simpa using hm) hop]
            exact hfull
          · simp [hk]
        · cases h

/-- The daemon is found at the other end of a socket that is linked. -/
theorem upholds_verifyDaemonPeer_linked {c : C} (hc : linked c) (name : String)
    (past : Trace C) :
    (verifyDaemonPeer name generation c).Upholds (d.answers l generation linked)
      (fun _ _ ↦ True) past fun _ r ↦ r = .ok ⟨d.pid, d.startToken⟩ := by
  refine fun u r hr ↦ ⟨trivial, ?_⟩
  obtain ⟨metadata, rfl, hgeneration, hpid, htoken⟩ := hr
  dsimp only
  rw [if_neg (not_not_intro hgeneration), hpid, htoken]
  refine fun v r hr ↦ ⟨trivial, ?_⟩
  obtain ⟨-, rfl⟩ | ⟨hnot, -⟩ := hr
  · refine fun w r hr ↦ ⟨trivial, ?_⟩
    obtain ⟨row, token, rfl, hzombie, hexiting, hidentity⟩ := hr.1 rfl
    dsimp only
    rw [hzombie, hexiting, hidentity]
    refine fun x r hr ↦ ⟨trivial, ?_⟩
    obtain rfl : r = d.uid := hr
    dsimp only
    rw [if_neg (by simp), readProcessStartToken, if_neg (Int32.not_le.2 d.pid_pos)]
    refine fun y r hr ↦ ⟨trivial, ?_⟩
    obtain rfl : r = some d.startToken := hr rfl
    simp [Prog.bind]
  · exact absurd hc hnot

/-! ### Faithful connects -/

/-- Both connects end connected, or both in an error of the same kind; one that is tried again until
the deadline is out of time. -/
def Agrees (result : Except SocketError C) (retried : Option Stats.Connect) : Prop :=
  match result, retried with
  | .ok _, some (.connected _) => True
  | .error e, some (.failed e') => e.kind = e'.kind
  | .error e, none => e.kind = .timedOut
  | _, _ => False

/-- A connect that does not mistake a busy daemon for a wrong one: the socket it gives is connected,
the connect that is tried again agrees with it, and the check that follows accepts the daemon. -/
structure Faithful (d : Daemon) (l : Listener) (generation : String) (linked : C → Prop)
    (deadline : Nat) (rounds : List Round) (v : Nat) (result : Except SocketError C) : Prop where
  connected : ∀ c, result = .ok c → linked c
  agrees : Agrees result (connectRetried l deadline rounds)
  accepted : ∀ c name checks w answer, result = .ok c →
    Prog.Goes (d.answers l generation linked) v (verifyDaemonPeer name generation c) checks w
      (ret answer) → answer ≠ .error (.invalidReadiness name)

/-- The first try of a batch comes in its first round. -/
private theorem connectRetried_of_room {deadline : Nat} {first : Round} {rounds : List Round}
    (hlive : l.outcome = .connected) (hroom : l.full first.now = false) :
    connectRetried l deadline (first :: rounds) = some (.connected l.stream) := by
  rw [connectRetried, attempts, if_pos ⟨Nat.zero_le _, .inl rfl⟩, List.findSome?_cons]
  simp [Listener.connect, hroom, hlive, settled]

/-- A try of a live daemon connects or finds the queue full. -/
private theorem connectRetried_eq_none_or (deadline : Nat) (rounds : List Round)
    (hlive : l.outcome = .connected) :
    connectRetried l deadline rounds = none ∨
      connectRetried l deadline rounds = some (.connected l.stream) := by
  cases h : connectRetried l deadline rounds with
  | none => exact .inl rfl
  | some other =>
    obtain ⟨now, -, hnow⟩ := List.exists_of_findSome?_eq_some h
    unfold Listener.connect at hnow
    rw [hlive] at hnow
    split at hnow
    · cases hnow
    · cases hnow
      exact .inr rfl

/-- `connect_until` to a live daemon is faithful exactly when the accept queue has room at its
connect, or when it neither waits to the end of a `poll` nor could have been connected by trying
again. -/
theorem connects_faithfully_iff {path : List UInt8} {deadline turns t u v : Nat}
    {es : Trace C} {result : Except SocketError C} {c : C} {r : Except SocketError Unit}
    {first : Round} {rounds : List Round} (hlive : l.outcome = .connected)
    (hgoes : Prog.Goes (d.answers l generation linked) t (connectUntil path deadline turns) es v
      (ret result))
    (hconnect : ⟨u, .connect c path, r⟩ ∈ es) (hfirst : first.now = u) :
    Faithful d l generation linked deadline (first :: rounds) v result ↔
      l.full u = false ∨ ((∀ m ∈ es, ¬Reported m) ∧
        ∀ now ∈ attempts deadline true 0 (first :: rounds), l.full now = true) := by
  have hnone : connectRetried l deadline (first :: rounds) = none ↔
      ∀ now ∈ attempts deadline true 0 (first :: rounds), l.full now = true := by
    simp only [connectRetried, List.findSome?_eq_none_iff, settled_eq_none_iff]
  obtain ⟨c, hend⟩ := (Prog.Upholds.goes (upholds_connectUntil path deadline turns) hgoes).2 _
    hconnect rfl
  obtain ⟨hroom, hlinked, rfl⟩ | ⟨hfull, hlinked, ⟨rfl, m, hm, hreported⟩ | ⟨rfl, hsilent⟩⟩ := hend
  · refine iff_of_true ⟨fun c' h ↦ ?_, ?_, fun c' name checks w answer h hrun ↦ ?_⟩ (.inl hroom)
    · exact Except.ok.inj h ▸ hlinked
    · rw [connectRetried_of_room hlive (hfirst ▸ hroom)]
      trivial
    · obtain rfl := Except.ok.inj h
      obtain rfl := (Prog.Upholds.goes (upholds_verifyDaemonPeer_linked hlinked name []) hrun).2
      simp
  · refine iff_of_false (fun h ↦ hlinked (h.connected c rfl)) ?_
    rintro (hroom | ⟨hsilent, -⟩)
    · exact absurd hroom (by simpa using hfull)
    · exact hsilent m hm hreported
  · have hroom : ¬l.full u = false := by simpa using hfull
    constructor
    · intro h
      refine .inr ⟨hsilent, hnone.1 ?_⟩
      have hagrees := h.agrees
      obtain hretried | hretried := connectRetried_eq_none_or deadline (first :: rounds) hlive
      · exact hretried
      · rw [hretried] at hagrees
        exact hagrees.elim
    · intro h
      obtain ⟨-, hattempts⟩ := h.resolve_left hroom
      refine ⟨fun c' h ↦ (by cases h), ?_, fun c' name checks w answer h ↦ (by cases h)⟩
      rw [hnone.2 hattempts]
      rfl

end

/-! ### A queue that is full for a moment -/

/-- A daemon whose accept queue is full for the first 4 ms. -/
def brieflyFull : Listener where
  full now := now < 4000000
  room := some 4000000
  full_room := by
    intro instant hi
    obtain rfl := Option.some.inj hi
    rfl
  full_before := by
    intro now h
    exact decide_eq_true (h _ rfl)
  outcome := .connected
  stream := { writes := [], reads := [] }

/-- The daemon of that record. -/
def soleDaemon : Daemon := ⟨7, by decide, "born", 0⟩

/-- The rounds of a batch that starts at an instant and tries again after `RETRY_TICK`. -/
def twoRounds (start : Nat) : List Round :=
  [⟨start, start, start + RETRY_TICK, false, Nat.le_refl _, Nat.le_add_right ..⟩,
    ⟨start + RETRY_TICK, start + RETRY_TICK, start + RETRY_TICK, false, Nat.le_refl _,
      Nat.le_refl _⟩]

/-- A connect after the queue has room is faithful. -/
theorem connects_faithfully_later :
    Faithful soleDaemon brieflyFull "g" (fun _ : Unit ↦ True) 1000000000 (twoRounds 5000000)
      5000000 (.ok ()) := by
  have hgoes : Prog.Goes (soleDaemon.answers brieflyFull "g" fun _ : Unit ↦ True) 0
      (connectUntil [97] 1000000000 1)
      [⟨0, .socket, .ok ()⟩, ⟨5000000, .connect () [97], .ok ()⟩] 5000000 (ret (.ok ())) :=
    .ask (by decide) ⟨(), rfl⟩ <| .ask (by decide) (.inl ⟨rfl, trivial, rfl⟩) (.here _ _)
  exact (connects_faithfully_iff rfl hgoes (List.mem_cons_of_mem _ (List.mem_cons_self ..)) rfl).2
    (.inl rfl)

/-- A connect 2 ns after the start gives a socket that is not connected; the record, which is the
daemon's, is then said to be another's. -/
theorem not_connects_faithfully :
    ¬∀ (d : Daemon) (l : Listener) (generation : String) (linked : Unit → Prop)
      (path : List UInt8) (deadline turns t u v : Nat) (es : Trace Unit)
      (result : Except SocketError Unit) (c : Unit) (r : Except SocketError Unit)
      (first : Round) (rounds : List Round), l.outcome = .connected →
      Prog.Goes (d.answers l generation linked) t (connectUntil path deadline turns) es v
        (ret result) → ⟨u, .connect c path, r⟩ ∈ es → first.now = u →
      Faithful d l generation linked deadline (first :: rounds) v result := by
  intro h
  let busy (c : Unit) : Prop := c ≠ ()
  have hbusy : ¬busy () := fun h ↦ h rfl
  have hgoes : Prog.Goes (soleDaemon.answers brieflyFull "g" busy) 0
      (connectUntil [97] 1000000000 1)
      [⟨1, .socket, .ok ()⟩, ⟨2, .connect () [97], .error again⟩, ⟨3, .now, (3 : Nat)⟩,
        ⟨4, .poll () .pollout 999, .reports true true⟩, ⟨5, .takeError (), .ok none⟩] 5
      (ret (.ok ())) :=
    .ask (by decide) ⟨(), rfl⟩ <| .ask (by decide) (.inr ⟨rfl, hbusy, rfl⟩) <|
      .ask (by decide) rfl <| .ask (by decide) (fun _ ↦ .inr ⟨true, rfl⟩) <|
      .ask (by decide) (fun _ ↦ rfl) (.here _ _)
  have hchecks : Prog.Goes (soleDaemon.answers brieflyFull "g" busy) 5
      (verifyDaemonPeer "s" "g" ())
      [⟨6, .readMetadata "s", some soleRecord⟩, ⟨7, .peer (), some (0, 4294967295)⟩,
        ⟨8, .process 0, none⟩] 8 (ret (.error (.invalidReadiness "s"))) :=
    .ask (by decide) ⟨soleRecord, rfl, rfl, rfl, rfl⟩ <|
      .ask (by decide) (.inr ⟨hbusy, 4294967295, rfl⟩) <|
      .ask (by decide) ⟨fun h ↦ absurd h (by decide), fun _ ↦ rfl⟩ (.here _ _)
  have hfaithful : Faithful soleDaemon brieflyFull "g" busy 1000000000 (twoRounds 2) 5 (.ok ()) :=
    h _ _ _ _ [97] _ 1 0 2 5 _ _ () _ _ _ rfl hgoes
      (List.mem_cons_of_mem _ (List.mem_cons_self ..)) rfl
  exact hfaithful.accepted () "s" _ 8 _ rfl hchecks rfl

end PtySpec.Client.Readiness
