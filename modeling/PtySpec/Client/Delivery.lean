import PtySpec.Client.Timeouts

/-!
# What a connection delivers

The events of a connection against the packets of its stream: the first SCREEN is the screen of
the connection, GEOMETRY in front of it is dropped, and the rest is returned once and in order,
however the reads of the socket cut the packets; the blocking connection and the async one agree.
-/

namespace PtySpec.Client

open Lib Protocol

/-! ### Streams -/

/-- What the reads of a socket give. -/
abbrev Answers := List (Except SocketError (List UInt8))

/-- The bytes of what the reads give. -/
def arriving : Answers → List UInt8
  | [] => []
  | .ok chunk :: rest => chunk ++ arriving rest
  | .error _ :: rest => arriving rest

/-- The events of packets. -/
def events (packets : List Packet) : List SessionEvent := packets.filterMap packetEvent

/-- The events of the whole packets in what the reads give. -/
def decoded (answers : Answers) : List SessionEvent :=
  events (frames.drain (arriving answers)).items

/-- Reads of a stream: none gives nothing, and one fails only when its time is over. -/
structure Cut (answers : Answers) : Prop where
  chunks : ∀ chunk, .ok chunk ∈ answers → chunk ≠ []
  waits : ∀ e, .error e ∈ answers → e.kind = .wouldBlock ∨ e.kind = .timedOut

/-- The size of the last GEOMETRY, or the one from before. -/
def lastSize (size : UInt16 × UInt16) (evs : List SessionEvent) : UInt16 × UInt16 :=
  evs.foldl (fun size ev ↦ match ev with
    | .geometry rows cols => (rows, cols)
    | _ => size) size

theorem arriving_append (a b : Answers) : arriving (a ++ b) = arriving a ++ arriving b := by
  induction a with
  | nil => rfl
  | cons answer a ih =>
    cases answer with
    | error e => exact ih
    | ok chunk => rw [List.cons_append, arriving, arriving, ih, List.append_assoc]

theorem events_append (a b : List Packet) : events (a ++ b) = events a ++ events b :=
  List.filterMap_append

/-- What more reads add: what their bytes complete. -/
private theorem decoded_append (a b : Answers) (h : (frames.drain (arriving a)).error = none) :
    decoded (a ++ b) = decoded a ++
      events (frames.drain ((frames.drain (arriving a)).rest ++ arriving b)).items := by
  rw [decoded, arriving_append, frames.drain_append _ _ h, events_append, decoded]

private theorem error_arriving {a b : Answers}
    (h : (frames.drain (arriving (a ++ b))).error = none) :
    (frames.drain (arriving a)).error = none := by
  cases ha : (frames.drain (arriving a)).error with
  | none => rfl
  | some e =>
    have hab := (frames.drain_append_of_error (arriving a) (arriving b) e ha).2
    rw [← arriving_append, h] at hab
    cases hab

theorem closed_notMem_events (packets : List Packet) : .closed ∉ events packets := by
  intro h
  obtain ⟨p, -, hp⟩ := List.mem_filterMap.mp h
  unfold packetEvent at hp
  split at hp <;> cases hp

theorem lastSize_append (size : UInt16 × UInt16) (a b : List SessionEvent) :
    lastSize size (a ++ b) = lastSize (lastSize size a) b := List.foldl_append

namespace SessionConnection

/-- The shared grid. -/
def effective (c : SessionConnection) : UInt16 × UInt16 := (c.effectiveRows, c.effectiveCols)

private theorem onPackets_eq (packets : List Packet) (c : SessionConnection) :
    packets.foldl onPacket c =
      { c with
        pending := c.pending ++ events packets
        effectiveRows := (lastSize c.effective (events packets)).1
        effectiveCols := (lastSize c.effective (events packets)).2 } := by
  induction packets generalizing c with
  | nil =>
    rw [show events [] = [] from rfl, List.append_nil]
    rfl
  | cons p packets ih =>
    rw [List.foldl_cons, ih]
    cases h : packetEvent p with
    | none =>
      have he : events (p :: packets) = events packets := List.filterMap_cons_none h
      rw [he, onPacket, h]
    | some ev =>
      have he : events (p :: packets) = ev :: events packets := List.filterMap_cons_some h
      rw [he, onPacket, h]
      cases ev <;> simp [lastSize, effective]

/-- Where a connection is in what the reads of its socket give: the reads it made, and the events
that are still to be decoded. -/
structure At (answers : Answers) (size : UInt16 × UInt16) (c : SessionConnection) (read : Answers)
    (ahead : List SessionEvent) : Prop where
  sized : c.effective = lastSize size (decoded read)
  rest : decoded answers = decoded read ++ ahead
  live : (c.closed = true ∧ c.socket = none ∧ read = answers) ∨ (c.closed = false ∧
    c.reader.buffer = (frames.drain (arriving read)).rest ∧
    ∃ socket, c.socket = some socket ∧ answers = read ++ socket.incoming)

/-- Nothing but the stream has moved. -/
structure Kept (c c' : SessionConnection) : Prop where
  name : c'.name = c.name
  screen : c'.screen = c.screen

variable {answers : Answers} {size : UInt16 × UInt16} {c : SessionConnection} {read : Answers}
  {ahead : List SessionEvent}

/-- A read that gave bytes. -/
private theorem At.feed {socket : Socket} {chunk : List UInt8} {more : Answers}
    (h : At answers size c read ahead) (he : (frames.drain (arriving answers)).error = none)
    (hc : c.closed = false) (hi : c.socket = some socket)
    (hs : socket.incoming = .ok chunk :: more) (socket' : Socket) (hs' : socket'.incoming = more) :
    ∃ c' new ahead', { c with socket := some socket' }.feed chunk = some c' ∧
      ahead = new ++ ahead' ∧ c'.pending = c.pending ++ new ∧ Kept c c' ∧
      ∀ pending, At answers size { c' with pending := pending } (read ++ [.ok chunk]) ahead' := by
  obtain ⟨hbad, -⟩ | ⟨-, hb, socket'', hs'', ha⟩ := h.live
  · rw [hc] at hbad
    cases hbad
  obtain rfl : socket'' = socket := Option.some.inj (hs''.symm.trans hi)
  rw [hs, ← List.singleton_append, ← List.append_assoc] at ha
  have he₂ : (frames.drain (arriving (read ++ [.ok chunk]))).error = none :=
    error_arriving (ha ▸ he)
  have he₁ : (frames.drain (arriving read)).error = none := error_arriving he₂
  have hsplit : arriving (read ++ [.ok chunk]) = arriving read ++ chunk := by
    rw [arriving_append]
    simp [arriving]
  have hdrain := frames.drain_append (arriving read) chunk he₁
  have hfeed := feed_eq c.reader chunk (by rw [hb, ← he₂, hsplit, hdrain])
  have hnew : decoded (read ++ [.ok chunk]) =
      decoded read ++ events (frames.drain (c.reader.buffer ++ chunk)).items := by
    rw [decoded, hsplit, hdrain, events_append, hb, decoded]
  have hahead := h.rest
  rw [ha, decoded_append _ more he₂, hnew, List.append_assoc] at hahead
  refine ⟨_, _, _, by rw [SessionConnection.feed, hfeed], (List.append_cancel_left hahead).symm,
    by rw [onPackets_eq], by rw [onPackets_eq]; exact ⟨rfl, rfl⟩,
    fun pending ↦ ⟨?_, ?_, .inr ⟨?_, ?_, socket', ?_, ?_⟩⟩⟩
  · rw [onPackets_eq, hnew, lastSize_append, ← h.sized]
    rfl
  · rw [hnew, List.append_assoc, h.rest, List.append_cancel_left hahead]
  · rw [onPackets_eq]
    exact hc
  · rw [onPackets_eq, hsplit, hdrain]
    dsimp only
    rw [hb]
  · rw [onPackets_eq]
  · rw [hs', ha]

/-- A read whose time was over. -/
private theorem At.wait {socket : Socket} {e : SocketError} {more : Answers}
    (h : At answers size c read ahead) (hc : c.closed = false) (hi : c.socket = some socket)
    (hs : socket.incoming = .error e :: more) (socket' : Socket) (hs' : socket'.incoming = more) :
    At answers size { c with socket := some socket' } (read ++ [.error e]) ahead := by
  obtain ⟨hbad, -⟩ | ⟨-, hb, socket'', hs'', ha⟩ := h.live
  · rw [hc] at hbad
    cases hbad
  obtain rfl : socket'' = socket := Option.some.inj (hs''.symm.trans hi)
  have hsame : arriving (read ++ [.error e]) = arriving read := by
    rw [arriving_append]
    simp [arriving]
  refine ⟨?_, ?_, .inr ⟨hc, ?_, socket', rfl, ?_⟩⟩
  · rw [decoded, hsame]
    exact h.sized
  · rw [decoded, decoded, hsame]
    exact h.rest
  · rw [hsame]
    exact hb
  · rw [ha, hs, hs', List.append_assoc, List.singleton_append]

/-- The end of the stream. -/
private theorem At.close {socket : Socket} (h : At answers size c read ahead)
    (hc : c.closed = false) (hi : c.socket = some socket) (hs : socket.incoming = []) :
    ahead = [] ∧ At answers size c.close answers [] := by
  obtain ⟨hbad, -⟩ | ⟨-, hb, socket'', hs'', ha⟩ := h.live
  · rw [hc] at hbad
    cases hbad
  obtain rfl : socket'' = socket := Option.some.inj (hs''.symm.trans hi)
  rw [hs, List.append_nil] at ha
  subst ha
  have hrest := h.rest
  rw [List.self_eq_append_right] at hrest
  subst hrest
  exact ⟨rfl, h.sized, h.rest, .inl ⟨rfl, rfl, rfl⟩⟩

/-- A connection that is at its end. -/
private theorem At.ahead_eq (h : At answers size c read ahead)
    (hc : c.closed = true ∨ c.socket = none) : ahead = [] := by
  obtain ⟨-, -, rfl⟩ | ⟨hcf, -, socket, hs, -⟩ := h.live
  · simpa using h.rest
  · obtain hc | hc := hc
    · rw [hcf] at hc
      cases hc
    · rw [hs] at hc
      cases hc

end SessionConnection

/-! ### Taking events -/

/-- What a call returns of the events that are still to come, and what is left of them. -/
def take : List SessionEvent → SessionEvent × List SessionEvent
  | [] => (.closed, [])
  | ev :: rest => (ev, rest)

/-- A turn returns the first event, or none yet. -/
def Took (r : Option SessionEvent) (out out' : List SessionEvent) : Prop :=
  match r with
  | none => out' = out
  | some ev => take out = (ev, out')

private theorem eq_cons_of_take {ev : SessionEvent} {out out' : List SessionEvent}
    (h : take out = (ev, out')) (hev : ev ≠ .closed) : out = ev :: out' := by
  cases out with
  | nil =>
    cases h
    exact absurd rfl hev
  | cons first rest =>
    cases h
    rfl

/-- What a number of calls return of the events that are still to come: those, and then the end. -/
def delivered (out : List SessionEvent) (n : Nat) : List SessionEvent :=
  (out ++ List.replicate n SessionEvent.closed).take n

private theorem delivered_succ (out : List SessionEvent) (n : Nat) :
    delivered out (n + 1) = (take out).1 :: delivered (take out).2 n := by
  cases out with
  | nil =>
    rw [delivered, List.nil_append, List.take_of_length_le (by simp), List.replicate_succ]
    simp [delivered, take]
  | cons ev rest =>
    simp only [delivered, take, List.cons_append, List.take_succ_cons, List.take_append,
      List.take_replicate]
    congr 3
    omega

/-- The first SCREEN of the events, and what a connection returns of the others. -/
def firstScreen : List SessionEvent → Option (List UInt8 × List SessionEvent)
  | [] => none
  | .screen bytes :: rest => some (bytes, rest)
  | .geometry _ _ :: rest => firstScreen rest
  | ev :: rest => (firstScreen rest).map fun (bytes, later) ↦ (bytes, ev :: later)

/-- An attached connection: it has the first SCREEN of what was to come, and the rest is still
to come. -/
structure Opened (answers : Answers) (size : UInt16 × UInt16) (out kept : List SessionEvent)
    (c : SessionConnection) : Prop where
  opened : ∃ read ahead later, firstScreen out = some (c.screen, later) ∧
    c.At answers size read ahead ∧ c.pending ++ ahead = kept ++ later

private theorem Opened.geometry {answers : Answers} {size : UInt16 × UInt16} {rows cols : UInt16}
    {out kept : List SessionEvent} {c : SessionConnection} (h : Opened answers size out kept c) :
    Opened answers size (.geometry rows cols :: out) kept c := ⟨h.opened⟩

/-- An event in front of the SCREEN that is set aside. -/
private theorem Opened.cons {answers : Answers} {size : UInt16 × UInt16} {ev : SessionEvent}
    {out kept : List SessionEvent} {c : SessionConnection} {A B G : Prop}
    (hev : firstScreen (ev :: out) = (firstScreen out).map fun (b, later) ↦ (b, ev :: later))
    (h : (A ∧ Opened answers size out (kept ++ [ev]) c) ∨ (B ∧ (firstScreen out = none ∨ G))) :
    (A ∧ Opened answers size (ev :: out) kept c) ∨ (B ∧ (firstScreen (ev :: out) = none ∨ G)) := by
  obtain ⟨ha, read, ahead, later, hs, hat, ho⟩ | ⟨hb, hn | hg⟩ := h
  · refine .inl ⟨ha, read, ahead, ev :: later, by rw [hev, hs, Option.map_some], hat, ?_⟩
    rw [ho, List.append_assoc, List.singleton_append]
  · exact .inr ⟨hb, .inl (by rw [hev, hn, Option.map_none])⟩
  · exact .inr ⟨hb, .inr hg⟩

namespace Session

open SessionConnection

variable {answers : Answers} {size : UInt16 × UInt16} {timeout : Option Nat} {s s' : Session}
  {read : Answers} {ahead : List SessionEvent}

private theorem More.took {result : Except ClientError (Option SessionEvent)}
    (h : More timeout s s' result) (hcut : Cut answers)
    (he : (frames.drain (arriving answers)).error = none)
    (hat : At answers size s.conn read ahead) :
    ∃ r read' ahead', result = .ok r ∧ At answers size s'.conn read' ahead' ∧
      Took r (s.conn.pending ++ ahead) (s'.conn.pending ++ ahead') ∧ Kept s.conn s'.conn ∧
      s'.deadline = s.deadline ∧ s'.now = s.now := by
  have hmem {socket : Socket} {answer : Except SocketError (List UInt8)} {rest : Answers}
      (hc : s.conn.closed = false) (hs : s.conn.socket = some socket)
      (hi : socket.incoming = answer :: rest) : answer ∈ answers := by
    obtain ⟨hbad, -⟩ | ⟨-, -, socket', hs', ha⟩ := hat.live
    · rw [hc] at hbad
      cases hbad
    · obtain rfl : socket' = socket := Option.some.inj (hs'.symm.trans hs)
      rw [ha, hi]
      simp
  cases h with
  | @queued ev rest hp =>
    refine ⟨_, read, ahead, rfl, ⟨hat.sized, hat.rest, hat.live⟩, ?_, ⟨rfl, rfl⟩, rfl, rfl⟩
    rw [hp]
    rfl
  | gone hp hc =>
    refine ⟨_, read, ahead, rfl, hat, ?_, ⟨rfl, rfl⟩, rfl, rfl⟩
    rw [hp, hat.ahead_eq hc]
    rfl
  | @waited socket e rest hp hc hs hi hk =>
    exact ⟨_, _, ahead, rfl, hat.wait hc hs hi _ rfl, rfl, ⟨rfl, rfl⟩, rfl, rfl⟩
  | failed hp hc hs hi hk => exact absurd (hcut.waits _ (hmem hc hs hi)) hk
  | ended hp hc hs hi =>
    obtain hi | ⟨rest, hi⟩ := hi
    · obtain ⟨rfl, hclose⟩ := hat.close hc hs hi
      refine ⟨_, answers, [], rfl, hclose, ?_, ⟨rfl, rfl⟩, rfl, rfl⟩
      change take (s.conn.pending ++ []) = (.closed, s.conn.pending ++ [])
      rw [hp]
      rfl
    · exact absurd rfl (hcut.chunks _ (hmem hc hs hi))
  | @refused socket chunk rest hp hc hs hb hi hf =>
    obtain ⟨c', new, ahead', hfeed, -⟩ :=
      hat.feed he hc hs hi { socket.setReadTimeout timeout with incoming := rest } rfl
    rw [hf] at hfeed
    cases hfeed
  | @fed socket chunk rest conn hp hc hs hb hi hf =>
    obtain ⟨c', new, ahead', hfeed, rfl, hpend, hkept, hat'⟩ :=
      hat.feed he hc hs hi { socket.setReadTimeout timeout with incoming := rest } rfl
    obtain rfl : conn = c' := Option.some.inj (hf.symm.trans hfeed)
    refine ⟨_, _, ahead', rfl, hat' _, ?_, ⟨hkept.name, hkept.screen⟩, rfl, rfl⟩
    rw [hp, List.nil_append] at hpend
    change Took conn.pending.head? (s.conn.pending ++ (new ++ ahead')) (conn.pending.tail ++ ahead')
    rw [hp, hpend]
    cases new <;> rfl

theorem deadline_look (clock : Nat → Nat) (s : Session) :
    (s.look clock).deadline = s.deadline := by
  unfold look
  split <;> rfl

private theorem took_turn (clock : Nat → Nat)
    {result : Except ClientError (Option SessionEvent)}
    (ht : (s.look clock).readMore (s.look clock).remaining = (s', result)) (hcut : Cut answers)
    (he : (frames.drain (arriving answers)).error = none)
    (hat : At answers size s.conn read ahead) :
    ∃ r read' ahead', result = .ok r ∧ At answers size s'.conn read' ahead' ∧
      Took r (s.conn.pending ++ ahead) (s'.conn.pending ++ ahead') ∧ Kept s.conn s'.conn ∧
      s'.deadline = s.deadline ∧ s'.now = (s.look clock).now := by
  have hm := more_readMore (s.look clock).remaining (s.look clock)
  rw [ht] at hm
  have htook := hm.took hcut he (conn_look clock s ▸ hat)
  rwa [conn_look, deadline_look] at htook

private theorem nextEventLoop_took (clock : Nat → Nat) (hcut : Cut answers)
    (he : (frames.drain (arriving answers)).error = none)
    (hat : At answers size s.conn read ahead) :
    ∃ r read' ahead', (s.nextEventLoop clock).2 = .ok r ∧
      At answers size (s.nextEventLoop clock).1.conn read' ahead' ∧
      Took r (s.conn.pending ++ ahead) ((s.nextEventLoop clock).1.conn.pending ++ ahead') ∧
      Kept s.conn (s.nextEventLoop clock).1.conn ∧ (r = none → s.deadline ≠ none) := by
  fun_induction nextEventLoop clock s generalizing read ahead with
  | case1 s s' e ht =>
    obtain ⟨_, _, _, hbad, -⟩ := took_turn clock ht hcut he hat
    cases hbad
  | case2 s s' ev ht =>
    obtain ⟨_, read', ahead', hr, hat', htook, hkept, -⟩ := took_turn clock ht hcut he hat
    cases hr
    exact ⟨_, read', ahead', rfl, hat', htook, hkept, by simp⟩
  | case3 s s' ht hz =>
    obtain ⟨_, read', ahead', hr, hat', htook, hkept, hd, -⟩ := took_turn clock ht hcut he hat
    cases hr
    refine ⟨_, read', ahead', rfl, hat', htook, hkept, fun _ hnone ↦ ?_⟩
    rw [remaining, deadline_look, hnone] at hz
    cases hz
  | case4 s s' ht hz ih =>
    obtain ⟨_, read', ahead', hr, hat', htook, hkept, hd, -⟩ := took_turn clock ht hcut he hat
    cases hr
    obtain ⟨r, read'', ahead'', hr, hat'', htook', hkept', hnone⟩ := ih hat'
    have hsame : s'.conn.pending ++ ahead' = s.conn.pending ++ ahead := htook
    rw [hsame] at htook'
    exact ⟨r, read'', ahead'', hr, hat'', htook',
      ⟨hkept'.name.trans hkept.name, hkept'.screen.trans hkept.screen⟩, hd ▸ hnone⟩

private theorem attachLoop_opened (clock : Nat → Nat) (kept : List SessionEvent)
    (hcut : Cut answers) (he : (frames.drain (arriving answers)).error = none)
    (hat : At answers size s.conn read ahead) (hnc : .closed ∉ s.conn.pending ++ ahead) :
    ((s.attachLoop clock kept).2 = .ok () ∧
      Opened answers size (s.conn.pending ++ ahead) kept (s.attachLoop clock kept).1.conn) ∨
    ((s.attachLoop clock kept).2 = .error (.closedBeforeScreen s.conn.name) ∧
      (firstScreen (s.conn.pending ++ ahead) = none ∨
        ∃ d, s.deadline = some d ∧ d ≤ (s.attachLoop clock kept).1.now)) := by
  fun_induction attachLoop clock s kept generalizing read ahead with
  | case1 s kept hz =>
    refine .inr ⟨rfl, .inr ?_⟩
    rw [remaining, deadline_look] at hz
    obtain ⟨d, hd, hz⟩ := Option.map_eq_some_iff.mp hz
    exact ⟨d, hd, Nat.sub_eq_zero_iff_le.mp hz⟩
  | case2 s kept hz s' e ht =>
    obtain ⟨_, _, _, hbad, -⟩ := took_turn clock ht hcut he hat
    cases hbad
  | case3 s kept hz s' bytes ht =>
    obtain ⟨_, read', ahead', hr, hat', htook, hkept, -⟩ := took_turn clock ht hcut he hat
    cases hr
    rw [eq_cons_of_take htook (by simp)]
    refine .inl ⟨rfl, read', ahead', s'.conn.pending ++ ahead', rfl,
      ⟨hat'.sized, hat'.rest, hat'.live⟩, ?_⟩
    exact List.append_assoc _ _ _
  | case4 s kept hz s' ht =>
    obtain ⟨_, read', ahead', hr, hat', htook, hkept, -⟩ := took_turn clock ht hcut he hat
    cases hr
    refine .inr ⟨rfl, .inl ?_⟩
    cases hout : s.conn.pending ++ ahead with
    | nil => rfl
    | cons ev rest =>
      rw [hout] at htook hnc
      cases htook
      exact absurd List.mem_cons_self hnc
  | case5 s kept hz s' rows cols ht ih =>
    obtain ⟨_, read', ahead', hr, hat', htook, hkept, hd, -⟩ := took_turn clock ht hcut he hat
    cases hr
    have hout := eq_cons_of_take htook (by simp)
    rw [hout] at hnc ⊢
    rw [← hkept.name, ← hd]
    exact (ih hat' fun hm ↦ hnc (List.mem_cons_of_mem _ hm)).imp_left
      (And.imp_right Opened.geometry)
  | case6 s kept hz s' ht ih =>
    obtain ⟨_, read', ahead', hr, hat', htook, hkept, hd, -⟩ := took_turn clock ht hcut he hat
    cases hr
    have hout : s'.conn.pending ++ ahead' = s.conn.pending ++ ahead := htook
    rw [← hout] at hnc ⊢
    rw [← hkept.name, ← hd]
    exact ih hat' hnc
  | case7 s kept hz s' bytes ht ih =>
    obtain ⟨_, read', ahead', hr, hat', htook, hkept, hd, -⟩ := took_turn clock ht hcut he hat
    cases hr
    have hout := eq_cons_of_take htook (by simp)
    rw [hout] at hnc ⊢
    rw [← hkept.name, ← hd]
    exact Opened.cons rfl (ih hat' fun hm ↦ hnc (List.mem_cons_of_mem _ hm))
  | case8 s kept hz s' code ht ih =>
    obtain ⟨_, read', ahead', hr, hat', htook, hkept, hd, -⟩ := took_turn clock ht hcut he hat
    cases hr
    have hout := eq_cons_of_take htook (by simp)
    rw [hout] at hnc ⊢
    rw [← hkept.name, ← hd]
    exact Opened.cons rfl (ih hat' fun hm ↦ hnc (List.mem_cons_of_mem _ hm))

/-- What calls of `next_event` return, one after the other. -/
def results (clock : Nat → Nat) (s : Session) :
    List (Option Nat) → List (Except ClientError (Option SessionEvent))
  | [] => []
  | timeout :: rest =>
    (s.nextEvent clock timeout).2 :: (s.nextEvent clock timeout).1.results clock rest

private theorem conn_call (clock : Nat → Nat) (s : Session) (timeout : Option Nat) :
    (s.call clock timeout).conn = s.conn := by
  cases timeout <;> rfl

private theorem results_eq (clock : Nat → Nat) (hcut : Cut answers)
    (he : (frames.drain (arriving answers)).error = none) (timeouts : List (Option Nat))
    (hat : At answers size s.conn read ahead) :
    ∃ given read' ahead', s.results clock timeouts = given.map .ok ∧
      List.Forall₂ (fun timeout r ↦ timeout = none → r ≠ none) timeouts given ∧
      given.filterMap id = delivered (s.conn.pending ++ ahead) (given.filterMap id).length ∧
      At answers size (s.run clock timeouts).conn read' ahead' ∧
      (s.run clock timeouts).conn.screen = s.conn.screen := by
  induction timeouts generalizing s read ahead with
  | nil => exact ⟨[], read, ahead, rfl, .nil, rfl, hat, rfl⟩
  | cons timeout timeouts ih =>
    obtain ⟨r, read', ahead', hr, hat', htook, hkept, hnone⟩ :=
      nextEventLoop_took clock hcut he ((conn_call clock s timeout).symm ▸ hat)
    rw [conn_call] at htook hkept
    obtain ⟨given, read'', ahead'', hg, hall, hd, hat'', hscreen⟩ := ih hat'
    refine ⟨r :: given, read'', ahead'', ?_, .cons (fun ht hn ↦ ?_) hall, ?_, hat'', ?_⟩
    · rw [results, nextEvent, hr, hg, List.map_cons]
    · exact hnone hn (by rw [ht]; rfl)
    · cases r with
      | none =>
        have hout : _ = s.conn.pending ++ ahead := htook
        rw [← hout]
        exact hd
      | some ev =>
        have hout : take (s.conn.pending ++ ahead) = _ := htook
        rw [show (some ev :: given).filterMap id = ev :: given.filterMap id from rfl,
          List.length_cons, delivered_succ, hout, ← hd]
    · exact hscreen.trans hkept.screen

end Session

namespace AsyncConnection

open SessionConnection

variable {answers : Answers} {size : UInt16 × UInt16} {c : SessionConnection} {read : Answers}
  {ahead : List SessionEvent}

/-- What a number of calls of `next_event` return, one after the other. -/
def results (c : SessionConnection) : Nat → List (Except ClientError SessionEvent)
  | 0 => []
  | n + 1 => (nextEvent c).2 :: results (nextEvent c).1 n

/-- The connection after them. -/
def run (c : SessionConnection) : Nat → SessionConnection
  | 0 => c
  | n + 1 => run (nextEvent c).1 n

private theorem turn_took (hcut : Cut answers) (hok : ∀ e, .error e ∉ answers)
    (he : (frames.drain (arriving answers)).error = none) (hat : At answers size c read ahead) :
    ∃ r read' ahead', (turn c).2 = r.map .ok ∧ At answers size (turn c).1 read' ahead' ∧
      Took r (c.pending ++ ahead) ((turn c).1.pending ++ ahead') ∧ Kept c (turn c).1 := by
  have hgone (hp : c.pending = []) (hc : c.closed = true ∨ c.socket = none) :
      Took (some .closed) (c.pending ++ ahead) (c.pending ++ ahead) := by
    rw [hp, hat.ahead_eq hc]
    rfl
  unfold turn
  split
  · next ev rest hp =>
    refine ⟨some ev, read, ahead, rfl, ⟨hat.sized, hat.rest, hat.live⟩, ?_, ⟨rfl, rfl⟩⟩
    rw [hp]
    rfl
  · next hp =>
    split
    · next hc => exact ⟨some .closed, read, ahead, rfl, hat, hgone hp (.inl hc), ⟨rfl, rfl⟩⟩
    · next hc =>
      replace hc : c.closed = false := by simpa using hc
      split
      · next hs => exact ⟨some .closed, read, ahead, rfl, hat, hgone hp (.inr hs), ⟨rfl, rfl⟩⟩
      · next socket hs =>
        have hmem {answer : Except SocketError (List UInt8)} {rest : Answers}
            (hi : socket.incoming = answer :: rest) : answer ∈ answers := by
          obtain ⟨hbad, -⟩ | ⟨-, -, socket', hs', ha⟩ := hat.live
          · rw [hc] at hbad
            cases hbad
          · obtain rfl : socket' = socket := Option.some.inj (hs'.symm.trans hs)
            rw [ha, hi]
            simp
        unfold Socket.read
        cases hi : socket.incoming with
        | nil =>
          obtain ⟨rfl, hclose⟩ := hat.close hc hs hi
          refine ⟨some .closed, answers, [], rfl, hclose, ?_, ⟨rfl, rfl⟩⟩
          change take (c.pending ++ []) = (.closed, c.pending ++ [])
          rw [hp]
          rfl
        | cons answer rest =>
          cases answer with
          | error e => exact absurd (hmem hi) (hok e)
          | ok chunk =>
            cases chunk with
            | nil => exact absurd rfl (hcut.chunks _ (hmem hi))
            | cons b chunk =>
              obtain ⟨c', new, ahead', hfeed, rfl, hpend, hkept, hat'⟩ :=
                hat.feed he hc hs hi { socket with incoming := rest } rfl
              dsimp only
              rw [hfeed]
              refine ⟨none, _, ahead', rfl, hat' c'.pending, ?_, hkept⟩
              change c'.pending ++ ahead' = _
              rw [hpend, List.append_assoc]

private theorem nextEvent_took (hcut : Cut answers) (hok : ∀ e, .error e ∉ answers)
    (he : (frames.drain (arriving answers)).error = none) (hat : At answers size c read ahead) :
    ∃ ev read' ahead', (nextEvent c).2 = .ok ev ∧ At answers size (nextEvent c).1 read' ahead' ∧
      take (c.pending ++ ahead) = (ev, (nextEvent c).1.pending ++ ahead') ∧
      Kept c (nextEvent c).1 := by
  fun_induction nextEvent c generalizing read ahead with
  | case1 c c' result ht =>
    obtain ⟨r, read', ahead', hr, hat', htook, hkept⟩ := turn_took hcut hok he hat
    rw [ht] at hr hat' htook hkept
    obtain ⟨ev, rfl, rfl⟩ := Option.map_eq_some_iff.mp hr.symm
    exact ⟨ev, read', ahead', rfl, hat', htook, hkept⟩
  | case2 c c' ht ih =>
    obtain ⟨r, read', ahead', hr, hat', htook, hkept⟩ := turn_took hcut hok he hat
    rw [ht] at hr hat' htook hkept
    obtain rfl := Option.map_eq_none_iff.mp hr.symm
    obtain ⟨ev, read'', ahead'', hr, hat'', htook', hkept'⟩ := ih hat'
    have hsame : c'.pending ++ ahead' = c.pending ++ ahead := htook
    rw [hsame] at htook'
    exact ⟨ev, read'', ahead'', hr, hat'', htook',
      ⟨hkept'.name.trans hkept.name, hkept'.screen.trans hkept.screen⟩⟩

private theorem attachLoop_opened (kept : List SessionEvent) (hcut : Cut answers)
    (hok : ∀ e, .error e ∉ answers) (he : (frames.drain (arriving answers)).error = none)
    (hat : At answers size c read ahead) (hnc : .closed ∉ c.pending ++ ahead) :
    ((attachLoop c kept).2 = .ok () ∧
      Opened answers size (c.pending ++ ahead) kept (attachLoop c kept).1) ∨
    ((attachLoop c kept).2 = .error (.closedBeforeScreen c.name) ∧
      (firstScreen (c.pending ++ ahead) = none ∨ False)) := by
  fun_induction attachLoop c kept generalizing read ahead with
  | case1 c kept c' e ht =>
    obtain ⟨_, _, _, hbad, -⟩ := nextEvent_took hcut hok he hat
    rw [ht] at hbad
    cases hbad
  | case2 c kept c' bytes ht =>
    obtain ⟨_, read', ahead', hr, hat', htook, hkept⟩ := nextEvent_took hcut hok he hat
    rw [ht] at hr hat' htook
    cases hr
    rw [eq_cons_of_take htook (by simp)]
    refine .inl ⟨rfl, read', ahead', c'.pending ++ ahead', rfl,
      ⟨hat'.sized, hat'.rest, hat'.live⟩, ?_⟩
    exact List.append_assoc _ _ _
  | case3 c kept c' ht =>
    obtain ⟨_, read', ahead', hr, hat', htook, hkept⟩ := nextEvent_took hcut hok he hat
    rw [ht] at hr hat' htook
    cases hr
    refine .inr ⟨rfl, .inl ?_⟩
    cases hout : c.pending ++ ahead with
    | nil => rfl
    | cons ev rest =>
      rw [hout] at htook hnc
      cases htook
      exact absurd List.mem_cons_self hnc
  | case4 c kept c' rows cols ht ih =>
    obtain ⟨_, read', ahead', hr, hat', htook, hkept⟩ := nextEvent_took hcut hok he hat
    rw [ht] at hr hat' htook hkept
    cases hr
    rw [eq_cons_of_take htook (by simp)] at hnc ⊢
    rw [← hkept.name]
    exact (ih hat' fun hm ↦ hnc (List.mem_cons_of_mem _ hm)).imp_left
      (And.imp_right Opened.geometry)
  | case5 c kept c' bytes ht ih =>
    obtain ⟨_, read', ahead', hr, hat', htook, hkept⟩ := nextEvent_took hcut hok he hat
    rw [ht] at hr hat' htook hkept
    cases hr
    rw [eq_cons_of_take htook (by simp)] at hnc ⊢
    rw [← hkept.name]
    exact Opened.cons rfl (ih hat' fun hm ↦ hnc (List.mem_cons_of_mem _ hm))
  | case6 c kept c' code ht ih =>
    obtain ⟨_, read', ahead', hr, hat', htook, hkept⟩ := nextEvent_took hcut hok he hat
    rw [ht] at hr hat' htook hkept
    cases hr
    rw [eq_cons_of_take htook (by simp)] at hnc ⊢
    rw [← hkept.name]
    exact Opened.cons rfl (ih hat' fun hm ↦ hnc (List.mem_cons_of_mem _ hm))

private theorem results_eq (hcut : Cut answers) (hok : ∀ e, .error e ∉ answers)
    (he : (frames.drain (arriving answers)).error = none) (n : Nat)
    (hat : At answers size c read ahead) :
    ∃ read' ahead', results c n = (delivered (c.pending ++ ahead) n).map .ok ∧
      At answers size (run c n) read' ahead' ∧ (run c n).screen = c.screen := by
  induction n generalizing c read ahead with
  | zero => exact ⟨read, ahead, rfl, hat, rfl⟩
  | succ n ih =>
    obtain ⟨ev, read', ahead', hr, hat', htook, hkept⟩ := nextEvent_took hcut hok he hat
    obtain ⟨read'', ahead'', hg, hat'', hscreen⟩ := ih hat'
    refine ⟨read'', ahead'', ?_, hat'', hscreen.trans hkept.screen⟩
    rw [results, hr, hg, delivered_succ, htook, List.map_cons]

end AsyncConnection

/-! ### The whole stream -/

/-- A GEOMETRY. -/
def SessionEvent.isGeometry : SessionEvent → Bool
  | .geometry _ _ => true
  | _ => false

private theorem firstScreen_eq_none {evs : List SessionEvent}
    (h : ∀ bytes, .screen bytes ∉ evs) : firstScreen evs = none := by
  induction evs with
  | nil => rfl
  | cons ev evs ih =>
    have hi := ih fun bytes hm ↦ h bytes (List.mem_cons_of_mem ev hm)
    cases ev with
    | screen bytes => exact absurd List.mem_cons_self (h bytes)
    | geometry rows cols => exact hi
    | data bytes => simp [firstScreen, hi]
    | exit code => simp [firstScreen, hi]
    | closed => simp [firstScreen, hi]

private theorem firstScreen_eq_some {before after : List SessionEvent} {screen : List UInt8}
    (h : ∀ bytes, .screen bytes ∉ before) :
    firstScreen (before ++ .screen screen :: after) =
      some (screen, before.filter (!·.isGeometry) ++ after) := by
  induction before with
  | nil => rfl
  | cons ev before ih =>
    have hi := ih fun bytes hm ↦ h bytes (List.mem_cons_of_mem ev hm)
    cases ev with
    | screen bytes => exact absurd List.mem_cons_self (h bytes)
    | geometry rows cols => exact hi
    | data bytes => simp [firstScreen, hi, SessionEvent.isGeometry]
    | exit code => simp [firstScreen, hi, SessionEvent.isGeometry]
    | closed => simp [firstScreen, hi, SessionEvent.isGeometry]

namespace SessionConnection

variable {answers : Answers} {size : UInt16 × UInt16} {c : SessionConnection} {read : Answers}
  {ahead : List SessionEvent}

/-- The answers of the socket that a connection has read. -/
def readSoFar (c : SessionConnection) (answers : Answers) : Answers :=
  answers.take (answers.length - c.unread)

private theorem At.effective_eq (h : At answers size c read ahead) :
    c.effective = lastSize size (decoded (c.readSoFar answers)) := by
  have hread : c.readSoFar answers = read := by
    unfold readSoFar unread
    obtain ⟨-, hs, rfl⟩ | ⟨-, -, socket, hs, rfl⟩ := h.live
    · rw [hs]
      exact List.take_of_length_le (by simp)
    · rw [hs]
      dsimp only
      rw [List.length_append, Nat.add_sub_cancel, List.take_left]
  rw [hread, h.sized]

private theorem at_start (answers : Answers) (readTimeout : Option ReadTimeout) (name : String)
    (rows cols : UInt16) :
    At answers (rows, cols) (start ⟨answers, readTimeout⟩ name rows cols) [] (decoded answers) := by
  have hd : frames.drain (arriving []) = ⟨[], [], none⟩ := frames.drain_more rfl
  refine ⟨?_, ?_, .inr ⟨rfl, ?_, ⟨answers, readTimeout⟩, rfl, rfl⟩⟩
  · rw [decoded, hd]
    rfl
  · rw [decoded, decoded, hd]
    rfl
  · rw [hd]
    rfl

end SessionConnection

private theorem drain_stream {packets : List Packet} {tail : List UInt8}
    (hp : ∀ p ∈ packets, p.payload.length ≤ MAX_PACKET_LENGTH) (ht : nextFrame tail = .more) :
    frames.drain ((packets.map Packet.encode).flatten ++ tail) =
      ⟨packets.map Packet.reread, tail, none⟩ := by
  have hd := drain_encode packets hp
  rw [frames.drain_append _ _ (by rw [hd]), hd, List.nil_append,
    frames.drain_more (show frames.next tail = .more from ht), List.append_nil]

/-- Reads that give packets one after the other, and of one more at most a part. -/
structure Carries (answers : Answers) (packets : List Packet) (tail : List UInt8) : Prop
    extends Cut answers where
  bytes : arriving answers = (packets.map Packet.encode).flatten ++ tail
  short : ∀ p ∈ packets, p.payload.length ≤ MAX_PACKET_LENGTH
  unfinished : nextFrame tail = .more

/-- What a connection has after some calls on a stream with a SCREEN: that SCREEN, and the size of
the last GEOMETRY that it has read. -/
structure Screened (answers : Answers) (size : UInt16 × UInt16) (screen : List UInt8)
    (c : SessionConnection) : Prop where
  screen : c.screen = screen
  effective : c.effective = lastSize size (decoded (c.readSoFar answers))

section Streams

variable {answers : Answers} {packets : List Packet} {tail : List UInt8}

private theorem Carries.decoded_eq (h : Carries answers packets tail) :
    decoded answers = events (packets.map Packet.reread) := by
  rw [decoded, h.bytes, drain_stream h.short h.unfinished]

private theorem Carries.no_error (h : Carries answers packets tail) :
    (frames.drain (arriving answers)).error = none := by
  rw [h.bytes, drain_stream h.short h.unfinished]

variable (clock : Nat → Nat) (readTimeout : Option ReadTimeout) (path name : String)
  (rows cols : UInt16)

private theorem attachOver_cases (h : Carries answers packets tail) (timeout : Option Nat) :
    let s := Session.attachOver clock (.ok ()) path ⟨answers, readTimeout⟩ name rows cols timeout
    let evs := events (packets.map Packet.reread)
    (s.2 = .ok () ∧ Opened answers (rows, cols) evs [] s.1.conn) ∨
      (s.2 = .error (.closedBeforeScreen name) ∧
        (firstScreen evs = none ∨ ∃ t, timeout = some t ∧ clock 0 + t ≤ s.1.now)) := by
  intro s evs
  have hat := SessionConnection.at_start answers readTimeout name rows cols
  have ho := Session.attachLoop_opened clock [] h.toCut h.no_error
    (s := Session.call clock ⟨.start ⟨answers, readTimeout⟩ name rows cols, none, 0, 0, []⟩ timeout)
    (by rw [Session.conn_call]; exact hat)
    (by rw [Session.conn_call, h.decoded_eq]; exact closed_notMem_events _)
  rw [Session.conn_call, h.decoded_eq] at ho
  refine ho.imp_right fun ⟨hr, hg⟩ ↦ ⟨hr, hg.imp_right fun ⟨d, hd, hle⟩ ↦ ?_⟩
  cases timeout with
  | none => cases hd
  | some t =>
    cases hd
    exact ⟨t, rfl, hle⟩

private theorem attachOver_async_cases (h : Carries answers packets tail)
    (hok : ∀ e, .error e ∉ answers) :
    let c := AsyncConnection.attachOver (.ok ()) path ⟨answers, readTimeout⟩ name rows cols
    let evs := events (packets.map Packet.reread)
    (c.2 = .ok () ∧ Opened answers (rows, cols) evs [] c.1) ∨
      (c.2 = .error (.closedBeforeScreen name) ∧ firstScreen evs = none) := by
  intro c evs
  have hat := SessionConnection.at_start answers readTimeout name rows cols
  have ho := AsyncConnection.attachLoop_opened [] h.toCut hok h.no_error hat
    (by rw [h.decoded_eq]; exact closed_notMem_events _)
  rw [h.decoded_eq] at ho
  exact ho.imp_right fun ⟨hr, hg⟩ ↦ ⟨hr, hg.resolve_right id⟩

/-- However the reads cut the packets, and whatever the calls wait: without a SCREEN no attach
succeeds. With one, the async attach succeeds, and the blocking one unless its time is over
before; the first SCREEN is the screen, and the events are DATA and EXIT from before it and all
that came after it, once and in order, and then the end for ever. A call that waits for ever
always returns one. -/
theorem delivers {answers' : Answers} (h : Carries answers packets tail)
    (h' : Carries answers' packets tail) (hok : ∀ e, .error e ∉ answers')
    (timeout : Option Nat) (timeouts : List (Option Nat)) (n : Nat) :
    let s := Session.attachOver clock (.ok ()) path ⟨answers, readTimeout⟩ name rows cols timeout
    let c := AsyncConnection.attachOver (.ok ()) path ⟨answers', readTimeout⟩ name rows cols
    let evs := events (packets.map Packet.reread)
    ((∀ bytes, .screen bytes ∉ evs) →
      s.2 = .error (.closedBeforeScreen name) ∧ c.2 = .error (.closedBeforeScreen name)) ∧
    ∀ before screen after, evs = before ++ .screen screen :: after →
      (∀ bytes, .screen bytes ∉ before) →
      let out := before.filter (!·.isGeometry) ++ after
      ((s.2 = .ok () ∧ Screened answers (rows, cols) screen (s.1.run clock timeouts).conn ∧
          ∃ given, s.1.results clock timeouts = given.map .ok ∧
            List.Forall₂ (fun timeout r ↦ timeout = none → r ≠ none) timeouts given ∧
            given.filterMap id = delivered out (given.filterMap id).length) ∨
        (s.2 = .error (.closedBeforeScreen name) ∧
          ∃ t, timeout = some t ∧ clock 0 + t ≤ s.1.now)) ∧
      c.2 = .ok () ∧ Screened answers' (rows, cols) screen (AsyncConnection.run c.1 n) ∧
        AsyncConnection.results c.1 n = (delivered out n).map .ok := by
  intro s c evs
  have hs := attachOver_cases clock readTimeout path name rows cols h timeout
  have hc := attachOver_async_cases readTimeout path name rows cols h' hok
  constructor
  · intro hno
    have hnone : firstScreen evs = none := firstScreen_eq_none hno
    constructor
    · obtain ⟨_, _, _, _, hsome, _⟩ | ⟨hr, -⟩ := hs
      · cases hnone.symm.trans hsome
      · exact hr
    · obtain ⟨_, _, _, _, hsome, _⟩ | ⟨hr, -⟩ := hc
      · cases hnone.symm.trans hsome
      · exact hr
  · intro before screen after hevs hbefore out
    have hfirst : firstScreen evs = some (screen, out) := by
      rw [hevs]
      exact firstScreen_eq_some hbefore
    constructor
    · obtain ⟨hr, read, ahead, later, hsome, hat, ho⟩ | ⟨hr, hnone | hg⟩ := hs
      · obtain ⟨hscr, rfl⟩ := Prod.mk.inj (Option.some.inj (hfirst.symm.trans hsome))
        obtain ⟨given, read', ahead', hg, hall, hd, hat', hkept⟩ :=
          Session.results_eq clock h.toCut h.no_error timeouts hat
        rw [ho, List.nil_append] at hd
        exact .inl ⟨hr, ⟨hkept.trans hscr.symm, hat'.effective_eq⟩, given, hg, hall, hd⟩
      · cases hfirst.symm.trans hnone
      · exact .inr ⟨hr, hg⟩
    · obtain ⟨hr, read, ahead, later, hsome, hat, ho⟩ | ⟨hr, hnone⟩ := hc
      · obtain ⟨hscr, rfl⟩ := Prod.mk.inj (Option.some.inj (hfirst.symm.trans hsome))
        obtain ⟨read', ahead', hg, hat', hkept⟩ :=
          AsyncConnection.results_eq h'.toCut hok h'.no_error n hat
        rw [ho, List.nil_append] at hg
        exact ⟨hr, ⟨hkept.trans hscr.symm, hat'.effective_eq⟩, hg⟩
      · cases hfirst.symm.trans hnone

end Streams

/-- DATA and then the SCREEN, cut in the header of the first; and the same in one read. -/
theorem delivers_twice :
    let c := AsyncConnection.attachOver (.ok ()) ""
      ⟨[.ok [0, 0, 0, 0, 1, 0x61, 5, 0, 0, 0, 1, 0x62]], none⟩ "a" 24 80
    let s := Session.attachOver id (.ok ()) ""
      ⟨[.ok [0, 0, 0], .error ⟨.timedOut, none, ""⟩, .ok [0, 1, 0x61, 5, 0, 0, 0, 1, 0x62]], none⟩
      "a" 24 80 none
    s.2 = .ok () ∧ AsyncConnection.results c.1 3 =
      [.ok (.data [0x61]), .ok .closed, .ok .closed] := by
  intro c s
  have h : Carries [.ok [0, 0, 0], .error ⟨.timedOut, none, ""⟩,
      .ok [0, 1, 0x61, 5, 0, 0, 0, 1, 0x62]] [Packet.data [0x61], Packet.screen [0x62]] [] :=
    ⟨⟨by simp, by simp⟩, rfl, by simp [Packet.data, Packet.screen, MAX_PACKET_LENGTH], rfl⟩
  have h' : Carries [.ok [0, 0, 0, 0, 1, 0x61, 5, 0, 0, 0, 1, 0x62]]
      [Packet.data [0x61], Packet.screen [0x62]] [] :=
    ⟨⟨by simp, by simp⟩, rfl, by simp [Packet.data, Packet.screen, MAX_PACKET_LENGTH], rfl⟩
  have hd := (delivers id none "" "a" 24 80 h h' (by simp) none [] 3).2 [.data [0x61]] [0x62] []
    rfl (by simp)
  obtain ⟨⟨hs, -⟩ | ⟨-, t, ht, -⟩, -, -, hr⟩ := hd
  · exact ⟨hs, hr⟩
  · cases ht

end PtySpec.Client
