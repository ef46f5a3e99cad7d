import PtySpec.Handle.Transactions
import PtySpec.Serving.Geometry

/-!
# From a handle to its child

What `Core::input` writes reaches the child through a daemon: `crates/pty/src/handle.rs:736-757`,
`daemon/clients.rs:366-374`, `daemon/lifecycle.rs:1018-1038`. A call of `input` is cut into DATA
packets, the packets wait in the connection's stream, and the daemon forwards those of all its
clients one by one, between its own writes. A call is whole at the child exactly if it fits one
packet.
-/

namespace PtySpec.Serving.Daemon

variable {T : Type}

/-- `Daemon::write_input`, `lifecycle.rs:1026`: what goes to the child. -/
def writeInput (s : Daemon T) (bytes : List UInt8) : List UInt8 :=
  if s.childStatus.isSome then [] else bytes

/-- `Daemon::on_data`, `clients.rs:367`: what goes to the child. -/
def onData (s : Daemon T) (id : Nat) (payload : List UInt8) : List UInt8 :=
  match s.client id with
  | none => []
  | some c => if !s.exited && c.role ≠ .readonly then s.writeInput payload else []

end PtySpec.Serving.Daemon

namespace PtySpec.Handle

open Lib Vt
open Protocol (Packet)
open Serving (Daemon Terminal)

/-- A DATA packet of a client's call of `input`; the calls are numbered. -/
structure Sent where
  call : Nat
  payload : List UInt8

/-- A client's connection: the calls so far, the packets of the last one that are not written
yet, and those that the daemon has not handled yet. -/
structure Connection where
  calls : List (List UInt8) := []
  sending : List Sent := []
  wire : List Sent := []
  up : Bool := true

/-- What the daemon has put into the child's input at once, and the client and call that it is
part of; the daemon's own writes have none. -/
structure Segment where
  call : Option (Nat × Nat)
  bytes : List UInt8

/-- A session's daemon, its clients' connections and its child's input. -/
structure Forward (T : Type) where
  daemon : Daemon T
  clients : Nat → Connection
  child : List Segment

namespace Forward

variable {T : Type}

/-- Change a client's connection. -/
def withClient (s : Forward T) (i : Nat) (c : Connection) : Forward T :=
  { s with clients := Function.update s.clients i c }

/-- Put bytes into the child's input. -/
def write (s : Forward T) (call : Option (Nat × Nat)) (bytes : List UInt8) : Forward T :=
  if bytes = [] then s else { s with child := s.child ++ [⟨call, bytes⟩] }

variable [Terminal T]

/-- The steps of the clients, of their connections and of the daemon. -/
inductive Step : Forward T → Forward T → Prop where
  | input (s : Forward T) (i : Nat) (bytes : List UInt8) (idle : (s.clients i).sending = [])
    (up : (s.clients i).up = true) :
    Step s (s.withClient i { s.clients i with
      calls := (s.clients i).calls ++ [bytes]
      sending := (Core.inputPackets bytes).map fun p ↦ ⟨(s.clients i).calls.length, p.payload⟩ })
  | send (s : Forward T) (i : Nat) (p : Sent) (rest : List Sent)
    (h : (s.clients i).sending = p :: rest) (up : (s.clients i).up = true) :
    Step s (s.withClient i { s.clients i with
      sending := rest
      wire := (s.clients i).wire ++ [p] })
  | fail (s : Forward T) (i : Nat) (h : (s.clients i).sending ≠ []) :
    Step s (s.withClient i { s.clients i with sending := [] })
  | lose (s : Forward T) (i kept : Nat) :
    Step s (s.withClient i { s.clients i with
      sending := []
      wire := (s.clients i).wire.take kept
      up := false })
  | forward (s : Forward T) (i : Nat) (p : Sent) (rest : List Sent)
    (h : (s.clients i).wire = p :: rest) :
    Step s ((s.withClient i { s.clients i with wire := rest }).write (some (i, p.call))
      (s.daemon.onData i p.payload))
  | own (s : Forward T) (bytes : List UInt8) : Step s (s.write none (s.daemon.writeInput bytes))
  | serve (s : Forward T) (now : Nat) (msg : Serving.Daemon.Msg) :
    Step s { s with daemon := s.daemon.handle now msg }
  | timers (s : Forward T) (now : Nat) :
    Step s { s with daemon := s.daemon.serviceTimers now }

/-- A session before anyone has written to its child. -/
def start (daemon : Daemon T) : Forward T where
  daemon := daemon
  clients := fun _ ↦ {}
  child := []

end Forward

/-- The call has reached the child as one run, or not at all. -/
def Unbroken (call : Nat × Nat) (bytes : List UInt8) (child : List Segment) : Prop :=
  (∀ s ∈ child, s.call ≠ some call) ∨
    ∃ pre run post, child = pre ++ run ++ post ∧ (∀ s ∈ run, s.call = some call) ∧
      (∀ s ∈ pre ++ post, s.call ≠ some call) ∧ (run.map (·.bytes)).flatten = bytes

namespace Forward

variable {T : Type}

/-- Nothing of the call is under way any more. -/
def Over (s : Forward T) (i k : Nat) : Prop :=
  ∀ p ∈ (s.clients i).sending ++ (s.clients i).wire, p.call ≠ k

end Forward

/-! ### A call of one packet -/

section Short

/-- One packet holds what is not longer than `INPUT_PACKET`. -/
theorem inputPackets_of_le {bytes : List UInt8} (h : bytes.length ≤ INPUT_PACKET) :
    Core.inputPackets bytes = [] ∨ Core.inputPackets bytes = [Packet.data bytes] := by
  cases bytes with
  | nil => exact .inl (by simp [Core.inputPackets])
  | cons b rest =>
    have hrest : rest.length ≤ INPUT_PACKET - 1 := by
      rw [List.length_cons] at h
      omega
    exact .inr (by
      simp [Core.inputPackets, List.take_of_length_le hrest, List.drop_eq_nil_of_le hrest])

/-- The first packet of a longer call is only a part of it. -/
theorem inputPackets_of_lt {bytes : List UInt8} (h : INPUT_PACKET < bytes.length) :
    ∃ rest, Core.inputPackets bytes = Packet.data (bytes.take INPUT_PACKET) :: rest := by
  cases bytes with
  | nil => simp at h
  | cons b rest =>
    refine ⟨(chunks INPUT_PACKET (rest.drop (INPUT_PACKET - 1))).map Packet.data, ?_⟩
    unfold Core.inputPackets
    rw [chunks_cons, List.map_cons]
    rfl

end Short

namespace Forward

variable {T : Type} {s t : Forward T}

/-- What is left of a call: what the child was given, and what is still under way. -/
def pieces (s : Forward T) (i k : Nat) : List (List UInt8) :=
  ((s.child.filter (·.call = some (i, k))).map (·.bytes)) ++
    (((s.clients i).wire ++ (s.clients i).sending).filter (·.call = k)).map (·.payload)

/-- A call of one packet is in one place, and a call that was not made is nowhere. -/
structure Short (s : Forward T) : Prop where
  made : ∀ i k bytes, (s.clients i).calls[k]? = some bytes → bytes.length ≤ INPUT_PACKET →
    s.pieces i k = [] ∨ s.pieces i k = [bytes]
  unmade : ∀ i k, (s.clients i).calls.length ≤ k → s.pieces i k = []

private theorem pieces_withClient_ne {i j : Nat} (h : j ≠ i) (c : Connection) (k : Nat) :
    (s.withClient i c).pieces j k = s.pieces j k := by
  simp [pieces, withClient, Function.update_of_ne h]

private theorem pieces_withClient_self (i : Nat) (c : Connection) (k : Nat) :
    (s.withClient i c).pieces i k =
      ((s.child.filter (·.call = some (i, k))).map (·.bytes)) ++
        ((c.wire ++ c.sending).filter (·.call = k)).map (·.payload) := by
  simp [pieces, withClient]

/-- Where every call is made of no more than before, short calls stay in one place. -/
private theorem Short.shrink (h : s.Short)
    (hcalls : ∀ i, (t.clients i).calls = (s.clients i).calls)
    (hpieces : ∀ i k, (t.pieces i k).Sublist (s.pieces i k)) : t.Short where
  made i k bytes hk hle := by
    rcases h.made i k bytes (hcalls i ▸ hk) hle with he | he
    · exact .inl (List.sublist_nil.mp (he ▸ hpieces i k))
    · exact List.sublist_singleton.mp (he ▸ hpieces i k)
  unmade i k hk := by
    have he := h.unmade i k (hcalls i ▸ hk)
    exact List.sublist_nil.mp (he ▸ hpieces i k)

/-- A client's stream shrinks. -/
private theorem Short.shrinkClient {i : Nat} {c : Connection} (h : s.Short)
    (hcalls : c.calls = (s.clients i).calls)
    (hstream : (c.wire ++ c.sending).Sublist ((s.clients i).wire ++ (s.clients i).sending)) :
    (s.withClient i c).Short := by
  refine h.shrink (fun j ↦ ?_) fun j k ↦ ?_
  · by_cases hj : j = i
    · subst hj
      simpa [withClient] using hcalls
    · simp [withClient, Function.update_of_ne hj]
  · by_cases hj : j = i
    · subst hj
      rw [pieces_withClient_self]
      exact .append_left ((hstream.filter _).map _) _
    · rw [pieces_withClient_ne hj]

private theorem onData_cases (d : Daemon T) (i : Nat) (payload : List UInt8) :
    d.onData i payload = [] ∨ d.onData i payload = payload := by
  unfold Serving.Daemon.onData Serving.Daemon.writeInput
  split
  · exact .inl rfl
  · split
    · split
      · exact .inl rfl
      · exact .inr rfl
    · exact .inl rfl

private theorem pieces_write (call : Option (Nat × Nat)) (bytes : List UInt8) (i k : Nat) :
    (s.write call bytes).pieces i k =
      (s.child.filter (·.call = some (i, k))).map (·.bytes) ++
        (if call = some (i, k) ∧ bytes ≠ [] then [bytes] else []) ++
        (((s.clients i).wire ++ (s.clients i).sending).filter (·.call = k)).map (·.payload) := by
  unfold write
  split
  · next hb => simp [pieces, hb]
  · next hb =>
    by_cases hc : call = some (i, k)
    · simp [pieces, hc, hb]
    · simp [pieces, hc]

variable [Terminal T]

private theorem Short.step (h : s.Short) (hs : Step s t) : t.Short := by
  cases hs with
  | input i bytes idle up =>
    have hold : ∀ k, k ≠ (s.clients i).calls.length →
        (s.withClient i { s.clients i with
          calls := (s.clients i).calls ++ [bytes]
          sending := (Core.inputPackets bytes).map fun p ↦
            ⟨(s.clients i).calls.length, p.payload⟩ }).pieces i k = s.pieces i k := by
      intro k hk
      rw [pieces_withClient_self, pieces, idle]
      simp [List.filter_append, List.filter_eq_nil_iff, hk.symm]
    have hnew : (s.withClient i { s.clients i with
        calls := (s.clients i).calls ++ [bytes]
        sending := (Core.inputPackets bytes).map fun p ↦
          ⟨(s.clients i).calls.length, p.payload⟩ }).pieces i (s.clients i).calls.length =
        (Core.inputPackets bytes).map (·.payload) := by
      have hnone := h.unmade i _ le_rfl
      unfold pieces at hnone
      obtain ⟨h1, h2⟩ := List.append_eq_nil_iff.mp hnone
      rw [idle, List.append_nil] at h2
      rw [pieces_withClient_self, List.filter_append, List.map_append, h1, h2]
      simp [List.filter_map, Function.comp_def]
    constructor
    · intro j k b hk hle
      by_cases hj : j = i
      · subst hj
        have hk : ((s.clients j).calls ++ [bytes])[k]? = some b := by
          simpa [withClient] using hk
        by_cases hlen : k = (s.clients j).calls.length
        · subst hlen
          rw [List.getElem?_concat_length] at hk
          obtain rfl := Option.some.inj hk
          rw [hnew]
          rcases inputPackets_of_le hle with he | he <;> rw [he]
          · exact .inl rfl
          · exact .inr rfl
        · rw [hold k hlen]
          have hlt : k < (s.clients j).calls.length := by
            have := (List.getElem?_eq_some_iff.mp hk).1
            simp only [List.length_append, List.length_singleton] at this
            omega
          rw [List.getElem?_append_left hlt] at hk
          exact h.made j k b hk hle
      · rw [pieces_withClient_ne hj]
        refine h.made j k b ?_ hle
        simpa [withClient, Function.update_of_ne hj] using hk
    · intro j k hk
      by_cases hj : j = i
      · subst hj
        have hk : (s.clients j).calls.length + 1 ≤ k := by simpa [withClient] using hk
        rw [hold k (by omega)]
        exact h.unmade j k (by omega)
      · rw [pieces_withClient_ne hj]
        refine h.unmade j k ?_
        simpa [withClient, Function.update_of_ne hj] using hk
  | send i p rest he up =>
    exact h.shrinkClient rfl (by simp [he])
  | fail i he => exact h.shrinkClient rfl (by simp)
  | lose i kept =>
    refine h.shrinkClient rfl ?_
    rw [List.append_nil]
    exact (List.take_sublist _ _).trans (List.sublist_append_left _ _)
  | forward i p rest he =>
    refine h.shrink (fun j ↦ ?_) fun j k ↦ ?_
    · unfold write
      split <;> by_cases hj : j = i <;> simp [withClient, hj, Function.update_of_ne]
    · rw [pieces_write]
      by_cases hj : j = i
      · subst hj
        unfold pieces
        simp only [withClient, Function.update_self, he, List.append_assoc]
        refine .append_left ?_ _
        by_cases hk : p.call = k
        · subst hk
          rw [List.cons_append, List.filter_cons_of_pos (by simp), List.map_cons]
          have hhead : (if some (j, p.call) = some (j, p.call) ∧
              s.daemon.onData j p.payload ≠ [] then [s.daemon.onData j p.payload]
              else []).Sublist [p.payload] := by
            rcases onData_cases s.daemon j p.payload with hd | hd <;> rw [hd]
            · simp
            · split
              · exact .refl _
              · exact List.nil_sublist _
          exact hhead.append_right _
        · rw [List.cons_append, List.filter_cons_of_neg (by simpa using hk)]
          simp [hk]
      · have hne : i ≠ j := fun hc ↦ hj hc.symm
        simp [pieces, withClient, Function.update_of_ne hj, hne]
  | own bytes =>
    refine h.shrink (fun j ↦ ?_) fun j k ↦ ?_
    · unfold write
      split <;> rfl
    · rw [pieces_write]
      simp [pieces]
  | serve now msg => exact ⟨h.made, h.unmade⟩
  | timers now => exact ⟨h.made, h.unmade⟩

/-- A daemon whose session runs, with a client that may write. -/
structure Serves (daemon : Daemon T) (i : Nat) : Prop where
  client : ∃ c, daemon.client i = some c ∧ c.role = .writable
  running : daemon.exited = false
  alive : daemon.childStatus = none

omit [Terminal T] in
private theorem onData_of_serves {daemon : Daemon T} {i : Nat} (h : Serves daemon i)
    (payload : List UInt8) : daemon.onData i payload = payload := by
  obtain ⟨c, hc, hr⟩ := h.client
  simp [Serving.Daemon.onData, Serving.Daemon.writeInput, hc, hr, h.running, h.alive]

private theorem short_of_reachable {daemon : Daemon T}
    (h : Relation.ReflTransGen Step (start daemon) s) : s.Short := by
  induction h with
  | refl => exact ⟨fun i k bytes hk ↦ by simp [start] at hk, fun i k _ ↦ rfl⟩
  | tail _ hs ih => exact ih.step hs

omit [Terminal T] in
private theorem unbroken_of_pieces {i k : Nat} {bytes : List UInt8}
    (h : s.pieces i k = [] ∨ s.pieces i k = [bytes]) : Unbroken (i, k) bytes s.child := by
  have hsub : ((s.child.filter (·.call = some (i, k))).map (·.bytes)).Sublist (s.pieces i k) :=
    List.sublist_append_left _ _
  have hcases : (s.child.filter (·.call = some (i, k))).map (·.bytes) = [] ∨
      (s.child.filter (·.call = some (i, k))).map (·.bytes) = [bytes] := by
    rcases h with h | h
    · exact .inl (List.sublist_nil.mp (h ▸ hsub))
    · exact List.sublist_singleton.mp (h ▸ hsub)
  rcases hcases with he | he
  · refine .inl fun seg hseg hc ↦ ?_
    have hmem : seg ∈ s.child.filter (·.call = some (i, k)) :=
      List.mem_filter.mpr ⟨hseg, by simpa using hc⟩
    rw [List.map_eq_nil_iff.mp he] at hmem
    cases hmem
  · obtain ⟨seg, hfilter, hbytes⟩ := List.map_eq_singleton_iff.mp he
    obtain ⟨pre, post, hchild, hpre, hseg, hpost⟩ := List.filter_eq_cons_iff.mp hfilter
    refine .inr ⟨pre, [seg], post, by simp [hchild], ?_, ?_, by simp [hbytes]⟩
    · intro t ht
      rw [List.mem_singleton.mp ht]
      simpa using hseg
    · intro t ht hc
      rcases List.mem_append.mp ht with ht | ht
      · exact hpre t ht (by simpa using hc)
      · have : t ∈ post.filter (·.call = some (i, k)) :=
          List.mem_filter.mpr ⟨ht, by simpa using hc⟩
        rw [hpost] at this
        cases this

/-- The longer call's first packet arrives, and the connection is lost. -/
private theorem exists_broken {daemon : Daemon T} {i : Nat} (hd : Serves daemon i)
    {bytes : List UInt8} (h : INPUT_PACKET < bytes.length) :
    ∃ s : Forward T, Relation.ReflTransGen Step (start daemon) s ∧
      (s.clients i).calls[0]? = some bytes ∧ s.Over i 0 ∧ ¬ Unbroken (i, 0) bytes s.child := by
  obtain ⟨rest, hrest⟩ := inputPackets_of_lt h
  let first : Sent := ⟨0, bytes.take INPUT_PACKET⟩
  let more : List Sent := rest.map fun p ↦ ⟨0, p.payload⟩
  let state : Connection → Forward T := (start daemon).withClient i
  have h₁ : Step (start daemon) (state ⟨[bytes], first :: more, [], true⟩) := by
    have hs := Step.input (start daemon) i bytes rfl rfl
    rwa [hrest] at hs
  have h₂ : Step (state ⟨[bytes], first :: more, [], true⟩)
      (state ⟨[bytes], more, [first], true⟩) := by
    simpa [state, withClient] using
      Step.send (state ⟨[bytes], first :: more, [], true⟩) i first more
        (by simp [state, withClient]) (by simp [state, withClient])
  have h₃ : Step (state ⟨[bytes], more, [first], true⟩) (state ⟨[bytes], [], [first], false⟩) := by
    simpa [state, withClient] using Step.lose (state ⟨[bytes], more, [first], true⟩) i 1
  have h₄ : Step (state ⟨[bytes], [], [first], false⟩)
      ((state ⟨[bytes], [], [], false⟩).write (some (i, 0)) first.payload) := by
    have hs := Step.forward (state ⟨[bytes], [], [first], false⟩) i first []
      (by simp [state, withClient])
    have hdata : daemon.onData i first.payload = first.payload := onData_of_serves hd _
    simpa [state, withClient, hdata, start] using hs
  have hne : first.payload ≠ [] := by
    intro he
    rw [List.take_eq_nil_iff] at he
    rcases he with he | he
    · cases he
    · rw [he] at h
      simp at h
  have hchild : ((state ⟨[bytes], [], [], false⟩).write (some (i, 0)) first.payload).child =
      [⟨some (i, 0), first.payload⟩] := by
    rw [write, if_neg hne]
    rfl
  have hclients : ((state ⟨[bytes], [], [], false⟩).write (some (i, 0)) first.payload).clients i =
      ⟨[bytes], [], [], false⟩ := by
    rw [write, if_neg hne]
    simp [state, withClient]
  refine ⟨_, (((Relation.ReflTransGen.refl.tail h₁).tail h₂).tail h₃).tail h₄, ?_, ?_, ?_⟩
  · rw [hclients]
    rfl
  · intro p hp
    rw [hclients] at hp
    cases hp
  · rw [hchild]
    rintro (hnone | ⟨pre, run, post, he, -, -, hbytes⟩)
    · exact hnone _ (List.mem_singleton_self _) rfl
    · have hrun : run.Sublist [⟨some (i, 0), first.payload⟩] := by
        rw [he, List.append_assoc]
        exact (List.sublist_append_left run post).trans (List.sublist_append_right pre _)
      have hlen : (run.map (·.bytes)).flatten.length ≤ INPUT_PACKET := by
        rcases List.sublist_singleton.mp hrun with hr | hr <;> rw [hr]
        · simp
        · simp [first]
      rw [hbytes] at hlen
      omega

/-- What a handle writes at once arrives at the child unbroken, or not at all, in every run of
the clients of a session, exactly if it fits one DATA packet. -/
theorem whole_iff (daemon : Daemon T) (i : Nat) (hd : Serves daemon i) (bytes : List UInt8) :
    (∀ s : Forward T, Relation.ReflTransGen Step (start daemon) s → ∀ k,
      (s.clients i).calls[k]? = some bytes → s.Over i k → Unbroken (i, k) bytes s.child) ↔
      bytes.length ≤ INPUT_PACKET := by
  constructor
  · intro h
    by_contra hlt
    obtain ⟨s, hs, hcall, hover, hbroken⟩ := exists_broken hd (Nat.lt_of_not_le hlt)
    exact hbroken (h s hs 0 hcall hover)
  · intro hle s hs k hk _
    exact unbroken_of_pieces ((short_of_reachable hs).made i k bytes hk hle)

/-- A session with one writable client. -/
def oneClient : Daemon Daemon.Grid :=
  { Daemon.grid 24 80 with clients := [(0, { rows := 24, cols := 80, role := .writable })] }

private theorem serves_oneClient : Serves oneClient 0 := ⟨⟨_, rfl, rfl⟩, rfl, rfl⟩

/-- With one client, a single byte arrives. -/
theorem whole_iff_byte : ∃ s : Forward Daemon.Grid,
    Relation.ReflTransGen Step (start oneClient) s ∧ s.child = [⟨some (0, 0), [97]⟩] ∧
      Unbroken (0, 0) [97] s.child := by
  let state : Connection → Forward Daemon.Grid := (start oneClient).withClient 0
  have h₁ : Step (start oneClient) (state ⟨[[97]], [⟨0, [97]⟩], [], true⟩) := by
    have hp : Core.inputPackets [97] = [Protocol.Packet.data [97]] := by
      rcases @inputPackets_of_le [97] (by decide) with he | he
      · simp [Core.inputPackets] at he
      · exact he
    have hs := Step.input (start oneClient) 0 [97] rfl rfl
    rwa [hp] at hs
  have h₂ : Step (state ⟨[[97]], [⟨0, [97]⟩], [], true⟩)
      (state ⟨[[97]], [], [⟨0, [97]⟩], true⟩) := by
    simpa [state, withClient] using
      Step.send (state ⟨[[97]], [⟨0, [97]⟩], [], true⟩) 0 ⟨0, [97]⟩ []
        (by simp [state, withClient]) (by simp [state, withClient])
  have h₃ : Step (state ⟨[[97]], [], [⟨0, [97]⟩], true⟩)
      ((state ⟨[[97]], [], [], true⟩).write (some (0, 0)) [97]) := by
    have hs := Step.forward (state ⟨[[97]], [], [⟨0, [97]⟩], true⟩) 0 ⟨0, [97]⟩ []
      (by simp [state, withClient])
    have hdata : oneClient.onData 0 [97] = [97] := onData_of_serves serves_oneClient _
    simpa [state, withClient, hdata, start] using hs
  have hrun := ((Relation.ReflTransGen.refl.tail h₁).tail h₂).tail h₃
  refine ⟨_, hrun, rfl, (whole_iff oneClient 0 serves_oneClient [97]).mpr (by decide) _ hrun 0
    rfl fun p hp ↦ ?_⟩
  cases hp

/-- One MiB of data for one type, the most that one packet of a read's answer carries. -/
def largeData : List (List UInt8 × List UInt8) := [(ascii "a/b", List.replicate MAX_PACKET 0)]

private theorem exists_large : ∃ bytes,
    Whole none (.readOk :: dataPackets largeData ++ [.readDone]) bytes ∧
      INPUT_PACKET < bytes.length := by
  obtain ⟨data, hdata, hlen⟩ := @PastePacket.exists_encodeData (ascii "a/b")
    (List.replicate MAX_PACKET 0) none (by decide) List.length_replicate.le
  have henc : PastePacket.encode (.readData (ascii "a/b") (List.replicate MAX_PACKET 0))
      ((none : Option PasteId).map (·.val)) = .ok data := by
    rw [PastePacket.encode_readData]
    exact hdata
  let id : Option (List UInt8) := (none : Option PasteId).map (·.val)
  refine ⟨_, .answer largeData _ rfl ?_ ⟨[osc (readStatus (ascii "OK") id) [], data,
    osc (readStatus (ascii "DONE") id) []], ?_, rfl⟩, ?_⟩
  · rw [dataLength, largeData, List.map_singleton, List.sum_singleton, List.length_replicate]
    decide
  · exact .cons (PastePacket.encode_readOk none) (.cons henc (.cons
      (PastePacket.encode_readDone none) .nil))
  · rw [List.length_replicate] at hlen
    have hok : 0 < (osc (readStatus (ascii "OK") id) []).length := by decide
    simp only [List.flatten_cons, List.length_append]
    unfold MAX_PACKET at hlen
    unfold INPUT_PACKET
    omega

/-- Of a whole answer the child has only a part, and nothing more of it is under way. -/
theorem whole_broken : ∃ (packets : List PastePacket) (bytes : List UInt8)
    (s : Forward Daemon.Grid), Whole none packets bytes ∧
      Relation.ReflTransGen Step (start oneClient) s ∧
      (s.clients 0).calls[0]? = some bytes ∧ s.Over 0 0 ∧ ¬ Unbroken (0, 0) bytes s.child := by
  obtain ⟨bytes, hwhole, hlen⟩ := exists_large
  obtain ⟨s, hs, hcall, hover, hbroken⟩ := exists_broken serves_oneClient hlen
  exact ⟨_, bytes, s, hwhole, hs, hcall, hover, hbroken⟩

end Forward

end PtySpec.Handle
