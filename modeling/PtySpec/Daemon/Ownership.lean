import PtySpec.Proc.Tree

/-!
# Who holds an accepted connection

Model of `inspect_with`, `crates/pty/src/daemon/ownership.rs:44-184`: the verdict on whether
the session's child or a process below it holds a TCP connection. The table is read three
times and the backend asked twice; both are parameters.
-/

namespace PtySpec.Daemon

open Lib Proc

/-! ### Addresses -/

/-- The families of `IpAddr`. -/
inductive IpFamily where
  | v4
  | v6
  deriving DecidableEq, Repr

namespace IpAddr

/-- `char::to_digit`. -/
def toDigit (radix : Nat) (c : Char) : Option Nat :=
  let value := if '0' ≤ c ∧ c ≤ '9' then some (c.toNat - 48)
    else if 'a' ≤ c ∧ c ≤ 'f' then some (c.toNat - 87)
    else if 'A' ≤ c ∧ c ≤ 'F' then some (c.toNat - 55)
    else none
  value.filter (· < radix)

/-- A number of a few digits and below a bound, and what comes after it. -/
def readNumber (radix maxDigits : Nat) (allowZeroPrefix : Bool) (bound : Nat) (s : List Char) :
    Option (List Char) :=
  let digits := s.takeWhile fun c ↦ (toDigit radix c).isSome
  let value := (digits.filterMap (toDigit radix)).foldl (fun n d ↦ n * radix + d) 0
  if digits = [] ∨ maxDigits < digits.length then none
  else if !allowZeroPrefix && s.head? = some '0' && 1 < digits.length then none
  else if value < bound then some (s.drop digits.length)
  else none

/-- Something after a separator, unless it is the first. -/
def readSeparator (sep : Char) (index : Nat) (inner : List Char → Option (List Char))
    (s : List Char) : Option (List Char) :=
  if index = 0 then inner s
  else
    match s with
    | c :: rest => if c = sep then inner rest else none
    | [] => none

/-- Four decimal groups. -/
def readIpv4 (s : List Char) : Option (List Char) :=
  (List.range 4).foldlM (fun s i ↦ readSeparator '.' i (readNumber 10 3 false 256) s) s

/-- Groups of hexadecimal digits with an IPv4 address possibly at their end: how many, whether
there was such an address, and what comes after them. -/
def readGroups : Nat → Nat → List Char → Nat × Bool × List Char
  | 0, i, s => (i, false, s)
  | left + 1, i, s =>
    match if 0 < left then readSeparator ':' i readIpv4 s else none with
    | some rest => (i + 2, true, rest)
    | none =>
      match readSeparator ':' i (readNumber 16 4 true 65536) s with
      | some rest => readGroups left (i + 1) rest
      | none => (i, false, s)

/-- Eight groups, or fewer with `::` among them. -/
def readIpv6 (s : List Char) : Option (List Char) :=
  let (headSize, headIpv4, rest) := readGroups 8 0 s
  if headSize = 8 then some rest
  else if headIpv4 then none
  else
    match rest with
    | ':' :: ':' :: rest => some (readGroups (8 - (headSize + 1)) 0 rest).2.2
    | _ => none

/-- `str::parse::<IpAddr>`, as far as the family. -/
def parse (s : String) : Option IpFamily :=
  match readIpv4 s.toList with
  | some rest => if rest = [] then some .v4 else none
  | none =>
    match readIpv6 s.toList with
    | some rest => if rest = [] then some .v6 else none
    | none => none

end IpAddr

/-- `TcpConnectionTuple`, `protocol.rs:108`. -/
structure TcpConnectionTuple where
  localAddress : String
  localPort : UInt16
  remoteAddress : String
  remotePort : UInt16
  deriving DecidableEq, Repr

/-- `validate_tuple`, `ownership.rs:118`: what is wrong with a tuple. -/
def validateTuple (tuple : TcpConnectionTuple) : Option String :=
  if tuple.localAddress.toList.contains '%' || tuple.remoteAddress.toList.contains '%' then
    some "scoped-ipv6-unavailable"
  else
    match IpAddr.parse tuple.localAddress, IpAddr.parse tuple.remoteAddress with
    | none, _ => some "invalid-local-address"
    | some _, none => some "invalid-remote-address"
    | some l, some r =>
      if l ≠ r then some "address-family-mismatch"
      else if tuple.localPort = 0 then some "invalid-local-port"
      else if tuple.remotePort = 0 then some "invalid-remote-port"
      else none

/-! ### The tree -/

/-- `LiveIdentity`. -/
abbrev LiveIdentity := List Char

/-- `Row::is_exiting`, `proctable.rs:274`. -/
def isExiting (r : Row) : Bool := r.state.head? = some 'E'

/-- One read of the process table: the table, and its rows as they come. -/
structure Reading where
  table : ProcTable
  rows : List Row
  yields : Yields table rows

/-- `TreeEntry`, `ownership.rs:16`. -/
structure TreeEntry where
  pid : Int32
  ppid : Int32
  identity : Option LiveIdentity
  zombie : Bool
  deriving DecidableEq, Repr

/-- `TreeIdentity`, `ownership.rs:24`. -/
structure TreeIdentity where
  pid : Int32
  identity : LiveIdentity
  deriving DecidableEq, Repr

/-- The row of a process, `by_pid`. -/
def rowOf (rows : List Row) (pid : Int32) : Option Row := rows.find? (·.pid == pid)

/-- What is kept of a row. -/
def entryOf (r : Row) : TreeEntry := ⟨r.pid, r.ppid, r.identity, r.isZombie⟩

/-- `tree_snapshot`, `ownership.rs:144`. -/
def treeSnapshot (root : Int32) (rootIdentity : LiveIdentity) (reading : Reading) :
    Except String (List TreeEntry) :=
  if !reading.table.readable then .error "process-table-unknown"
  else
    match rowOf reading.rows root with
    | none => .error "child-identity-unavailable"
    | some row =>
      if row.isZombie || isExiting row || row.identity ≠ some rootIdentity then
        .error "child-identity-unavailable"
      else
        match (Search.foundFrom (links reading.rows) root).mapM fun (pid, _) ↦
          rowOf reading.rows pid with
        | none => .error "process-tree-changed"
        | some rows => .ok ((rows.map entryOf).mergeSort fun a b ↦ a.pid ≤ b.pid)

/-- The loop of `verified_chain`, `ownership.rs:200-216`. -/
def chainFrom (root owner : Int32) (tree : List TreeEntry) :
    Nat → Int32 → List Int32 → List TreeIdentity → Except String (List TreeIdentity)
  | 0, _, _, _ => .error "process-tree-changed"
  | fuel + 1, pid, seen, chain =>
    if pid ∈ seen then .error "process-tree-changed"
    else
      match tree.reverse.find? (·.pid == pid) with
      | none =>
        .error (if pid = owner then "backend-returned-non-descendant" else "process-tree-changed")
      | some entry =>
        match entry.identity.filter fun _ ↦ !entry.zombie with
        | none => .error ("process-identity-unavailable:" ++ toString pid)
        | some identity =>
          let chain := chain ++ [⟨pid, identity⟩]
          if pid = root then .ok chain.reverse
          else chainFrom root owner tree fuel entry.ppid (pid :: seen) chain

/-- `verified_chain`, `ownership.rs:190`. Each turn of the loop sees another entry. -/
def verifiedChain (root owner : Int32) (tree : List TreeEntry) :
    Except String (List TreeIdentity) :=
  chainFrom root owner tree (tree.length + 1) owner [] []

/-! ### The verdict -/

/-- `AcceptedSocketOwnershipResult`, `protocol.rs:134`. -/
inductive AcceptedSocketOwnershipResult where
  | owned (pid : Int32)
  | notOwned
  | unavailable (reason : String)
  deriving DecidableEq, Repr

/-- The three reads of the table, in their order. -/
structure Readings where
  before : Reading
  middle : Reading
  after : Reading

/-- The processes whose sockets the backend looks at first, `ownership.rs:58`. -/
def asked (tree : List TreeEntry) : List Int32 :=
  (tree.filter fun entry ↦ !entry.zombie).map TreeEntry.pid

/-- `inspect_with` after the backend named an owner, `ownership.rs:92-112`. -/
def confirmOwner (root : Int32) (rootIdentity : LiveIdentity) (readings : Readings)
    (confirm : List Int32 → AcceptedSocketOwnershipResult) (before middle : List TreeEntry)
    (pid : Int32) : AcceptedSocketOwnershipResult :=
  match verifiedChain root pid before with
  | .error reason => .unavailable reason
  | .ok chain =>
    match verifiedChain root pid middle with
    | .error reason => .unavailable reason
    | .ok chain' =>
      if chain' ≠ chain then .unavailable "process-tree-changed"
      else if confirm [pid] ≠ .owned pid then .unavailable "socket-ownership-changed"
      else
        match treeSnapshot root rootIdentity readings.after with
        | .error reason => .unavailable reason
        | .ok after =>
          match verifiedChain root pid after with
          | .error reason => .unavailable reason
          | .ok chain'' =>
            if chain'' ≠ chain then .unavailable "process-tree-changed" else confirm [pid]

/-- `inspect_with`, `ownership.rs:44`; `observe` and `confirm` are what the backend answers
when it is asked first and again. -/
def inspectWith (root : Int32) (rootIdentity : LiveIdentity) (tuple : TcpConnectionTuple)
    (readings : Readings) (observe confirm : List Int32 → AcceptedSocketOwnershipResult) :
    AcceptedSocketOwnershipResult :=
  match validateTuple tuple with
  | some reason => .unavailable reason
  | none =>
    match treeSnapshot root rootIdentity readings.before with
    | .error reason => .unavailable reason
    | .ok before =>
      match observe (asked before) with
      | .unavailable reason => .unavailable reason
      | .notOwned =>
        match treeSnapshot root rootIdentity readings.middle with
        | .error reason => .unavailable reason
        | .ok middle =>
          if before ≠ middle then .unavailable "process-tree-changed"
          else
            match before.find? fun entry ↦ !entry.zombie && entry.identity.isNone with
            | some entry => .unavailable ("process-identity-unavailable:" ++ toString entry.pid)
            | none => .notOwned
      | .owned pid =>
        match treeSnapshot root rootIdentity readings.middle with
        | .error reason => .unavailable reason
        | .ok middle => confirmOwner root rootIdentity readings confirm before middle pid

/-! ### What the table shows -/

/-- A process that the table shows at the root or below it. -/
def InTree (reading : Reading) (root : Int32) (r : Row) : Prop :=
  r ∈ reading.rows ∧ ∃ n, Path (links reading.rows) root n r.pid

/-- Live, identified processes from `pid` up to the root, one the parent of the other. -/
inductive UpTo (rows : List Row) (root : Int32) : Int32 → List TreeIdentity → Prop where
  | root {r : Row} {identity : LiveIdentity} : r ∈ rows → r.pid = root → r.isZombie = false →
      r.identity = some identity → UpTo rows root root [⟨root, identity⟩]
  | link {pid : Int32} {r : Row} {identity : LiveIdentity} {rest : List TreeIdentity} :
      r ∈ rows → r.pid = pid → r.isZombie = false → r.identity = some identity → pid ≠ root →
      UpTo rows root r.ppid rest → UpTo rows root pid (⟨pid, identity⟩ :: rest)

theorem mem_of_rowOf {rows : List Row} {pid : Int32} {r : Row} (h : rowOf rows pid = some r) :
    r ∈ rows ∧ r.pid = pid :=
  ⟨List.mem_of_find?_eq_some h, by simpa using List.find?_some h⟩

theorem rowOf_eq_some {reading : Reading} {r : Row} (h : r ∈ reading.rows) :
    rowOf reading.rows r.pid = some r := by
  cases hr : rowOf reading.rows r.pid with
  | none =>
    have hno := List.find?_eq_none.mp hr r h
    exact absurd (beq_self_eq_true r.pid) hno
  | some q =>
    obtain ⟨hq, hpid⟩ := mem_of_rowOf hr
    rw [List.inj_on_of_nodup_map reading.yields.nodup hq h hpid]

private theorem mem_of_mapM {α β : Type} {f : α → Option β} {xs : List α} {ys : List β}
    (h : xs.mapM f = some ys) (y : β) : y ∈ ys ↔ ∃ x ∈ xs, f x = some y := by
  induction xs generalizing ys with
  | nil =>
    obtain rfl := Option.some.inj h
    simp
  | cons x xs ih =>
    rw [List.mapM_cons] at h
    obtain ⟨z, hz, h⟩ := Option.bind_eq_some_iff.mp h
    obtain ⟨zs, hzs, h⟩ := Option.bind_eq_some_iff.mp h
    obtain rfl := Option.some.inj h
    rw [List.mem_cons, ih hzs]
    constructor
    · rintro (rfl | ⟨w, hw, hf⟩)
      · exact ⟨x, List.mem_cons_self, hz⟩
      · exact ⟨w, List.mem_cons_of_mem x hw, hf⟩
    · rintro ⟨w, hw, hf⟩
      obtain rfl | hw := List.mem_cons.mp hw
      · exact .inl (Option.some.inj (hf.symm.trans hz))
      · exact .inr ⟨w, hw, hf⟩

private theorem exists_mem_foundFrom {edges : List (Int32 × Int32)} {root pid : Int32} :
    (∃ n, (pid, n) ∈ Search.foundFrom edges root) ↔ ∃ n, Path edges root n pid := by
  rw [Search.foundFrom_eq]
  constructor
  · rintro ⟨n, hn⟩
    obtain heq | hn := List.mem_cons.mp hn
    · obtain ⟨rfl, rfl⟩ := Prod.mk.inj heq
      exact ⟨0, .refl⟩
    · exact ⟨n, (Search.mem_found.mp hn).2.path⟩
  · rintro ⟨n, hn⟩
    by_cases h : pid = root
    · exact ⟨0, h ▸ List.mem_cons_self⟩
    · obtain ⟨m, hm⟩ := Distance.exists_of_path hn
      exact ⟨m, List.mem_cons_of_mem _ (Search.mem_found.mpr ⟨h, hm⟩)⟩

/-- A snapshot holds what the table shows of the tree, and its root is the session's, running
and with its identity. -/
theorem treeSnapshot_ok {root : Int32} {rootIdentity : LiveIdentity} {reading : Reading}
    {tree : List TreeEntry} (h : treeSnapshot root rootIdentity reading = .ok tree) :
    (∀ e, e ∈ tree ↔ ∃ r, InTree reading root r ∧ entryOf r = e) ∧
      ∃ r ∈ reading.rows, r.pid = root ∧ r.isZombie = false ∧ r.identity = some rootIdentity := by
  unfold treeSnapshot at h
  split at h
  · cases h
  split at h
  · cases h
  next row hrow =>
  split at h
  · cases h
  next hlive =>
  simp only [Bool.or_eq_true, not_or, decide_eq_true_eq, ne_eq, not_not] at hlive
  split at h
  · cases h
  next rows hrows =>
  obtain rfl := Except.ok.inj h
  obtain ⟨hmem, hpid⟩ := mem_of_rowOf hrow
  refine ⟨fun e ↦ ?_, row, hmem, hpid, Bool.eq_false_of_not_eq_true hlive.1.1, hlive.2⟩
  rw [List.mem_mergeSort, List.mem_map]
  refine exists_congr fun r ↦ and_congr_left fun _ ↦ ?_
  rw [mem_of_mapM hrows]
  constructor
  · rintro ⟨⟨pid, n⟩, hn, hr⟩
    obtain ⟨hm, rfl⟩ := mem_of_rowOf hr
    exact ⟨hm, exists_mem_foundFrom.mp ⟨n, hn⟩⟩
  · rintro ⟨hr, hp⟩
    obtain ⟨n, hn⟩ := exists_mem_foundFrom.mpr hp
    exact ⟨(r.pid, n), hn, rowOf_eq_some hr⟩

/-- What a turn of the loop finds in a snapshot is a row of the table. -/
private theorem find_tree {root : Int32} {reading : Reading} {tree : List TreeEntry}
    (ht : ∀ e, e ∈ tree ↔ ∃ r, InTree reading root r ∧ entryOf r = e) {pid : Int32}
    {entry : TreeEntry} (h : tree.reverse.find? (·.pid == pid) = some entry) :
    ∃ r ∈ reading.rows, r.pid = pid ∧ entryOf r = entry := by
  obtain ⟨r, hr, rfl⟩ := (ht entry).mp (List.mem_reverse.mp (List.mem_of_find?_eq_some h))
  exact ⟨r, hr.1, by simpa [entryOf] using List.find?_some h, rfl⟩

private theorem chainFrom_ok {root owner : Int32} {reading : Reading} {tree : List TreeEntry}
    (ht : ∀ e, e ∈ tree ↔ ∃ r, InTree reading root r ∧ entryOf r = e) {fuel : Nat} {pid : Int32}
    {seen : List Int32} {above chain : List TreeIdentity}
    (h : chainFrom root owner tree fuel pid seen above = .ok chain) :
    ∃ ups, UpTo reading.rows root pid ups ∧ chain = (above ++ ups).reverse := by
  induction fuel generalizing pid seen above with
  | zero => cases h
  | succ fuel ih =>
    rw [chainFrom] at h
    split at h
    · cases h
    split at h
    · cases h
    next entry hentry =>
    split at h
    · cases h
    next identity hidentity =>
    obtain ⟨r, hr, hpid, rfl⟩ := find_tree ht hentry
    obtain ⟨hid, hlive⟩ := Option.filter_eq_some_iff.mp hidentity
    have hzombie : r.isZombie = false := by simpa [entryOf] using hlive
    split at h
    · next hroot =>
      obtain rfl := Except.ok.inj h
      refine ⟨[⟨pid, identity⟩], ?_, rfl⟩
      rw [hroot]
      exact .root hr (hpid.trans hroot) hzombie hid
    · next hroot =>
      obtain ⟨ups, hups, rfl⟩ := ih h
      refine ⟨_, .link hr hpid hzombie hid hroot hups, ?_⟩
      rw [List.append_assoc, List.singleton_append]

section Complete

variable {rows : List Row} {root pid : Int32} {ups : List TreeIdentity}

private theorem UpTo.path (h : UpTo rows root pid ups) : ∃ n, Path (links rows) root n pid := by
  induction h with
  | root => exact ⟨0, .refl⟩
  | link hr hpid _ _ _ _ ih =>
    obtain ⟨n, hn⟩ := ih
    exact ⟨n + 1, hn.snoc (List.mem_map.mpr ⟨_, hr, by rw [hpid]⟩)⟩

/-- There is one way up. -/
private theorem UpTo.unique (hn : (rows.map Row.pid).Nodup) (h : UpTo rows root pid ups)
    {ups' : List TreeIdentity} (h' : UpTo rows root pid ups') : ups = ups' := by
  induction h generalizing ups' with
  | root hr hpid _ hid =>
    cases h' with
    | root hr' hpid' _ hid' =>
      obtain rfl := List.inj_on_of_nodup_map hn hr hr' (hpid.trans hpid'.symm)
      obtain rfl := Option.some.inj (hid.symm.trans hid')
      rfl
    | link _ _ _ _ hne => exact absurd rfl hne
  | link hr hpid _ hid hne _ ih =>
    cases h' with
    | root => exact absurd rfl hne
    | link hr' hpid' _ hid' _ hrest' =>
      obtain rfl := List.inj_on_of_nodup_map hn hr hr' (hpid.trans hpid'.symm)
      obtain rfl := Option.some.inj (hid.symm.trans hid')
      rw [ih hrest']

private theorem UpTo.suffix (h : UpTo rows root pid ups) {m : TreeIdentity} (hm : m ∈ ups) :
    ∃ rest, rest <:+ ups ∧ UpTo rows root m.pid rest := by
  induction h with
  | root hr hpid hz hid =>
    obtain rfl := List.mem_singleton.mp hm
    exact ⟨_, List.suffix_refl _, .root hr hpid hz hid⟩
  | link hr hpid hz hid hne hrest ih =>
    obtain rfl | hm := List.mem_cons.mp hm
    · exact ⟨_, List.suffix_refl _, .link hr hpid hz hid hne hrest⟩
    · obtain ⟨rest, hs, hu⟩ := ih hm
      exact ⟨rest, hs.trans (List.suffix_cons _ _), hu⟩

/-- The way up passes no process twice: from the second time on it would be longer than it
is. -/
private theorem UpTo.nodup (hn : (rows.map Row.pid).Nodup) (h : UpTo rows root pid ups) :
    (ups.map TreeIdentity.pid).Nodup := by
  induction h with
  | root => exact List.nodup_singleton _
  | @link pid r identity rest hr hpid hz hid hne hrest ih =>
    rw [List.map_cons, List.nodup_cons]
    refine ⟨fun hm ↦ ?_, ih⟩
    obtain ⟨m, hm, hmp⟩ := List.mem_map.mp hm
    obtain ⟨again, hs, hu⟩ := hrest.suffix hm
    rw [hmp] at hu
    have heq := UpTo.unique hn (.link hr hpid hz hid hne hrest) hu
    have hl := hs.length_le
    rw [← heq, List.length_cons] at hl
    omega

/-- A process of the tree is found in its snapshot. -/
private theorem find_of_inTree {reading : Reading} {tree : List TreeEntry}
    (ht : ∀ e, e ∈ tree ↔ ∃ r, InTree reading root r ∧ entryOf r = e) {r : Row}
    (hr : InTree reading root r) : tree.reverse.find? (·.pid == r.pid) = some (entryOf r) := by
  have hmem := List.mem_reverse.mpr ((ht _).mpr ⟨r, hr, rfl⟩)
  cases hf : tree.reverse.find? (·.pid == r.pid) with
  | none => exact absurd (beq_self_eq_true r.pid) (List.find?_eq_none.mp hf _ hmem)
  | some entry =>
    obtain ⟨q, hq, hpid, rfl⟩ := find_tree ht hf
    rw [List.inj_on_of_nodup_map reading.yields.nodup hq hr.1 hpid]

private theorem chainFrom_complete {owner : Int32} {reading : Reading} {tree : List TreeEntry}
    (ht : ∀ e, e ∈ tree ↔ ∃ r, InTree reading root r ∧ entryOf r = e)
    (h : UpTo reading.rows root pid ups) {fuel : Nat} {seen : List Int32}
    {above : List TreeIdentity} (hseen : ∀ m ∈ ups, m.pid ∉ seen) (hf : ups.length ≤ fuel) :
    chainFrom root owner tree fuel pid seen above = .ok (above ++ ups).reverse := by
  have hfound : ∀ {pid ups}, UpTo reading.rows root pid ups → ∀ {r}, r ∈ reading.rows →
      r.pid = pid → tree.reverse.find? (·.pid == pid) = some (entryOf r) := by
    rintro _ _ hu r hr rfl
    exact find_of_inTree ht ⟨hr, hu.path⟩
  have hlive : ∀ {r : Row} {identity}, r.isZombie = false → r.identity = some identity →
      ((entryOf r).identity.filter fun _ ↦ !(entryOf r).zombie) = some identity := by
    intro r identity hz hid
    simp [entryOf, hz, hid]
  have hnodup := h.nodup reading.yields.nodup
  induction h generalizing fuel seen above with
  | root hr hpid hz hid =>
    obtain _ | fuel := fuel
    · cases hf
    rw [chainFrom, if_neg (hseen _ List.mem_cons_self), hfound (.root hr hpid hz hid) hr hpid]
    dsimp only
    rw [hlive hz hid]
    exact if_pos rfl
  | @link pid r identity rest hr hpid hz hid hne hrest ih =>
    obtain _ | fuel := fuel
    · cases hf
    rw [List.map_cons, List.nodup_cons] at hnodup
    rw [chainFrom, if_neg (hseen _ List.mem_cons_self),
      hfound (.link hr hpid hz hid hne hrest) hr hpid]
    dsimp only
    rw [hlive hz hid]
    refine (if_neg hne).trans ?_
    change chainFrom root owner tree fuel r.ppid _ _ = _
    rw [ih ?_ (Nat.le_of_succ_le_succ hf) hnodup.2, List.append_assoc, List.singleton_append]
    intro m hm hin
    obtain heq | hin := List.mem_cons.mp hin
    · have hmem : m.pid ∈ rest.map TreeIdentity.pid := List.mem_map_of_mem hm
      exact hnodup.1 (heq ▸ hmem)
    · exact hseen m (List.mem_cons_of_mem _ hm) hin

end Complete

/-- The loop verifies exactly the chains from the root down to the owner; it never runs out of
turns. -/
theorem verifiedChain_iff {root owner : Int32} {reading : Reading} {tree : List TreeEntry}
    (ht : ∀ e, e ∈ tree ↔ ∃ r, InTree reading root r ∧ entryOf r = e)
    {chain : List TreeIdentity} :
    verifiedChain root owner tree = .ok chain ↔ UpTo reading.rows root owner chain.reverse := by
  constructor
  · intro h
    obtain ⟨ups, hups, rfl⟩ := chainFrom_ok ht h
    rwa [List.reverse_reverse, List.nil_append]
  · intro h
    have hsub : (chain.reverse.map TreeIdentity.pid) ⊆ tree.map TreeEntry.pid := by
      intro p hp
      obtain ⟨m, hm, rfl⟩ := List.mem_map.mp hp
      obtain ⟨rest, -, hu⟩ := h.suffix hm
      obtain ⟨r, hr, hpid⟩ : ∃ r ∈ reading.rows, r.pid = m.pid := by
        cases hu with
        | root hr hpid => exact ⟨_, hr, hpid⟩
        | link hr hpid => exact ⟨_, hr, hpid⟩
      exact List.mem_map.mpr ⟨entryOf r, (ht _).mpr ⟨r, ⟨hr, hpid ▸ hu.path⟩, rfl⟩, hpid⟩
    have hlen := (h.nodup reading.yields.nodup).length_le_of_subset hsub
    rw [List.length_map, List.length_map] at hlen
    have hc : verifiedChain root owner tree = .ok ([] ++ chain.reverse).reverse :=
      chainFrom_complete ht h (fun _ _ ↦ List.not_mem_nil) (Nat.le_succ_of_le hlen)
    rwa [List.nil_append, List.reverse_reverse] at hc

/-! ### The verdict is safe -/

/-- Live, identified processes from the root, with the session's identity, to `pid`. -/
structure Chain (root : Int32) (rootIdentity : LiveIdentity) (pid : Int32) (reading : Reading)
    (chain : List TreeIdentity) : Prop where
  upTo : UpTo reading.rows root pid chain.reverse
  rootRow : ∃ r ∈ reading.rows, r.pid = root ∧ r.isZombie = false ∧
    r.identity = some rootIdentity

/-- One chain in all three reads, to a process that both lookups found holding the
connection. The first lookup was over the live processes of the tree. -/
def ProvenOwner (root : Int32) (rootIdentity : LiveIdentity) (readings : Readings)
    (observe confirm : List Int32 → AcceptedSocketOwnershipResult) (pid : Int32) : Prop :=
  (∃ chain, Chain root rootIdentity pid readings.before chain ∧
    Chain root rootIdentity pid readings.middle chain ∧
    Chain root rootIdentity pid readings.after chain) ∧
  (∃ pids, observe pids = .owned pid ∧ ∀ p, p ∈ pids ↔
    ∃ r, InTree readings.before root r ∧ r.isZombie = false ∧ r.pid = p) ∧
  confirm [pid] = .owned pid

/-- The same tree before and after a lookup that found no owner, each live process of which is
identified. -/
def ProvenNotOwned (root : Int32) (readings : Readings)
    (observe : List Int32 → AcceptedSocketOwnershipResult) : Prop :=
  (∀ e, (∃ r, InTree readings.before root r ∧ entryOf r = e) ↔
    ∃ r, InTree readings.middle root r ∧ entryOf r = e) ∧
  (∀ r, InTree readings.before root r → r.isZombie = false → r.identity.isSome = true) ∧
  ∃ pids, observe pids = .notOwned ∧ ∀ p, p ∈ pids ↔
    ∃ r, InTree readings.before root r ∧ r.isZombie = false ∧ r.pid = p

section Verdict

variable {root : Int32} {rootIdentity : LiveIdentity} {tuple : TcpConnectionTuple}
  {readings : Readings} {observe confirm : List Int32 → AcceptedSocketOwnershipResult}

private theorem mem_asked {reading : Reading} {tree : List TreeEntry}
    (ht : ∀ e, e ∈ tree ↔ ∃ r, InTree reading root r ∧ entryOf r = e) (p : Int32) :
    p ∈ asked tree ↔ ∃ r, InTree reading root r ∧ r.isZombie = false ∧ r.pid = p := by
  simp only [asked, List.mem_map, List.mem_filter, ht]
  constructor
  · rintro ⟨_, ⟨⟨r, hr, rfl⟩, hz⟩, rfl⟩
    exact ⟨r, hr, by simpa [entryOf] using hz, rfl⟩
  · rintro ⟨r, hr, hz, rfl⟩
    exact ⟨entryOf r, ⟨⟨r, hr, rfl⟩, by simp [entryOf, hz]⟩, rfl⟩

/-- The chain that a snapshot verifies, in terms of the table. -/
private theorem chain_of_snapshot {reading : Reading} {tree : List TreeEntry} {pid : Int32}
    {chain : List TreeIdentity} (ht : treeSnapshot root rootIdentity reading = .ok tree)
    (hc : verifiedChain root pid tree = .ok chain) :
    Chain root rootIdentity pid reading chain :=
  ⟨(verifiedChain_iff (treeSnapshot_ok ht).1).mp hc, (treeSnapshot_ok ht).2⟩

private theorem confirmOwner_cases {before middle : List TreeEntry} {pid : Int32}
    (hb : treeSnapshot root rootIdentity readings.before = .ok before)
    (hm : treeSnapshot root rootIdentity readings.middle = .ok middle) :
    (∃ reason, confirmOwner root rootIdentity readings confirm before middle pid =
      .unavailable reason) ∨
    confirmOwner root rootIdentity readings confirm before middle pid = .owned pid ∧
      confirm [pid] = .owned pid ∧
      ∃ chain, Chain root rootIdentity pid readings.before chain ∧
        Chain root rootIdentity pid readings.middle chain ∧
        Chain root rootIdentity pid readings.after chain := by
  unfold confirmOwner
  split
  · exact .inl ⟨_, rfl⟩
  next chain hchain =>
  split
  · exact .inl ⟨_, rfl⟩
  next chain' hchain' =>
  split
  · exact .inl ⟨_, rfl⟩
  next heq =>
  rw [ne_eq, not_not] at heq
  split
  · exact .inl ⟨_, rfl⟩
  next hconfirm =>
  rw [ne_eq, not_not] at hconfirm
  split
  · exact .inl ⟨_, rfl⟩
  next after hafter =>
  split
  · exact .inl ⟨_, rfl⟩
  next chain'' hchain'' =>
  split
  · exact .inl ⟨_, rfl⟩
  next heq' =>
  rw [ne_eq, not_not] at heq'
  subst heq heq'
  exact .inr ⟨hconfirm, hconfirm, _, chain_of_snapshot hb hchain, chain_of_snapshot hm hchain',
    chain_of_snapshot hafter hchain''⟩

/-- Whatever the three reads show and the backend answers, an owner is named only with a proof
in all of them, that there is none only of one identified tree, and otherwise the verdict is
that there is none. -/
theorem inspectWith_safe (root : Int32) (rootIdentity : LiveIdentity)
    (tuple : TcpConnectionTuple) (readings : Readings)
    (observe confirm : List Int32 → AcceptedSocketOwnershipResult) :
    (∃ pid, inspectWith root rootIdentity tuple readings observe confirm = .owned pid ∧
      ProvenOwner root rootIdentity readings observe confirm pid) ∨
    (inspectWith root rootIdentity tuple readings observe confirm = .notOwned ∧
      ProvenNotOwned root readings observe) ∨
    ∃ reason, inspectWith root rootIdentity tuple readings observe confirm =
      .unavailable reason := by
  unfold inspectWith
  split
  · exact .inr (.inr ⟨_, rfl⟩)
  split
  · exact .inr (.inr ⟨_, rfl⟩)
  next before hbefore =>
  have htree := (treeSnapshot_ok hbefore).1
  split
  · exact .inr (.inr ⟨_, rfl⟩)
  · next hobserve =>
    split
    · exact .inr (.inr ⟨_, rfl⟩)
    next middle hmiddle =>
    split
    · exact .inr (.inr ⟨_, rfl⟩)
    next heq =>
    rw [ne_eq, not_not] at heq
    split
    · exact .inr (.inr ⟨_, rfl⟩)
    next hfind =>
    refine .inr (.inl ⟨rfl, fun e ↦ ?_, fun r hr hz ↦ ?_, _, hobserve, mem_asked htree⟩)
    · rw [← htree, heq, (treeSnapshot_ok hmiddle).1]
    · have hno := List.find?_eq_none.mp hfind (entryOf r) ((htree _).mpr ⟨r, hr, rfl⟩)
      simpa [entryOf, hz, Option.isSome_iff_ne_none] using hno
  · next pid hobserve =>
    split
    · exact .inr (.inr ⟨_, rfl⟩)
    next middle hmiddle =>
    obtain hun | ⟨howned, hconfirm, hchain⟩ := confirmOwner_cases hbefore hmiddle
    · exact .inr (.inr hun)
    · exact .inl ⟨pid, howned, hchain, ⟨_, hobserve, mem_asked htree⟩, hconfirm⟩

end Verdict

end PtySpec.Daemon
