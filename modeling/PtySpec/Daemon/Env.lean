import PtySpec.Lib.IndexMap

/-!
# The environment of a session's child

Model of `build_child_env_from` and `permanent_respawn_env`, `crates/pty/src/daemon/env.rs:94`
and `52`: the environment of the daemon's parent, a saved one, keys removed and keys set are
layered in a fixed order, and the login keys of a permanent session's child are saved for its
respawns.
-/

namespace PtySpec.Daemon

open Lib

/-- `EnvMap`, and `BTreeMap<String, String>`, of which nothing here reads the order. -/
abbrev EnvMap := IndexMap String String

/-- The fields of `DaemonConfig`, `crates/pty-lifecycle/src/config.rs:27`, that say what the
environment is. -/
structure EnvConfig where
  name : String
  cwd : String
  isolateEnv : Bool := false
  extraEnv : Option EnvMap := none
  sessionEnv : Option EnvMap := none
  unsetEnv : List String := []
  env : Option EnvMap := none

/-! ### Keys -/

/-- The key starts with `LC_`. -/
def isLocale (key : String) : Bool := "LC_".toList.isPrefixOf key.toList

/-- `ISOLATED_ENV_ALLOWLIST`, `env.rs:13`. -/
def isolatedEnvAllowlist : List String :=
  ["PATH", "HOME", "USER", "LOGNAME", "SHELL", "TERM", "COLORTERM", "LANG", "TZ", "PWD", "TMPDIR",
    "PTY_ROOT", "PTY_SESSION_DIR"]

/-- `HOST_TERMINAL_IDENTITY`, `env.rs:35`. -/
def hostTerminalIdentity : List String :=
  ["TERM_PROGRAM", "TERM_PROGRAM_VERSION", "LC_TERMINAL", "ITERM_SESSION_ID", "TERM_SESSION_ID",
    "KITTY_WINDOW_ID", "KITTY_PID", "WT_SESSION", "Q_TERM", "IRIS_FD"]

/-- The keys of the daemon alone, `env.rs:112-118`. -/
def daemonPrivate : List String :=
  ["PTY_SERVER_CONFIG", "PTY_DAEMON_READY_FD", "PTY_DAEMON_OPERATION_FD", "PTY_DAEMON_GATE_FD",
    "PTY_CREATION_LOCK_OWNER_PID", "PTY_CREATION_LOCK_NONCE"]

/-- The login keys, `env.rs:65-68`. -/
def isLoginKey (key : String) : Bool :=
  key ∈ ["PATH", "LANG", "DISPLAY", "WAYLAND_DISPLAY", "XDG_SESSION_TYPE", "SSH_AUTH_SOCK"] ||
    isLocale key

/-! ### The child's environment -/

/-- `env_exclusive_error`, `env.rs:80`. -/
def envExclusiveError : String :=
  "ServerOptions.env is mutually exclusive with isolateEnv/extraEnv/unsetEnv. " ++
    "Use env for verbatim control, or inherited environment policy options — not both."

/-- What is inherited of the parent's environment, `env.rs:110-126`. -/
def inherited (cfg : EnvConfig) (source : EnvMap) : EnvMap :=
  if cfg.isolateEnv then
    IndexMap.insertAll [] (source.filter fun e ↦ e.1 ∈ isolatedEnvAllowlist || isLocale e.1)
  else (IndexMap.insertAll [] source).removeAll daemonPrivate

/-- What the configuration removes and sets, `env.rs:133-143`. -/
def configured (cfg : EnvConfig) (env : EnvMap) : EnvMap :=
  ((env.removeAll hostTerminalIdentity).removeAll cfg.unsetEnv).insertAll (cfg.extraEnv.getD [])

/-- `ensure_child_term`, `env.rs:87`. -/
def ensureChildTerm (env : EnvMap) : EnvMap :=
  if (env.get "TERM").getD "" = "" then env.insert "TERM" "xterm-256color" else env

/-- The keys that are always set, `env.rs:160-165`. -/
def forced (cfg : EnvConfig) (generation : String) (env : EnvMap) : EnvMap :=
  let env := (env.insert "PWD" cfg.cwd).insert "PTY_SESSION" cfg.name
  ensureChildTerm
    (if generation = "" then env else env.insert "PTY_SESSION_GENERATION" generation)

/-- The inherited, saved and configured layers, `env.rs:110-144`. -/
def layered (cfg : EnvConfig) (source : EnvMap) : EnvMap :=
  configured cfg ((inherited cfg source).insertAll (cfg.sessionEnv.getD []))

/-- `build_child_env_from`, `env.rs:94`. -/
def buildChildEnvFrom (cfg : EnvConfig) (generation : String) (source : EnvMap) :
    Except String EnvMap :=
  match cfg.env with
  | some replacement =>
    if cfg.isolateEnv || cfg.extraEnv.isSome || !cfg.unsetEnv.isEmpty then .error envExclusiveError
    else .ok (forced cfg generation (IndexMap.insertAll [] replacement))
  | none => .ok (forced cfg generation (layered cfg source))

/-- `permanent_respawn_env`, `env.rs:52`. -/
def permanentRespawnEnv (cfg : EnvConfig) (tags : IndexMap String String) (childEnv : EnvMap) :
    Option EnvMap :=
  if tags.get "strategy" ≠ some "permanent" ∨ cfg.env.isSome then none
  else
    match cfg.sessionEnv with
    | some saved => some saved
    | none =>
      let saved := childEnv.filter (isLoginKey ·.1)
      if saved.isEmpty then none else some saved

/-! ### What each layer says of a key -/

/-- The keys that may be set at the end. -/
def forcedKeys : List String := ["PWD", "PTY_SESSION", "PTY_SESSION_GENERATION", "TERM"]

theorem get_configured (cfg : EnvConfig) (env : EnvMap) (key : String) :
    (configured cfg env).get key = ((IndexMap.insertAll [] (cfg.extraEnv.getD [])).get key).or
      (if key ∈ hostTerminalIdentity ∨ key ∈ cfg.unsetEnv then none else env.get key) := by
  rw [configured, IndexMap.get_insertAll_or, IndexMap.get_removeAll, IndexMap.get_removeAll]
  congr 1
  split_ifs <;> simp_all

private theorem get_ensureChildTerm (env : EnvMap) {key : String} (h : key ≠ "TERM") :
    (ensureChildTerm env).get key = env.get key := by
  unfold ensureChildTerm
  split
  · rw [IndexMap.get_insert, if_neg (Ne.symm h)]
  · rfl

theorem get_forced_of_notMem (cfg : EnvConfig) (generation : String) (env : EnvMap) {key : String}
    (h : key ∉ forcedKeys) : (forced cfg generation env).get key = env.get key := by
  simp only [forcedKeys, List.mem_cons, List.not_mem_nil, or_false, not_or] at h
  obtain ⟨hpwd, hsession, hgeneration, hterm⟩ := h
  unfold forced
  rw [get_ensureChildTerm _ hterm]
  split
  · rw [IndexMap.get_insert, if_neg (Ne.symm hsession), IndexMap.get_insert,
      if_neg (Ne.symm hpwd)]
  · rw [IndexMap.get_insert, if_neg (Ne.symm hgeneration), IndexMap.get_insert,
      if_neg (Ne.symm hsession), IndexMap.get_insert, if_neg (Ne.symm hpwd)]

private theorem get_ensureChildTerm_congr {env env' : EnvMap} {key : String}
    (h : env.get key = env'.get key) :
    (ensureChildTerm env).get key = (ensureChildTerm env').get key := by
  by_cases hk : key = "TERM"
  · subst hk
    unfold ensureChildTerm
    rw [h]
    split
    · rw [IndexMap.get_insert, IndexMap.get_insert, if_pos rfl, if_pos rfl]
    · exact h
  · rw [get_ensureChildTerm _ hk, get_ensureChildTerm _ hk, h]

/-- What is set at the end depends on the value that was there and nothing else. -/
theorem get_forced_congr (cfg : EnvConfig) {generation generation' : String} {env env' : EnvMap}
    {key : String} (hg : key = "PTY_SESSION_GENERATION" → generation = generation')
    (h : env.get key = env'.get key) :
    (forced cfg generation env).get key = (forced cfg generation' env').get key := by
  unfold forced
  apply get_ensureChildTerm_congr
  have hset : ((env.insert "PWD" cfg.cwd).insert "PTY_SESSION" cfg.name).get key =
      ((env'.insert "PWD" cfg.cwd).insert "PTY_SESSION" cfg.name).get key := by
    rw [IndexMap.get_insert, IndexMap.get_insert, IndexMap.get_insert, IndexMap.get_insert, h]
  by_cases hk : key = "PTY_SESSION_GENERATION"
  · rw [hg hk]
    split
    · exact hset
    · rw [IndexMap.get_insert "PTY_SESSION_GENERATION",
        IndexMap.get_insert "PTY_SESSION_GENERATION", hset]
  · have hskip (generation : String) (env : EnvMap) :
        (if generation = "" then env
          else env.insert "PTY_SESSION_GENERATION" generation).get key = env.get key := by
      split
      · rfl
      · rw [IndexMap.get_insert, if_neg (Ne.symm hk)]
    rw [hskip, hskip, hset]

/-- The private keys and the keys of the host's terminal are none of those set at the end. -/
private theorem notMem_forcedKeys {key : String}
    (h : key ∈ daemonPrivate ∨ key ∈ hostTerminalIdentity) : key ∉ forcedKeys := by
  have hall : ∀ key ∈ daemonPrivate ++ hostTerminalIdentity, key ∉ forcedKeys := by decide
  exact hall key (List.mem_append.mpr h)

private theorem notMem_forcedKeys_of_isLoginKey {key : String} (h : isLoginKey key = true) :
    key ∉ forcedKeys := by
  intro hk
  have hall : ∀ key ∈ forcedKeys, isLoginKey key = false := by decide
  rw [hall key hk] at h
  cases h

/-- A key that is not inherited, whatever the parent's environment is. -/
private theorem get_inherited_of_daemonPrivate (cfg : EnvConfig) (source : EnvMap) {key : String}
    (h : key ∈ daemonPrivate) : (inherited cfg source).get key = none := by
  unfold inherited
  split
  · have hall : ∀ key ∈ daemonPrivate,
        (decide (key ∈ isolatedEnvAllowlist) || isLocale key) = false := by decide
    rw [← Option.not_isSome_iff_eq_none, ← IndexMap.mem_keys_iff, IndexMap.mem_keys_insertAll]
    rintro (hm | hm)
    · cases hm
    · obtain ⟨e, he, rfl⟩ := List.mem_map.mp hm
      have hp := (List.mem_filter.mp he).2
      rw [hall e.1 h] at hp
      cases hp
  · rw [IndexMap.get_removeAll, if_pos h]

/-- Where the configuration has an entry of its own, the parent's environment counts for
nothing. -/
private theorem get_session_congr (cfg : EnvConfig) {saved : EnvMap} {key : String}
    (h : key ∈ saved.keys) (source source' : EnvMap) :
    ((inherited cfg source).insertAll saved).get key =
      ((inherited cfg source').insertAll saved).get key := by
  have hk : (IndexMap.get (IndexMap.insertAll [] saved) key).isSome := by
    rw [← IndexMap.mem_keys_iff, IndexMap.mem_keys_insertAll]
    exact .inr h
  obtain ⟨v, hv⟩ := Option.isSome_iff_exists.mp hk
  rw [IndexMap.get_insertAll_or, hv, IndexMap.get_insertAll_or (inherited cfg source'), hv]
  rfl

/-- A private key, or one of the host's terminal, has the value the configuration gives it. -/
private theorem get_layered_private (cfg : EnvConfig) (source : EnvMap) {key : String}
    (h : key ∈ daemonPrivate ∨ key ∈ hostTerminalIdentity) :
    (layered cfg source).get key = ((IndexMap.insertAll [] (cfg.extraEnv.getD [])).get key).or
      (if key ∈ hostTerminalIdentity ∨ key ∈ cfg.unsetEnv then none
        else (IndexMap.insertAll [] (cfg.sessionEnv.getD [])).get key) := by
  rw [layered, get_configured]
  congr 1
  split
  · rfl
  · next hk =>
    obtain h | h := h
    · rw [IndexMap.get_insertAll_or, get_inherited_of_daemonPrivate cfg source h, Option.or_none]
    · exact absurd (.inl h) hk

private theorem nodup_removeAll {env : EnvMap} (h : env.keys.Nodup) (ks : List String) :
    (env.removeAll ks).keys.Nodup := by
  rw [IndexMap.keys_removeAll]
  exact h.filter _

private theorem nodup_inherited (cfg : EnvConfig) (source : EnvMap) :
    (inherited cfg source).keys.Nodup := by
  unfold inherited
  split
  · exact IndexMap.nodup_insertAll (m := []) List.nodup_nil _
  · exact nodup_removeAll (IndexMap.nodup_insertAll (m := []) List.nodup_nil _) _

private theorem nodup_ensureChildTerm {env : EnvMap} (h : env.keys.Nodup) :
    (ensureChildTerm env).keys.Nodup := by
  unfold ensureChildTerm
  split
  · exact IndexMap.nodup_insert h _ _
  · exact h

private theorem nodup_forced (cfg : EnvConfig) (generation : String) {env : EnvMap}
    (h : env.keys.Nodup) : (forced cfg generation env).keys.Nodup := by
  have hset := IndexMap.nodup_insert (IndexMap.nodup_insert h "PWD" cfg.cwd) "PTY_SESSION" cfg.name
  unfold forced
  apply nodup_ensureChildTerm
  split
  · exact hset
  · exact IndexMap.nodup_insert hset _ _

/-- No key is twice in a child's environment. -/
theorem nodup_child (cfg : EnvConfig) (generation : String) (source : EnvMap) :
    (forced cfg generation (layered cfg source)).keys.Nodup := by
  apply nodup_forced
  exact IndexMap.nodup_insertAll (nodup_removeAll (nodup_removeAll
    (IndexMap.nodup_insertAll (nodup_inherited cfg source) _) _) _) _

/-! ### The saved environment -/

theorem buildChildEnvFrom_eq (cfg : EnvConfig) (h : cfg.env = none) (generation : String)
    (source : EnvMap) :
    buildChildEnvFrom cfg generation source = .ok (forced cfg generation (layered cfg source)) := by
  rw [buildChildEnvFrom, h]

/-- What is saved of a child: its login values the first time, what was saved before from then
on. -/
theorem get_permanentRespawnEnv {cfg : EnvConfig} {tags : IndexMap String String}
    {childEnv saved : EnvMap} (h : permanentRespawnEnv cfg tags childEnv = some saved) :
    cfg.sessionEnv = some saved ∨
      cfg.sessionEnv = none ∧ saved = childEnv.filter (isLoginKey ·.1) := by
  unfold permanentRespawnEnv at h
  split at h
  · cases h
  · cases hs : cfg.sessionEnv with
    | some s => rw [hs] at h; exact .inl h
    | none =>
      rw [hs] at h
      dsimp only at h
      split at h
      · cases h
      · exact .inr ⟨rfl, (Option.some.inj h).symm⟩

/-- What was saved is saved again, whatever the child is. -/
theorem permanentRespawnEnv_again {cfg : EnvConfig} {tags : IndexMap String String}
    {childEnv saved : EnvMap} (h : permanentRespawnEnv cfg tags childEnv = some saved)
    (childEnv' : EnvMap) :
    permanentRespawnEnv { cfg with sessionEnv := some saved } tags childEnv' = some saved := by
  have hc : ¬(tags.get "strategy" ≠ some "permanent" ∨ cfg.env.isSome) := by
    intro hc
    rw [permanentRespawnEnv, if_pos hc] at h
    cases h
  exact if_neg hc

/-- A value that was saved of a child is the one its environment is built from again. -/
private theorem get_respawned_login {cfg : EnvConfig} {generation : String}
    (generation' : String) {source : EnvMap} (source' : EnvMap) {saved : EnvMap} {key : String}
    (hsaved : saved = (forced cfg generation (layered cfg source)).filter (isLoginKey ·.1))
    (hk : key ∈ saved.keys) :
    isLoginKey key = true ∧
      saved.get key = (forced cfg generation (layered cfg source)).get key ∧
      (forced cfg generation' (layered { cfg with sessionEnv := some saved } source')).get key =
        saved.get key := by
  have hnodup : saved.keys.Nodup := by
    rw [hsaved]
    exact (nodup_child cfg generation source).sublist (List.filter_sublist.map _)
  have hget := IndexMap.get_filter isLoginKey (forced cfg generation (layered cfg source)) key
  rw [← hsaved] at hget
  have hlogin : isLoginKey key = true := by
    by_contra hn
    rw [if_neg hn] at hget
    rw [IndexMap.mem_keys_iff, hget] at hk
    cases hk
  rw [if_pos hlogin] at hget
  refine ⟨hlogin, hget, ?_⟩
  have hf := notMem_forcedKeys_of_isLoginKey hlogin
  rw [get_forced_of_notMem cfg generation _ hf, layered, get_configured] at hget
  rw [get_forced_of_notMem cfg generation' _ hf]
  change (configured cfg ((inherited cfg source').insertAll saved)).get key = _
  rw [get_configured, IndexMap.get_insertAll hnodup]
  rw [IndexMap.mem_keys_iff, Option.isSome_iff_exists] at hk
  obtain ⟨value, hv⟩ := hk
  rw [hv] at hget ⊢
  cases he : (IndexMap.insertAll [] (cfg.extraEnv.getD [])).get key with
  | some v => rw [he] at hget; exact hget.symm
  | none =>
    rw [he] at hget
    split at hget
    · cases hget
    · next hn =>
      rw [if_neg hn]
      rfl

/-- A key that was saved has the value it had, but for a new generation. -/
private theorem get_respawned {cfg : EnvConfig} {tags : IndexMap String String}
    {generation generation' : String} {source source' saved : EnvMap}
    (h : permanentRespawnEnv cfg tags (forced cfg generation (layered cfg source)) = some saved)
    {key : String} (hk : key ∈ saved.keys)
    (hg : key = "PTY_SESSION_GENERATION" → generation = generation') :
    (forced cfg generation' (layered { cfg with sessionEnv := some saved } source')).get key =
      (forced cfg generation (layered cfg source)).get key := by
  obtain hs | ⟨-, hsaved⟩ := get_permanentRespawnEnv h
  · refine (get_forced_congr cfg hg ?_).symm
    change (configured cfg ((inherited cfg source).insertAll (cfg.sessionEnv.getD []))).get key =
      (configured cfg ((inherited cfg source').insertAll saved)).get key
    rw [get_configured, get_configured, hs, Option.getD_some, get_session_congr cfg hk source]
  · obtain ⟨-, hchild, hagain⟩ := get_respawned_login generation' source' hsaved hk
    rw [hagain, hchild]

/-- A private key, or one of the host's terminal, does not come from a parent. -/
private theorem get_respawned_private {cfg : EnvConfig} {tags : IndexMap String String}
    {generation generation' : String} {source source' saved : EnvMap}
    (h : permanentRespawnEnv cfg tags (forced cfg generation (layered cfg source)) = some saved)
    {key : String} (hk : key ∈ daemonPrivate ∨ key ∈ hostTerminalIdentity) :
    (forced cfg generation' (layered { cfg with sessionEnv := some saved } source')).get key =
      (forced cfg generation (layered cfg source)).get key := by
  rw [get_forced_of_notMem _ _ _ (notMem_forcedKeys hk),
    get_forced_of_notMem _ _ _ (notMem_forcedKeys hk), get_layered_private _ _ hk,
    get_layered_private _ _ hk]
  dsimp only
  obtain hs | ⟨hs, hsaved⟩ := get_permanentRespawnEnv h
  · rw [hs]
  · congr 1
    split
    · rfl
    · next hn =>
      rw [hs, Option.getD_some]
      have hall : ∀ key ∈ daemonPrivate, isLoginKey key = false := by decide
      have hlogin : isLoginKey key = false :=
        hall key (hk.resolve_right fun hh ↦ hn (.inl hh))
      change _ = none
      rw [← Option.not_isSome_iff_eq_none, ← IndexMap.mem_keys_iff, IndexMap.mem_keys_insertAll]
      rintro (hm | hm)
      · cases hm
      · rw [IndexMap.mem_keys_iff, hsaved, IndexMap.get_filter, hlogin] at hm
        cases hm

/-- The configuration itself sets the key. -/
def EnvConfig.Sets (cfg : EnvConfig) (key : String) : Prop :=
  key ∈ (cfg.extraEnv.getD []).keys ∨
    key ∈ daemonPrivate ∧ key ∈ (cfg.sessionEnv.getD []).keys

private theorem sets_of_mem {cfg : EnvConfig} {generation : String} {source : EnvMap}
    {key : String} (hk : key ∈ daemonPrivate ∨ key ∈ hostTerminalIdentity)
    (hm : key ∈ (forced cfg generation (layered cfg source)).keys) : cfg.Sets key := by
  rw [IndexMap.mem_keys_iff, get_forced_of_notMem _ _ _ (notMem_forcedKeys hk),
    get_layered_private cfg source hk, Option.isSome_or, Bool.or_eq_true,
    ← IndexMap.mem_keys_iff, IndexMap.mem_keys_insertAll] at hm
  obtain (hm | hm) | hm := hm
  · cases hm
  · exact .inl hm
  · split at hm
    · cases hm
    · next hn =>
      rw [← IndexMap.mem_keys_iff, IndexMap.mem_keys_insertAll] at hm
      exact .inr ⟨hk.resolve_right fun hh ↦ hn (.inl hh), hm.resolve_left List.not_mem_nil⟩

/-- For a session without a replacement environment, no private key and none of the host's
terminal reaches the child of any parent that the configuration does not set. Of the first child
the login keys are saved and nothing else, what was saved is saved again, and the child of
another parent has every saved key with the value it had, its new generation apart. -/
theorem respawnEnv_stable (cfg : EnvConfig) (henv : cfg.env = none)
    (tags : IndexMap String String) (generation generation' : String) (source source' : EnvMap) :
    ∃ child, buildChildEnvFrom cfg generation source = .ok child ∧
      (∀ key, key ∈ daemonPrivate ∨ key ∈ hostTerminalIdentity → key ∈ child.keys →
        cfg.Sets key) ∧
      ∀ saved, permanentRespawnEnv cfg tags child = some saved →
        (cfg.sessionEnv = none →
          ∀ key, saved.get key = if isLoginKey key then child.get key else none) ∧
        (∀ given, cfg.sessionEnv = some given → saved = given) ∧
        ∃ child', buildChildEnvFrom { cfg with sessionEnv := some saved } generation' source' =
            .ok child' ∧
          (∀ key ∈ saved.keys, (key = "PTY_SESSION_GENERATION" → generation = generation') →
            child'.get key = child.get key) ∧
          permanentRespawnEnv { cfg with sessionEnv := some saved } tags child' = some saved ∧
          ∀ key, key ∈ daemonPrivate ∨ key ∈ hostTerminalIdentity →
            child'.get key = child.get key := by
  refine ⟨_, buildChildEnvFrom_eq cfg henv generation source, fun key ↦ sets_of_mem, ?_⟩
  intro saved h
  refine ⟨?_, ?_, _, buildChildEnvFrom_eq { cfg with sessionEnv := some saved } henv
    generation' source', ?_, permanentRespawnEnv_again h _, ?_⟩
  · intro hs key
    obtain hg | ⟨-, hg⟩ := get_permanentRespawnEnv h
    · rw [hs] at hg
      cases hg
    · rw [hg, IndexMap.get_filter]
  · intro given hs
    obtain hg | ⟨hg, -⟩ := get_permanentRespawnEnv h
    · exact Option.some.inj (hg.symm.trans hs)
    · rw [hs] at hg
      cases hg
  · intro key hk hg
    exact get_respawned h hk hg
  · intro key hk
    exact get_respawned_private h hk

/-- The login path of the first parent outlives a respawn under a service manager, its secret and
its terminal's identity do not. -/
theorem respawnEnv_stable_login :
    ∃ child, buildChildEnvFrom ⟨"work", "/home", false, none, none, [], none⟩ "g"
          [("PATH", "/home/bin"), ("SECRET", "x"), ("IRIS_FD", "7")] = .ok child ∧
      (∀ key, key ∈ daemonPrivate ∨ key ∈ hostTerminalIdentity → key ∉ child.keys) ∧
      permanentRespawnEnv ⟨"work", "/home", false, none, none, [], none⟩
        [("strategy", "permanent")] child = some [("PATH", "/home/bin")] ∧
      ∃ child', buildChildEnvFrom
            ⟨"work", "/home", false, none, some [("PATH", "/home/bin")], [], none⟩ "h"
            [("PATH", "/usr/bin")] = .ok child' ∧
        child'.get "PATH" = child.get "PATH" := by
  obtain ⟨child, hchild, hsets, hsaved⟩ := respawnEnv_stable
    ⟨"work", "/home", false, none, none, [], none⟩ rfl [("strategy", "permanent")] "g" "h"
    [("PATH", "/home/bin"), ("SECRET", "x"), ("IRIS_FD", "7")] [("PATH", "/usr/bin")]
  have hc := Except.ok.inj (hchild.symm.trans (buildChildEnvFrom_eq _ rfl _ _))
  have hs : permanentRespawnEnv ⟨"work", "/home", false, none, none, [], none⟩
      [("strategy", "permanent")] child = some [("PATH", "/home/bin")] := by
    rw [hc]
    decide
  obtain ⟨-, -, child', hchild', hget, -, -⟩ := hsaved _ hs
  refine ⟨child, hchild, ?_, hs, child', hchild', hget "PATH" (by decide) (by decide)⟩
  intro key hk hm
  obtain h | ⟨-, h⟩ := hsets key hk hm <;> cases h

/-- A configuration that was given its saved environment keeps what it was given, login key or
not. -/
theorem loginOnly_refuted :
    ¬∀ (cfg : EnvConfig) (tags : IndexMap String String) (child saved : EnvMap),
      cfg.env = none → permanentRespawnEnv cfg tags child = some saved →
        ∀ key ∈ saved.keys, isLoginKey key = true := by
  intro h
  have hk := h ⟨"work", "/home", false, none, some [("FOO", "x")], [], none⟩
    [("strategy", "permanent")] [] [("FOO", "x")] rfl (by decide) "FOO" (by decide)
  revert hk
  decide

end PtySpec.Daemon
