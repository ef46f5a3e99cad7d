import PtySpec.Lib.Deferred
import PtySpec.Lib.Shell
import PtySpec.Lifecycle.Gc

/-!
# The environment of a manifest session

Model of `read_pty_file` and `command_with_env_exports`,
`crates/pty-core/src/ptyfile.rs:48-253`, over the table that the document of a manifest parses to.
A session runs what a shell reads from the text of its exports and its command.
-/

namespace PtySpec.Lifecycle

open Lib

/-! ### Reading a manifest -/

/-- `toml::Value`, with a number, a boolean, a date or an array as its text. -/
inductive TomlValue where
  | string (text : String)
  | table (entries : List (String × TomlValue))
  | other (text : String)

/-- `toml::Table`. -/
abbrev TomlTable := IndexMap String TomlValue

namespace TomlValue

/-- `as_str`. -/
def asStr : TomlValue → Option String
  | string text => some text
  | _ => none

/-- `as_table`. -/
def asTable : TomlValue → Option TomlTable
  | table entries => some entries
  | _ => none

end TomlValue

/-- A field that is given as a string of some length. -/
def nonEmptyField (table : TomlTable) (field : String) : Option String :=
  ((table.get field).bind TomlValue.asStr).filter (· ≠ "")

/-- What a session is called in the errors of `read_pty_file`. -/
def sessionAt (display filePath : String) : String :=
  "Session \"" ++ display ++ "\" in " ++ filePath

/-- The check of `display_name`, `id` and `cwd`, `ptyfile.rs:106-168`: a field may be absent. -/
def readNonEmpty (display filePath : String) (table : TomlTable) (field : String) :
    Except String (Option String) :=
  match table.get field, nonEmptyField table field with
  | none, _ => .ok none
  | some _, some s => .ok (some s)
  | some _, none =>
    .error (sessionAt display filePath ++ ": \"" ++ field ++ "\" must be a non-empty string")

/-- The entries of `env`, `ptyfile.rs:151-159`, put into `m` in their order. -/
def readEnvEntries (display filePath : String) : TagMap → TomlTable → Except String TagMap
  | m, [] => .ok m
  | m, (k, v) :: entries =>
    match v.asStr with
    | none => .error (sessionAt display filePath ++ ": env." ++ k ++ " must be a string")
    | some s => readEnvEntries display filePath (m.insert k s) entries

/-- The `env` of a session, `ptyfile.rs:141-161`. -/
def readEnv (display filePath : String) (table : TomlTable) : Except String (Option TagMap) :=
  match table.get "env" with
  | none => .ok none
  | some ev =>
    match ev.asTable with
    | none =>
      .error (sessionAt display filePath ++ ": \"env\" must be a table of string values")
    | some entries => (readEnvEntries display filePath [] entries).map some

private theorem readEnvEntries_exact {display filePath : String} {entries : TomlTable}
    {m env : TagMap} (hn : (m.keys ++ entries.keys).Nodup)
    (h : readEnvEntries display filePath m entries = .ok env) :
    m.map (fun e ↦ (e.1, .string e.2)) ++ entries = env.map fun e ↦ (e.1, .string e.2) := by
  induction entries generalizing m with
  | nil =>
    obtain rfl := Except.ok.inj h
    simp
  | cons e entries ih =>
    obtain ⟨k, v⟩ := e
    have hkeys : IndexMap.keys ((k, v) :: entries) = k :: IndexMap.keys entries := rfl
    rw [hkeys, List.nodup_append] at hn
    have hk : k ∉ m.keys := fun hk ↦ hn.2.2 k hk k (by simp) rfl
    cases v with
    | string s =>
      have hrest := ih (m := m ++ [(k, s)]) ?_ ?_
      · simpa using hrest
      · have hsplit : IndexMap.keys (m ++ [(k, s)]) = m.keys ++ [k] := by simp [IndexMap.keys]
        rw [hsplit, List.append_assoc, List.nodup_append]
        exact hn
      · rw [← IndexMap.insert_of_notMem hk]
        exact h
    | table entries => cases h
    | other text => cases h

/-- The environment of a session holds the entries of its table, in their order. -/
theorem readEnv_exact {display filePath : String} {table entries : TomlTable} {env : TagMap}
    (hentries : table.get "env" = some (.table entries)) (hn : entries.keys.Nodup)
    (h : readEnv display filePath table = .ok (some env)) :
    entries = env.map fun e ↦ (e.1, .string e.2) := by
  simp only [readEnv, hentries, TomlValue.asTable] at h
  cases hm : readEnvEntries display filePath [] entries with
  | error e =>
    rw [hm] at h
    cases h
  | ok env' =>
    rw [hm] at h
    obtain rfl := Option.some.inj (Except.ok.inj h)
    have hnil : (IndexMap.keys ([] : TagMap) ++ IndexMap.keys entries).Nodup := hn
    exact readEnvEntries_exact hnil hm

/-- The surroundings of a manifest: the text of a table, and a path resolved against the directory
of the manifest. -/
structure ManifestPaths where
  filePath : String
  dir : String
  tableText : TomlTable → String
  resolve : String → String

namespace ManifestPaths

variable (paths : ManifestPaths)

/-- `value_to_string`, `ptyfile.rs:228`. -/
def valueToString : TomlValue → String
  | .string text | .other text => text
  | .table entries => paths.tableText entries

/-- The `tags` of a session, `ptyfile.rs:131-138`. -/
def readTags (table : TomlTable) : Option TagMap :=
  ((table.get "tags").bind TomlValue.asTable).map fun entries ↦
    IndexMap.insertAll [] (entries.map fun e ↦ (e.1, paths.valueToString e.2))

theorem nodup_readTags (table : TomlTable) : ∀ tags ∈ paths.readTags table, tags.keys.Nodup := by
  intro tags htags
  obtain ⟨entries, -, rfl⟩ := Option.map_eq_some_iff.1 htags
  have hnil : IndexMap.keys ([] : TagMap) = [] := rfl
  exact IndexMap.nodup_insertAll (hnil ▸ List.nodup_nil) _

/-- A session of a manifest, `ptyfile.rs:79-183`, under its name in the file. -/
def readSession (leading : Option String) (rawName : String) (value : TomlValue) :
    Except String PtySessionDef := do
  let display := (leading.map (· ++ "-" ++ rawName)).getD rawName
  let some table := value.asTable
    | .error ("Invalid session \"" ++ display ++ "\" in " ++ paths.filePath ++
        ": expected a table")
  let some command := nonEmptyField table "command"
    | .error (sessionAt display paths.filePath ++ " is missing a \"command\" field")
  let _ ← readNonEmpty display paths.filePath table "display_name"
  let _ ← readNonEmpty display paths.filePath table "id"
  let env ← readEnv display paths.filePath table
  let cwd ← readNonEmpty display paths.filePath table "cwd"
  return {
    shortName := rawName, command := command, cwd := cwd.map paths.resolve
    tags := paths.readTags table, env := env, nodup := paths.nodup_readTags table }

/-- `read_pty_file`, `ptyfile.rs:48`, on a parsed document. -/
def readPtyFile (parsed : TomlTable) : Except String PtyFile := do
  let sessions ← (((parsed.get "sessions").bind TomlValue.asTable).getD []).mapM fun e ↦
    paths.readSession (nonEmptyField parsed "prefix") e.1 e.2
  if sessions = [] then .error ("No sessions defined in " ++ paths.filePath)
  else return { dir := paths.dir, sessions := sessions }

end ManifestPaths

/-! ### What a shell reads -/

/-- What the text of a session's exports and command is to give a shell: a text without a NUL,
which no argument can hold, whose first commands export each key with its value and which goes on
with the command. -/
def Delivers (session : PtySessionDef) : Prop :=
  '\x00' ∉ (commandWithEnvExports session).toList ∧
    Shell.readExports (session.env.getD []).length (commandWithEnvExports session).toList =
      some ((session.env.getD []).map fun e ↦ (e.1.toList, e.2.toList),
        session.command.toList.dropWhile Shell.isBlank)

instance (session : PtySessionDef) : Decidable (Delivers session) := by
  unfold Delivers
  infer_instance

private theorem append_intercalate {sep : List Char} {xs : List (List Char)} (hne : xs ≠ []) :
    sep.intercalate xs ++ sep = xs.flatMap (· ++ sep) := by
  induction xs with
  | nil => exact absurd rfl hne
  | cons x xs ih =>
    by_cases hx : xs = []
    · simp [hx, List.intercalate]
    · obtain ⟨y, ys, rfl⟩ := List.exists_cons_of_ne_nil hx
      have hcons : sep.intercalate (x :: y :: ys) = x ++ sep ++ sep.intercalate (y :: ys) := by
        simp [List.intercalate]
      rw [hcons, List.append_assoc, ih hx]
      simp

private theorem toList_export (e : String × String) :
    ("export " ++ e.1 ++ "='" ++ quoteEnv e.2 ++ "'").toList =
      Shell.exportText (e.1.toList, e.2.toList) := by
  have hexport : "export ".toList = "export".toList ++ [' '] := by decide
  have hquote : "='".toList = ['=', '\x27'] := by decide
  simp only [String.toList_append, quoteEnv, String.toList_ofList, hexport, hquote,
    Shell.exportText, Shell.singleQuoted, List.append_assoc, List.cons_append, List.nil_append]
  rfl

/-- The text is that of each `export` and then the command. -/
theorem commandWithEnvExports_eq (session : PtySessionDef) :
    (commandWithEnvExports session).toList =
      ((session.env.getD []).map fun e ↦ (e.1.toList, e.2.toList)).flatMap
        (fun e ↦ Shell.exportText e ++ "; ".toList) ++ session.command.toList := by
  unfold commandWithEnvExports
  split
  · next h => simp [h]
  · next h => simp [h]
  · next env hne h =>
    have henv : env ≠ [] := by
      rintro rfl
      exact hne rfl
    have htexts : (env.map fun e ↦ "export " ++ e.1 ++ "='" ++ quoteEnv e.2 ++ "'").map
        String.toList = env.map fun e ↦ Shell.exportText (e.1.toList, e.2.toList) := by
      simp only [List.map_map, Function.comp_def, toList_export]
    rw [String.toList_append, String.toList_append, String.toList_intercalate, htexts,
      append_intercalate (by simpa using henv), h, Option.getD_some, List.flatMap_map,
      List.flatMap_map]

/-- A NUL of the text of an export is one of its name or of its value. -/
private theorem nul_mem_exportText (e : List Char × List Char) :
    '\x00' ∈ Shell.exportText e ↔ '\x00' ∈ e.1 ∨ '\x00' ∈ e.2 := by
  have hquoted (c : Char) :
      '\x00' ∈ (if c = '\x27' then ['\x27', '\\', '\x27', '\x27'] else [c]) ↔ c = '\x00' := by
    split
    · next h =>
      subst h
      decide
    · simp [eq_comm]
  simp [Shell.exportText, Shell.singleQuoted, hquoted]

private theorem nul_notMem_name {name : List Char} (h : Shell.isName name = true) :
    '\x00' ∉ name := by
  intro hmem
  have hword := List.all_eq_true.1 (Bool.and_eq_true_iff.1 h).2 _ hmem
  revert hword
  decide

/-- A shell exports each key of a session with its value and goes on with the command exactly
when every key is a name and neither a value nor the command has a NUL: a value is quoted, and a
key is written as it is. -/
theorem delivers_iff (session : PtySessionDef) :
    Delivers session ↔
      (∀ e ∈ session.env.getD [],
        Shell.isName e.1.toList = true ∧ '\x00' ∉ e.2.toList) ∧
      '\x00' ∉ session.command.toList := by
  have hnul : '\x00' ∉ (commandWithEnvExports session).toList ↔
      (∀ e ∈ session.env.getD [], '\x00' ∉ e.1.toList ∧ '\x00' ∉ e.2.toList) ∧
        '\x00' ∉ session.command.toList := by
    simp [commandWithEnvExports_eq, nul_mem_exportText]
  unfold Delivers
  rw [hnul]
  constructor
  · rintro ⟨⟨hkeys, hcommand⟩, hread⟩
    have hnames := Shell.isName_of_readExports hread
    exact ⟨fun e he ↦ ⟨hnames (e.1.toList, e.2.toList) (List.mem_map_of_mem he), (hkeys e he).2⟩,
      hcommand⟩
  · rintro ⟨hkeys, hcommand⟩
    have hnames : ∀ e ∈ (session.env.getD []).map fun e ↦ (e.1.toList, e.2.toList),
        Shell.isName e.1 = true := by
      intro e he
      obtain ⟨e', he', rfl⟩ := List.mem_map.1 he
      exact (hkeys e' he').1
    have hread := Shell.readExports_flatMap hnames session.command.toList
    rw [List.length_map, ← commandWithEnvExports_eq] at hread
    exact ⟨⟨fun e he ↦ ⟨nul_notMem_name (hkeys e he).1, (hkeys e he).2⟩, hcommand⟩, hread⟩

/-- A key of a manifest that `read_pty_file` accepts and that starts a command of its own: the shell
runs `touch` before it runs the command. -/
theorem delivers_refuted :
    let paths : ManifestPaths := ⟨"/m/pty.toml", "/m", fun _ ↦ "", id⟩
    let env : TomlTable := [("A; touch x; B", .string "v")]
    let session : PtySessionDef := ⟨"web", "go", none, none, some [("A; touch x; B", "v")], by simp⟩
    paths.readPtyFile [("sessions", .table [("web", .table [("command", .string "go"),
        ("env", .table env)])])] = .ok ⟨"/m", [session]⟩ ∧
      ¬ Delivers session ∧
      (Shell.simpleCommand (commandWithEnvExports session).toList).bind
          (fun first ↦ (Shell.simpleCommand first.2).map Prod.fst) =
        some ["touch".toList, "x".toList] := by
  refine ⟨?_, ?_, ?_⟩
  · rfl
  · decide
  · decide

end PtySpec.Lifecycle
