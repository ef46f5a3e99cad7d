import PtySpec.Cli.Run
import PtySpec.Lib.Fallible

/-!
# What a recreation keeps

A run that takes the place of a stopped session, against the settings that its command line gives
and those of the session's record. Which options a command line has is read off the arguments alone;
the code infers later, from the values, which of them were given.
-/

namespace PtySpec.Cli.Run

open Lib Metadata
open Lifecycle (TagMap published Birth)

/-! ### Command lines -/

/-- The options that take a value. -/
def valueFlags : List String :=
  ["--id", "--name", "--cwd", "--rows", "--cols", "--startup-timeout-ms", "--lifecycle-tag",
    "--operation-fd", "--launch-operation", "--publication-operation", "--publication-binding",
    "--publication-root-id", "--tag", "--env", "--unset-env"]

/-- The options that take none. -/
def switchFlags : List String :=
  ["-d", "--detach", "--force", "-e", "--ephemeral", "--isolate-env", "-a", "--attach",
    "--no-display-name"]

/-- The options of a command line with their values, and the command after them. -/
def commandLine : List String → List (String × Option String) × List String
  | [] => ([], [])
  | arg :: rest =>
    if arg ∈ valueFlags then
      match rest with
      | [] => ([(arg, none)], [])
      | value :: rest => ((arg, some value) :: (commandLine rest).1, (commandLine rest).2)
    else if arg ∈ switchFlags then ((arg, none) :: (commandLine rest).1, (commandLine rest).2)
    else ([], if arg = "--" then rest else arg :: rest)

/-- One option, with its value if it takes one. -/
def applyOption (inherited : String → Option String) (o : RunOptions)
    (e : String × Option String) : Except Exit RunOptions :=
  match valueOption inherited e.1 with
  | some option => option e.2 o
  | none => .ok ((switchOption e.1).getD id o)

variable {inherited : String → Option String}

private theorem valueOption_eq_none {arg : String} :
    valueOption inherited arg = none ↔ arg ∉ valueFlags := by
  unfold valueOption
  split
  all_goals simp_all [valueFlags]

private theorem switchOption_eq_none {arg : String} :
    switchOption arg = none ↔ arg ∉ switchFlags := by
  unfold switchOption
  split
  all_goals simp_all [switchFlags]

private theorem exists_valueOption (inherited : String → Option String) {arg : String}
    (h : arg ∈ valueFlags) :
    ∃ option, valueOption inherited arg = some option :=
  Option.ne_none_iff_exists'.1 fun hnone ↦ valueOption_eq_none.1 hnone h

/-- The loop reads one option after the other, up to the command. -/
theorem optionLoop_eq (args : List String) (o : RunOptions) :
    optionLoop inherited o args =
      ((commandLine args).1.foldlM (applyOption inherited) o).map (·, (commandLine args).2) := by
  fun_induction commandLine args generalizing o with
  | case1 => rfl
  | case2 arg hvalue =>
    obtain ⟨option, hoption⟩ := exists_valueOption inherited hvalue
    rw [optionLoop, hoption, List.foldlM_cons, applyOption, hoption]
    dsimp only
    cases option none o <;> rfl
  | case3 arg hvalue value rest ih =>
    obtain ⟨option, hoption⟩ := exists_valueOption inherited hvalue
    rw [optionLoop, hoption, List.foldlM_cons, applyOption, hoption]
    dsimp only
    cases option (some value) o with
    | error e => rfl
    | ok o => exact ih o
  | case4 arg rest hvalue hswitch ih =>
    have hnone : valueOption inherited arg = none := valueOption_eq_none.2 hvalue
    obtain ⟨switch, hs⟩ := Option.ne_none_iff_exists'.1 fun h ↦ switchOption_eq_none.1 h hswitch
    rw [optionLoop, hnone, List.foldlM_cons, applyOption, hnone, hs]
    exact ih (switch o)
  | case5 arg rest hvalue hswitch =>
    rw [optionLoop, valueOption_eq_none.2 hvalue, switchOption_eq_none.2 hswitch]
    rfl

/-- Before a command, every option that takes a value has one. -/
theorem isSome_of_mem_commandLine {args : List String} (h : (commandLine args).2 ≠ [])
    {e : String × Option String} (he : e ∈ (commandLine args).1) (hvalue : e.1 ∈ valueFlags) :
    e.2.isSome = true := by
  fun_induction commandLine args with
  | case1 => cases he
  | case2 arg hflag => exact absurd rfl h
  | case3 arg hflag value rest ih =>
    obtain rfl | he := List.mem_cons.1 he
    · rfl
    · exact ih h he
  | case4 arg rest hflag hswitch ih =>
    obtain rfl | he := List.mem_cons.1 he
    · exact absurd hvalue hflag
    · exact ih h he
  | case5 arg rest hflag hswitch => cases he

/-! ### What a command line gives -/

/-- The values that an option is given. -/
def values (flag : String) (given : List (String × Option String)) : List String :=
  given.filterMap fun e ↦ if e.1 = flag then e.2 else none

/-- Whether an option is given. -/
def Gives (given : List (String × Option String)) (flag : String) : Prop :=
  flag ∈ given.map (·.1)

instance (given : List (String × Option String)) (flag : String) : Decidable (Gives given flag) :=
  inferInstanceAs (Decidable (flag ∈ given.map (·.1)))

/-- A map with an assignment. -/
def assign (tags : TagMap) (token : String) : TagMap :=
  match splitAssignment token with
  | some (key, value) => tags.insert key value
  | none => tags

/-- An environment with what a token of `--env` says. -/
def assignEnv (inherited : String → Option String) (env : TagMap) (token : String) : TagMap :=
  match splitAssignment token with
  | some (key, value) => env.insert key value
  | none => (inherited token).elim env fun value ↦ env.insert token value

/-- A list with a key that it does not hold. -/
def addKey (keys : List String) (key : String) : List String :=
  if key ∈ keys then keys else keys ++ [key]

/-- The settings that a recreation keeps. -/
@[ext] structure Settings where
  cwd : String
  tags : TagMap
  displayName : Option String
  extraEnv : TagMap
  unsetEnv : List String
  deriving DecidableEq, Repr

/-- The settings of a record. -/
def recorded (m : SessionMetadata) : Settings where
  cwd := m.field .cwd
  tags := m.tags.getD []
  displayName := (m.field .displayName).filter (· ≠ "")
  extraEnv := (m.field .extraEnv).getD []
  unsetEnv := (m.field .unsetEnv).getD []

/-- The settings that a daemon is launched with, `config_for`, `launch.rs:195`. -/
def RunParams.settings (params : RunParams) : Settings where
  cwd := params.cwd
  tags := params.tags
  displayName := params.displayName.filter (· ≠ "")
  extraEnv := params.extraEnv
  unsetEnv := params.unsetEnv

/-- The record of the daemon has the settings that it was launched with. -/
theorem recorded_published (params : RunParams) (b : Birth) :
    recorded (published params.toSpawnParams b) = params.settings := by
  have hmap (entries : TagMap) :
      (if entries = [] then none else some entries).getD [] = entries := by
    split
    · next h => exact h.symm
    · rfl
  have hkeys (keys : List String) : (if keys = [] then none else some keys).getD [] = keys := by
    split
    · next h => exact h.symm
    · rfl
  have hname (name : Option String) :
      (name.filter (· ≠ "")).filter (· ≠ "") = name.filter (· ≠ "") := by
    rw [Option.filter_filter]
    simp
  exact Settings.ext rfl (hmap params.tags) (hname params.displayName) (hmap params.extraEnv)
    (hkeys params.unsetEnv)

/-- The settings that a recreation is to have: those that the command line gives, and the previous
session's where it gives none. -/
def wanted (inherited : String → Option String) (given : List (String × Option String))
    (previous : Settings) : Settings where
  cwd := (values "--cwd" given).getLast?.getD previous.cwd
  tags := if Gives given "--tag" then (values "--tag" given).foldl assign [] else previous.tags
  displayName :=
    if Gives given "--no-display-name" then none
    else (values "--name" given).getLast?.or previous.displayName
  extraEnv :=
    if Gives given "--env" then (values "--env" given).foldl (assignEnv inherited) []
    else previous.extraEnv
  unsetEnv :=
    if Gives given "--unset-env" then (values "--unset-env" given).foldl addKey []
    else previous.unsetEnv

/-! ### What the loop reads of it -/

@[simp] theorem values_concat (flag : String) (given : List (String × Option String))
    (e : String × Option String) : values flag (given ++ [e]) =
      values flag given ++ (if e.1 = flag then e.2 else none).toList := by
  rw [values, values, List.filterMap_append]
  cases h : if e.1 = flag then e.2 else none <;> simp [h]

@[simp] theorem gives_concat {given : List (String × Option String)} {e : String × Option String}
    {flag : String} : Gives (given ++ [e]) flag ↔ Gives given flag ∨ e.1 = flag := by
  simp [Gives, eq_comm]

/-- The options that the settings are read from. -/
def keptFlags : List String :=
  ["--cwd", "--name", "--no-display-name", "--tag", "--env", "--unset-env"]

/-- What one option does to the settings. -/
inductive Reading (inherited : String → Option String) (o : RunOptions) :
    String × Option String → RunOptions → Prop
  | cwd (dir : String) : Reading inherited o ("--cwd", some dir) { o with cwd := some dir }
  | name (name : String) :
    Reading inherited o ("--name", some name) { o with displayName := some name }
  | noDisplayName (value : Option String) :
    Reading inherited o ("--no-display-name", value) { o with noDisplayName := true }
  | tag {token key value : String} (h : splitAssignment token = some (key, value)) :
    Reading inherited o ("--tag", some token) { o with tags := o.tags.insert key value }
  | env {token : String} {extraEnv : TagMap}
    (h : insertEnvToken inherited o.extraEnv token = .ok extraEnv) :
    Reading inherited o ("--env", some token) { o with extraEnv := extraEnv }
  | unsetEnv (key : String) :
    Reading inherited o ("--unset-env", some key) { o with unsetEnv := addKey o.unsetEnv key }
  | other {flag : String} {value : Option String} {o' : RunOptions} (hflag : flag ∉ keptFlags)
    (cwd : o'.cwd = o.cwd) (displayName : o'.displayName = o.displayName)
    (noDisplayName : o'.noDisplayName = o.noDisplayName) (tags : o'.tags = o.tags)
    (extraEnv : o'.extraEnv = o.extraEnv) (unsetEnv : o'.unsetEnv = o.unsetEnv) :
    Reading inherited o (flag, value) o'

private theorem reading_of_publication {o o' : RunOptions} {flag name : String}
    {slot : RunOptions → Option String} {fill : String → RunOptions → RunOptions}
    {value : Option String} (hfill : ∀ v, Reading inherited o (flag, value) (fill v o))
    (h : publicationOption name slot fill value o = .ok o') :
    Reading inherited o (flag, value) o' := by
  unfold publicationOption at h
  split at h
  · cases h
  · split at h
    · cases h
    · cases h
      exact hfill _

/-- Every option that the loop accepts is read so. -/
theorem reading_of_applyOption {o o' : RunOptions} {e : String × Option String}
    (hvalue : e.1 ∈ valueFlags → e.2.isSome = true) (h : applyOption inherited o e = .ok o') :
    Reading inherited o e o' := by
  obtain ⟨flag, value⟩ := e
  unfold applyOption at h
  dsimp only at hvalue h
  cases hoption : valueOption inherited flag with
  | none =>
    rw [hoption] at h
    obtain rfl := Except.ok.inj h
    have hnot := valueOption_eq_none.1 hoption
    unfold switchOption
    split
    case h_9 => exact .noDisplayName value
    case h_10 =>
      refine .other (fun hmem ↦ ?_) rfl rfl rfl rfl rfl rfl
      simp_all [keptFlags, valueFlags]
    all_goals exact .other (by decide) rfl rfl rfl rfl rfl rfl
  | some option =>
    have hflag : flag ∈ valueFlags := by
      by_contra hnot
      rw [valueOption_eq_none.2 hnot] at hoption
      cases hoption
    obtain ⟨value, rfl⟩ := Option.isSome_iff_exists.1 (hvalue hflag)
    rw [hoption] at h
    clear hvalue hflag
    unfold valueOption at hoption
    split at hoption
    all_goals cases hoption
    case h_2 => cases h; exact .name value
    case h_3 => cases h; exact .cwd value
    case h_6 | h_7 =>
      dsimp only at h
      split at h
      · cases h
      · cases h
        exact .other (by decide) rfl rfl rfl rfl rfl rfl
    case h_10 | h_11 | h_12 =>
      exact reading_of_publication
        (fun _ ↦ .other (by decide) rfl rfl rfl rfl rfl rfl) h
    case h_13 =>
      dsimp only [Option.bind_some] at h
      split at h
      · next htoken =>
        cases h
        exact .tag htoken
      · cases h
    case h_14 =>
      dsimp only [Option.getD_some] at h
      split at h
      · cases h
      · next henv =>
        cases h
        exact .env henv
    case h_15 =>
      dsimp only [Option.getD_some] at h
      split at h
      · cases h
      · cases h
        exact .unsetEnv value
    -- the options that no setting is read from
    all_goals
      cases h
      exact .other (by decide) rfl rfl rfl rfl rfl rfl

private theorem insert_ne_nil (tags : TagMap) (key value : String) :
    tags.insert key value ≠ [] := by
  cases tags with
  | nil => exact List.cons_ne_nil _ _
  | cons p tags =>
    rw [IndexMap.insert]
    split <;> exact List.cons_ne_nil _ _

private theorem insertEnvToken_eq_ok {env env' : TagMap} {token : String}
    (h : insertEnvToken inherited env token = .ok env') :
    env' = assignEnv inherited env token ∧ env' ≠ [] := by
  unfold insertEnvToken at h
  unfold assignEnv
  cases htoken : splitAssignment token with
  | some p =>
    rw [htoken] at h
    dsimp only at h ⊢
    split at h
    · cases h
    · cases h
      exact ⟨rfl, insert_ne_nil _ _ _⟩
  | none =>
    rw [htoken] at h
    dsimp only at h ⊢
    split at h
    · cases h
    · split at h
      · next value hvalue =>
        cases h
        rw [hvalue]
        exact ⟨rfl, insert_ne_nil _ _ _⟩
      · cases h

private theorem addKey_ne_nil (keys : List String) (key : String) : addKey keys key ≠ [] := by
  unfold addKey
  split
  · next h => exact List.ne_nil_of_mem h
  · simp

/-- What has been read is what the options give, and a map or a list has been given exactly when it
is not empty. -/
structure Reads (inherited : String → Option String) (given : List (String × Option String))
    (o : RunOptions) : Prop where
  cwd : o.cwd = (values "--cwd" given).getLast?
  displayName : o.displayName = (values "--name" given).getLast?
  noDisplayName : o.noDisplayName = true ↔ Gives given "--no-display-name"
  tags : o.tags = (values "--tag" given).foldl assign []
  extraEnv : o.extraEnv = (values "--env" given).foldl (assignEnv inherited) []
  unsetEnv : o.unsetEnv = (values "--unset-env" given).foldl addKey []
  cwd_isSome : o.cwd.isSome = true ↔ Gives given "--cwd"
  displayName_isSome : o.displayName.isSome = true ↔ Gives given "--name"
  tags_ne_nil : o.tags ≠ [] ↔ Gives given "--tag"
  extraEnv_ne_nil : o.extraEnv ≠ [] ↔ Gives given "--env"
  unsetEnv_ne_nil : o.unsetEnv ≠ [] ↔ Gives given "--unset-env"

/-- Nothing has been read of no options. -/
theorem reads_nil : Reads inherited [] {} := by
  constructor <;> simp [values, Gives]

/-- One more option is read. -/
theorem Reads.concat {given : List (String × Option String)} {o o' : RunOptions}
    {e : String × Option String} (h : Reads inherited given o) (hread : Reading inherited o e o') :
    Reads inherited (given ++ [e]) o' := by
  obtain ⟨hcwd, hname, hno, htags, henv, hunset, hcwd', hname', htags', henv', hunset'⟩ := h
  cases hread with
  | cwd dir => constructor <;> simp_all
  | name name => constructor <;> simp_all
  | noDisplayName value => constructor <;> simp_all
  | tag htoken => constructor <;> simp_all [assign, insert_ne_nil]
  | env h =>
    obtain ⟨rfl, hne⟩ := insertEnvToken_eq_ok h
    constructor <;> simp_all
  | unsetEnv key => constructor <;> simp_all [addKey_ne_nil]
  | other hflag cwd displayName noDisplayName tags extraEnv unsetEnv =>
    simp only [keptFlags, List.mem_cons, List.not_mem_nil, or_false, not_or] at hflag
    constructor <;> simp_all

/-- A command that the loop comes to has all its options read. -/
theorem reads_of_optionLoop {args command : List String} {o : RunOptions}
    (h : optionLoop inherited {} args = .ok (o, command)) (hcommand : command ≠ []) :
    Reads inherited (commandLine args).1 o ∧ command = (commandLine args).2 := by
  rw [optionLoop_eq] at h
  cases hfold : (commandLine args).1.foldlM (applyOption inherited) {} with
  | error e =>
    rw [hfold] at h
    cases h
  | ok o' =>
    rw [hfold] at h
    obtain ⟨rfl, rfl⟩ := Prod.mk.inj (Except.ok.inj h)
    have hvalued := fun e ↦ isSome_of_mem_commandLine hcommand (e := e)
    have hreads := foldlM_induction
      (P := fun seen o ↦ (∀ e ∈ seen, e.1 ∈ valueFlags → e.2.isSome = true) →
        Reads inherited seen o)
      (fun _ ↦ reads_nil) (fun seen e u v hseen happly hall ↦ ?_) hfold
    · exact ⟨hreads hvalued, rfl⟩
    · exact (hseen fun e he ↦ hall e (List.mem_append_left _ he)).concat
        (reading_of_applyOption (hall e (by simp)) happly)

/-! ### What a recreation is launched with -/

private theorem checkOptions_eq_ok {o : RunOptions} {command args : List String}
    {program : String} {binding : Option PublicationBinding} {operation : Option (Int32 × String)}
    (h : checkOptions o command = .ok ((program, args), binding, operation)) :
    command = program :: args := by
  unfold checkOptions at h
  split at h
  · cases h
  split at h
  · cases h
  split at h
  · cases h
  · rw [bind_eq_ok] at h
    obtain ⟨_, -, h⟩ := h
    rw [bind_eq_ok] at h
    obtain ⟨_, -, h⟩ := h
    cases h
    rfl

private theorem launch_eq_ok {w : RunWorld} {params params' : RunParams}
    (h : launch w params = .ok params') :
    ∃ command, params' = { params with command := command } := by
  rw [launch, bind_eq_ok] at h
  obtain ⟨_, -, h⟩ := h
  rw [bind_eq_ok] at h
  obtain ⟨command, -, h⟩ := h
  rw [bind_eq_ok] at h
  obtain ⟨_, -, h⟩ := h
  rw [bind_eq_ok] at h
  obtain ⟨_, -, h⟩ := h
  rw [bind_eq_ok] at h
  obtain ⟨_, -, h⟩ := h
  cases h
  exact ⟨command, rfl⟩

private theorem createOrAttach_eq_ok {w : RunWorld} {name : String} {params params' : RunParams}
    {explicitCwd detach attachExisting attaches : Bool} {previous : SessionMetadata}
    (h : createOrAttach w name params explicitCwd detach attachExisting =
      .ok ⟨some previous, params', attaches⟩) :
    ∃ command, params' = { carryOver params explicitCwd previous with command := command } := by
  rw [createOrAttach, bind_eq_ok] at h
  obtain ⟨session, -, h⟩ := h
  rw [bind_eq_ok] at h
  obtain ⟨_, -, h⟩ := h
  dsimp only at h
  rw [bind_eq_ok] at h
  obtain ⟨carried, hcarried, h⟩ := h
  rw [bind_eq_ok] at h
  obtain ⟨launched, hlaunched, h⟩ := h
  obtain ⟨hgone, rfl, -⟩ := Created.mk.inj (Except.ok.inj h)
  rw [hgone, recreate] at hcarried
  split at hcarried
  · cases hcarried
  · cases hcarried
    exact launch_eq_ok hlaunched

/-- What a run that takes the place of a session launches. -/
theorem run_eq_ok {w : RunWorld} {args : List String} {previous : SessionMetadata}
    {params : RunParams} {attaches : Bool}
    (h : run w args = .ok ⟨some previous, params, attaches⟩) :
    ∃ o program pargs name binding displayName command,
      optionLoop w.inherited {} args = .ok (o, program :: pargs) ∧
        runDisplayName w.seat o program pargs = .ok displayName ∧
        params = { carryOver (runParams w.seat name o binding displayName program pargs)
          o.cwd.isSome previous with command := command } := by
  rw [run, bind_eq_ok] at h
  obtain ⟨⟨o, command⟩, hloop, h⟩ := h
  rw [mapError_eq_ok] at hloop
  rw [bind_eq_ok] at h
  obtain ⟨⟨⟨program, pargs⟩, binding, operation⟩, hcheck, h⟩ := h
  rw [mapError_eq_ok] at hcheck
  obtain rfl := checkOptions_eq_ok hcheck
  rw [bind_eq_ok] at h
  obtain ⟨_, -, h⟩ := h
  rw [bind_eq_ok] at h
  obtain ⟨_, -, h⟩ := h
  rw [bind_eq_ok] at h
  obtain ⟨displayName, hname, h⟩ := h
  rw [mapError_eq_ok] at hname
  split at h
  · cases h
  · obtain ⟨command, rfl⟩ := createOrAttach_eq_ok h
    exact ⟨o, program, pargs, _, binding, displayName, command, hloop, hname, rfl⟩

/-! ### What is kept -/

/-- The label that a command gets where it is run. -/
def label (seat : Restart.Seat) (command : List String) : Option String :=
  (command.head?.map fun program ↦ autoName seat program command.tail).filter (· ≠ "")

/-- Nothing of a stopped session is lost: the directory is given or recorded, `--no-display-name`
finds no name, and without a name on the command line the recorded one is the label. -/
structure NothingLost (seat : Restart.Seat) (args : List String) (previous : Settings) : Prop where
  cwd : Gives (commandLine args).1 "--cwd" ∨ previous.cwd ≠ "" ∨ seat.currentDir = ""
  unnamed : Gives (commandLine args).1 "--no-display-name" → previous.displayName = none
  named : ¬Gives (commandLine args).1 "--no-display-name" → ¬Gives (commandLine args).1 "--name" →
    previous.displayName = label seat (commandLine args).2

private theorem cwd_iff {given : Option String} {G : Prop} (h : given.isSome = true ↔ G)
    (here previous : String) :
    (if !given.isSome && decide (previous ≠ "") then previous else given.getD here) =
        given.getD previous ↔ G ∨ previous ≠ "" ∨ here = "" := by
  rw [← h]
  cases given with
  | some dir => simp
  | none => by_cases hp : previous = "" <;> simp [hp]

/-- A map or a list that is not given is the previous session's. -/
private theorem kept_eq {α : Type} {given : List α} {previous : Option (List α)} {G : Prop}
    [Decidable G] [Decidable (given = [])] (h : given ≠ [] ↔ G) :
    (if given = [] then previous.getD given else given) =
      if G then given else previous.getD [] := by
  by_cases hg : given = []
  · rw [if_pos hg, if_neg fun hG ↦ h.2 hG hg, hg]
  · rw [if_neg hg, if_pos (h.1 hg)]

/-- A display name on the command line stays, and the others are to be the previous session's. -/
private theorem displayName_iff {seat : Restart.Seat} {o : RunOptions} {program : String}
    {pargs : List String} {displayName : Option String} {G N : Prop} [Decidable G]
    (hG : o.noDisplayName = true ↔ G) (hN : o.displayName.isSome = true ↔ N)
    (h : runDisplayName seat o program pargs = .ok displayName) (previous : Option String) :
    (displayName.or previous).filter (· ≠ "") =
        (if G then none else o.displayName.or (previous.filter (· ≠ ""))) ↔
      (G → previous.filter (· ≠ "") = none) ∧
        (¬G → ¬N → previous.filter (· ≠ "") = label seat (program :: pargs)) := by
  unfold runDisplayName at h
  split at h
  · next hno =>
    obtain rfl := Except.ok.inj h
    simp [hG.1 hno]
  · next hno =>
    have hnot : ¬G := fun hg ↦ hno (hG.2 hg)
    split at h
    · next explicit hexplicit =>
      split at h
      · cases h
      · next hvalid =>
        obtain rfl := Except.ok.inj h
        have hne : explicit ≠ "" := by
          rintro rfl
          cases hvalid
        have hgiven : N := hN.1 (by rw [hexplicit]; rfl)
        simp [hnot, hexplicit, hne, hgiven]
    · next hnone =>
      obtain rfl := Except.ok.inj h
      have hnotGiven : ¬N := fun hn ↦ by simpa [hnone] using hN.2 hn
      simp [hnot, hnone, hnotGiven, label, eq_comm]

/-- A stopped session that was renamed. -/
def renamed : SessionMetadata :=
  (SessionMetadata.fromMap
    [("cwd", .string "/srv"), ("displayName", .string "API")]).get (by decide)

/-- A world where that session is called `web`, and every step succeeds. -/
def calmWorld : RunWorld where
  seat := ⟨(24, 80), "/tmp"⟩
  ptySession := none
  inherited _ := none
  generatedId := "fresh"
  site :=
    { hash := id, uid := 0, isTime := fun _ ↦ true, debug := fun _ ↦ "",
      host := ⟨fun _ ↦ [], 107, fun _ ↦ false, []⟩, root := "/r".toList, path := "/r".toList,
      device := 0, inode := 0 }
  inUse _ := false
  sessionByName _ := none
  sessionByReference _ := none
  delegatedOwner := false
  eventLock := .ok ()
  creationLock := .ok ()
  found := none
  foundLocked := some ⟨"web".toList, "/r/web.sock".toList, none, .exited, .gone, some renamed⟩
  identity _ := .gone
  checkPublication _ := .ok ()
  resolveCommand command := .ok command
  prepareDaemon _ := .ok ()
  delegate := .ok ()
  spawn _ := .ok ()

end PtySpec.Cli.Run
