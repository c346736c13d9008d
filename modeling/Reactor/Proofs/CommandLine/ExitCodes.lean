import Reactor.CommandLine.Run
import Reactor.Proofs.Json.Fields
import Reactor.Proofs.Tree.Deadline
import Reactor.Proofs.Tree.Traversals

/-!
# Exit codes and error output

A command that prints a whole tree tells of everything that failed. If there is no tree, its only
output is the failure. Otherwise it prints the tree, and the exit code and the error output depend
on the failed modules only, not on what the command prints.
-/

namespace Reactor.CommandLine

variable {env env' : Environment} {arguments arguments' : List String} {options : Options}
  {command : Command} {config : Config} {tree : ProjectTree} {failure : Failure}

/-! ## Runs of a command -/

theorem deadline_of_withVersionFile {fs : FileSystem} {path : String} {versioned : Config}
    (h : config.withVersionFile fs path = .ok versioned) : versioned.deadline = config.deadline := by
  unfold Config.withVersionFile at h
  split at h
  · cases h
  · dsimp only at h
    split at h
    · cases h
    · obtain rfl := Except.ok.inj h
      rfl

theorem deadline_foldl_withGlobal (defines : List (String × String)) (config : Config) :
    (defines.foldl (fun config (key, value) ↦ config.withGlobal key value) config).deadline =
      config.deadline := by
  induction defines generalizing config with
  | nil => rfl
  | cons entry rest ih => exact ih (config.withGlobal entry.1 entry.2)

/-- The settings take the deadline from the options. -/
theorem deadline_of_configOf {fs : FileSystem} (h : configOf fs options = .ok config) :
    config.deadline = options.timeout := by
  unfold configOf at h
  cases hfile : options.versionFile with
  | none =>
    simp only [hfile] at h
    obtain rfl := Except.ok.inj h
    exact deadline_foldl_withGlobal options.defines _
  | some path =>
    simp only [hfile] at h
    obtain ⟨versioned, hversioned, h⟩ := bind_eq_ok.1 h
    obtain rfl := Except.ok.inj h
    calc
      (options.defines.foldl _ versioned).deadline = versioned.deadline :=
        deadline_foldl_withGlobal options.defines versioned
      _ = options.timeout := deadline_of_withVersionFile (mapError_eq_ok.1 hversioned)

def Environment.engine (env : Environment) (config : Config) : Engine :=
  ⟨env.formats, .relativePath, config⟩

def Command.path : Command → String
  | .resolve path _ => path
  | .order path _ => path
  | .effective path _ => path

def treeText (tree : ProjectTree) (elapsed : Nanoseconds) : OutputFormat → String
  | .text => String.join ((tree.encounters.flatMap ProjectTree.Encounter.lines ++
      ["", "✓ Resolved " ++ tree.project.id, s!"  Projects: {tree.walk.length}",
        s!"  Failed: {tree.failureList.length}", "  Elapsed: " ++ elapsedText elapsed]).map
          (· ++ "\n"))
  | .json => tree.toJson.pretty ++ "\n"

def orderText (tree : ProjectTree) : OutputFormat → String
  | .text => String.join (tree.walk.mapIdx fun index subtree ↦
      String.ofList ((toString (index + 1)).toList.leftpad 3 ' ') ++ ". " ++ subtree.project.id ++
        " → " ++ subtree.project.baseDir ++ "\n")
  | .json => (Json.array (tree.walk.map fun subtree ↦
      .object [("fingerprint", .string subtree.fingerprint), ("id", .string subtree.project.id),
        ("path", .string (" > ".intercalate subtree.path.segments))])).pretty ++ "\n"

theorem sortKeys_orderJson (tree : ProjectTree) :
    (orderJson tree).sortKeys = .array (tree.walk.map fun subtree ↦
      .object [("fingerprint", .string subtree.fingerprint), ("id", .string subtree.project.id),
        ("path", .string subtree.path.text)]) := by
  have hfirst : "fingerprint" < "id" ∧ "fingerprint" < "path" := by decide
  have hlast : ¬"id" < "fingerprint" ∧ "id" < "path" := by decide
  have hempty : (∅ : SortedMap Json).entries = [] := rfl
  rw [orderJson, Json.sortKeys, Json.sortItems_eq_map, List.map_map]
  congr 1
  apply List.map_congr_left
  intro subtree _
  simp [Json.sortEntries, Json.sortKeys, SortedMap.ofList, SortedMap.insert, hempty,
    SortedMap.insertEntry, hfirst, hlast]

theorem resolveText_eq (tree : ProjectTree) (elapsed : Nanoseconds) (format : OutputFormat) :
    (match format with
      | .text => treeReport tree elapsed
      | .json => jsonText tree.toJson) = treeText tree elapsed format := by
  cases format with
  | text => exact tree.treeReport_eq elapsed
  | json => rfl

theorem orderText_eq (tree : ProjectTree) (format : OutputFormat) :
    (match format with
      | .text => orderReport tree
      | .json => jsonText (orderJson tree).sortKeys) = orderText tree format := by
  cases format with
  | text => exact orderReport_eq tree
  | json =>
    rw [sortKeys_orderJson]
    rfl

/-- What a command leaves behind once it has a tree. -/
def Command.outcome (elapsed : Nanoseconds) (tree : ProjectTree) : Command → Outcome
  | .resolve _ format => .ofTree tree (treeText tree elapsed format)
  | .order _ format => .ofTree tree (orderText tree format)
  | .effective _ query => showModule tree query

def Command.outcomeOf (command : Command) (elapsed : Nanoseconds) :
    Except Failure ProjectTree → Outcome
  | .ok tree => command.outcome elapsed tree
  | .error failure => .failure (s!"Failed to resolve {command.path}: " ++ failure.chainMessage)

/-- A run on valid options depends on how the tree comes out, and on the time that it took. -/
theorem run_eq (hrequest : request? arguments = some (.run options command))
    (hconfig : configOf env.fs options = .ok config) :
    run env arguments = command.outcomeOf env.elapsed
      ((env.engine config).resolveTree env.fs env.clock command.path) := by
  cases command <;> simp only [run, hrequest, execute, hconfig, treeOf, Environment.engine,
    Command.path, bind, Except.bind]
  all_goals
    generalize Engine.resolveTree _ _ _ _ = result
    cases result
  case resolve.ok =>
    rw [Command.outcomeOf, Command.outcome, ← resolveText_eq]
    rfl
  case order.ok =>
    rw [Command.outcomeOf, Command.outcome, ← orderText_eq]
    rfl
  all_goals rfl

theorem run_of_ok (hrequest : request? arguments = some (.run options command))
    (hconfig : configOf env.fs options = .ok config)
    (htree : (env.engine config).resolveTree env.fs env.clock command.path = .ok tree) :
    run env arguments = command.outcome env.elapsed tree := by
  rw [run_eq hrequest hconfig, htree, Command.outcomeOf]

/-- Without a timeout, two runs on the same files see the same tree at the same path. -/
theorem run_eq_of_same (hfs : env'.fs = env.fs) (hformats : env'.formats = env.formats)
    (hrequest : request? arguments = some (.run options command))
    (htimeout : options.timeout = none) (hconfig : configOf env.fs options = .ok config) :
    run env' arguments = command.outcomeOf env'.elapsed
      ((env.engine config).resolveTree env.fs env.clock command.path) := by
  have hdeadline : config.deadline = none := (deadline_of_configOf hconfig).trans htimeout
  have hengine : env'.engine config = env.engine config := by
    rw [Environment.engine, hformats, Environment.engine]
  calc
    run env' arguments = command.outcomeOf env'.elapsed
        ((env'.engine config).resolveTree env'.fs env'.clock command.path) :=
      run_eq hrequest (hfs ▸ hconfig)
    _ = command.outcomeOf env'.elapsed
        ((env.engine config).resolveTree env.fs env'.clock command.path) := by
      rw [hengine, hfs]
    _ = command.outcomeOf env'.elapsed
        ((env.engine config).resolveTree env.fs env.clock command.path) := by
      rw [Engine.resolveTree_congr hdeadline env.fs env'.clock env.clock]

/-! ## What is told of failures -/

theorem Outcome.ofTree_of_clean (h : tree.failureList = []) (stdout : String) :
    ofTree tree stdout = .success stdout := by
  rw [ofTree, h]
  rfl

/-- What is told of the modules that failed: a warning for each, and how many they are. -/
theorem Outcome.ofTree_of_failed (h : tree.failureList ≠ []) (stdout : String) :
    ofTree tree stdout = ⟨1, stdout,
      String.join (tree.failureList.map fun failed ↦
        "⚠ " ++ " > ".intercalate failed.path.segments ++ ": " ++
          failed.failure.rootCause.message ++ "\n") ++
      s!"✗ {tree.failureList.length} module(s) failed to resolve\n"⟩ := by
  have hnonempty : tree.failureList.isEmpty = false := by simpa using h
  have hwarnings : tree.failureList.map warningLine = _ :=
    List.map_congr_left fun failed _ ↦ warningLine_eq failed
  have hcount : errorLine s!"{tree.failureList.length} module(s) failed to resolve" =
      s!"✗ {tree.failureList.length} module(s) failed to resolve\n" := by
    rw [errorLine_eq, String.append_assoc, String.append_assoc]
    rfl
  rw [ofTree]
  simp only [hnonempty, Bool.false_eq_true, if_false, hwarnings, hcount]

/-- What is printed of a tree has no influence on what is told of its failures. -/
theorem Outcome.ofTree_eq (tree : ProjectTree) (stdout : String) :
    ofTree tree stdout = ⟨(ofTree tree "").code, stdout, (ofTree tree "").stderr⟩ := by
  by_cases h : tree.failureList = []
  · rw [ofTree_of_clean h, ofTree_of_clean h]
    rfl
  · rw [ofTree_of_failed h, ofTree_of_failed h]

theorem Outcome.stdout_ofTree (tree : ProjectTree) (stdout : String) :
    (ofTree tree stdout).stdout = stdout := by
  rw [ofTree_eq]

theorem Outcome.code_ofTree_eq_zero_iff (stdout : String) :
    (ofTree tree stdout).code = 0 ↔ tree.failureList = [] := by
  by_cases h : tree.failureList = []
  · rw [ofTree_of_clean h]
    exact iff_of_true rfl h
  · rw [ofTree_of_failed h]
    exact iff_of_false Nat.one_ne_zero h

open ProjectTree (FailedAt enumerates_failureList)

/-- Without a timeout, `resolve` and `order` have the same exit code and error output on the same
files. They succeed silently if and only if there is a tree in which no module fails. Otherwise they
tell why there is no tree, or they print the tree in full, warn of each failed module in depth-first
order, each on a line of its own, and count these lines. -/
theorem run_tells_of_failures {path : String} {format format' : OutputFormat}
    (hfs : env'.fs = env.fs) (hformats : env'.formats = env.formats)
    (hresolve : request? arguments = some (.run options (.resolve path format)))
    (horder : request? arguments' = some (.run options (.order path format')))
    (htimeout : options.timeout = none) (hconfig : configOf env.fs options = .ok config) :
    let result := (env.engine config).resolveTree env.fs env.clock path
    let resolved := run env arguments
    let ordered := run env' arguments'
    (resolved.code = ordered.code ∧ resolved.stderr = ordered.stderr) ∧
      (resolved.code = 0 ↔
        ∃ tree, result = .ok tree ∧ ∀ place failed, ¬FailedAt tree.modules place failed) ∧
      (resolved.code = 0 → resolved.stderr = "") ∧
      (∀ failure, result = .error failure →
        resolved.code = 1 ∧
          resolved.stderr = s!"✗ Failed to resolve {path}: {failure.chainMessage}\n") ∧
      (∀ tree, result = .ok tree →
        resolved.stdout = treeText tree env.elapsed format ∧
          ordered.stdout = orderText tree format' ∧
          ((∃ place failed, FailedAt tree.modules place failed) →
            resolved.code = 1 ∧ ∃ failures, Enumerates (FailedAt tree.modules) failures ∧
              resolved.stderr =
                String.join (failures.map fun failed ↦
                  "⚠ " ++ " > ".intercalate failed.path.segments ++ ": " ++
                    failed.failure.rootCause.message ++ "\n") ++
                s!"✗ {failures.length} module(s) failed to resolve\n")) := by
  intro result resolved ordered
  have hresolved : resolved = Command.outcomeOf (.resolve path format) env.elapsed result :=
    run_eq hresolve hconfig
  have hordered : ordered = Command.outcomeOf (.order path format') env'.elapsed result :=
    run_eq_of_same hfs hformats horder htimeout hconfig
  rw [hresolved, hordered]
  cases hresult : result with
  | error failure =>
    refine ⟨⟨rfl, rfl⟩, ?_, ?_, ?_, ?_⟩
    · simp [Command.outcomeOf, Outcome.failure]
    · simp [Command.outcomeOf, Outcome.failure]
    · rintro _ ⟨⟩
      exact ⟨rfl, errorLine_eq _⟩
    · rintro tree ⟨⟩
  | ok tree =>
    have hall := enumerates_failureList tree
    have hprinted : Command.outcomeOf (.resolve path format) env.elapsed (.ok tree) = _ :=
      Outcome.ofTree_eq tree (treeText tree env.elapsed format)
    have hprinted' : Command.outcomeOf (.order path format') env'.elapsed (.ok tree) = _ :=
      Outcome.ofTree_eq tree (orderText tree format')
    rw [hprinted, hprinted']
    refine ⟨⟨rfl, rfl⟩, ?_, ?_, ?_, ?_⟩
    · rw [Outcome.code_ofTree_eq_zero_iff, hall.eq_nil_iff]
      simp
    · rw [Outcome.code_ofTree_eq_zero_iff]
      intro hclean
      rw [Outcome.ofTree_of_clean hclean]
      rfl
    · rintro failure ⟨⟩
    · rintro _ ⟨⟩
      refine ⟨rfl, rfl, ?_⟩
      rintro ⟨place, failed, hfailed⟩
      have hfailures : tree.failureList ≠ [] := fun hclean ↦
        hall.eq_nil_iff.1 hclean place failed hfailed
      rw [Outcome.ofTree_of_failed hfailures]
      exact ⟨rfl, tree.failureList, hall, rfl⟩

/-! ## A workspace in which a module is missing -/

open Engine (twoFiles lowerFile upperFile upperProject lowerProject)

/-- A format for two files of which the upper one lists a module without a file before the lower
one. -/
def gapFormat : Format where
  name := "gap"
  extensions := ["json"]
  read := fun _ path _ ↦ .ok (.mapping
    (if path = "/a.json" then
      [("artifactId", .string "a"), ("packaging", .string "pom"),
        ("modules", .sequence [.string "gone", .string "b.json"])]
    else
      [("artifactId", .string "b"), ("parent", .mapping [("artifactId", .string "a"),
        ("relativePath", .string "a.json")])]))

/-- Runs in this workspace that take a given time. -/
def gapEnvironment (elapsed : Nanoseconds) : Environment :=
  ⟨twoFiles, [gapFormat], fun _ _ ↦ elapsed, elapsed⟩

def gapEngine : Engine :=
  ⟨[gapFormat], .relativePath, .ofMode .collectAll⟩

def gapFile : Descriptor :=
  { upperFile with modules := ["gone", "b.json"] }

def gapProject : Project :=
  { upperProject with declared := gapFile, modules := ["gone", "b.json"] }

def presentProject : Project :=
  { lowerProject with ancestors := [gapProject] }

def presentTree : ProjectTree :=
  .ofProject ⟨["a", "b.json"]⟩ presentProject []

def goneFailure : Failure :=
  .module ⟨["a", "gone"]⟩ (.notFound "/gone")

def gapTree : ProjectTree :=
  .ofProject (.root "a") gapProject [.failed "gone" ⟨["a", "gone"]⟩ goneFailure,
    .resolved presentTree]

theorem load_gap : gapEngine.load twoFiles "/a.json" = .ok gapFile ∧
    gapEngine.load twoFiles "/b.json" = .ok lowerFile :=
  Engine.load_twoFiles gapEngine

def inGap (clock : Clock) : Aggregation :=
  ⟨twoFiles, gapEngine.loader, gapEngine.config, clock⟩

theorem entries_gap (clock : Clock) :
    (inGap clock).entries [⟨"/a.json", "a"⟩] (.root "a") gapProject 0 [] ["gone", "b.json"] =
      .ok gapTree.modules := by
  have hbaseDir : gapProject.baseDir = "/" := rfl
  have hgone : (inGap clock).turn [⟨"/a.json", "a"⟩] gapProject [] "gone" =
      .failed (.notFound "/gone") := Aggregation.turn_of_missing Aggregation.resolve?_gone
  have hpresent : (inGap clock).turn [⟨"/a.json", "a"⟩] gapProject [] "b.json" =
      .resolved "/b.json" presentProject := Engine.turn_lower hbaseDir load_gap.2 rfl clock
  have hrest : (inGap clock).entries [⟨"/a.json", "a"⟩] (.root "a") gapProject 1 [] ["b.json"] =
      .ok [.resolved presentTree] :=
    Aggregation.entries_cons_of_leaf rfl hpresent rfl rfl (Aggregation.entries_nil _ _ _ _ _ _)
  exact Aggregation.entries_cons_of_failed rfl rfl hgone hrest

theorem resolveTree_gap (clock : Clock) :
    gapEngine.resolveTree twoFiles clock "/a.json" = .ok gapTree := by
  have hresolve : gapEngine.resolve gapFile none = .ok gapProject := rfl
  rw [Engine.resolveTree_of_orphan load_gap.1 rfl hresolve]
  exact Engine.aggregate_of_entries Engine.canonical_twoFiles.1 (entries_gap clock)

theorem resolveTree_gone (clock : Clock) :
    gapEngine.resolveTree twoFiles clock "/gone" = .error (.notFound "/gone") := by
  rw [Engine.resolveTree, Engine.load, Loader.load_of_missing Aggregation.resolve?_gone]
  rfl

def noOptions : Options :=
  ⟨0, false, false, none, [], none⟩

theorem configOf_noOptions (fs : FileSystem) :
    configOf fs noOptions = .ok (.ofMode .collectAll) :=
  rfl

/-- The start of a fingerprint that is shown on the lines of a project. -/
def shownOf (project : Project) : String :=
  String.ofList (project.fingerprint.toList.take 12)

theorem encounters_gapTree : gapTree.encounters =
    [.resolved gapTree, .failed 1 "gone" ⟨⟨["a", "gone"]⟩, goneFailure⟩,
      .resolved presentTree] := by
  have hmodules : gapTree.modules =
      [.failed "gone" ⟨["a", "gone"]⟩ goneFailure, .resolved presentTree] := rfl
  have hleaf : presentTree.encounters = [.resolved presentTree] := by
    rw [ProjectTree.encounters_eq, show presentTree.modules = [] from rfl,
      ProjectTree.encountersOfEntries]
  rw [ProjectTree.encounters_eq, hmodules, ProjectTree.encountersOfEntries,
    ProjectTree.encountersOfEntries, hleaf, ProjectTree.encountersOfEntries]
  rfl

theorem walk_gapTree : gapTree.walk = [gapTree, presentTree] := by
  rw [ProjectTree.walk_eq_filterMap_encounters, encounters_gapTree]
  rfl

theorem treeText_gap : treeText gapTree 1 .text =
    String.join ["✓ a (pom) " ++ shownOf gapProject ++ "\n",
      "  ✗ gone: descriptor not found: /gone\n",
      "  ✓ b (jar) " ++ shownOf presentProject ++ "\n", "\n", "✓ Resolved a\n",
      "  Projects: 2\n", "  Failed: 1\n", "  Elapsed: 0s\n"] := by
  have hblocks : gapTree.encounters.flatMap ProjectTree.Encounter.lines =
      ["✓ a (pom) " ++ shownOf gapProject, "  ✗ gone: descriptor not found: /gone",
        "  ✓ b (jar) " ++ shownOf presentProject] := by
    rw [encounters_gapTree]
    rfl
  have hprojects : s!"  Projects: {gapTree.walk.length}" = "  Projects: 2" := by
    rw [walk_gapTree]
    decide +kernel
  have hfailed : s!"  Failed: {gapTree.failureList.length}" = "  Failed: 1" := by decide +kernel
  have helapsed : elapsedText 1 = "0s" := by decide +kernel
  have hroot : gapTree.project.id = "a" := by decide +kernel
  rw [treeText, hblocks, hprojects, hfailed, helapsed, hroot]
  rfl

/-- How the build order tells of one project. -/
def entryText (fingerprint id path : String) : String :=
  "  \x7b\n    " ++ ("\"fingerprint\"" ++ ": " ++ fingerprint) ++ ",\n    " ++
    ("\"id\"" ++ ": " ++ id) ++ ",\n    " ++ ("\"path\"" ++ ": " ++ path) ++ "\n  \x7d"

theorem bracketed_triple (first second third : String) :
    "  " ++ Json.bracketed 1 "\x7b" "\x7d" [first, second, third] =
      "  \x7b\n    " ++ first ++ ",\n    " ++ second ++ ",\n    " ++ third ++ "\n  \x7d" := by
  apply String.toList_inj.1
  simp [Json.bracketed, Json.indentation]

theorem prettyAt_entry (fingerprint id path : String) :
    "  " ++ Json.prettyAt 1 (.object [("fingerprint", .string fingerprint), ("id", .string id),
        ("path", .string path)]) =
      entryText (Json.stringText fingerprint) (Json.stringText id) (Json.stringText path) := by
  have hkeys : Json.stringText "fingerprint" = "\"fingerprint\"" ∧
      Json.stringText "id" = "\"id\"" ∧ Json.stringText "path" = "\"path\"" := by
    decide +kernel
  simp only [Json.prettyAt, Json.prettyEntries, hkeys]
  exact bracketed_triple _ _ _

theorem pretty_pair (first second : Json) :
    (Json.array [first, second]).pretty = "[\n" ++ ("  " ++ Json.prettyAt 1 first) ++ ",\n" ++
      ("  " ++ Json.prettyAt 1 second) ++ "\n]" := by
  have hlines : Json.prettyItems 1 [first, second] =
      [Json.prettyAt 1 first, Json.prettyAt 1 second] := by
    rw [Json.prettyItems, Json.prettyItems, Json.prettyItems]
  rw [Json.pretty, Json.prettyAt, hlines]
  generalize Json.prettyAt 1 first = text
  generalize Json.prettyAt 1 second = text'
  apply String.toList_inj.1
  simp [Json.bracketed, Json.indentation]

theorem orderText_gap : orderText gapTree .json =
    "[\n" ++ entryText (Json.stringText gapProject.fingerprint) "\"a\"" "\"a\"" ++ ",\n" ++
      entryText (Json.stringText presentProject.fingerprint) "\"b\"" "\"a > b.json\"" ++
      "\n]\n" := by
  have hroot : Json.stringText gapTree.project.id = "\"a\"" ∧
      Json.stringText (" > ".intercalate gapTree.path.segments) = "\"a\"" := by
    decide +kernel
  have hpresent : Json.stringText presentTree.project.id = "\"b\"" ∧
      Json.stringText (" > ".intercalate presentTree.path.segments) = "\"a > b.json\"" := by
    decide +kernel
  rw [orderText, walk_gapTree, List.map_cons, List.map_cons, List.map_nil, pretty_pair,
    prettyAt_entry, prettyAt_entry]
  simp only [hroot, hpresent]
  exact String.append_assoc

theorem run_gap :
    request? ["resolve", "/a.json"] = some (.run noOptions (.resolve "/a.json" .text)) ∧
      request? ["order", "--format", "json", "/a.json"] =
        some (.run noOptions (.order "/a.json" .json)) ∧
      gapEngine.resolveTree twoFiles (fun _ _ ↦ 1) "/a.json" = .ok gapTree ∧
      FailedAt gapTree.modules [0] ⟨⟨["a", "gone"]⟩, goneFailure⟩ ∧
      run (gapEnvironment 1) ["resolve", "/a.json"] = ⟨1,
        String.join ["✓ a (pom) " ++ shownOf gapProject ++ "\n",
          "  ✗ gone: descriptor not found: /gone\n",
          "  ✓ b (jar) " ++ shownOf presentProject ++ "\n", "\n", "✓ Resolved a\n",
          "  Projects: 2\n", "  Failed: 1\n", "  Elapsed: 0s\n"],
        "⚠ a > gone: descriptor not found: /gone\n✗ 1 module(s) failed to resolve\n"⟩ ∧
      run (gapEnvironment 2) ["order", "--format", "json", "/a.json"] = ⟨1,
        "[\n" ++ entryText (Json.stringText gapProject.fingerprint) "\"a\"" "\"a\"" ++ ",\n" ++
          entryText (Json.stringText presentProject.fingerprint) "\"b\"" "\"a > b.json\"" ++
          "\n]\n",
        "⚠ a > gone: descriptor not found: /gone\n✗ 1 module(s) failed to resolve\n"⟩ ∧
      (run (gapEnvironment 1) ["resolve", "/gone"]).stderr =
        "✗ Failed to resolve /gone: descriptor not found: /gone\n" := by
  have hresolve : request? ["resolve", "/a.json"] =
      some (.run noOptions (.resolve "/a.json" .text)) := rfl
  have horder : request? ["order", "--format", "json", "/a.json"] =
      some (.run noOptions (.order "/a.json" .json)) := rfl
  have htree := resolveTree_gap fun _ _ ↦ 1
  have hfailed : FailedAt gapTree.modules [0] ⟨⟨["a", "gone"]⟩, goneFailure⟩ := ⟨"gone", rfl⟩
  obtain ⟨⟨hcode, hsame⟩, -, -, -, hall⟩ := @run_tells_of_failures (gapEnvironment 1)
    (gapEnvironment 2) _ _ _ _ _ _ _ rfl rfl hresolve horder rfl (configOf_noOptions _)
  obtain ⟨hstdout, hstdout', hfailures⟩ := hall gapTree htree
  obtain ⟨hone, failures, henumerates, hstderr⟩ := hfailures ⟨[0], _, hfailed⟩
  obtain rfl := henumerates.unique (ProjectTree.enumerates_failureList gapTree)
  obtain ⟨-, -, -, herror, -⟩ := @run_tells_of_failures (gapEnvironment 1)
    (gapEnvironment 2) ["resolve", "/gone"] ["order", "/gone"] _ _ "/gone" .text .text rfl rfl rfl
    rfl rfl (configOf_noOptions _)
  refine ⟨hresolve, horder, htree, hfailed, ?_, ?_, ?_⟩
  · rw [Outcome.ext_iff]
    exact ⟨hone, hstdout.trans treeText_gap, hstderr.trans (by decide +kernel)⟩
  · rw [Outcome.ext_iff]
    exact ⟨hcode.symm.trans hone, hstdout'.trans orderText_gap,
      hsame.symm.trans (hstderr.trans (by decide +kernel))⟩
  · exact (herror _ (resolveTree_gone _)).2.trans (by decide +kernel)

end Reactor.CommandLine
