import Mathlib.Data.List.Basic
import Reactor.CommandLine.Report

/-!
# The lines of reports

What reports say, spelled out: the marks, blanks and separators of each line, and the order of the
lines on a project. The printers share their margins and marks, so a line is said here once in full.
-/

namespace Reactor.CommandLine

/-- The lines below the head of a project that many levels below the root: its effective properties,
and then its effective plugins, each with its options. -/
def detailLines (depth : Nat) (project : Project) : List String :=
  project.effectiveProperties.entries.map (fun (name, value) ↦
    String.ofList (List.replicate (2 * depth + 4) ' ') ++ name ++ " = " ++ value) ++
  project.effectivePlugins.flatMap fun plugin ↦
    (String.ofList (List.replicate (2 * depth + 4) ' ') ++ "plugin " ++ plugin.id ++
      (if plugin.isSkipped then " (skipped)" else "")) ::
    plugin.options.entries.map fun (key, value) ↦
      String.ofList (List.replicate (2 * depth + 6) ' ') ++ key ++ ": " ++ value.display

theorem margin_append_blanks (depth count : Nat) :
    margin depth ++ String.ofList (List.replicate count ' ') =
      String.ofList (List.replicate (2 * depth + count) ' ') := by
  rw [margin, ← String.ofList_append, List.replicate_append_replicate]

theorem pluginLines_eq (depth : Nat) (plugin : PluginConfig) :
    pluginLines (margin depth) plugin =
      (String.ofList (List.replicate (2 * depth + 4) ' ') ++ "plugin " ++ plugin.id ++
        (if plugin.isSkipped then " (skipped)" else "")) ::
          plugin.options.entries.map fun (key, value) ↦
            String.ofList (List.replicate (2 * depth + 6) ' ') ++ key ++ ": " ++ value.display := by
  rw [← margin_append_blanks, ← margin_append_blanks, pluginLines, pluginLabel]
  simp only [← String.append_assoc]
  rfl

/-- The lines on a project: its coordinates, its packaging and the start of its fingerprint, and
then its configuration. -/
theorem projectLines_eq (depth : Nat) (project : Project) (fingerprint : String) :
    projectLines depth project fingerprint =
      (String.ofList (List.replicate (2 * depth) ' ') ++ "✓ " ++ project.id ++ " (" ++
        project.packaging.name ++ ") " ++ String.ofList (fingerprint.toList.take 12)) ::
          detailLines depth project := by
  have hplugins : project.effectivePlugins.flatMap (pluginLines (margin depth)) = _ :=
    List.flatMap_congr fun plugin _ ↦ pluginLines_eq depth plugin
  have hmark : margin depth ++ successMark ++ " " = margin depth ++ "✓ " := String.append_assoc
  rw [projectLines, hplugins, hmark, detailLines, ← margin_append_blanks]
  rfl

theorem failedLine_eq (depth : Nat) (name : String) (failure : Failure) :
    failedLine depth name failure = String.ofList (List.replicate (2 * depth) ' ') ++ "✗ " ++ name ++
      ": " ++ failure.rootCause.message := by
  have hmark : margin depth ++ failureMark ++ " " = margin depth ++ "✗ " := String.append_assoc
  rw [failedLine, hmark, margin]

theorem warningLine_eq (entry : ModuleFailure) :
    warningLine entry = "⚠ " ++ " > ".intercalate entry.path.segments ++ ": " ++
      entry.failure.rootCause.message ++ "\n" :=
  rfl

theorem errorLine_eq (message : String) : errorLine message = "✗ " ++ message ++ "\n" :=
  rfl

theorem unlines_eq (lines : List String) : unlines lines = String.join (lines.map (· ++ "\n")) :=
  rfl

/-- A number is written with as many blanks in front as make it three characters wide. -/
theorem alignedNumber_eq (n : Nat) :
    alignedNumber n = String.ofList ((toString n).toList.leftpad 3 ' ') := by
  rw [alignedNumber, List.leftpad, String.ofList_append, String.ofList_toList]
  rfl

theorem unlines_orderLines (n : Nat) (trees : List ProjectTree) :
    unlines (orderLines n trees) = String.join (trees.mapIdx fun index tree ↦
      String.ofList ((toString (n + index)).toList.leftpad 3 ' ') ++ ". " ++ tree.project.id ++
        " → " ++ tree.project.baseDir ++ "\n") := by
  induction trees generalizing n with
  | nil => rfl
  | cons tree rest ih =>
    have hindices : ∀ index, n + 1 + index = n + (index + 1) := by omega
    rw [orderLines, unlines_eq, List.map_cons, String.join_cons, ← unlines_eq, ih,
      List.mapIdx_cons, String.join_cons, alignedNumber_eq]
    simp only [hindices, Nat.add_zero]

/-- The report of the build order numbers the projects from one on. -/
theorem orderReport_eq (tree : ProjectTree) :
    orderReport tree = String.join (tree.walk.mapIdx fun index subtree ↦
      String.ofList ((toString (index + 1)).toList.leftpad 3 ' ') ++ ". " ++ subtree.project.id ++
        " → " ++ subtree.project.baseDir ++ "\n") := by
  rw [orderReport, unlines_orderLines]
  simp only [Nat.add_comm 1]

end Reactor.CommandLine
