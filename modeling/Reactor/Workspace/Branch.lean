import Reactor.Workspace.FileSystem

/-!
# Files still to be visited

A search that never visits a regular file twice on one branch ends, because a file system holds
finitely many of them. What decreases along the branch is the number of files not yet on it.
-/

namespace Reactor

/-- A descriptor file on a branch, and the project it describes. -/
structure Visit where
  location : String
  artifactId : String
  deriving DecidableEq, Repr

namespace FileSystem

/-- Whether a location is on a branch. Locations are canonical paths or normal forms, so those with
the same steps are the same text. -/
def onBranch (branch : List Visit) (location : String) : Bool :=
  branch.any (·.location = location)

/-- How many regular files are not on a branch. -/
def unvisited (fs : FileSystem) (branch : List Visit) : Nat :=
  (fs.files.filter fun file ↦ ¬onBranch branch file).length

theorem unvisited_append_lt {fs : FileSystem} {branch : List Visit} {visit : Visit}
    (hfile : visit.location ∈ fs.files) (hnew : onBranch branch visit.location = false) :
    fs.unvisited (branch ++ [visit]) < fs.unvisited branch := by
  have hfilter : (fs.files.filter fun file ↦ ¬onBranch (branch ++ [visit]) file) =
      (fs.files.filter fun file ↦ ¬onBranch branch file).filter (· ≠ visit.location) := by
    rw [List.filter_filter]
    congr 1
    funext file
    by_cases h : visit.location = file
    · simp [onBranch, h]
    · simp [onBranch, h, Ne.symm h]
  unfold unvisited
  rw [hfilter]
  refine List.length_filter_lt_length_iff_exists.2 ⟨visit.location, ?_, by simp⟩
  simp [List.mem_filter, hfile, hnew]

theorem mem_nodes_of_node? {fs : FileSystem} {place : Place} {node : Node} (hplace : place ≠ [])
    (h : fs.node? place = some node) : (place, node) ∈ fs.nodes := by
  rw [node?, if_neg hplace] at h
  obtain ⟨before, after, hnodes, -⟩ := List.lookup_eq_some_iff.1 h
  rw [hnodes]
  exact List.mem_append_right before List.mem_cons_self

theorem mem_nodes_of_file {fs : FileSystem} {place : Place} {content : List UInt8}
    (h : fs.node? place = some (.file content)) : (place, .file content) ∈ fs.nodes := by
  apply mem_nodes_of_node? _ h
  rintro rfl
  simp [node?] at h

/-- The canonical path of a regular file is the path of a regular file. -/
theorem mem_files_of_isFile {fs : FileSystem} {path file : String} (h : fs.isFile path = true)
    (hfile : fs.canonical? path = some file) : file ∈ fs.files := by
  unfold isFile content? at h
  unfold canonical? at hfile
  cases hplace : fs.resolve? path with
  | none => simp [hplace] at h
  | some place =>
    simp only [hplace, Option.map_some, Option.some.injEq] at hfile
    simp only [hplace, Option.bind_some] at h
    split at h
    · rename_i content hnode
      rw [← hfile]
      exact List.mem_filterMap.2 ⟨_, mem_nodes_of_file hnode, rfl⟩
    · simp at h

end FileSystem

end Reactor
