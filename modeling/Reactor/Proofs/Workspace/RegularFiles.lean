import Mathlib.Data.Finset.Card
import Mathlib.Data.List.Nodup
import Reactor.Workspace.Branch

/-!
# The number of regular files

A file system holds finitely many regular files, each at a place of its own. Different canonical
paths of regular files are therefore no more than there are regular files. This bounds the branches
of every search that never visits a location twice.
-/

namespace Reactor.FileSystem

variable {fs : FileSystem} {place : Place} {path location : String} {locations : List String}
  {branch : List Visit} {visit : Visit}

def hasFile (fs : FileSystem) (place : Place) : Bool :=
  match fs.node? place with
  | some (.file _) => true
  | _ => false

def regularFiles (fs : FileSystem) : Finset Place :=
  (fs.nodes.map (·.1)).toFinset.filter fun place ↦ fs.hasFile place

theorem mem_regularFiles_iff : place ∈ fs.regularFiles ↔ fs.hasFile place = true := by
  unfold regularFiles
  rw [Finset.mem_filter, List.mem_toFinset, and_iff_right_iff_imp]
  intro hfile
  unfold hasFile at hfile
  split at hfile
  · rename_i content hnode
    exact List.mem_map.2 ⟨_, mem_nodes_of_file hnode, rfl⟩
  · cases hfile

/-- Whether a location is the canonical path of a regular file. -/
def IsRegular (fs : FileSystem) (location : String) : Prop :=
  ∃ place ∈ fs.regularFiles, place.path = location

/-- A path that leads to a regular file has the canonical path of that file. -/
theorem exists_canonical?_of_isFile (h : fs.isFile path = true) :
    ∃ location, fs.canonical? path = some location ∧ fs.IsRegular location := by
  unfold isFile content? at h
  obtain ⟨content, hcontent⟩ := Option.isSome_iff_exists.1 h
  obtain ⟨place, hplace, hnode⟩ := Option.bind_eq_some_iff.1 hcontent
  have hfile : fs.hasFile place = true := by
    split at hnode
    · rename_i found hfound
      simp only [hasFile, hfound]
    · cases hnode
  have hcanonical : fs.canonical? path = some place.path := by
    rw [canonical?, hplace, Option.map_some]
  exact ⟨place.path, hcanonical, place, mem_regularFiles_iff.2 hfile, rfl⟩

/-- Different canonical paths of regular files are no more than there are regular files. -/
theorem length_le_card_regularFiles (hnodup : locations.Nodup)
    (hregular : ∀ location ∈ locations, fs.IsRegular location) :
    locations.length ≤ fs.regularFiles.card := by
  have hsubset : locations.toFinset ⊆ fs.regularFiles.image Place.path := by
    intro location hlocation
    exact Finset.mem_image.2 (hregular location (List.mem_toFinset.1 hlocation))
  calc
    locations.length = locations.toFinset.card := (List.toFinset_card_of_nodup hnodup).symm
    _ ≤ (fs.regularFiles.image Place.path).card := Finset.card_le_card hsubset
    _ ≤ fs.regularFiles.card := Finset.card_image_le

/-! ## Branches -/

theorem onBranch_iff : onBranch branch location = true ↔ location ∈ branch.map (·.location) := by
  simp [onBranch]

theorem nodup_locations_append_iff :
    ((branch ++ [visit]).map (·.location)).Nodup ↔
      visit.location ∉ branch.map (·.location) ∧ (branch.map (·.location)).Nodup := by
  rw [List.map_append, List.map_singleton, ← List.concat_eq_append, List.nodup_concat]

/-- A branch of different locations. All but the first one are those of regular files. -/
structure ProperBranch (fs : FileSystem) (branch : List Visit) : Prop where
  ne_nil : branch ≠ []
  nodup : (branch.map (·.location)).Nodup
  regular : ∀ visit ∈ branch.tail, fs.IsRegular visit.location

namespace ProperBranch

theorem singleton (fs : FileSystem) (visit : Visit) : fs.ProperBranch [visit] where
  ne_nil := List.cons_ne_nil _ _
  nodup := List.nodup_singleton _
  regular := by simp

/-- A branch can be extended by the location of another regular file. -/
theorem append (h : fs.ProperBranch branch) (hregular : fs.IsRegular visit.location)
    (hnew : onBranch branch visit.location = false) : fs.ProperBranch (branch ++ [visit]) := by
  refine ⟨by simp, ?_, ?_⟩
  · apply nodup_locations_append_iff.2
    refine ⟨fun hold ↦ ?_, h.nodup⟩
    rw [onBranch_iff.2 hold] at hnew
    cases hnew
  · intro other hother
    rw [List.tail_append_of_ne_nil h.ne_nil] at hother
    rcases List.mem_append.1 hother with hother | hother
    · exact h.regular other hother
    · rw [List.mem_singleton.1 hother]
      exact hregular

theorem length_le (h : fs.ProperBranch branch) : branch.length ≤ fs.regularFiles.card + 1 := by
  have htail : (branch.tail.map (·.location)).length ≤ fs.regularFiles.card := by
    apply length_le_card_regularFiles
    · exact h.nodup.sublist (branch.tail_sublist.map _)
    · intro location hlocation
      obtain ⟨visit, hvisit, rfl⟩ := List.mem_map.1 hlocation
      exact h.regular visit hvisit
  rw [List.length_map, List.length_tail] at htail
  omega

end ProperBranch

end Reactor.FileSystem
