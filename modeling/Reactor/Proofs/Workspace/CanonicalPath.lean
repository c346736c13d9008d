import Mathlib.Data.List.Induction
import Reactor.Proofs.Outcome
import Reactor.Proofs.Text.Split
import Reactor.Workspace.Branch

/-!
# Canonical paths

The absolute path of a place that was reached leads back to that place, so a canonical path is its
own canonical path. This needs a file system in which everything stands in a directory, as it does
on a disk.
-/

namespace Reactor.FileSystem

/-- A name that an entry of a directory can have. -/
structure IsEntryName (name : String) : Prop where
  ne_empty : name ≠ ""
  ne_dot : name ≠ "."
  ne_dots : name ≠ ".."
  noSlash : '/' ∉ name.toList
  short : name.utf8ByteSize ≤ maxNameBytes

instance (name : String) : Decidable (IsEntryName name) :=
  decidable_of_iff (name ≠ "" ∧ name ≠ "." ∧ name ≠ ".." ∧ '/' ∉ name.toList ∧
    name.utf8ByteSize ≤ maxNameBytes)
    ⟨fun ⟨h₁, h₂, h₃, h₄, h₅⟩ ↦ ⟨h₁, h₂, h₃, h₄, h₅⟩,
      fun ⟨h₁, h₂, h₃, h₄, h₅⟩ ↦ ⟨h₁, h₂, h₃, h₄, h₅⟩⟩

/-- What a disk guarantees: everything stands in a directory, and the working directory is told by
the names of entries. -/
structure WellFormed (fs : FileSystem) : Prop where
  nested : ∀ entry ∈ fs.nodes, fs.hasDirectory entry.1.dropLast = true
  named : ∀ name ∈ fs.workingDirectory, IsEntryName name

instance (fs : FileSystem) : Decidable fs.WellFormed :=
  decidable_of_iff ((∀ entry ∈ fs.nodes, fs.hasDirectory entry.1.dropLast = true) ∧
    ∀ name ∈ fs.workingDirectory, IsEntryName name)
    ⟨fun ⟨h₁, h₂⟩ ↦ ⟨h₁, h₂⟩, fun ⟨h₁, h₂⟩ ↦ ⟨h₁, h₂⟩⟩

/-- A place at which something other than a link is, and that is reached from the root through
directories only, each named as an entry of the one before. -/
structure IsDirect (fs : FileSystem) (place : Place) : Prop where
  named : ∀ name ∈ place, IsEntryName name
  nested : ∀ above below, place = above ++ below → below ≠ [] → fs.hasDirectory above = true
  present : fs.node? place ≠ none
  noLink : ∀ target, fs.node? place ≠ some (.link target)

theorem hasDirectory_iff {fs : FileSystem} {place : Place} :
    fs.hasDirectory place = true ↔ fs.node? place = some .directory := by
  unfold hasDirectory
  split <;> simp_all

theorem isDirect_root (fs : FileSystem) : fs.IsDirect [] where
  named := by simp
  nested above below h hbelow := absurd (List.append_eq_nil_iff.1 h.symm).2 hbelow
  present := by simp [node?]
  noLink := by simp [node?]

/-- The directory above a place is reached in the same way. -/
theorem IsDirect.dropLast {fs : FileSystem} {place : Place} (h : fs.IsDirect place) :
    fs.IsDirect place.dropLast := by
  rcases List.eq_nil_or_concat place with rfl | ⟨above, last, rfl⟩
  · exact isDirect_root fs
  · rw [List.concat_eq_append, List.dropLast_concat] at *
    have habove : fs.node? above = some .directory :=
      hasDirectory_iff.1 (h.nested above [last] rfl (by simp))
    refine ⟨fun name hname ↦ h.named name (List.mem_append_left _ hname), ?_, ?_, ?_⟩
    · intro upper lower hsplit _
      exact h.nested upper (lower ++ [last]) (by rw [hsplit, List.append_assoc]) (by simp)
    · simp [habove]
    · simp [habove]

/-- An entry of a directory that is reached directly is reached directly, unless it is a link. -/
theorem IsDirect.entry {fs : FileSystem} {place : Place} {name : String}
    (h : fs.IsDirect place) (hdirectory : fs.hasDirectory place = true) (hname : IsEntryName name)
    (hpresent : fs.node? (place ++ [name]) ≠ none)
    (hlink : ∀ target, fs.node? (place ++ [name]) ≠ some (.link target)) :
    fs.IsDirect (place ++ [name]) := by
  refine ⟨?_, ?_, hpresent, hlink⟩
  · intro other hother
    rcases List.mem_append.1 hother with hother | hother
    · exact h.named other hother
    · exact (List.mem_singleton.1 hother) ▸ hname
  · intro above below hsplit hbelow
    rcases List.eq_nil_or_concat below with rfl | ⟨rest, last, rfl⟩
    · exact absurd rfl hbelow
    · rw [List.concat_eq_append, ← List.append_assoc] at hsplit
      obtain ⟨hplace, -⟩ := List.append_inj' hsplit rfl
      cases rest with
      | nil => simpa [hplace] using hdirectory
      | cons next rest => exact h.nested above (next :: rest) hplace (by simp)

/-- Steps without slashes lead from a place that is reached directly to such a place. -/
theorem isDirect_of_walk {fs : FileSystem} {links : Nat} {place reached : Place}
    {steps : List String} (hplace : fs.IsDirect place) (hsteps : ∀ step ∈ steps, '/' ∉ step.toList)
    (h : fs.walk false links place steps = .ok reached) : fs.IsDirect reached := by
  fun_induction fs.walk false links place steps with
  | case1 links place =>
    cases h
    exact hplace
  | case3 links place step rest _ _ ih =>
    exact ih hplace (fun other hother ↦ hsteps other (List.mem_cons_of_mem _ hother)) h
  | case4 links place rest _ _ ih =>
    exact ih hplace.dropLast (fun other hother ↦ hsteps other (List.mem_cons_of_mem _ hother)) h
  | case9 place step rest _ _ _ _ target _ links ih =>
    -- A link is replaced by its target, whose steps start from the root or from the link's place.
    refine ih ?_ ?_ h
    · split
      · exact isDirect_root fs
      · exact hplace
    · intro other hother
      rcases List.mem_append.1 hother with hother | hother
      · exact Text.notMem_split hother
      · exact hsteps other (List.mem_cons_of_mem _ hother)
  | case10 links place step rest hdirectory hstep hdots hshort node hnode hpresent ih =>
    obtain ⟨hempty, hdot⟩ := not_or.1 hstep
    refine ih ?_ (fun other hother ↦ hsteps other (List.mem_cons_of_mem _ hother)) h
    refine hplace.entry (Classical.not_not.1 hdirectory)
      ⟨hempty, hdot, hdots, hsteps step List.mem_cons_self, Nat.le_of_not_lt hshort⟩ ?_ ?_
    · simp [hpresent]
    · rintro target htarget
      rw [hpresent] at htarget
      exact hnode target (Option.some.inj htarget)
  | case2 | case5 | case6 | case7 | case8 => simp_all

/-- The names of a place that is reached directly lead to it, and no link is followed. -/
theorem walk_of_isDirect {fs : FileSystem} {links : Nat} {above : Place} {below : List String}
    (h : fs.IsDirect (above ++ below)) :
    fs.walk false links above below = .ok (above ++ below) := by
  induction below generalizing above with
  | nil => rw [walk, List.append_nil]
  | cons name rest ih =>
    have hname := h.named name (by simp)
    have hdirectory := h.nested above (name :: rest) rfl (by simp)
    have hstep : ¬(name = "" ∨ name = ".") := not_or.2 ⟨hname.ne_empty, hname.ne_dot⟩
    have hsplit : above ++ name :: rest = above ++ [name] ++ rest := by simp
    -- What stands at the next place is a directory on the way, or else the end of the way.
    have hpresent : ∃ node, fs.node? (above ++ [name]) = some node ∧
        ∀ target, node ≠ .link target := by
      cases rest with
      | nil =>
        obtain ⟨node, hnode⟩ := Option.ne_none_iff_exists'.1 h.present
        exact ⟨node, hnode, fun target htarget ↦ h.noLink target (htarget ▸ hnode)⟩
      | cons next rest =>
        have hnext := hasDirectory_iff.1
          (h.nested (above ++ [name]) (next :: rest) hsplit (by simp))
        exact ⟨.directory, hnext, by simp⟩
    obtain ⟨node, hnode, hlink⟩ := hpresent
    rw [hsplit] at h ⊢
    rw [walk, if_neg (by simp [hdirectory]), if_neg hstep, if_neg hname.ne_dots,
      if_neg (Nat.not_lt.2 hname.short), hnode]
    cases node with
    | link target => exact absurd rfl (hlink target)
    | directory => exact ih h
    | file content => exact ih h

theorem hasDirectory_of_append {fs : FileSystem} (hfs : fs.WellFormed) {above below : Place}
    (h : fs.hasDirectory (above ++ below) = true) : fs.hasDirectory above = true := by
  induction below using List.reverseRecOn with
  | nil => simpa using h
  | append_singleton below last ih =>
    rw [← List.append_assoc] at h
    have hnested := hfs.nested _ (mem_nodes_of_node? (by simp) (hasDirectory_iff.1 h))
    rw [List.dropLast_concat] at hnested
    exact ih hnested

/-- The place from which a path starts is reached directly, if it is a directory at all. -/
theorem isDirect_start {fs : FileSystem} (hfs : fs.WellFormed) {path : String}
    (h : fs.hasDirectory (fs.start path) = true) : fs.IsDirect (fs.start path) := by
  unfold start at h ⊢
  split
  · exact isDirect_root fs
  · rename_i hrelative
    rw [if_neg hrelative] at h
    refine ⟨hfs.named, ?_, ?_, ?_⟩
    · intro above below hsplit _
      rw [hsplit] at h
      exact hasDirectory_of_append hfs h
    · simp [hasDirectory_iff.1 h]
    · simp [hasDirectory_iff.1 h]

theorem hasDirectory_of_walk {fs : FileSystem} {links : Nat} {place reached : Place} {step : String}
    {rest : List String} (h : fs.walk false links place (step :: rest) = .ok reached) :
    fs.hasDirectory place = true := by
  rw [walk] at h
  by_contra hnone
  rw [if_pos hnone] at h
  cases h

theorem walk_of_resolve? {fs : FileSystem} {path : String} {place : Place}
    (h : fs.resolve? path = some place) :
    path ≠ "" ∧ fs.walk false maxLinks (fs.start path) (Text.split '/' path) = .ok place := by
  rw [resolve?, toOption_eq_some, resolve] at h
  split at h
  case isTrue => cases h
  case isFalse hempty =>
    split at h
    case isTrue => cases h
    case isFalse => exact ⟨by simpa using hempty, h⟩

/-- Every path leads to a place that is reached directly from the root. -/
theorem isDirect_of_resolve {fs : FileSystem} (hfs : fs.WellFormed) {path : String} {place : Place}
    (h : fs.resolve? path = some place) : fs.IsDirect place := by
  obtain ⟨-, hwalk⟩ := walk_of_resolve? h
  have hdirectory : fs.hasDirectory (fs.start path) = true := by
    obtain ⟨step, rest, hsplit⟩ := List.exists_cons_of_ne_nil (Text.split_ne_nil '/' path)
    rw [hsplit] at hwalk
    exact hasDirectory_of_walk hwalk
  exact isDirect_of_walk (isDirect_start hfs hdirectory) (fun step ↦ Text.notMem_split) hwalk

/-- The steps of the absolute path of a place. -/
theorem split_path {place : Place} (h : ∀ name ∈ place, IsEntryName name) :
    Text.split '/' place.path = "" :: (if place = [] then [""] else place) := by
  have hnames := Text.split_intercalate fun name hname ↦ (h name hname).noSlash
  rw [← hnames]
  exact Text.split_append_singleton_append '/' "" _

/-- The absolute path of a place that is reached directly leads to it, unless it is too long. -/
theorem resolve_path {fs : FileSystem} {place : Place} (h : fs.IsDirect place)
    (hshort : place.path.utf8ByteSize ≤ maxPathBytes) : fs.resolve? place.path = some place := by
  have habsolute : Path.isAbsolute place.path = true := by
    simp [Path.isAbsolute, Place.path]
  have hnonempty : place.path.isEmpty = false := by
    simp [Place.path]
  have hroot : fs.hasDirectory [] = true := by simp [hasDirectory_iff, node?]
  have hwalk : fs.walk false maxLinks [] (Text.split '/' place.path) = .ok place := by
    rw [split_path h.named, walk, if_neg (by simp [hroot]), if_pos (.inl rfl)]
    split
    · rename_i hplace
      rw [walk, if_neg (by simp [hroot]), if_pos (.inl rfl), walk, hplace]
    · have hplace : fs.walk false maxLinks [] place = .ok ([] ++ place) := walk_of_isDirect h
      exact hplace
  simp [resolve?, resolve, hnonempty, Nat.not_lt.2 hshort, start, habsolute, hwalk,
    Except.toOption]

/-- The absolute path of a file leads to the file, unless it is too long. -/
theorem resolve?_file {fs : FileSystem} (hfs : fs.WellFormed) {place : Place}
    {content : List UInt8} (hnode : fs.node? place = some (.file content))
    (hnamed : ∀ name ∈ place, IsEntryName name)
    (hshort : place.path.utf8ByteSize ≤ maxPathBytes) : fs.resolve? place.path = some place := by
  have habove : fs.hasDirectory place.dropLast = true := hfs.nested _ (mem_nodes_of_file hnode)
  refine resolve_path ⟨hnamed, ?_, by simp [hnode], by simp [hnode]⟩ hshort
  intro above below hsplit hbelow
  rw [hsplit, List.dropLast_append_of_ne_nil hbelow] at habove
  exact hasDirectory_of_append hfs habove

/-- A canonical path is its own canonical path, as long as anything can be read there. -/
theorem canonical?_canonical {fs : FileSystem} (hfs : fs.WellFormed) {path file : String}
    (h : fs.canonical? path = some file) (hread : fs.isFile file = true) :
    fs.canonical? file = some file := by
  obtain ⟨place, hplace, rfl⟩ := Option.map_eq_some_iff.1 h
  have hshort : place.path.utf8ByteSize ≤ maxPathBytes := by
    by_contra hlong
    have hnone : fs.resolve? place.path = none := by
      simp only [resolve?, resolve, if_pos (Nat.lt_of_not_le hlong)]
      split <;> rfl
    simp [isFile, content?, hnone] at hread
  rw [canonical?, resolve_path (isDirect_of_resolve hfs hplace) hshort]
  rfl

end Reactor.FileSystem
