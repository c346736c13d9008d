import Reactor.Proofs.Workspace.CanonicalPath

/-!
# Entries of a directory

A path that is joined from the path of a directory and a name leads to the entry of the directory
that has this name, whatever links lead to the directory. Only if the entry is a link itself does
the path lead elsewhere. The file name of the canonical path is then the name of the entry.
-/

namespace Reactor

namespace FileSystem

variable {fs : FileSystem} {links : Nat} {place reached : Place} {steps rest : List String}
  {directory name : String}

/-- A step that asks for the entry of a directory with this name, unless the name is too long. -/
structure IsName (name : String) : Prop where
  ne_empty : name ≠ ""
  ne_dot : name ≠ "."
  ne_dots : name ≠ ".."
  noSlash : '/' ∉ name.toList

def HasLink (fs : FileSystem) (directory name : String) : Prop :=
  ∃ place target, fs.resolve? directory = some place ∧
    fs.node? (place ++ [name]) = some (.link target)

/-- Steps after others are taken from the place that the others lead to. -/
theorem walk_append (h : fs.walk false links place (steps ++ rest) = .ok reached) :
    ∃ links' between, fs.walk false links place steps = .ok between ∧
      fs.walk false links' between rest = .ok reached := by
  fun_induction fs.walk false links place steps with
  | case1 links place => exact ⟨links, place, rfl, h⟩
  | case3 links place step others hdirectory hstep ih =>
    rw [List.cons_append, walk, if_neg hdirectory, if_pos hstep] at h
    exact ih h
  | case4 links place others hdirectory hstep ih =>
    rw [List.cons_append, walk, if_neg hdirectory, if_neg hstep, if_pos rfl] at h
    exact ih h
  | case9 place step others hdirectory hstep hdots hshort target hnode links ih =>
    -- The steps of a link's target come before all others.
    rw [List.cons_append, walk, if_neg hdirectory, if_neg hstep, if_neg hdots, if_neg hshort,
      hnode] at h
    apply ih
    rw [List.append_assoc]
    exact h
  | case10 links place step others hdirectory hstep hdots hshort node hlink hnode ih =>
    rw [List.cons_append, walk, if_neg hdirectory, if_neg hstep, if_neg hdots, if_neg hshort,
      hnode] at h
    cases node with
    | link target => exact absurd rfl (hlink target)
    | directory => exact ih h
    | file content => exact ih h
  | case2 | case5 | case6 | case7 | case8 =>
    rw [List.cons_append, walk] at h
    grind

/-- A step that is empty leads nowhere else. -/
theorem eq_of_walk_empty (h : fs.walk false links place [""] = .ok reached) : reached = place := by
  have hdirectory := hasDirectory_of_walk h
  rw [walk, if_neg (not_not.2 hdirectory), if_pos (.inl rfl), walk] at h
  exact (Except.ok.inj h).symm

/-- A step that is a name leads to the entry with this name, unless the entry is a link. -/
theorem eq_of_walk_name (hname : IsName name)
    (hlink : ∀ target, fs.node? (place ++ [name]) ≠ some (.link target))
    (h : fs.walk false links place [name] = .ok reached) : reached = place ++ [name] := by
  have hdirectory := hasDirectory_of_walk h
  rw [walk, if_neg (not_not.2 hdirectory), if_neg (not_or.2 ⟨hname.ne_empty, hname.ne_dot⟩),
    if_neg hname.ne_dots] at h
  split at h
  case isTrue => cases h
  case isFalse =>
    split at h
    case h_1 => cases h
    case h_2 target hnode => exact absurd hnode (hlink target)
    case h_3 =>
      rw [walk] at h
      exact (Except.ok.inj h).symm

theorem not_isAbsolute_of_notMem (hname : '/' ∉ name.toList) : Path.isAbsolute name = false := by
  rw [Path.isAbsolute, decide_eq_false_iff_not]
  exact fun hhead ↦ hname (List.mem_of_mem_head? hhead)

/-- The steps of a path that is joined from the path of a directory and a name. If a slash ends the
path of the directory, it is not repeated. -/
theorem exists_split_join (hdirectory : directory ≠ "") (hname : '/' ∉ name.toList) :
    ∃ steps, Text.split '/' (Path.join directory name) = steps ++ [name] ∧
      (Text.split '/' directory = steps ∨ Text.split '/' directory = steps ++ [""]) := by
  have hrelative := not_isAbsolute_of_notMem hname
  have hsplit : Text.split '/' name = [name] := by
    rw [Text.split, Text.splitChars_of_notMem hname, List.map_singleton, String.ofList_toList]
  rw [Path.join, if_neg (by simp [hrelative])]
  split
  case isTrue h =>
    have hlast : directory.toList.getLast? = some '/' := by simpa [hdirectory] using h
    obtain ⟨front, hfront⟩ := List.getLast?_eq_some_iff.1 hlast
    have hdirectory' : directory = String.ofList front ++ "/" ++ "" := by
      apply String.toList_inj.1
      simp [hfront]
    refine ⟨Text.split '/' (String.ofList front), ?_, .inr ?_⟩
    · rw [hdirectory', String.append_empty]
      rw [← hsplit]
      exact Text.split_append_singleton_append '/' _ _
    · rw [hdirectory']
      exact Text.split_append_singleton_append '/' _ _
  case isFalse =>
    refine ⟨Text.split '/' directory, ?_, .inl rfl⟩
    rw [← hsplit]
    exact Text.split_append_singleton_append '/' _ _

theorem start_join (hdirectory : directory ≠ "") (hname : '/' ∉ name.toList) :
    fs.start (Path.join directory name) = fs.start directory := by
  have hhead : (Path.join directory name).toList.head? = directory.toList.head? := by
    have hne : directory.toList ≠ [] := by simpa using hdirectory
    rw [Path.join, if_neg (by simp [not_isAbsolute_of_notMem hname])]
    split <;> simp [List.head?_append, List.head?_eq_some_head hne]
  rw [start, start, Path.isAbsolute, hhead, Path.isAbsolute]

/-- A path that is joined from the path of a directory and a name leads to the entry with this name,
unless the entry is a link. -/
theorem eq_of_resolve?_join (hname : IsName name) (hplace : fs.resolve? directory = some place)
    (hlink : ∀ target, fs.node? (place ++ [name]) ≠ some (.link target))
    (h : fs.resolve? (Path.join directory name) = some reached) : reached = place ++ [name] := by
  obtain ⟨hdirectory, hwalk⟩ := walk_of_resolve? hplace
  obtain ⟨-, hjoined⟩ := walk_of_resolve? h
  obtain ⟨steps, hsplit, hsteps⟩ := exists_split_join hdirectory hname.noSlash
  rw [hsplit, start_join hdirectory hname.noSlash] at hjoined
  obtain ⟨links, between, hbetween, hlast⟩ := walk_append hjoined
  -- A slash at the end of the directory's path is one more step, which leads nowhere else.
  have heq : between = place := by
    rcases hsteps with hsteps | hsteps
    · rw [hsteps, hbetween] at hwalk
      exact Except.ok.inj hwalk
    · rw [hsteps] at hwalk
      obtain ⟨links', between', hbetween', hlastEmpty⟩ := walk_append hwalk
      rw [eq_of_walk_empty hlastEmpty]
      exact Except.ok.inj (hbetween.symm.trans hbetween')
  subst heq
  exact eq_of_walk_name hname hlink hlast

/-- There is no file where the directory has no entry. -/
theorem isFile_join_of_node?_eq_none (hname : IsName name)
    (hplace : fs.resolve? directory = some place) (hnone : fs.node? (place ++ [name]) = none) :
    fs.isFile (Path.join directory name) = false := by
  have hcontent : fs.content? (Path.join directory name) = none := by
    refine Option.bind_eq_none_iff.2 fun reached hreached ↦ ?_
    rw [eq_of_resolve?_join hname hplace (by simp [hnone]) hreached, hnone]
  rw [isFile, hcontent, Option.isSome_none]

end FileSystem

/-! ## File names -/

namespace Path

/-- The last step of a path is the last one that counts, if it counts at all. -/
theorem significant_append_singleton (first : Bool) (before steps : List String) {step : String}
    (hempty : step ≠ "") (hdot : step ≠ ".") :
    significant first before (steps ++ [step]) = some (steps.reverse ++ before, step) := by
  induction steps generalizing first before with
  | nil => simp [significant, hempty, hdot]
  | cons head rest ih => simp [significant, ih]

/-- The file name of the absolute path of a place is the last name on the way to it. -/
theorem fileName?_path {place : Place} {name : String}
    (h : ∀ other ∈ place ++ [name], FileSystem.IsEntryName other) :
    fileName? (Place.path (place ++ [name])) = some name := by
  have hname := h name (by simp)
  have habsolute : isAbsolute (Place.path (place ++ [name])) = true := by
    simp [isAbsolute, Place.path]
  have hlast : lastStep? (Place.path (place ++ [name])) = some (place.reverse, name) := by
    rw [lastStep?, if_pos habsolute, FileSystem.split_path h, if_neg (by simp), List.drop_one,
      List.tail_cons, significant_append_singleton false [] place hname.ne_empty hname.ne_dot,
      List.append_nil]
  rw [fileName?, hlast, Option.bind_some]
  exact if_neg (not_or.2 ⟨hname.ne_dot, hname.ne_dots⟩)

/-- The extension of a file name that is made of a stem, a dot and an extension. -/
theorem extension?_of_fileName? {path stem extension : String} (hstem : stem ≠ "")
    (hextension : '.' ∉ extension.toList)
    (h : fileName? path = some (stem ++ "." ++ extension)) : extension? path = some extension := by
  have hbackwards : (stem ++ "." ++ extension).toList.reverse =
      extension.toList.reverse ++ '.' :: stem.toList.reverse := by simp
  have htake : (extension.toList.reverse ++ '.' :: stem.toList.reverse).takeWhile (· ≠ '.') =
      extension.toList.reverse := by
    rw [List.takeWhile_append_of_pos, List.takeWhile_cons_of_neg (by simp), List.append_nil]
    intro character hcharacter
    rw [List.mem_reverse] at hcharacter
    exact decide_eq_true fun heq ↦ hextension (heq ▸ hcharacter)
  have hlength : 0 < stem.toList.length := List.length_pos_iff.2 (by simpa using hstem)
  rw [extension?, h, Option.bind_some]
  simp only [hbackwards, htake, List.length_append, List.length_cons, List.length_reverse,
    List.reverse_reverse, String.ofList_toList]
  rw [if_pos (by omega)]

end Path

/-- An entry of a directory that is no link has its name as the file name of its canonical path. -/
theorem FileSystem.fileName?_canonical {fs : FileSystem} (hfs : fs.WellFormed)
    {directory name location : String} (hname : IsName name)
    (hdirectory : fs.isDirectory directory = true) (hlink : ¬fs.HasLink directory name)
    (h : fs.canonical? (Path.join directory name) = some location) :
    Path.fileName? location = some name := by
  obtain ⟨place, hplace, -⟩ := (Option.any_eq_true _ _).1 hdirectory
  obtain ⟨reached, hreached, rfl⟩ := Option.map_eq_some_iff.1 h
  have hnamed := (isDirect_of_resolve hfs hreached).named
  rw [eq_of_resolve?_join hname hplace
    (fun target htarget ↦ hlink ⟨place, target, hplace, htarget⟩) hreached] at hnamed ⊢
  exact Path.fileName?_path hnamed

end Reactor
