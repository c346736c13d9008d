import Reactor.Proofs.Workspace.CanonicalPath

/-!
# Paths with the same steps

Two paths are compared by the steps that count, so `/w/a`, `/w//a` and `/w/a/.` are one path. They
need not all lead somewhere: a slash at the end asks for a directory, and a path may be too long.
But where two of them lead somewhere, they lead to the same place. The absolute path of a place has
no step that does not count, so it is its own normal form.
-/

namespace Reactor

namespace Path

variable {path path' first : String} {rest : List String}

/-- A path is absolute if it has a separator and nothing before the first one. -/
theorem isAbsolute_iff (hsplit : Text.split '/' path = first :: rest) :
    isAbsolute path = true ↔ first = "" ∧ rest ≠ [] := by
  obtain ⟨hpath, -, hslash⟩ := Text.split_eq_iff.1 hsplit
  have hfirst : first.toList.head? ≠ some '/' := fun h ↦
    hslash first List.mem_cons_self (List.mem_of_head? h)
  rw [isAbsolute, decide_eq_true_iff, hpath, Text.toList_intercalate_singleton]
  cases rest with
  | nil => simpa using hfirst
  | cons next rest =>
    rw [List.map_cons, List.map_cons, List.intercalate_cons_cons, ← String.toList_eq_nil_iff]
    cases h : first.toList with
    | nil => simp
    | cons c cs => simpa [h] using hfirst

theorem steps_of_split (hsplit : Text.split '/' path = first :: rest) :
    steps path = (if first = "" then [] else [first]) ++ rest.filter counts := by
  by_cases hfirst : first = "" <;> simp [steps, hsplit, hfirst]

/-- The steps of a relative path start with what comes before the first separator. -/
theorem steps_of_relative (hrelative : isAbsolute path = false)
    (hsplit : Text.split '/' path = first :: rest) :
    (first = "" ∧ steps path = []) ∨ (first ≠ "" ∧ steps path = first :: rest.filter counts) := by
  rw [steps_of_split hsplit]
  by_cases hfirst : first = ""
  · have hrest : rest = [] := by
      by_contra hrest
      rw [(isAbsolute_iff hsplit).2 ⟨hfirst, hrest⟩] at hrelative
      cases hrelative
    simp [hfirst, hrest]
  · simp [hfirst]

/-- The steps that count after the first one of an absolute path are all that count. -/
theorem steps_of_absolute (habsolute : isAbsolute path = true)
    (hsplit : Text.split '/' path = first :: rest) : steps path = rest.filter counts := by
  rw [steps_of_split hsplit, if_pos ((isAbsolute_iff hsplit).1 habsolute).1, List.nil_append]

/-- A path in normal form is taken apart into the steps that it was made from. -/
theorem split_normal (path : String) :
    Text.split '/' (normal path) = (if isAbsolute path then [""] else []) ++
      (if steps path = [] then [""] else steps path) := by
  have hslash : ∀ step ∈ steps path, '/' ∉ step.toList := by
    intro step hstep
    apply Text.notMem_split (s := path)
    rcases List.mem_append.1 hstep with hstep | hstep
    · exact List.mem_of_mem_take (List.mem_filter.1 hstep).1
    · exact List.mem_of_mem_drop (List.mem_filter.1 hstep).1
  rw [← Text.split_intercalate hslash, normal]
  cases isAbsolute path with
  | false => rfl
  | true => exact Text.split_append_singleton_append '/' "" _

theorem split_normal_of_absolute (habsolute : isAbsolute path = true) :
    Text.split '/' (normal path) = "" :: if steps path = [] then [""] else steps path := by
  rw [split_normal, habsolute, if_pos rfl, List.singleton_append]

theorem split_normal_of_relative (hrelative : isAbsolute path = false) :
    (steps path = [] ∧ Text.split '/' (normal path) = [""]) ∨
      ∃ (first : String) (rest : List String), first ≠ "" ∧
        steps path = first :: rest.filter counts ∧
        Text.split '/' (normal path) = first :: rest.filter counts := by
  obtain ⟨first, rest, hpath⟩ := List.exists_cons_of_ne_nil (Text.split_ne_nil '/' path)
  rw [split_normal, hrelative, if_neg Bool.false_ne_true, List.nil_append]
  rcases steps_of_relative hrelative hpath with ⟨-, hsteps⟩ | ⟨hfirst, hsteps⟩
  · exact .inl ⟨hsteps, if_pos hsteps⟩
  · rw [hsteps, if_neg (List.cons_ne_nil _ _)]
    exact .inr ⟨first, rest, hfirst, rfl, rfl⟩

theorem isAbsolute_normal (path : String) : isAbsolute (normal path) = isAbsolute path := by
  cases habsolute : isAbsolute path with
  | true =>
    apply (isAbsolute_iff (split_normal_of_absolute habsolute)).2
    exact ⟨rfl, by split <;> simp_all⟩
  | false =>
    apply Bool.eq_false_iff.2
    rcases split_normal_of_relative habsolute with ⟨-, hsplit⟩ | ⟨first, rest, hfirst, -, hsplit⟩
    · simp [isAbsolute_iff hsplit]
    · simp [isAbsolute_iff hsplit, hfirst]

theorem steps_normal (path : String) : steps (normal path) = steps path := by
  cases habsolute : isAbsolute path with
  | true =>
    obtain ⟨first, rest, hpath⟩ := List.exists_cons_of_ne_nil (Text.split_ne_nil '/' path)
    have hnormal : isAbsolute (normal path) = true := (isAbsolute_normal path).trans habsolute
    calc
      steps (normal path) = (if steps path = [] then [""] else steps path).filter counts :=
        steps_of_absolute hnormal (split_normal_of_absolute habsolute)
      _ = (steps path).filter counts := by
        split
        · rename_i hsteps
          rw [hsteps]
          rfl
        · rfl
      _ = steps path := by
        rw [steps_of_absolute habsolute hpath, List.filter_filter]
        simp only [Bool.and_self]
  | false =>
    rcases split_normal_of_relative habsolute with
      ⟨hsteps, hsplit⟩ | ⟨first, rest, hfirst, hsteps, hsplit⟩
    · rw [steps_of_split hsplit, hsteps]
      rfl
    · rw [steps_of_split hsplit, hsteps, if_neg hfirst, List.filter_filter]
      simp

/-- Paths have the same normal form if and only if the same steps lead from the same start. -/
theorem normal_eq_iff :
    normal path = normal path' ↔ isAbsolute path = isAbsolute path' ∧ steps path = steps path' := by
  constructor
  · intro h
    have habsolute : isAbsolute path = isAbsolute path' := by
      rw [← isAbsolute_normal path, h, isAbsolute_normal]
    have hsteps : steps path = steps path' := by
      rw [← steps_normal path, h, steps_normal]
    exact ⟨habsolute, hsteps⟩
  · rintro ⟨habsolute, hsteps⟩
    rw [normal, habsolute, hsteps, normal]

theorem filter_counts_steps (path : String) :
    (steps path).filter counts = (Text.split '/' path).filter counts := by
  have hfirst (step : String) : (counts step && decide (step ≠ "")) = counts step := by
    by_cases h : step = "" <;> simp [counts, h]
  calc
    (steps path).filter counts
        = ((Text.split '/' path).take 1).filter counts ++
          ((Text.split '/' path).drop 1).filter counts := by
      rw [steps, List.filter_append, List.filter_filter, List.filter_filter]
      simp only [hfirst, Bool.and_self]
    _ = (Text.split '/' path).filter counts := by
      rw [← List.filter_append, List.take_append_drop]

end Path

namespace FileSystem

variable {fs : FileSystem} {links : Nat} {place reached reached' : Place} {path path' : String}
  {skipped rest steps steps' : List String}

/-! ## Where paths with the same steps lead -/

/-- Steps that do not count lead nowhere else. -/
theorem walk_of_skipped (hskipped : ∀ step ∈ skipped, ¬Path.counts step = true)
    (h : fs.walk false links place (skipped ++ rest) = .ok reached) :
    fs.walk false links place rest = .ok reached := by
  induction skipped with
  | nil => exact h
  | cons step others ih =>
    have hstep : step = "" ∨ step = "." := by
      have hnot := hskipped step List.mem_cons_self
      simpa [Path.counts, or_iff_not_imp_left] using hnot
    have hdirectory := hasDirectory_of_walk h
    apply ih fun other hother ↦ hskipped other (List.mem_cons_of_mem _ hother)
    rw [List.cons_append, walk, if_neg (by simp [hdirectory]), if_pos hstep] at h
    exact h

/-- A walk along the same steps comes to a first step that counts in the same place. -/
theorem exists_walk_cons {step : String} (hcounts : Path.counts step = true)
    (hsteps : (step :: rest).filter Path.counts = steps.filter Path.counts)
    (h : fs.walk false links place steps = .ok reached) :
    ∃ rest', rest.filter Path.counts = rest'.filter Path.counts ∧
      fs.walk false links place (step :: rest') = .ok reached := by
  rw [List.filter_cons_of_pos hcounts] at hsteps
  obtain ⟨skipped, rest', rfl, hskipped, -, hrest⟩ := List.filter_eq_cons_iff.1 hsteps.symm
  exact ⟨rest', hrest.symm, walk_of_skipped hskipped h⟩

/-- Two walks from one place along the same steps end at the same place, if both end somewhere. The
induction follows the first walk, and the second one does what it does after steps that do not
count. -/
theorem walk_unique (h : fs.walk false links place steps = .ok reached)
    (h' : fs.walk false links place steps' = .ok reached')
    (hsteps : steps.filter Path.counts = steps'.filter Path.counts) : reached = reached' := by
  fun_induction fs.walk false links place steps generalizing steps' with
  | case1 links place =>
    have hskipped : ∀ step ∈ steps', ¬Path.counts step = true :=
      List.filter_eq_nil_iff.1 hsteps.symm
    rw [← List.append_nil steps'] at h'
    have hend := walk_of_skipped hskipped h'
    rw [walk] at hend
    exact Except.ok.inj (h.symm.trans hend)
  | case3 links place step rest hdirectory hstep ih =>
    apply ih h h'
    have hcounts : Path.counts step = false := by
      rcases hstep with rfl | rfl <;> rfl
    rw [← hsteps, List.filter_cons_of_neg (by simp [hcounts])]
  | case4 links place rest hdirectory hstep ih =>
    obtain ⟨rest', hrest, hlater⟩ := exists_walk_cons rfl hsteps h'
    rw [walk, if_neg hdirectory, if_neg hstep, if_pos rfl] at hlater
    exact ih h hlater hrest
  | case9 place step rest hdirectory hstep hdots hshort target hnode links ih =>
    obtain ⟨rest', hrest, hlater⟩ := exists_walk_cons (by simpa [Path.counts] using hstep) hsteps h'
    rw [walk, if_neg hdirectory, if_neg hstep, if_neg hdots, if_neg hshort, hnode] at hlater
    apply ih h hlater
    rw [List.filter_append, List.filter_append, hrest]
  | case10 links place step rest hdirectory hstep hdots hshort node hnode hpresent ih =>
    obtain ⟨rest', hrest, hlater⟩ := exists_walk_cons (by simpa [Path.counts] using hstep) hsteps h'
    rw [walk, if_neg hdirectory, if_neg hstep, if_neg hdots, if_neg hshort, hpresent] at hlater
    cases node with
    | link target => exact absurd rfl (hnode target)
    | directory => exact ih h hlater hrest
    | file content => exact ih h hlater hrest
  | case2 | case5 | case6 | case7 | case8 => simp_all

/-- Of two paths with the same normal form, either one leads nowhere or both lead to one place. -/
theorem resolve?_unique (hnormal : Path.normal path = Path.normal path')
    (h : fs.resolve? path = some reached) (h' : fs.resolve? path' = some reached') :
    reached = reached' := by
  obtain ⟨habsolute, hsteps⟩ := Path.normal_eq_iff.1 hnormal
  obtain ⟨-, hwalk⟩ := walk_of_resolve? h
  obtain ⟨-, hwalk'⟩ := walk_of_resolve? h'
  have hstart : fs.start path = fs.start path' := by
    rw [start, habsolute, start]
  rw [hstart] at hwalk
  apply walk_unique hwalk hwalk'
  rw [← Path.filter_counts_steps, hsteps, Path.filter_counts_steps]

/-- The absolute path of a place is in normal form. -/
theorem normal_path (h : ∀ name ∈ place, IsEntryName name) :
    Path.normal place.path = place.path := by
  have habsolute : Path.isAbsolute place.path = true := by
    simp [Path.isAbsolute, Place.path]
  have hcounts : ∀ name ∈ place, Path.counts name = true := by
    intro name hname
    simp [Path.counts, (h name hname).ne_empty, (h name hname).ne_dot]
  have hsteps : Path.steps place.path = place := by
    rw [Path.steps_of_absolute habsolute (split_path h)]
    split
    · rename_i hplace
      rw [hplace]
      rfl
    · exact List.filter_eq_self.2 hcounts
  rw [Path.normal, if_pos habsolute, hsteps, Place.path]

theorem normal_canonical (hfs : fs.WellFormed) {file : String}
    (h : fs.canonical? path = some file) : Path.normal file = file := by
  obtain ⟨place, hplace, rfl⟩ := Option.map_eq_some_iff.1 h
  exact normal_path (isDirect_of_resolve hfs hplace).named

/-- A path whose normal form is the canonical path of a file is compared as this file, whether or
not it leads there. -/
theorem canonical_of_normal (hfs : fs.WellFormed) {file : String}
    (hfile : fs.canonical? file = some file) (hnormal : Path.normal path = file) :
    fs.canonical path = file := by
  obtain ⟨place, hplace, hpath⟩ := Option.map_eq_some_iff.1 hfile
  cases h : fs.resolve? path with
  | none => rw [canonical, canonical?, h, Option.map_none, Option.getD_none, hnormal]
  | some reached =>
    have hsame : Path.normal path = Path.normal file :=
      hnormal.trans (normal_canonical hfs hfile).symm
    rw [resolve?_unique hsame h hplace] at h
    rw [canonical, canonical?, h, Option.map_some, Option.getD_some, hpath]

end FileSystem

end Reactor
