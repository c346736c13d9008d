import Mathlib.Data.List.Nodup
import Reactor.Proofs.Tree.Standalone
import Reactor.Proofs.Workspace.RegularFiles

/-!
# Module cycles

A module may be a project that aggregates modules itself, and names with `..` or symbolic links can
lead from a project back to a descriptor on its own branch. Such cycles are described here by what
the files hold: by branches of projects at different locations, each resolved as a module of the one
before, whose last project lists a module at a location on the branch. Aggregation that collects
failures fails on exactly the projects below which there is a cycle, and reports the first one in
the depth-first order of the declared modules.

A place is the list of the indices of modules that lead from a project to a module below it. The
lexicographic order of places is the depth-first order.
-/

namespace Reactor.Aggregation

open FileSystem (onBranch_iff nodup_locations_append_iff)

variable {a : Aggregation} {branch reached : List Visit} {path : ModulePath}
  {project child child' last : Project} {index : Nat} {siblings : List String}
  {name file location location' artifactId : String} {cause : Failure} {place : List Nat}
  {chain : List String} {visit : Visit}

/-! ## What the files hold -/

/-- Whether the module at an index of a project has a descriptor file. -/
def Locates (a : Aggregation) (project : Project) (index : Nat) (file : String) : Prop :=
  ∃ name, project.modules[index]? = some name ∧
    a.loader.locate? a.fs (moduleDirectory project name) = some file

/-- Whether the descriptor of the module at an index has a canonical location and is resolved to a
project. -/
def Loads (a : Aggregation) (project : Project) (index : Nat) (location : String)
    (child : Project) : Prop :=
  ∃ file, a.Locates project index file ∧ a.fs.canonical file = location ∧
    a.loadModule project file = .ok child

/-- Whether a module before an index is resolved to a project with the given artifact id. -/
def Taken (a : Aggregation) (project : Project) (index : Nat) (artifactId : String) : Prop :=
  ∃ earlier < index, ∃ location sibling, a.Loads project earlier location sibling ∧
    sibling.artifactId = artifactId

/-- Whether the module at an index is resolved, and not rejected as a duplicate of a sibling. -/
def Resolves (a : Aggregation) (project : Project) (index : Nat) (location : String)
    (child : Project) : Prop :=
  a.Loads project index location child ∧ ¬a.Taken project index child.artifactId

/-- The branches that continue a branch. The indices of modules lead from the project at the end of
the first branch to the project at the end of the second one. -/
inductive LeadsTo (a : Aggregation) :
    List Visit → Project → List Nat → List Visit → Project → Prop
  | here (branch : List Visit) (project : Project) : LeadsTo a branch project [] branch project
  | module {branch reached : List Visit} {project child last : Project} {index : Nat}
    {location : String} {place : List Nat} (hmodule : a.Resolves project index location child)
    (hbelow : LeadsTo a (branch ++ [⟨location, child.artifactId⟩]) child place reached last) :
    LeadsTo a branch project (index :: place) reached last

/-- Whether the module at an index of the last project on a branch of different locations stands at
the location of an entry of this branch. -/
def ClosesCycle (a : Aggregation) (branch : List Visit) (project : Project) (index : Nat)
    (visit : Visit) : Prop :=
  (branch.map (·.location)).Nodup ∧ visit ∈ branch ∧
    ∃ file, a.Locates project index file ∧ a.fs.canonical file = visit.location

/-- Whether the module at a place below the last project on a branch closes a cycle. The chain lists
the artifact ids of the branch to this module, followed by that of the entry that it leads back
to. -/
def CycleAt (a : Aggregation) (branch : List Visit) (project : Project) (place : List Nat)
    (chain : List String) : Prop :=
  ∃ above index reached last visit, place = above ++ [index] ∧
    a.LeadsTo branch project above reached last ∧ a.ClosesCycle reached last index visit ∧
    chain = reached.map (·.artifactId) ++ [visit.artifactId]

def rootBranch (a : Aggregation) (root : Project) : List Visit :=
  [⟨a.fs.canonical root.location, root.artifactId⟩]

theorem Locates.unique {file' : String} (h : a.Locates project index file)
    (h' : a.Locates project index file') : file = file' := by
  obtain ⟨name, hname, hfile⟩ := h
  obtain ⟨name', hname', hfile'⟩ := h'
  obtain rfl := Option.some.inj (hname.symm.trans hname')
  exact Option.some.inj (hfile.symm.trans hfile')

theorem Locates.lt_length (h : a.Locates project index file) : index < project.modules.length := by
  obtain ⟨name, hname, -⟩ := h
  exact (List.getElem?_eq_some_iff.1 hname).1

theorem Loads.unique (h : a.Loads project index location child)
    (h' : a.Loads project index location' child') : location = location' ∧ child = child' := by
  obtain ⟨file, hfile, rfl, hchild⟩ := h
  obtain ⟨file', hfile', rfl, hchild'⟩ := h'
  obtain rfl := hfile.unique hfile'
  exact ⟨rfl, Except.ok.inj (hchild.symm.trans hchild')⟩

theorem not_taken_zero : ¬a.Taken project 0 artifactId := by
  rintro ⟨earlier, hearlier, -⟩
  exact Nat.not_lt_zero earlier hearlier

theorem taken_succ_iff :
    a.Taken project (index + 1) artifactId ↔ a.Taken project index artifactId ∨
      ∃ location sibling, a.Loads project index location sibling ∧
        sibling.artifactId = artifactId := by
  constructor
  · rintro ⟨earlier, hearlier, hloads⟩
    rcases Nat.lt_succ_iff_lt_or_eq.1 hearlier with hearlier | rfl
    · exact .inl ⟨earlier, hearlier, hloads⟩
    · exact .inr hloads
  · rintro (⟨earlier, hearlier, hloads⟩ | hloads)
    · exact ⟨earlier, Nat.lt_succ_of_lt hearlier, hloads⟩
    · exact ⟨index, Nat.lt_succ_self index, hloads⟩

theorem LeadsTo.initial (h : a.LeadsTo branch project place reached last) :
    branch <+: reached := by
  induction h with
  | here branch project => exact List.prefix_rfl
  | module hmodule hbelow ih => exact (List.prefix_append _ _).trans ih

/-! ## Cycles along one step -/

theorem not_cycleAt_nil : ¬a.CycleAt branch project [] chain := by
  rintro ⟨above, index, reached, last, visit, hplace, -⟩
  exact absurd hplace.symm (by simp)

/-- A cycle is closed by a module of the project itself or below a module that is resolved. -/
theorem cycleAt_cons_iff :
    a.CycleAt branch project (index :: place) chain ↔
      (place = [] ∧ ∃ visit, a.ClosesCycle branch project index visit ∧
        chain = branch.map (·.artifactId) ++ [visit.artifactId]) ∨
      ∃ location child, a.Resolves project index location child ∧
        a.CycleAt (branch ++ [⟨location, child.artifactId⟩]) child place chain := by
  constructor
  · rintro ⟨above, lastIndex, reached, last, visit, hplace, hleads, hcloses, hchain⟩
    cases hleads with
    | here =>
      obtain ⟨rfl, rfl⟩ := List.cons.inj hplace
      exact .inl ⟨rfl, visit, hcloses, hchain⟩
    | module hmodule hbelow =>
      rw [List.cons_append] at hplace
      obtain ⟨rfl, rfl⟩ := List.cons.inj hplace
      exact .inr ⟨_, _, hmodule, _, _, _, _, visit, rfl, hbelow, hcloses, hchain⟩
  · rintro (⟨rfl, visit, hcloses, hchain⟩ | ⟨location, child, hmodule, hbelow⟩)
    · exact ⟨[], index, branch, project, visit, rfl, .here branch project, hcloses, hchain⟩
    · obtain ⟨above, lastIndex, reached, last, visit, rfl, hleads, hcloses, hchain⟩ := hbelow
      exact ⟨index :: above, lastIndex, reached, last, visit, rfl, .module hmodule hleads, hcloses,
        hchain⟩

theorem CycleAt.nodup (h : a.CycleAt branch project place chain) :
    (branch.map (·.location)).Nodup := by
  obtain ⟨above, index, reached, last, visit, -, hleads, ⟨hnodup, -⟩, -⟩ := h
  exact (hleads.initial.map (·.location)).sublist.nodup hnodup

theorem CycleAt.lt_length (h : a.CycleAt branch project (index :: place) chain) :
    index < project.modules.length := by
  rcases cycleAt_cons_iff.1 h with ⟨-, visit, ⟨-, -, file, hfile, -⟩, -⟩ |
    ⟨location, child, ⟨⟨file, hfile, -⟩, -⟩, -⟩
  · exact hfile.lt_length
  · exact hfile.lt_length

/-- The cycles below a project at and after the module with the given index. -/
def CycleFrom (a : Aggregation) (branch : List Visit) (project : Project) (index : Nat)
    (place : List Nat) (chain : List String) : Prop :=
  a.CycleAt branch project place chain ∧ ∀ first ∈ place.head?, index ≤ first

theorem cycleFrom_zero_iff :
    a.CycleFrom branch project 0 place chain ↔ a.CycleAt branch project place chain :=
  and_iff_left fun first _ ↦ Nat.zero_le first

theorem cycleFrom_iff :
    a.CycleFrom branch project index place chain ↔
      (∃ below, place = index :: below ∧ a.CycleAt branch project place chain) ∨
        a.CycleFrom branch project (index + 1) place chain := by
  unfold CycleFrom
  cases place with
  | nil => simp [not_cycleAt_nil]
  | cons first below =>
    have hfirst : index ≤ first ↔ first = index ∨ index + 1 ≤ first := by omega
    simp only [List.head?_cons, Option.mem_def, Option.some.injEq, forall_eq', List.cons.injEq,
      hfirst, and_or_left]
    refine or_congr_left ?_
    constructor
    · rintro ⟨h, rfl⟩
      exact ⟨below, ⟨rfl, rfl⟩, h⟩
    · rintro ⟨below, ⟨rfl, rfl⟩, h⟩
      exact ⟨h, rfl⟩

/-- After the last module there is no cycle. -/
theorem not_cycleFrom_of_drop (h : project.modules.drop index = []) :
    ¬a.CycleFrom branch project index place chain := by
  rintro ⟨hcycle, hfirst⟩
  cases place with
  | nil => exact not_cycleAt_nil hcycle
  | cons first below =>
    have hlast : project.modules.length ≤ index := List.drop_eq_nil_iff.1 h
    have hindex : index ≤ first := hfirst first rfl
    exact absurd (Nat.le_trans hlast hindex) (Nat.not_le.2 hcycle.lt_length)

theorem CycleFrom.lt {below : List Nat} (h : a.CycleFrom branch project (index + 1) place chain) :
    index :: below < place := by
  obtain ⟨hcycle, hfirst⟩ := h
  cases place with
  | nil => exact absurd hcycle not_cycleAt_nil
  | cons first rest => exact List.cons_lt_cons_iff.2 (.inl (hfirst first rfl))

/-! ## What a turn says about cycles -/

theorem cycleOf_of_mem (hnodup : (branch.map (·.location)).Nodup) (hvisit : visit ∈ branch) :
    cycleOf branch visit.location = branch.map (·.artifactId) ++ [visit.artifactId] := by
  have hold : visit.location ∈ branch.map (·.location) := List.mem_map_of_mem hvisit
  have hfound := List.find?_isSome.2 (List.any_eq_true.1 (onBranch_iff.2 hold))
  obtain ⟨found, hfound⟩ := Option.isSome_iff_exists.1 hfound
  have hlocation : found.location = visit.location := by simpa using List.find?_some hfound
  obtain rfl := List.inj_on_of_nodup_map hnodup (List.mem_of_find?_eq_some hfound) hvisit hlocation
  rw [cycleOf, hfound, Option.map_some, Option.toList_some]

section Turns

variable (hname : project.modules[index]? = some name)
  (hsiblings : ∀ artifactId, artifactId ∈ siblings ↔ a.Taken project index artifactId)

include hname

theorem locates_iff :
    a.Locates project index file ↔
      a.loader.locate? a.fs (moduleDirectory project name) = some file := by
  simp [Locates, hname]

/-- The modules whose turn is cyclic are those that lead back to an entry of the branch. -/
theorem turn_eq_cyclic_iff (hnodup : (branch.map (·.location)).Nodup) :
    a.turn branch project siblings name = .cyclic chain ↔
      ∃ visit, a.ClosesCycle branch project index visit ∧
        chain = branch.map (·.artifactId) ++ [visit.artifactId] := by
  constructor
  · intro h
    unfold turn at h
    split at h
    · cases h
    · rename_i file hfile
      split at h
      · rename_i hold
        obtain rfl := Turn.cyclic.inj h
        obtain ⟨visit, hvisit, hlocation⟩ := List.mem_map.1 (onBranch_iff.1 hold)
        refine ⟨visit, ⟨hnodup, hvisit, file, (locates_iff hname).2 hfile, hlocation.symm⟩, ?_⟩
        rw [← hlocation, cycleOf_of_mem hnodup hvisit]
      · split at h <;> cases h
  · rintro ⟨visit, ⟨-, hvisit, file, hfile, hlocation⟩, rfl⟩
    have hold : a.fs.canonical file ∈ branch.map (·.location) :=
      hlocation ▸ List.mem_map_of_mem hvisit
    unfold turn
    simp only [(locates_iff hname).1 hfile, onBranch_iff.2 hold, if_true]
    rw [hlocation, cycleOf_of_mem hnodup hvisit]

include hsiblings

/-- The modules whose turn is resolved are those that are resolved at a new location. -/
theorem turn_eq_resolved_iff :
    a.turn branch project siblings name = .resolved location child ↔
      a.Resolves project index location child ∧ location ∉ branch.map (·.location) := by
  constructor
  · intro h
    obtain ⟨file, hfile, hlocation, hnew, hchild⟩ := turn_eq_resolved h
    obtain ⟨hloads, hfree⟩ := moduleProject_eq_ok_iff.1 hchild
    rw [hsiblings] at hfree
    refine ⟨⟨⟨file, (locates_iff hname).2 hfile, hlocation, hloads⟩, hfree⟩, fun hold ↦ ?_⟩
    rw [onBranch_iff.2 hold] at hnew
    cases hnew
  · rintro ⟨⟨⟨file, hfile, rfl, hloads⟩, hfree⟩, hnew⟩
    rw [← hsiblings] at hfree
    have hchild := moduleProject_eq_ok_iff.2 ⟨hloads, hfree⟩
    unfold turn
    simp [(locates_iff hname).1 hfile, mt onBranch_iff.1 hnew, hchild]

/-- A cycle is closed by a module with a cyclic turn or below one with a resolved turn. -/
theorem cycleAt_cons_iff_turn (hnodup : (branch.map (·.location)).Nodup) :
    a.CycleAt branch project (index :: place) chain ↔
      (place = [] ∧ a.turn branch project siblings name = .cyclic chain) ∨
      ∃ location child, a.turn branch project siblings name = .resolved location child ∧
        a.CycleAt (branch ++ [⟨location, child.artifactId⟩]) child place chain := by
  simp only [cycleAt_cons_iff, turn_eq_cyclic_iff hname hnodup,
    turn_eq_resolved_iff hname hsiblings]
  refine or_congr_right ⟨?_, ?_⟩
  · rintro ⟨location, child, hmodule, hbelow⟩
    exact ⟨location, child, ⟨hmodule, (nodup_locations_append_iff.1 hbelow.nodup).1⟩, hbelow⟩
  · rintro ⟨location, child, ⟨hmodule, -⟩, hbelow⟩
    exact ⟨location, child, hmodule, hbelow⟩

/-- The cycles from a module on are those that its turn tells of and those of its later siblings. -/
theorem cycleFrom_iff_turn (hnodup : (branch.map (·.location)).Nodup) (place : List Nat)
    (chain : List String) :
    a.CycleFrom branch project index place chain ↔
      (∃ below, place = index :: below ∧ ((below = [] ∧
        a.turn branch project siblings name = .cyclic chain) ∨
        ∃ location child, a.turn branch project siblings name = .resolved location child ∧
          a.CycleAt (branch ++ [⟨location, child.artifactId⟩]) child below chain)) ∨
      a.CycleFrom branch project (index + 1) place chain := by
  rw [cycleFrom_iff]
  refine or_congr_left (exists_congr fun below ↦ and_congr_right ?_)
  rintro rfl
  exact cycleAt_cons_iff_turn hname hsiblings hnodup

/-- A module that fails takes no artifact id: if it was resolved, then as a duplicate. -/
theorem mem_iff_of_failed (hnodup : (branch.map (·.location)).Nodup)
    (h : a.turn branch project siblings name = .failed cause) (artifactId : String) :
    artifactId ∈ siblings ↔ a.Taken project (index + 1) artifactId := by
  rw [taken_succ_iff, ← hsiblings]
  refine (or_iff_left_of_imp ?_).symm
  rintro ⟨location, sibling, hloads, rfl⟩
  by_contra hfree
  have hmodule : a.Resolves project index location sibling := ⟨hloads, mt (hsiblings _).2 hfree⟩
  by_cases hold : location ∈ branch.map (·.location)
  · obtain ⟨visit, hvisit, hlocation⟩ := List.mem_map.1 hold
    obtain ⟨file, hfile, hcanonical, -⟩ := hloads
    have hcloses : a.ClosesCycle branch project index visit :=
      ⟨hnodup, hvisit, file, hfile, hcanonical.trans hlocation.symm⟩
    rw [(turn_eq_cyclic_iff hname hnodup).2 ⟨visit, hcloses, rfl⟩] at h
    cases h
  · rw [(turn_eq_resolved_iff hname hsiblings).2 ⟨hmodule, hold⟩] at h
    cases h

/-- A module that is resolved takes its artifact id. -/
theorem mem_cons_iff_of_resolved
    (h : a.turn branch project siblings name = .resolved location child) (artifactId : String) :
    artifactId ∈ child.artifactId :: siblings ↔ a.Taken project (index + 1) artifactId := by
  obtain ⟨⟨hloads, -⟩, -⟩ := (turn_eq_resolved_iff hname hsiblings).1 h
  rw [taken_succ_iff, ← hsiblings, List.mem_cons, or_comm]
  refine or_congr_right ⟨?_, ?_⟩
  · rintro rfl
    exact ⟨location, child, hloads, rfl⟩
  · rintro ⟨location', sibling, hsibling, rfl⟩
    rw [(hloads.unique hsibling).2]

end Turns

/-! ## The first cycle -/

/-- Whether an outcome reports the first of the given cycles, or succeeds because there is none. -/
inductive EndsAtFirst {α : Type} (cycle : List Nat → List String → Prop) :
    Except Failure α → Prop
  | none {value : α} (h : ∀ place chain, ¬cycle place chain) : EndsAtFirst cycle (.ok value)
  | first {place : List Nat} {chain : List String} (h : cycle place chain)
    (hfirst : ∀ place' chain', cycle place' chain' → place < place' ∨
      place' = place ∧ chain' = chain) : EndsAtFirst cycle (.error (.cyclic chain))

namespace EndsAtFirst

variable {α β : Type} {cycle below later : List Nat → List String → Prop}

theorem map {outcome : Except Failure α} (h : EndsAtFirst cycle outcome) (f : α → β) :
    EndsAtFirst cycle (f <$> outcome) := by
  cases h with
  | none h => exact .none h
  | first h hfirst => exact .first h hfirst

theorem congr {outcome : Except Failure α} (h : EndsAtFirst below outcome)
    (hcycle : ∀ place chain, cycle place chain ↔ below place chain) :
    EndsAtFirst cycle outcome := by
  obtain rfl : cycle = below := by
    funext place chain
    exact propext (hcycle place chain)
  exact h

/-- The cycles below a resolved module come before those of its later siblings. -/
theorem resolved {tree : Except Failure ProjectTree} {others : Except Failure (List ModuleEntry)}
    (htree : EndsAtFirst below tree) (hothers : EndsAtFirst later others)
    (hcycle : ∀ place chain, cycle place chain ↔
      (∃ rest, place = index :: rest ∧ below rest chain) ∨ later place chain)
    (hlater : ∀ place chain, later place chain → ∀ rest, index :: rest < place) :
    EndsAtFirst cycle
      (do
        let tree ← tree
        let others ← others
        .ok (.resolved tree :: others)) := by
  cases htree with
  | @first place chain h hfirst =>
    have hchild : cycle (index :: place) chain := (hcycle _ _).2 (.inl ⟨place, rfl, h⟩)
    refine .first hchild fun place' chain' h' ↦ ?_
    rcases (hcycle _ _).1 h' with ⟨rest, rfl, hrest⟩ | h'
    · rw [List.cons_lt_cons_iff]
      rcases hfirst _ _ hrest with hlt | ⟨rfl, rfl⟩
      · exact .inl (.inr ⟨rfl, hlt⟩)
      · exact .inr ⟨rfl, rfl⟩
    · exact .inl (hlater _ _ h' _)
  | none hnone =>
    have hlaterOnly (place : List Nat) (chain : List String) :
        cycle place chain ↔ later place chain := by
      simp [hcycle, hnone]
    exact (hothers.congr hlaterOnly).map _

/-! ### What the first cycle says about an outcome -/

variable {outcome : Except Failure α}

theorem exists_error_iff (h : EndsAtFirst cycle outcome) :
    (∃ failure, outcome = .error failure) ↔ ∃ place chain, cycle place chain := by
  cases h with
  | none h => simp [h]
  | first h _ => exact iff_of_true ⟨_, rfl⟩ ⟨_, _, h⟩

theorem eq_error_iff (h : EndsAtFirst cycle outcome) {failure : Failure} :
    outcome = .error failure ↔ ∃ place chain, cycle place chain ∧
      (∀ place' chain', cycle place' chain' → ¬place' < place) ∧ failure = .cyclic chain := by
  cases h with
  | none h => simp [h]
  | @first place chain h hfirst =>
    constructor
    · rintro ⟨⟩
      refine ⟨place, chain, h, fun place' chain' h' ↦ ?_, rfl⟩
      rcases hfirst _ _ h' with hlt | ⟨rfl, -⟩
      · exact List.lt_asymm hlt
      · exact List.lt_irrefl _
    · rintro ⟨place', chain', h', hfirst', rfl⟩
      rcases hfirst _ _ h' with hlt | ⟨-, rfl⟩
      · exact absurd hlt (hfirst' _ _ h)
      · rfl

end EndsAtFirst

section Collecting

variable (hmode : a.config.errorMode = .collectAll) (hdeadline : a.config.deadline = none)

include hmode hdeadline

/-- The outcome of the modules from one on tells of the first cycle from this module on. The
induction carries that the locations on the branch are different, and that the artifact ids of the
earlier modules are known. -/
theorem entries_endsAtFirst (branch : List Visit) (path : ModulePath) (project : Project)
    (index : Nat) (siblings names : List String) (hnames : project.modules.drop index = names)
    (hnodup : (branch.map (·.location)).Nodup)
    (hsiblings : ∀ artifactId, artifactId ∈ siblings ↔ a.Taken project index artifactId) :
    EndsAtFirst (a.CycleFrom branch project index)
      (a.entries branch path project index siblings names) := by
  induction branch, path, project, index, siblings, names using entries_induction a with
  | nil branch path project index siblings =>
    rw [entries_nil]
    exact .none fun place chain ↦ not_cycleFrom_of_drop hnames
  | cons branch path project index siblings name rest hrest hchild =>
    have hname : project.modules[index]? = some name := by
      rw [← List.head?_drop, hnames, List.head?_cons]
    have hnames' : project.modules.drop (index + 1) = rest := by
      simpa using congrArg List.tail hnames
    have hstep := cycleFrom_iff_turn hname hsiblings hnodup
    rw [entries_cons, overdue?_eq_none hdeadline]
    cases hturn : a.turn branch project siblings name with
    | failed cause =>
      simp only [record_collectAll a _ _ _ _ _ hmode]
      have htaken := mem_iff_of_failed hname hsiblings hnodup hturn
      refine ((hrest siblings hnames' hnodup htaken).congr ?_).map _
      simpa [hturn] using hstep
    | cyclic chain =>
      have hcycle : a.CycleFrom branch project index [index] chain :=
        (hstep _ _).2 (.inl ⟨[], rfl, .inl ⟨rfl, hturn⟩⟩)
      refine .first hcycle fun place' chain' h' ↦ ?_
      rcases (hstep _ _).1 h' with ⟨below, rfl, ⟨rfl, hchain⟩ | ⟨location, child, hchild, -⟩⟩ | h'
      · exact .inr ⟨rfl, Turn.cyclic.inj (hchain.symm.trans hturn)⟩
      · exact absurd (hchild.symm.trans hturn) (by simp)
      · exact .inl h'.lt
    | resolved location child =>
      obtain ⟨-, hnew⟩ := (turn_eq_resolved_iff hname hsiblings).1 hturn
      have hbelow := hchild location child hturn rfl (nodup_locations_append_iff.2 ⟨hnew, hnodup⟩)
        (by simp [not_taken_zero])
      have htaken := mem_cons_iff_of_resolved hname hsiblings hturn
      simp only [subtree_eq]
      refine .resolved (hbelow.map _) (hrest _ hnames' hnodup htaken) ?_ fun _ _ h _ ↦ h.lt
      simpa [hturn, cycleFrom_zero_iff] using hstep

theorem tree_endsAtFirst (root : Project) :
    EndsAtFirst (a.CycleAt (a.rootBranch root) root) (a.tree root) := by
  rw [tree, subtree_eq]
  refine ((entries_endsAtFirst hmode hdeadline _ _ root 0 [] _ rfl ?_ ?_).congr ?_).map _
  · exact List.nodup_singleton _
  · simp [not_taken_zero]
  · exact fun place chain ↦ cycleFrom_zero_iff.symm

end Collecting

/-! ## The branches of a tree -/

/-- The locations on a branch that continues through an aggregated tree are different. -/
theorem nodup_of_subtree {tree : ProjectTree} {trees : List ProjectTree}
    (h : a.subtree branch path project = .ok tree) (hnodup : (branch.map (·.location)).Nodup)
    (htrees : List.IsChain (fun tree child ↦ child ∈ tree.children) (tree :: trees)) :
    (branch.map (·.location) ++ trees.map (·.project.location)).Nodup ∧
      ∀ descendant ∈ trees, ∃ file, a.fs.canonical? file = some descendant.project.location := by
  induction trees generalizing branch path project tree with
  | nil => simpa using hnodup
  | cons child rest ih =>
    obtain ⟨hchild, hrest⟩ := List.isChain_cons_cons.1 htrees
    obtain ⟨name, siblings, location, hturn, hsubtree⟩ := exists_turn_of_mem_children h hchild
    obtain ⟨file, hfile, rfl, hnew, hmodule⟩ := turn_eq_resolved hturn
    obtain ⟨d, hload, hresolve⟩ := moduleProject_eq_ok hmodule
    have hlocation : a.fs.canonical file = child.project.location := by
      rw [Loader.canonical_of_load hfile hload, Project.location_of_resolve hresolve]
    have hdistinct : a.fs.canonical file ∉ branch.map (·.location) := by
      rw [← onBranch_iff, hnew]
      exact Bool.false_ne_true
    obtain ⟨hall, hcanonical⟩ :=
      ih hsubtree (nodup_locations_append_iff.2 ⟨hdistinct, hnodup⟩) hrest
    rw [List.map_append, List.map_singleton, hlocation, List.append_assoc] at hall
    refine ⟨hall, fun descendant hdescendant ↦ ?_⟩
    rcases List.mem_cons.1 hdescendant with rfl | hdescendant
    · obtain ⟨located, -, hlocated⟩ := Option.bind_eq_some_iff.1 (Loader.load_eq_ok_iff.1 hload).1
      exact ⟨located, Project.location_of_resolve hresolve ▸ hlocated⟩
    · exact hcanonical descendant hdescendant

/-- Aggregation that collects failures, without a deadline, fails on exactly the projects with a
module cycle below them. It reports the artifact ids on the cycle that comes first in depth-first
order. If it succeeds, the descriptors on every branch of the tree are at different canonical
locations. -/
theorem tree_cyclic_iff (hmode : a.config.errorMode = .collectAll)
    (hdeadline : a.config.deadline = none) (root : Project) :
    ((∃ failure, a.tree root = .error failure) ↔
      ∃ place chain, a.CycleAt (a.rootBranch root) root place chain) ∧
    (∀ failure, a.tree root = .error failure ↔
      ∃ place chain, a.CycleAt (a.rootBranch root) root place chain ∧
        (∀ place' chain', a.CycleAt (a.rootBranch root) root place' chain' → ¬place' < place) ∧
        failure = .cyclic chain) ∧
    ∀ tree trees, a.tree root = .ok tree →
      List.IsChain (fun tree child ↦ child ∈ tree.children) (tree :: trees) →
      (a.fs.canonical root.location :: trees.map (·.project.location)).Nodup ∧
        ∀ descendant ∈ trees, ∃ file,
          a.fs.canonical? file = some descendant.project.location := by
  have hends := tree_endsAtFirst hmode hdeadline root
  refine ⟨hends.exists_error_iff, fun failure ↦ hends.eq_error_iff, ?_⟩
  intro tree trees htree htrees
  exact nodup_of_subtree htree (List.nodup_singleton _) htrees

/-- A project that lists its own descriptor after another module. Its location is that of the
descriptor, but with a slash at the end, so that it leads nowhere as it is written. -/
def selfListing : Project :=
  { Engine.upperProject with modules := ["b.json", "a.json"], location := "/a.json/" }

theorem rootBranch_selfListing :
    besideTwoFiles.rootBranch selfListing = [⟨"/a.json", "a"⟩] := by
  have hcanonical : besideTwoFiles.fs.canonical selfListing.location = "/a.json" :=
    Engine.canonical_slash
  rw [rootBranch, hcanonical]
  rfl

theorem locates_selfListing :
    besideTwoFiles.Locates selfListing 0 "/b.json" ∧
      besideTwoFiles.Locates selfListing 1 "/a.json" :=
  ⟨⟨"b.json", rfl, Loader.locate?_of_isFile Engine.isFile_twoFiles.2⟩,
    ⟨"a.json", rfl, Loader.locate?_of_isFile Engine.isFile_twoFiles.1⟩⟩

theorem cycleAt_selfListing :
    besideTwoFiles.CycleAt [⟨"/a.json", "a"⟩] selfListing [1] ["a", "a"] := by
  refine cycleAt_cons_iff.2 (.inl ⟨rfl, ⟨"/a.json", "a"⟩, ?_, rfl⟩)
  refine ⟨List.nodup_singleton _, List.mem_singleton_self _, "/a.json", locates_selfListing.2, ?_⟩
  exact Engine.canonical_twoFiles.1

/-- The first module leads to a project without modules. -/
theorem not_cycleAt_selfListing_zero :
    ¬besideTwoFiles.CycleAt [⟨"/a.json", "a"⟩] selfListing (0 :: place) chain := by
  have hcanonical : besideTwoFiles.fs.canonical "/b.json" = "/b.json" :=
    Engine.canonical_twoFiles.2
  intro h
  rcases cycleAt_cons_iff.1 h with ⟨-, visit, ⟨-, hvisit, file, hfile, hlocation⟩, -⟩ |
    ⟨location, child, ⟨⟨file, hfile, -, hchild⟩, -⟩, hbelow⟩
  · obtain rfl := hfile.unique locates_selfListing.1
    rw [List.mem_singleton.1 hvisit, hcanonical] at hlocation
    exact absurd hlocation (by decide)
  · obtain rfl := hfile.unique locates_selfListing.1
    obtain ⟨d, hload, hresolve⟩ := bind_eq_ok.1 hchild
    obtain rfl := Except.ok.inj (hload.symm.trans Engine.load_lowerFile)
    have hmodules : child.modules = [] := by
      obtain rfl := Except.ok.inj hresolve
      rfl
    cases place with
    | nil => exact not_cycleAt_nil hbelow
    | cons next below => exact absurd hbelow.lt_length (by simp [hmodules])

theorem tree_selfListing : besideTwoFiles.tree selfListing = .error (.cyclic ["a", "a"]) := by
  obtain ⟨-, hfailure, -⟩ := @tree_cyclic_iff besideTwoFiles rfl rfl selfListing
  rw [rootBranch_selfListing] at hfailure
  refine (hfailure _).2 ⟨[1], ["a", "a"], cycleAt_selfListing, fun place' chain' h hlt ↦ ?_, rfl⟩
  cases place' with
  | nil => exact not_cycleAt_nil h
  | cons first below =>
    have hzero : first = 0 := by
      rcases List.cons_lt_cons_iff.1 hlt with hfirst | ⟨-, hbelow⟩
      · exact Nat.lt_one_iff.1 hfirst
      · exact absurd hbelow (List.not_lt_nil _)
    subst hzero
    exact not_cycleAt_selfListing_zero h

end Reactor.Aggregation
