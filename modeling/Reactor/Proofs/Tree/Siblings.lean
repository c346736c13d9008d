import Mathlib.Data.List.Pairwise
import Reactor.Proofs.Tree.Completeness
import Reactor.Proofs.Tree.ParentView

/-!
# Siblings

The modules of a project are resolved one after the other, each below a parent that lists all of
them. What becomes of a module nevertheless does not depend on its siblings, unless one of them has
taken its artifact id: the list of the parent counts for nothing below it, and a turn depends on the
earlier siblings through their artifact ids only. A project that lists some of its modules, in any
order, therefore has the same entries for them.
-/

namespace Reactor

namespace ModuleEntry

/-- Whether a module failed because an earlier sibling has its artifact id. -/
def IsDuplicate (entry : ModuleEntry) : Prop :=
  ∃ name path inner location artifactId,
    entry = .failed name path (.module inner (.malformed location (.siblingArtifactId artifactId)))

def artifactId? (entry : ModuleEntry) : Option String :=
  entry.tree?.map (·.project.artifactId)

/-- Whether two modules take no artifact id in common. -/
def Apart (entry entry' : ModuleEntry) : Prop :=
  ∀ artifactId, entry.artifactId? = some artifactId → entry'.artifactId? ≠ some artifactId

instance : Std.Symm Apart where
  symm _ _ h artifactId htaken' htaken := h artifactId htaken htaken'

theorem nodup_artifactIds_iff {entries : List ModuleEntry} :
    (entries.filterMap artifactId?).Nodup ↔ entries.Pairwise Apart := by
  rw [List.Nodup, List.pairwise_filterMap]
  apply List.Pairwise.iff
  intro entry entry'
  constructor
  · intro h artifactId htaken htaken'
    exact h artifactId htaken artifactId htaken' rfl
  · rintro h artifactId htaken _ htaken' rfl
    exact h artifactId htaken htaken'

def condense : ModuleEntry → ModuleEntry
  | resolved tree => resolved tree.condense
  | failed name path failure => failed name path failure

theorem condenseEntries_singleton (entry : ModuleEntry) :
    ProjectTree.condenseEntries [entry] = [entry.condense] := by
  cases entry <;> simp only [ProjectTree.condenseEntries, condense]

theorem name_condense (entry : ModuleEntry) : entry.condense.name = entry.name := by
  cases entry with
  | failed name path failure => rfl
  | resolved tree =>
    cases tree
    simp only [condense, ProjectTree.condense, name]

theorem artifactId?_condense (entry : ModuleEntry) :
    entry.condense.artifactId? = entry.artifactId? := by
  cases entry with
  | failed name path failure => rfl
  | resolved tree =>
    cases tree
    simp only [condense, ProjectTree.condense, artifactId?, tree?, Option.map_some]
    rfl

theorem name_eq_of_condense {entry entry' : ModuleEntry} (h : entry'.condense = entry.condense) :
    entry'.name = entry.name := by
  rw [← name_condense, h, name_condense]

/-- Entries of different names are apart if they are the same, in all that counts, as entries of a
list whose entries are. -/
theorem apart_of_pairwise {entries : List ModuleEntry} {entry other : ModuleEntry}
    (h : entries.Pairwise Apart) (hentry : ∃ before ∈ entries, entry.condense = before.condense)
    (hother : ∃ before ∈ entries, other.condense = before.condense)
    (hne : entry.name ≠ other.name) : Apart entry other := by
  obtain ⟨before, hbefore, hsame⟩ := hentry
  obtain ⟨before', hbefore', hsame'⟩ := hother
  have hdifferent : before ≠ before' := by
    rintro rfl
    exact hne ((name_eq_of_condense hsame).trans (name_eq_of_condense hsame').symm)
  intro artifactId
  rw [← artifactId?_condense, hsame, ← artifactId?_condense other, hsame', artifactId?_condense,
    artifactId?_condense]
  exact h.forall hbefore hbefore' hdifferent artifactId

/-- Entries that are the same in all that counts tell the same. -/
theorem toJson_congr {entry entry' : ModuleEntry} (h : entry'.condense = entry.condense) :
    ProjectTree.entriesToJson [entry'] = ProjectTree.entriesToJson [entry] := by
  rw [← ProjectTree.entriesToJson_condenseEntries, condenseEntries_singleton, h,
    ← condenseEntries_singleton, ProjectTree.entriesToJson_condenseEntries]

end ModuleEntry

namespace Aggregation

variable {a : Aggregation} {branch : List Visit} {path : ModulePath} {project project' : Project}
  {index : Nat} {siblings names : List String} {name : String} {outcomes : List ModuleEntry}

/-! ## Modules without siblings -/

/-- What a turn comes to when the artifact ids of some siblings are taken. -/
def Turn.among (siblings : List String) : Turn → Turn
  | .resolved location child =>
    if siblings.contains child.artifactId then
      .failed (.malformed child.location (.siblingArtifactId child.artifactId))
    else .resolved location child
  | turn => turn

theorem turn_eq_among (siblings : List String) :
    a.turn branch project siblings name = (a.turn branch project [] name).among siblings := by
  unfold turn moduleProject
  cases a.loader.locate? a.fs (moduleDirectory project name) with
  | none => rfl
  | some file =>
    dsimp only
    split
    · rfl
    · cases a.loadModule project file with
      | error cause => rfl
      | ok child =>
        by_cases htaken : siblings.contains child.artifactId = true
        · simp only [bind, Except.bind, htaken, if_true, List.contains_nil, Bool.false_eq_true,
            if_false, Turn.among]
        · simp only [bind, Except.bind, htaken, if_false, List.contains_nil, Bool.false_eq_true,
            Turn.among]

/-- What becomes of a module that has no siblings. -/
inductive Alone (a : Aggregation) (branch : List Visit) (path : ModulePath) (project : Project) :
    String → ModuleEntry → Prop
  | failed {name : String} {cause : Failure}
    (hturn : a.turn branch project [] name = .failed cause) :
    Alone a branch path project name
      (.failed name (path.child name) (.module (path.child name) cause))
  | resolved {name location : String} {tree : ProjectTree}
    (hturn : a.turn branch project [] name = .resolved location tree.project)
    (htree : a.subtree (branch ++ [⟨location, tree.project.artifactId⟩]) (path.child name)
      tree.project = .ok tree) :
    Alone a branch path project name (.resolved tree)

theorem Alone.name_eq {entry : ModuleEntry} (h : a.Alone branch path project name entry) :
    entry.name = name := by
  cases h with
  | failed hturn => rfl
  | resolved hturn htree =>
    obtain ⟨hpath, -⟩ := parts_of_subtree htree
    exact ModuleEntry.name_resolved hpath

theorem turn_alone_of_resolved {location : String} {child : Project}
    (h : a.turn branch project siblings name = .resolved location child) :
    a.turn branch project [] name = .resolved location child := by
  rw [turn_eq_among] at h
  unfold Turn.among at h
  split at h
  · rename_i hturn
    split at h
    · cases h
    · rw [hturn, h]
  · exact h

theorem turn_alone_of_failed {cause : Failure}
    (h : a.turn branch project siblings name = .failed cause)
    (hcause : ∀ location artifactId, cause ≠ .malformed location (.siblingArtifactId artifactId)) :
    a.turn branch project [] name = .failed cause := by
  rw [turn_eq_among] at h
  unfold Turn.among at h
  split at h
  · split at h
    · exact absurd (Turn.failed.inj h).symm (hcause _ _)
    · cases h
  · exact h

/-- If no artifact id comes up twice, each module comes to what it comes to alone. -/
theorem alone_of_entries
    (h : a.entries branch path project index siblings names = .ok outcomes)
    (hduplicate : ∀ entry ∈ outcomes, ¬entry.IsDuplicate) :
    List.Forall₂ (a.Alone branch path project) names outcomes := by
  induction names generalizing index siblings outcomes with
  | nil =>
    rw [entries_nil] at h
    obtain rfl := Except.ok.inj h
    exact .nil
  | cons name rest ih =>
    rcases entries_cons_eq_ok h with ⟨cause, others, hturn, -, hothers, rfl⟩ |
      ⟨location, tree, others, hturn, htree, hothers, rfl⟩
    · obtain ⟨hfirst, hrest⟩ := List.forall_mem_cons.1 hduplicate
      refine .cons (.failed (turn_alone_of_failed hturn ?_)) (ih hothers hrest)
      rintro location artifactId rfl
      exact hfirst ⟨_, _, _, location, artifactId, rfl⟩
    · obtain ⟨-, hrest⟩ := List.forall_mem_cons.1 hduplicate
      exact .cons (.resolved (turn_alone_of_resolved hturn) htree) (ih hothers hrest)

/-- Modules that take different artifact ids come to what they come to alone. -/
theorem entries_of_alone (hmode : a.config.errorMode = .collectAll)
    (hdeadline : a.config.deadline = none)
    (h : List.Forall₂ (a.Alone branch path project) names outcomes)
    (hdistinct : (outcomes.filterMap ModuleEntry.artifactId?).Nodup)
    (hfree : ∀ artifactId ∈ outcomes.filterMap ModuleEntry.artifactId?, artifactId ∉ siblings) :
    a.entries branch path project index siblings names = .ok outcomes := by
  induction h generalizing index siblings with
  | nil => rw [entries_nil]
  | @cons name entry rest others hfirst _ ih =>
    rw [entries_cons, overdue?_eq_none hdeadline, turn_eq_among]
    cases hfirst with
    | failed hturn =>
      rw [hturn]
      simp only [Turn.among, record_collectAll a _ _ _ _ _ hmode]
      exact map_eq_ok.2 ⟨_, ih hdistinct hfree, rfl⟩
    | @resolved location tree hturn htree =>
      have htakes : (ModuleEntry.resolved tree).artifactId? = some tree.project.artifactId := rfl
      rw [List.filterMap_cons_some htakes] at hdistinct hfree
      obtain ⟨hnew, hrest⟩ := List.nodup_cons.1 hdistinct
      obtain ⟨hfirst, hothers⟩ := List.forall_mem_cons.1 hfree
      have hlater : ∀ artifactId ∈ others.filterMap ModuleEntry.artifactId?,
          artifactId ∉ tree.project.artifactId :: siblings := by
        intro artifactId hmem htaken
        rcases List.mem_cons.1 htaken with rfl | htaken
        · exact hnew hmem
        · exact hothers artifactId hmem htaken
      rw [hturn]
      simp only [Turn.among, List.contains_iff_mem, hfirst, if_false]
      refine bind_eq_ok.2 ⟨tree, htree, ?_⟩
      exact bind_eq_ok.2 ⟨others, ih hrest hlater, rfl⟩

/-- A module that has no siblings comes to the same below parents that are the same in all that
counts. -/
theorem Alone.transfer {entry : ModuleEntry} (hdeadline : a.config.deadline = none) (clock : Clock)
    (hproject : project.SameBelow project') (h : a.Alone branch path project name entry) :
    ∃ entry', Alone { a with clock } branch path project' name entry' ∧
      entry'.condense = entry.condense := by
  have hsame := @condense_turn a branch _ _ [] name hproject
  rw [← @turn_congr { a with clock } a rfl rfl rfl branch project'] at hsame
  cases h with
  | failed hturn =>
    rw [hturn] at hsame
    exact ⟨_, .failed (Turn.of_condense_eq_failed hsame.symm), rfl⟩
  | @resolved location tree hturn htree =>
    rw [hturn] at hsame
    obtain ⟨child', hturn', hchild⟩ := Turn.of_condense_eq_resolved hsame.symm
    have hartifactId : child'.artifactId = tree.project.artifactId := congrArg (·.artifactId) hchild
    have hbelow := @condense_entries a (branch ++ [⟨location, tree.project.artifactId⟩])
      (path.child name) _ _ 0 [] tree.project.modules hdeadline clock (.of_condense hchild.symm) 0
    have hsubtree := condense_subtree_of_entries hchild.symm hbelow
    rw [htree] at hsubtree
    obtain ⟨tree', htree', htrees⟩ := map_eq_ok.1 hsubtree.symm
    obtain ⟨-, rfl⟩ := parts_of_subtree htree'
    rw [← hartifactId] at htree'
    exact ⟨.resolved tree', .resolved hturn' htree', congrArg ModuleEntry.resolved htrees⟩

/-! ## Some of the modules -/

theorem pairwise_apart_of_entries
    (h : a.entries branch path project index siblings names = .ok outcomes) :
    outcomes.Pairwise ModuleEntry.Apart := by
  have hids := (account_of_entries h).1.artifactIds
  rw [List.map_filterMap] at hids
  exact ModuleEntry.nodup_artifactIds_iff.1 hids

/-- A module that is kept comes alone to what it came to among all modules. -/
theorem exists_alone_of_mem (hdeadline : a.config.deadline = none)
    (h : a.entries branch path project index siblings names = .ok outcomes)
    (hduplicate : ∀ entry ∈ outcomes, ¬entry.IsDuplicate) (clock : Clock)
    (hproject : project.SameBelow project') (hname : name ∈ names) :
    ∃ entry', Alone { a with clock } branch path project' name entry' ∧
      ∃ entry ∈ outcomes, entry'.condense = entry.condense := by
  obtain ⟨entry, hentry, halone⟩ := exists_of_forall₂ (alone_of_entries h hduplicate) hname
  obtain ⟨entry', halone', hsame⟩ := halone.transfer hdeadline clock hproject
  exact ⟨entry', halone', entry, hentry, hsame⟩

/-- Without artifact ids that come up twice, some of the modules, in any order, come to the same
outcomes as among all modules. -/
theorem entries_of_kept {kept : List String} (hmode : a.config.errorMode = .collectAll)
    (hdeadline : a.config.deadline = none)
    (h : a.entries branch path project index siblings names = .ok outcomes)
    (hduplicate : ∀ entry ∈ outcomes, ¬entry.IsDuplicate) (hkept : kept.Nodup)
    (hsubset : kept ⊆ names) (clock : Clock) (hproject : project.SameBelow project') :
    ∃ outcomes', entries { a with clock } branch path project' 0 [] kept = .ok outcomes' ∧
      ∀ entry' ∈ outcomes', ∃ entry ∈ outcomes, entry'.condense = entry.condense := by
  have hmode' : ({ a with clock } : Aggregation).config.errorMode = .collectAll := hmode
  have hrecord : ∀ name ∈ kept, ∃ entry', Alone { a with clock } branch path project' name entry' ∧
      ∃ entry ∈ outcomes, entry'.condense = entry.condense := fun name hname ↦
    exists_alone_of_mem hdeadline h hduplicate clock hproject (hsubset hname)
  have : Nonempty ModuleEntry := ⟨.failed "" ⟨[]⟩ (.notFound "")⟩
  choose! record halone hbefore using hrecord
  -- Modules that are kept are different, and different modules have taken different artifact ids.
  have hapart : (kept.map record).Pairwise ModuleEntry.Apart := by
    rw [List.pairwise_map]
    apply hkept.pairwise_of_forall_ne
    intro name hname other hother hne
    rw [← (halone name hname).name_eq, ← (halone other hother).name_eq] at hne
    exact ModuleEntry.apart_of_pairwise (pairwise_apart_of_entries h) (hbefore name hname)
      (hbefore other hother) hne
  refine ⟨kept.map record, ?_, ?_⟩
  · apply entries_of_alone hmode' hdeadline
    · rw [List.forall₂_map_right_iff, List.forall₂_same]
      exact halone
    · exact ModuleEntry.nodup_artifactIds_iff.2 hapart
    · exact fun _ _ ↦ List.not_mem_nil
  · intro entry' hentry'
    obtain ⟨name, hname, rfl⟩ := List.mem_map.1 hentry'
    exact hbefore name hname

/-- Siblings do not influence each other. If no module of a tree has failed for an artifact id that
an earlier sibling has, a project that lists some of the modules, in any order, has a tree, in which
the entry of each module tells the same as before. -/
theorem tree_of_kept_modules {tree : ProjectTree} {kept : List String}
    (hmode : a.config.errorMode = .collectAll) (hdeadline : a.config.deadline = none)
    (hnames : project.modules.Nodup) (h : a.tree project = .ok tree)
    (hduplicate : ∀ entry ∈ tree.modules, ¬entry.IsDuplicate)
    (hkept : kept.Nodup) (hsubset : kept ⊆ project.modules) (clock : Clock) :
    ∃ tree', Aggregation.tree { a with clock } { project with modules := kept } = .ok tree' ∧
      tree'.modules.map (·.name) = kept ∧
      ∀ entry ∈ tree.modules, ∀ entry' ∈ tree'.modules, entry'.name = entry.name →
        ProjectTree.entriesToJson [entry'] = ProjectTree.entriesToJson [entry] := by
  rw [Aggregation.tree, subtree_eq] at h
  obtain ⟨outcomes, houtcomes, rfl⟩ := map_eq_ok.1 h
  obtain ⟨outcomes', houtcomes', hsame⟩ := entries_of_kept hmode hdeadline houtcomes hduplicate
    hkept hsubset clock (project.sameBelow_with_modules kept)
  refine ⟨.ofProject (.root project.artifactId) { project with modules := kept } outcomes', ?_,
    ?_, ?_⟩
  · rw [Aggregation.tree, subtree_eq]
    exact map_eq_ok.2 ⟨outcomes', houtcomes', rfl⟩
  · exact (account_of_entries houtcomes').1.names
  · intro entry hentry entry' hentry' hname
    obtain ⟨before, hbefore, hsame⟩ := hsame entry' hentry'
    have hbeforeName : before.name = entry.name :=
      (ModuleEntry.name_eq_of_condense hsame).symm.trans hname
    rw [← (account_of_entries houtcomes).1.names] at hnames
    obtain rfl := List.inj_on_of_nodup_map hnames hbefore hentry hbeforeName
    exact ModuleEntry.toJson_congr hsame

open Engine (upperListing)

/-- The module without a file and the one with a file, listed the other way round. -/
theorem partlyPresent_reordered :
    ∃ tree', besideTwoFiles.tree (upperListing ["b.json", "gone"]) = .ok tree' ∧
      tree'.modules.map (·.name) = ["b.json", "gone"] ∧
      ∀ entry ∈ partlyPresentTree.modules, ∀ entry' ∈ tree'.modules, entry'.name = entry.name →
        ProjectTree.entriesToJson [entry'] = ProjectTree.entriesToJson [entry] := by
  have hduplicate : ∀ entry ∈ partlyPresentTree.modules, ¬entry.IsDuplicate := by
    intro entry hentry hduplicate
    obtain ⟨name, path, inner, location, artifactId, rfl⟩ := hduplicate
    rcases List.mem_cons.1 hentry with hgone | hpresent
    · cases hgone
    · cases List.mem_singleton.1 hpresent
  have hnames : partlyPresent.modules.Nodup := by decide
  have hkept : ["b.json", "gone"].Nodup := by decide
  have hsubset : ["b.json", "gone"] ⊆ partlyPresent.modules := by decide
  exact tree_of_kept_modules rfl rfl hnames tree_partlyPresent hduplicate hkept hsubset
    besideTwoFiles.clock

end Aggregation

end Reactor
