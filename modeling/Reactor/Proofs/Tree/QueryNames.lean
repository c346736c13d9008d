import Reactor.Proofs.Tree.Queries

/-!
# The names in a query

A query holds names between its slashes. Slashes that no name stands between, at either end or next
to each other, are not seen. In a tree in which the positions of the modules are named after them, a
query leads to the subtree whose names below the root it holds, and nowhere if there is none.
-/

namespace Reactor.ProjectTree

/-- Whether a query holds just the given names: it is joined by slashes from parts without a slash,
and these are the names apart from some parts that are empty. -/
def HoldsNames (query : String) (names : List String) : Prop :=
  ∃ parts, query = String.intercalate "/" parts ∧ (∀ part ∈ parts, '/' ∉ part.toList) ∧
    names = parts.filter (· ≠ "")

def slashes (count : Nat) : String :=
  String.ofList (List.replicate count '/')

variable {tree subtree : ProjectTree} {query : String} {names : List String}

/-! ## Queries and their names -/

theorem queryNames_intercalate {parts : List String} (h : ∀ part ∈ parts, '/' ∉ part.toList) :
    queryNames (String.intercalate "/" parts) = parts.filter (· ≠ "") := by
  cases parts with
  | nil => rfl
  | cons part rest =>
    have hsplit : Text.split '/' (String.intercalate "/" (part :: rest)) = part :: rest :=
      Text.split_eq_iff.2 ⟨rfl, List.cons_ne_nil part rest, h⟩
    rw [queryNames, hsplit]
    apply List.filter_congr
    intro name _
    simp

/-- A query holds the names that are looked for, and no others. -/
theorem holdsNames_iff : HoldsNames query names ↔ names = queryNames query := by
  constructor
  · rintro ⟨parts, rfl, hparts, rfl⟩
    rw [queryNames_intercalate hparts]
  · intro hnames
    have hsplit := Text.split_eq_iff.1 (Eq.refl (Text.split '/' query))
    have hquery : query = String.intercalate "/" (Text.split '/' query) := hsplit.1
    refine ⟨Text.split '/' query, hquery, hsplit.2.2, ?_⟩
    rw [hnames, ← queryNames_intercalate hsplit.2.2, ← hquery]

/-! ## Slashes -/

theorem queryNames_append_slash_append (before after : String) :
    queryNames (before ++ "/" ++ after) = queryNames before ++ queryNames after := by
  have hsplit : Text.split '/' (before ++ "/" ++ after) =
      Text.split '/' before ++ Text.split '/' after :=
    Text.split_append_singleton_append '/' before after
  rw [queryNames, hsplit, List.filter_append, queryNames, queryNames]

theorem slashes_succ (count : Nat) : slashes (count + 1) = "/" ++ slashes count := by
  apply String.toList_inj.1
  simp [slashes, List.replicate_succ]

theorem queryNames_slashes_append (count : Nat) (query : String) :
    queryNames (slashes count ++ query) = queryNames query := by
  induction count with
  | zero =>
    have hnone : slashes 0 ++ query = query := String.empty_append
    rw [hnone]
  | succ count ih =>
    have hsplit := queryNames_append_slash_append "" (slashes count ++ query)
    rw [String.empty_append, ← String.append_assoc, ← slashes_succ, ih] at hsplit
    exact hsplit

theorem queryNames_append_slashes_append (before after : String) (count : Nat) :
    queryNames (before ++ slashes (count + 1) ++ after) =
      queryNames before ++ queryNames after := by
  calc
    queryNames (before ++ slashes (count + 1) ++ after) =
        queryNames (before ++ "/" ++ (slashes count ++ after)) := by
      rw [slashes_succ]
      simp only [String.append_assoc]
    _ = queryNames before ++ queryNames after := by
      rw [queryNames_append_slash_append, queryNames_slashes_append]

theorem queryNames_append_slashes (query : String) (count : Nat) :
    queryNames (query ++ slashes count) = queryNames query := by
  cases count with
  | zero =>
    have hnone : query ++ slashes 0 = query := String.append_empty
    rw [hnone]
  | succ count =>
    have hnames := queryNames_append_slashes_append query "" count
    rw [String.append_empty] at hnames
    rw [hnames]
    exact List.append_nil _

theorem find?_congr {query' : String} (h : queryNames query = queryNames query') :
    tree.find? query = tree.find? query' := by
  rw [find?, h, ← find?]

/-! ## The subtree that a query leads to -/

/-- A tree has names if the trees of its modules have, and its modules are named, too. -/
theorem IsNamed.of_children
    (hposition : ∀ child ∈ tree.children, ∃ name, child.path = tree.path.child name)
    (hdistinct : (tree.children.map (·.path.last?)).Nodup)
    (hchildren : ∀ child ∈ tree.children, child.IsNamed) : tree.IsNamed where
  position := by
    intro subtree hsubtree
    rcases mem_walk_iff.1 hsubtree with rfl | ⟨child, hchild, hbelow⟩
    · exact hposition
    · exact (hchildren child hchild).position subtree hbelow
  distinct := by
    intro subtree hsubtree
    rcases mem_walk_iff.1 hsubtree with rfl | ⟨child, hchild, hbelow⟩
    · exact hdistinct
    · exact (hchildren child hchild).distinct subtree hbelow

/-- In a tree with names, a query leads to the subtree whose names below the root it holds, and it
leads nowhere if there is none. Slashes in front of it, behind it, and in addition to one within it
make no difference. -/
theorem find?_of_isNamed (h : tree.IsNamed) (query : String) :
    (∀ subtree, tree.find? query = some subtree ↔
      subtree ∈ tree.walk ∧ ∃ names, HoldsNames query names ∧
        subtree.path.segments = tree.path.segments ++ names) ∧
    (tree.find? query = none ↔
      ∀ subtree ∈ tree.walk, ∀ names, HoldsNames query names →
        subtree.path.segments ≠ tree.path.segments ++ names) ∧
    (∀ count, tree.find? (slashes count ++ query) = tree.find? query) ∧
    (∀ count, tree.find? (query ++ slashes count) = tree.find? query) ∧
    ∀ count after, tree.find? (query ++ slashes (count + 1) ++ after) =
      tree.find? (query ++ "/" ++ after) := by
  have hfound (subtree : ProjectTree) : tree.find? query = some subtree ↔
      subtree ∈ tree.walk ∧ ∃ names, HoldsNames query names ∧
        subtree.path.segments = tree.path.segments ++ names := by
    rw [find?, h.foldlM_child?_eq_some_iff]
    simp only [holdsNames_iff, exists_eq_left]
  refine ⟨hfound, ?_, ?_, ?_, ?_⟩
  · rw [Option.eq_none_iff_forall_not_mem]
    simp only [Option.mem_def, hfound, not_and, not_exists]
  · intro count
    exact find?_congr (queryNames_slashes_append count query)
  · intro count
    exact find?_congr (queryNames_append_slashes query count)
  · intro count after
    apply find?_congr
    rw [queryNames_append_slashes_append, queryNames_append_slash_append]

def bareTree (names : List String) (modules : List ModuleEntry) : ProjectTree :=
  ⟨⟨names⟩, "", default, modules⟩

def bottomTree : ProjectTree :=
  bareTree ["a", "b", "c"] []

def middleTree : ProjectTree :=
  bareTree ["a", "b"] [.resolved bottomTree]

/-- Three levels of projects. On the second level, a module is missing. -/
def topTree : ProjectTree :=
  bareTree ["a"] [.resolved middleTree, .failed "d" ⟨["a", "d"]⟩ (.notFound "d")]

theorem topTree_isNamed : topTree.IsNamed := by
  have hbottom : bottomTree.IsNamed := .of_children nofun List.nodup_nil nofun
  have hmiddle : middleTree.IsNamed := by
    apply IsNamed.of_children
    · exact List.forall_mem_singleton.2 ⟨"c", rfl⟩
    · exact List.nodup_singleton _
    · exact List.forall_mem_singleton.2 hbottom
  apply IsNamed.of_children
  · exact List.forall_mem_singleton.2 ⟨"b", rfl⟩
  · exact List.nodup_singleton _
  · exact List.forall_mem_singleton.2 hmiddle

theorem find?_topTree :
    topTree.IsNamed ∧ bottomTree ∈ topTree.walk ∧ HoldsNames "//b/c/" ["b", "c"] ∧
      topTree.find? "//b/c/" = some bottomTree ∧ topTree.find? "b//c" = some bottomTree := by
  have hwalk : bottomTree ∈ topTree.walk := by
    have hmiddle : bottomTree ∈ middleTree.walk :=
      mem_walk_iff.2 (.inr ⟨bottomTree, .head _, bottomTree.self_mem_walk⟩)
    exact mem_walk_iff.2 (.inr ⟨middleTree, .head _, hmiddle⟩)
  have hnames : HoldsNames "//b/c/" ["b", "c"] :=
    ⟨["", "", "b", "c", ""], by decide +kernel, by decide, by decide⟩
  have hnames' : HoldsNames "b//c" ["b", "c"] :=
    ⟨["b", "", "c"], by decide +kernel, by decide, by decide⟩
  have hfound := (find?_of_isNamed topTree_isNamed "//b/c/").1 bottomTree
  have hfound' := (find?_of_isNamed topTree_isNamed "b//c").1 bottomTree
  exact ⟨topTree_isNamed, hwalk, hnames, hfound.2 ⟨hwalk, _, hnames, rfl⟩,
    hfound'.2 ⟨hwalk, _, hnames', rfl⟩⟩

end Reactor.ProjectTree
