import Ratatoskr.Lib.Forest

/-!
# Sidebar.FolderTree

The folders of one account as a tree (`app/src/ui/sidebar/folders.rs`): `tree_sort`, with its cut at
`MAX_TREE_DEPTH` and the folders that the walk does not reach behind it.

* `linked` : the children that the walk finds are those of the parent map.
* `tree_sort_once` : every folder is listed once, at its depth or, where that is none, at the top.
-/

namespace Ratatoskr.Sidebar

open List
open Lib (climb Linked Rooted preorder)

/-- What the tree reads of a `NavigationFolder`. -/
structure AccountFolder where
  id : String
  parentId : Option String
  deriving DecidableEq

structure TreeNode where
  folder : AccountFolder
  depth : Nat

def maxTreeDepth : Nat := 10

/-- `walk` where `n` levels are left, the one of `depth` among them. -/
def walk (folders : List AccountFolder) : Nat → Nat → Option String → List TreeNode
  | 0, _, _ => []
  | n + 1, depth, parent =>
    (folders.filter fun f => f.parentId = parent).flatMap fun child =>
      ⟨child, depth⟩ :: walk folders n (depth + 1) (some child.id)

def inTree (folders : List AccountFolder) : List String :=
  (walk folders (maxTreeDepth + 1) 0 none).map (·.folder.id)

def treeSort (folders : List AccountFolder) : List TreeNode :=
  walk folders (maxTreeDepth + 1) 0 none ++ (folders.filter (·.id ∉ inTree folders)).map (⟨·, 0⟩)

/-- `none` stands for the top, the parent of the folders without one. -/
def parentOf (folders : List AccountFolder) : Option String → Option (Option String)
  | none => none
  | some id => (folders.find? fun f => f.id = id).map AccountFolder.parentId

def childrenOf (folders : List AccountFolder) (parent : Option String) : List (Option String) :=
  (folders.filter fun f => f.parentId = parent).map fun f => some f.id

/-- A node is outermost, or its parent is the last node before it that is not as deep. -/
def Nested (Outermost : TreeNode → Prop) (nodes : List TreeNode) : Prop :=
  ∀ before node after, nodes = before ++ node :: after → Outermost node ∨ ∃ front parent between,
    before = front ++ parent :: between ∧ some parent.folder.id = node.folder.parentId ∧
      parent.depth + 1 = node.depth ∧ ∀ m ∈ between, node.depth ≤ m.depth

theorem Nested.append {Outermost : TreeNode → Prop} {xs ys : List TreeNode} (hx : Nested Outermost xs)
    (hy : Nested Outermost ys) : Nested Outermost (xs ++ ys) := by
  intro before node after hsplit
  rcases append_eq_append_iff.mp hsplit with ⟨rest, rfl, hrest⟩ | ⟨block, rfl, hrest⟩
  · refine (hy rest node after hrest).imp_right ?_
    rintro ⟨front, parent, between, rfl, hparent⟩
    exact ⟨xs ++ front, parent, between, (append_assoc ..).symm, hparent⟩
  cases block with
  | nil => exact (hy [] node after hrest.symm).imp_right fun ⟨_, _, _, hnil, _⟩ => by simp at hnil
  | cons m block =>
    obtain ⟨rfl, -⟩ := List.cons.inj hrest
    exact hx before node block rfl

variable {folders : List AccountFolder}

section Distinct

variable (h : (folders.map AccountFolder.id).Nodup)

include h

theorem parentOf_some {f : AccountFolder} (hf : f ∈ folders) :
    parentOf folders (some f.id) = some f.parentId := by
  have hfind : folders.find? (fun g => g.id = f.id) = some f := by
    cases hg : folders.find? fun g => g.id = f.id with
    | none => simpa using find?_eq_none.mp hg f hf
    | some g =>
      have hid : g.id = f.id := by simpa using find?_some hg
      rw [inj_on_of_nodup_map h (mem_of_find?_eq_some hg) hf hid]
  rw [parentOf, hfind, Option.map_some]

theorem linked : Linked (parentOf folders) (childrenOf folders) where
  mem c p := by
    rw [childrenOf, mem_map]
    constructor
    · rintro ⟨f, hf, rfl⟩
      obtain ⟨hf, hp⟩ := mem_filter.mp hf
      rw [parentOf_some h hf, of_decide_eq_true hp]
    · intro hp
      cases c with
      | none => cases hp
      | some id =>
        obtain ⟨f, hf, hparent⟩ := Option.map_eq_some_iff.mp hp
        have hid : f.id = id := by simpa using find?_some hf
        exact ⟨f, mem_filter.mpr ⟨mem_of_find?_eq_some hf, decide_eq_true hparent⟩, congrArg some hid⟩
  nodup p := by
    have hids := (h.sublist ((filter_sublist (p := fun f => f.parentId = p)).map AccountFolder.id)).map
      (Option.some_injective _)
    rwa [map_map] at hids

/-- A node of the walk is as many steps below the start as its depth says. -/
theorem mem_walk {n depth : Nat} {parent : Option String} {node : TreeNode} :
    node ∈ walk folders n depth parent ↔ node.folder ∈ folders ∧ ∃ k < n, node.depth = depth + k ∧
      climb (parentOf folders) (k + 1) (some node.folder.id) = some parent := by
  induction n generalizing depth parent with
  | zero => simp [walk]
  | succ n ih =>
    rw [walk, mem_flatMap]
    constructor
    · rintro ⟨child, hchild, hnode⟩
      obtain ⟨hchild, hp⟩ := mem_filter.mp hchild
      have hparent := of_decide_eq_true hp ▸ parentOf_some h hchild
      rcases mem_cons.mp hnode with rfl | hnode
      · exact ⟨hchild, 0, Nat.succ_pos n, rfl, hparent⟩
      · obtain ⟨hf, k, hk, hdepth, hclimb⟩ := ih.mp hnode
        refine ⟨hf, k + 1, Nat.succ_lt_succ hk, by omega, ?_⟩
        rw [Lib.climb_succ, hclimb, Option.bind_some, hparent]
    · rintro ⟨hf, k, hk, hdepth, hclimb⟩
      rw [Lib.climb_succ, Option.bind_eq_some_iff] at hclimb
      obtain ⟨c, hc, hparent⟩ := hclimb
      obtain ⟨child, hchild, rfl⟩ := mem_map.mp (((linked h).mem c parent).mpr hparent)
      refine ⟨child, hchild, mem_cons.mpr ?_⟩
      cases k with
      | zero =>
        have hsame := inj_on_of_nodup_map h hf (mem_of_mem_filter hchild) (Option.some.inj (Option.some.inj hc))
        obtain ⟨f, d⟩ := node
        exact .inl (by simp_all)
      | succ k => exact .inr (ih.mpr ⟨hf, k, Nat.lt_of_succ_lt_succ hk, by omega, hc⟩)

theorem walk_nested (n depth : Nat) (parent : Option String) :
    Nested (fun node => node.folder.parentId = parent ∧ node.depth = depth) (walk folders n depth parent) := by
  induction n generalizing depth parent with
  | zero => simp [walk, Nested]
  | succ n ih =>
    have hchildren : ∀ c ∈ folders.filter (·.parentId = parent), c.parentId = parent :=
      fun c hc => of_decide_eq_true (mem_filter.mp hc).2
    rw [walk]
    generalize folders.filter (·.parentId = parent) = children at hchildren
    induction children with
    | nil => simp [Nested]
    | cons c cs ihcs =>
      obtain ⟨hc, hcs⟩ := forall_mem_cons.mp hchildren
      refine .append ?_ (ihcs hcs)
      intro before node after hsplit
      cases before with
      | nil =>
        obtain ⟨rfl, -⟩ := List.cons.inj hsplit
        exact .inl ⟨hc, rfl⟩
      | cons m before =>
        obtain ⟨rfl, hinner⟩ := List.cons.inj hsplit
        right
        rcases ih _ _ before node after hinner with ⟨hparent, hdepth⟩ | ⟨front, parent, between, rfl, hrest⟩
        · refine ⟨[], _, before, rfl, hparent.symm, hdepth.symm, fun m hm => ?_⟩
          have hm : m ∈ walk folders n (depth + 1) (some c.id) := by simp [hinner, hm]
          obtain ⟨-, k, -, hk, -⟩ := (mem_walk h).mp hm
          omega
        · exact ⟨_ :: front, parent, between, rfl, hrest⟩

theorem nodup_inTree : (inTree folders).Nodup := by
  have hwalk : ∀ n depth parent, (walk folders n depth parent).map (fun node => some node.folder.id) =
      (childrenOf folders parent).flatMap (preorder (childrenOf folders) n) := by
    intro n
    induction n with
    | zero => simp [walk, preorder]
    | succ n ih => simp [walk, preorder, childrenOf, map_flatMap, flatMap_map, ih]
  have hpreorder := Lib.nodup_preorder (n := maxTreeDepth + 2) (linked h) (x := none) (.root rfl)
  rw [preorder, nodup_cons, ← hwalk _ 0] at hpreorder
  refine .of_map some ?_
  rw [inTree, map_map]
  exact hpreorder.2

/-- The walk reaches the folders that are at most the limit below the top. -/
theorem mem_inTree {f : AccountFolder} (hf : f ∈ folders) : f.id ∈ inTree folders ↔
    ∃ k ≤ maxTreeDepth, climb (parentOf folders) (k + 1) (some f.id) = some none := by
  rw [inTree, mem_map]
  constructor
  · rintro ⟨node, hnode, hid⟩
    obtain ⟨-, k, hk, -, hclimb⟩ := (mem_walk h).mp hnode
    exact ⟨k, Nat.le_of_lt_succ hk, hid ▸ hclimb⟩
  · rintro ⟨k, hk, hclimb⟩
    exact ⟨⟨f, 0 + k⟩, (mem_walk h).mpr ⟨hf, k, Nat.lt_succ_of_le hk, rfl, hclimb⟩, rfl⟩

/-- The walk and the folders behind it make up the list. -/
theorem treeSort_perm : ((treeSort folders).map TreeNode.folder).Perm folders := by
  have hwalk : ((walk folders (maxTreeDepth + 1) 0 none).map TreeNode.folder).Perm
      (folders.filter (·.id ∈ inTree folders)) := by
    refine (perm_ext_iff_of_nodup (.of_map AccountFolder.id ?_) (h.of_map.filter _)).mpr fun f => ?_
    · rw [map_map]
      exact nodup_inTree h
    rw [mem_filter, decide_eq_true_iff]
    constructor
    · intro hf
      obtain ⟨node, hnode, rfl⟩ := mem_map.mp hf
      exact ⟨((mem_walk h).mp hnode).1, mem_map.mpr ⟨node, hnode, rfl⟩⟩
    · rintro ⟨hf, hid⟩
      obtain ⟨node, hnode, hid⟩ := mem_map.mp hid
      exact mem_map.mpr ⟨node, hnode, inj_on_of_nodup_map h ((mem_walk h).mp hnode).1 hf hid⟩
  rw [treeSort, map_append, map_map]
  refine (hwalk.append_right _).trans ?_
  simpa [Function.comp_def] using filter_append_perm (fun f => decide (f.id ∈ inTree folders)) folders

end Distinct

/-- Where ids are distinct, whatever the parents are (unknown ones and loops included), every folder is listed
once: at its depth and below its parent if that depth is at most the limit, else at the top. -/
theorem tree_sort_once (h : (folders.map AccountFolder.id).Nodup) :
    ((treeSort folders).map TreeNode.folder).Perm folders ∧ Nested (·.depth = 0) (treeSort folders) ∧
      ∀ node ∈ treeSort folders, node.depth ≤ maxTreeDepth ∧
        (climb (parentOf folders) (node.depth + 1) (some node.folder.id) = some none ∨ node.depth = 0 ∧
          ∀ k ≤ maxTreeDepth, climb (parentOf folders) (k + 1) (some node.folder.id) ≠ some none) := by
  have htop : Nested (·.depth = 0) ((folders.filter (·.id ∉ inTree folders)).map (⟨·, 0⟩)) := by
    intro before node after hsplit
    have hnode : node ∈ before ++ node :: after := mem_append_right before mem_cons_self
    obtain ⟨f, -, rfl⟩ := mem_map.mp (hsplit ▸ hnode)
    exact .inl rfl
  refine ⟨treeSort_perm h, .append (fun before node after hsplit => ?_) htop, fun node hnode => ?_⟩
  · exact (walk_nested h _ _ _ before node after hsplit).imp_left And.right
  rcases mem_append.mp hnode with hnode | hnode
  · obtain ⟨-, k, hk, hdepth, hclimb⟩ := (mem_walk h).mp hnode
    rw [Nat.zero_add] at hdepth
    subst hdepth
    exact ⟨Nat.le_of_lt_succ hk, .inl hclimb⟩
  · obtain ⟨f, hf, rfl⟩ := mem_map.mp hnode
    obtain ⟨hf, hout⟩ := mem_filter.mp hf
    refine ⟨Nat.zero_le _, .inr ⟨rfl, fun k hk hclimb => ?_⟩⟩
    exact of_decide_eq_true hout ((mem_inTree h hf).mpr ⟨k, hk, hclimb⟩)

/-- The second folder is below the first, the last two are their own ancestors. -/
theorem tree_sort_once_loop : ((treeSort [⟨"a", none⟩, ⟨"b", some "a"⟩, ⟨"c", some "d"⟩, ⟨"d", some "c"⟩]).map
    TreeNode.folder).Perm [⟨"a", none⟩, ⟨"b", some "a"⟩, ⟨"c", some "d"⟩, ⟨"d", some "c"⟩] :=
  (tree_sort_once (by decide)).1

end Ratatoskr.Sidebar
