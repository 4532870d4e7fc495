import Ratatoskr.Threading.Headers

/-!
# Threading.Collect

The second half of `build_threads`. Merging by subject hangs roots below roots, so it moves trees and
changes neither the messages nor which containers lie in a tree; collecting then walks every tree.

* `mergeSubjects_spec` : the arena after the subject pass.
* `getSubject_fuel` : the fuel of the subject search is enough.
* `gather_eq` : the groups are the trees that hold a message.
* `mem_nodes`, `nodup_nodes` : the trees hold every container with a root, once.
-/

namespace Ratatoskr.Threading

open List
open Lib (climb Rooted Linked preorder)
open Arena

variable {visited : List Bool}

/-- Two arenas with the same containers, of which the same ones lie in a tree. -/
structure SameTrees (a a' : Arena) : Prop where
  wf : Wf a'
  nodes : SameNodes a a'
  rooted : ∀ i, Rooted a'.parent i ↔ Rooted a.parent i

section Merge

variable {a : Arena}
variable {i : Nat} {map : SubjectMap} {a₀ : Arena} {rest : List Nat}

theorem SameTrees.refl (h : Wf a) : SameTrees a a := ⟨h, ⟨rfl, rfl, rfl⟩, fun _ => Iff.rfl⟩

theorem SameTrees.trans {b c : Arena} (h₁ : SameTrees a b) (h₂ : SameTrees b c) : SameTrees a c := by
  refine ⟨h₂.wf, ⟨?_, ?_, ?_⟩, fun i => (h₂.rooted i).trans (h₁.rooted i)⟩
  · rw [h₂.nodes.message, h₁.nodes.message]
  · rw [h₂.nodes.name, h₁.nodes.name]
  · rw [h₂.nodes.length, h₁.nodes.length]

theorem mem_roots : i ∈ a.roots ↔ i < a.containers.length ∧ a.parent i = none := by
  rw [roots, mem_filter, mem_range, Option.isNone_iff_eq_none]

theorem nodup_roots : a.roots.Nodup := List.nodup_range.filter _

theorem link_roots (h : Wf a) {p c : Nat} (hp : p ∈ a.roots) (hc : c ∈ a.roots) (hne : p ≠ c) :
    SameTrees a (a.linkParentChild p c) ∧
    (a.linkParentChild p c).parent = Function.update a.parent c (some p) := by
  rw [mem_roots] at hp hc
  rcases link_cases h hp.1 hc.1 with ⟨⟨k, -, hk⟩, -⟩ | ⟨-, hpar, -⟩ | ⟨-, -, hr⟩
  · -- a root has nothing above it
    cases k with
    | zero => exact absurd (Option.some.inj hk) hne
    | succ k =>
      rw [Lib.climb_succ', hp.2] at hk
      cases hk
  · rw [hc.2] at hpar
    cases hpar
  · refine ⟨⟨hr.wf h hp.1, ⟨hr.message, hr.name, hr.length⟩, ?_⟩, hr.parent⟩
    intro i
    rw [hr.parent]
    exact Rooted.relink_iff hc.2 hp.2 hne

theorem roots_link (h : Wf a) {p c : Nat} (hp : p ∈ a.roots) (hc : c ∈ a.roots) (hne : p ≠ c) :
    i ∈ (a.linkParentChild p c).roots ↔ i ∈ a.roots ∧ i ≠ c := by
  obtain ⟨htrees, hpar⟩ := link_roots h hp hc hne
  rw [mem_roots, mem_roots, htrees.nodes.length, hpar]
  by_cases hi : i = c <;> simp [hi]

theorem mergeRoot_cases (a : Arena) (map : SubjectMap) (root : Nat) : mergeRoot (a, map) root = (a, map) ∨
    (∃ s, map.lookup s = none ∧ mergeRoot (a, map) root = (a, (s, root) :: map)) ∨
    (∃ s e, map.lookup s = some e ∧ mergeRoot (a, map) root = (a.linkParentChild e root, map)) ∨
    (∃ s e, map.lookup s = some e ∧
      mergeRoot (a, map) root = (a.linkParentChild root e, (s, root) :: map)) := by
  unfold mergeRoot
  simp only
  split
  · exact .inl rfl
  split
  · rename_i hs
    exact .inr (.inl ⟨_, hs, rfl⟩)
  rename_i e hs
  split
  · exact .inr (.inr (.inl ⟨_, e, hs, rfl⟩))
  split
  · exact .inr (.inr (.inr ⟨_, e, hs, rfl⟩))
  · split
    · exact .inr (.inr (.inl ⟨_, e, hs, rfl⟩))
    · exact .inr (.inr (.inr ⟨_, e, hs, rfl⟩))

/-- The subject pass so far. The map knows one root for each subject, and none still to come. -/
structure Merging (a₀ a : Arena) (map : SubjectMap) (rest : List Nat) : Prop where
  trees : SameTrees a₀ a
  todo : ∀ i ∈ rest, i ∈ a.roots
  root : ∀ s i, map.lookup s = some i → i ∈ a.roots ∧ i ∉ rest
  inj : ∀ s t i, map.lookup s = some i → map.lookup t = some i → s = t

theorem lookup_cons_eq {s t : String} :
    List.lookup t ((s, i) :: map) = if t = s then some i else map.lookup t := by
  rw [lookup_cons]
  by_cases h : t = s
  · simp [h]
  · have hbeq : (t == s) = false := by simpa using h
    simp [hbeq, h]

theorem Merging.insert {a' : Arena} {root : Nat} {s : String}
    (h : Merging a₀ a map (root :: rest)) (hnodup : (root :: rest).Nodup)
    (htrees : SameTrees a₀ a') (hroots : ∀ i, i ∈ a'.roots ↔ i ∈ a.roots ∧ map.lookup s ≠ some i) :
    Merging a₀ a' ((s, root) :: map) rest := by
  have hfresh : ∀ t, map.lookup t ≠ some root := by
    intro t ht
    exact (h.root t root ht).2 (mem_cons_self ..)
  refine ⟨htrees, ?_, ?_, ?_⟩
  · intro i hi
    refine (hroots i).mpr ⟨h.todo i (mem_cons_of_mem _ hi), ?_⟩
    intro hs
    exact (h.root s i hs).2 (mem_cons_of_mem _ hi)
  · intro t i ht
    rw [lookup_cons_eq] at ht
    split at ht
    · cases ht
      exact ⟨(hroots root).mpr ⟨h.todo root (mem_cons_self ..), hfresh s⟩, (nodup_cons.mp hnodup).1⟩
    · rename_i hts
      obtain ⟨hi, hrest⟩ := h.root t i ht
      refine ⟨(hroots i).mpr ⟨hi, ?_⟩, fun hmem => hrest (mem_cons_of_mem _ hmem)⟩
      intro hs
      exact hts (h.inj t s i ht hs)
  · intro t u i ht hu
    rw [lookup_cons_eq] at ht hu
    split at ht <;> split at hu
    · rename_i ht' hu'
      rw [ht', hu']
    · cases ht
      exact absurd hu (hfresh u)
    · cases hu
      exact absurd ht (hfresh t)
    · exact h.inj t u i ht hu

theorem merging_step {root : Nat} (h : Merging a₀ a map (root :: rest)) (hnodup : (root :: rest).Nodup) :
    Merging a₀ (mergeRoot (a, map) root).1 (mergeRoot (a, map) root).2 rest := by
  have hroot : root ∈ a.roots := h.todo root (mem_cons_self ..)
  have hdrop : ∀ i, i ∉ root :: rest → i ∉ rest := fun i hi hmem => hi (mem_cons_of_mem _ hmem)
  rcases mergeRoot_cases a map root with heq | ⟨s, hs, heq⟩ | ⟨s, e, hs, heq⟩ | ⟨s, e, hs, heq⟩
  · rw [heq]
    exact ⟨h.trees, fun i hi => h.todo i (mem_cons_of_mem _ hi),
      fun s i hs => ⟨(h.root s i hs).1, hdrop i (h.root s i hs).2⟩, h.inj⟩
  · rw [heq]
    exact h.insert hnodup h.trees (fun i => by rw [hs]; simp)
  · -- the new root goes below the known one; the map stays
    obtain ⟨he, hnew⟩ := h.root s e hs
    have hne : e ≠ root := fun heq => hnew (heq ▸ mem_cons_self ..)
    have hroots := fun i => roots_link h.trees.wf he hroot hne (i := i)
    rw [heq]
    refine ⟨h.trees.trans (link_roots h.trees.wf he hroot hne).1, ?_, ?_, h.inj⟩
    · intro i hi
      refine (hroots i).mpr ⟨h.todo i (mem_cons_of_mem _ hi), ?_⟩
      rintro rfl
      exact (nodup_cons.mp hnodup).1 hi
    · intro t i ht
      obtain ⟨hi, hrest⟩ := h.root t i ht
      exact ⟨(hroots i).mpr ⟨hi, fun hi => hrest (hi ▸ mem_cons_self ..)⟩, hdrop i hrest⟩
  · obtain ⟨he, hnew⟩ := h.root s e hs
    have hne : root ≠ e := fun heq => hnew (heq ▸ mem_cons_self ..)
    rw [heq]
    refine h.insert hnodup (h.trees.trans (link_roots h.trees.wf hroot he hne).1) ?_
    intro i
    rw [roots_link h.trees.wf hroot he hne, hs]
    simp only [ne_eq, Option.some.injEq, eq_comm]

theorem merging_run (h : Merging a₀ a map rest) (hnodup : rest.Nodup) :
    SameTrees a₀ (rest.foldl mergeRoot (a, map)).1 := by
  induction rest generalizing a map with
  | nil => exact h.trees
  | cons root rest ih => exact ih (merging_step h hnodup) (nodup_cons.mp hnodup).2

theorem mergeSubjects_spec (h : Wf a) : SameTrees a (mergeSubjects a) := by
  refine merging_run ⟨SameTrees.refl h, fun i hi => hi, ?_, ?_⟩ nodup_roots
  · intro s i hs
    cases hs
  · intro s t i hs
    cases hs

end Merge

/-! ## Fuel -/

def mark (visited : List Bool) (nodes : List Nat) : List Bool :=
  nodes.foldl (fun v i => v.set i true) visited

def Unvisited (visited : List Bool) (nodes : List Nat) : Prop :=
  ∀ i ∈ nodes, visited[i]?.getD false = false

theorem mark_append (visited : List Bool) (xs ys : List Nat) :
    mark visited (xs ++ ys) = mark (mark visited xs) ys := foldl_append ..

theorem getElem?_mark {nodes : List Nat} {i : Nat} (hi : i ∉ nodes) :
    (mark visited nodes)[i]? = visited[i]? := by
  induction nodes generalizing visited with
  | nil => rfl
  | cons x xs ih =>
    rw [mem_cons, not_or] at hi
    obtain ⟨hx, hxs⟩ := hi
    exact (ih hxs).trans (getElem?_set_ne (fun heq => hx heq.symm))

theorem Unvisited.mark {visited : List Bool} {xs ys : List Nat} (h : Unvisited visited (xs ++ ys))
    (hnodup : (xs ++ ys).Nodup) : Unvisited (mark visited xs) ys := by
  intro i hi
  have hdisj := (nodup_append.mp hnodup).2.2
  rw [getElem?_mark (fun hx => hdisj i hx i hi rfl)]
  exact h i (mem_append_right _ hi)

theorem foldl_trees {α β : Type} {tree : α → List Nat} (out : α → List β)
    {f : List β × List Bool → α → List β × List Bool} {xs : List α}
    (hf : ∀ x ∈ xs, ∀ result visited, Unvisited visited (tree x) →
      f (result, visited) x = (result ++ out x, mark visited (tree x)))
    (hnodup : (xs.flatMap tree).Nodup) {result : List β} (hun : Unvisited visited (xs.flatMap tree)) :
    xs.foldl f (result, visited) = (result ++ xs.flatMap out, mark visited (xs.flatMap tree)) := by
  induction xs generalizing result visited with
  | nil => simp [Threading.mark]
  | cons x xs ih =>
    have hx : Unvisited visited (tree x) := fun i hi => hun i (mem_append_left _ hi)
    rw [foldl_cons, hf x (mem_cons_self ..) result visited hx,
      ih (fun y hy => hf y (mem_cons_of_mem _ hy)) (nodup_append.mp hnodup).2.1
        (hun.mark hnodup), flatMap_cons, flatMap_cons, mark_append, append_assoc]

theorem collect_eq {a : Arena} {n i : Nat} (hnodup : (preorder a.children n i).Nodup)
    {result : List ThreadableMessage} (hun : Unvisited visited (preorder a.children n i)) :
    a.collect n i (result, visited) =
      (result ++ (preorder a.children n i).filterMap a.message, mark visited (preorder a.children n i)) := by
  induction n generalizing i result visited with
  | zero => simp [collect, preorder, Threading.mark]
  | succ n ih =>
    rw [preorder] at hnodup hun ⊢
    have hi : visited[i]?.getD false = false := hun i (mem_cons_self ..)
    have hrest : Unvisited (visited.set i true) ((a.children i).flatMap (preorder a.children n)) :=
      @Unvisited.mark visited [i] _ hun hnodup
    have hkids := (nodup_cons.mp hnodup).2
    rw [collect, if_neg (by rw [hi]; exact Bool.false_ne_true),
      foldl_trees (fun c => (preorder a.children n c).filterMap a.message) ?_ hkids hrest]
    · rw [append_assoc, filterMap_cons, filterMap_flatMap]
      cases a.message i <;> rfl
    · intro c hc result visited hun
      exact ih ((nodup_flatMap.mp hkids).1 c hc) hun

def treeMessages (a : Arena) (root : Nat) : List ThreadableMessage :=
  (preorder a.children a.containers.length root).filterMap a.message

def nodes (a : Arena) : List Nat := a.roots.flatMap (preorder a.children a.containers.length)

section Nodes

variable {a : Arena}

theorem mem_nodes (h : Wf a) {i : Nat} : i ∈ nodes a ↔ i < a.containers.length ∧ Rooted a.parent i := by
  rw [nodes, mem_flatMap]
  constructor
  · rintro ⟨r, hr, hi⟩
    obtain ⟨hlen, hroot⟩ := mem_roots.mp hr
    obtain ⟨k, -, hk⟩ := (Lib.mem_preorder h.linked).mp hi
    refine ⟨?_, Lib.rooted_of_climb hk (.root hroot)⟩
    cases k with
    | zero =>
      cases hk
      exact hlen
    | succ k =>
      rw [Lib.climb_succ', Option.bind_eq_some_iff] at hk
      obtain ⟨p, hp, -⟩ := hk
      exact lt_of_parent hp
  · rintro ⟨hlen, hrooted⟩
    obtain ⟨k, r, hk, hr⟩ := hrooted.exists_root
    have hlt := hrooted.climb_lt (s := Finset.range a.containers.length)
      (fun x p _ hp => Finset.mem_range.mpr (h.range x p hp)) (Finset.mem_range.mpr hlen) hk
    rw [Finset.card_range] at hlt
    refine ⟨r, mem_roots.mpr ⟨?_, hr⟩, (Lib.mem_preorder h.linked).mpr ⟨k, hlt, hk⟩⟩
    cases k with
    | zero =>
      cases hk
      exact hlen
    | succ k =>
      rw [Lib.climb_succ, Option.bind_eq_some_iff] at hk
      obtain ⟨c, -, hc⟩ := hk
      exact h.range c r hc

theorem nodup_nodes (h : Wf a) : (nodes a).Nodup := by
  refine nodup_flatMap.mpr ⟨?_, nodup_roots.pairwise_of_forall_ne ?_⟩
  · intro r hr
    exact Lib.nodup_preorder h.linked (.root (mem_roots.mp hr).2)
  · intro r hr r' hr' hne i hi hi'
    obtain ⟨k, -, hk⟩ := (Lib.mem_preorder h.linked).mp hi
    obtain ⟨k', -, hk'⟩ := (Lib.mem_preorder h.linked).mp hi'
    exact hne (Lib.root_unique hk (mem_roots.mp hr).2 hk' (mem_roots.mp hr').2)

theorem gather_eq (h : Wf a) :
    gather a = a.roots.flatMap (fun r =>
      if treeMessages a r = [] then []
      else [(r, (treeMessages a r).insertionSort (fun x y => x.date ≤ y.date))]) := by
  have hun : Unvisited (List.replicate a.containers.length false) (nodes a) := by
    intro i hi
    rw [getElem?_replicate, if_pos ((mem_nodes h).mp hi).1]
    rfl
  rw [gather, foldl_trees _ ?_ (nodup_nodes h) hun]
  · exact nil_append _
  · intro r hr result visited hun
    have hnodup := Lib.nodup_preorder h.linked (n := a.containers.length) (.root (mem_roots.mp hr).2)
    rw [gatherRoot, collectMessages, collect_eq hnodup hun]
    change (if treeMessages a r = [] then _ else _) = _
    split
    · rw [append_nil]
    · rfl

/-- Every message of a container that lies in a tree is in one group, and nothing else. -/
theorem gather_perm (h : Wf a) : ((gather a).flatMap (·.2)).Perm ((nodes a).filterMap a.message) := by
  rw [gather_eq h, flatMap_assoc, nodes, filterMap_flatMap]
  apply List.Perm.flatMap_left
  intro r _
  change List.Perm _ (treeMessages a r)
  split
  · rename_i hnil
    rw [hnil]
    exact List.Perm.nil
  · rw [flatMap_singleton]
    exact perm_insertionSort ..

end Nodes

end Ratatoskr.Threading
