import Ratatoskr.Lib.Forest
import Ratatoskr.Threading.Build

/-!
# Threading.Arena

The arena as a parent map. Its children lists always mirror its parent links, and every Message-ID
names one container, whatever links are made; only that the links are free of loops is not kept.

* `Wf` : the invariant, kept by `getOrCreate_spec` and `wf_link`.
* `link_cases` : a link is refused, there already, or made.
-/

namespace Ratatoskr.Threading

open List
open Lib (climb Rooted Linked)

namespace Arena

variable {a : Arena} {i : Nat} {m : String}

def name (a : Arena) (i : Nat) : Option String := a.containers[i]?.map (·.messageId)

structure Wf (a : Arena) : Prop where
  linked : Linked a.parent a.children
  range : ∀ i p, a.parent i = some p → p < a.containers.length
  table : ∀ m i, a.idTable.lookup m = some i ↔ a.name i = some m

section Modify

variable {a : Arena} {i k : Nat}
variable {f : Container → Container}

theorem getElem?_modify (f : Container → Container) :
    (a.modify i f).containers[k]? = a.containers[k]?.map (fun c => if i = k then f c else c) :=
  List.getElem?_modify ..

@[simp] theorem length_modify (f : Container → Container) :
    (a.modify i f).containers.length = a.containers.length := List.length_modify ..

@[simp] theorem idTable_modify (f : Container → Container) : (a.modify i f).idTable = a.idTable := rfl

theorem name_modify (hf : ∀ c, (f c).messageId = c.messageId) : (a.modify i f).name k = a.name k := by
  rw [name, getElem?_modify, Option.map_map]
  congr 1
  funext c
  split
  · exact hf c
  · rfl

theorem message_modify (hf : ∀ c, (f c).message = c.message) : (a.modify i f).message k = a.message k := by
  rw [message, getElem?_modify, Option.bind_map]
  congr 1
  funext c
  split
  · exact hf c
  · rfl

theorem parent_modify (hf : ∀ c, (f c).parent = c.parent) : (a.modify i f).parent k = a.parent k := by
  rw [parent, getElem?_modify, Option.bind_map]
  congr 1
  funext c
  split
  · exact hf c
  · rfl

theorem children_modify (hf : ∀ c, (f c).children = c.children) :
    (a.modify i f).children k = a.children k := by
  rw [children, getElem?_modify, children]
  cases a.containers[k]? with
  | none => rfl
  | some c =>
    simp only [Option.map_some]
    split
    · exact hf c
    · rfl

theorem parent_modify_parent {x : Option Nat} (hi : i < a.containers.length) :
    (a.modify i (fun c => { c with parent := x })).parent k = if i = k then x else a.parent k := by
  rw [parent, getElem?_modify, parent]
  by_cases hk : i = k
  · subst hk
    rw [getElem?_eq_getElem hi]
    simp
  · simp only [hk]
    cases a.containers[k]? <;> rfl

theorem children_modify_children {g : List Nat → List Nat} (hi : i < a.containers.length) :
    (a.modify i (fun c => { c with children := g c.children })).children k =
      if i = k then g (a.children k) else a.children k := by
  rw [children, getElem?_modify, children]
  by_cases hk : i = k
  · subst hk
    rw [getElem?_eq_getElem hi]
    simp
  · simp only [hk]
    cases a.containers[k]? <;> rfl

theorem message_modify_message {m : ThreadableMessage} (hi : i < a.containers.length) :
    (a.modify i (fun c => { c with message := some m })).message k =
      if i = k then some m else a.message k := by
  rw [message, getElem?_modify, message]
  by_cases hk : i = k
  · subst hk
    rw [getElem?_eq_getElem hi]
    simp
  · simp only [hk]
    cases a.containers[k]? <;> rfl

end Modify

theorem lt_of_name (h : a.name i = some m) : i < a.containers.length := by
  rw [name, Option.map_eq_some_iff] at h
  obtain ⟨c, hc, -⟩ := h
  exact (List.getElem?_eq_some_iff.mp hc).1

theorem exists_name (h : i < a.containers.length) : ∃ m, a.name i = some m := by
  rw [name, getElem?_eq_getElem h]
  exact ⟨_, rfl⟩

theorem lt_of_parent {p : Nat} (h : a.parent i = some p) : i < a.containers.length := by
  rw [parent, Option.bind_eq_some_iff] at h
  obtain ⟨c, hc, -⟩ := h
  exact (List.getElem?_eq_some_iff.mp hc).1

theorem lt_of_message {m : ThreadableMessage} (h : a.message i = some m) : i < a.containers.length := by
  rw [message, Option.bind_eq_some_iff] at h
  obtain ⟨c, hc, -⟩ := h
  exact (List.getElem?_eq_some_iff.mp hc).1

theorem Wf.name_inj (h : Wf a) {k : Nat} (hi : a.name i = some m) (hk : a.name k = some m) : i = k := by
  have h1 := (h.table m i).mpr hi
  have h2 := (h.table m k).mpr hk
  rw [h1] at h2
  exact Option.some.inj h2

theorem ancestorWalk_iff {t n : Nat} :
    a.ancestorWalk t n (some i) = true ↔ ∃ k, k < n ∧ climb a.parent k i = some t := by
  induction n generalizing i with
  | zero => simp [ancestorWalk]
  | succ n ih =>
    rw [ancestorWalk, Bool.or_eq_true, beq_iff_eq]
    constructor
    · rintro (rfl | h)
      · exact ⟨0, Nat.succ_pos n, rfl⟩
      · cases hp : a.parent i with
        | none =>
          rw [hp] at h
          cases n <;> simp [ancestorWalk] at h
        | some p =>
          rw [hp] at h
          obtain ⟨k, hk, hclimb⟩ := ih.mp h
          refine ⟨k + 1, Nat.succ_lt_succ hk, ?_⟩
          rw [Lib.climb_succ', hp]
          exact hclimb
    · rintro ⟨k, hk, hclimb⟩
      cases k with
      | zero => exact .inl (Option.some.inj hclimb)
      | succ k =>
        rw [Lib.climb_succ', Option.bind_eq_some_iff] at hclimb
        obtain ⟨p, hp, hclimb⟩ := hclimb
        rw [hp]
        exact .inr (ih.mpr ⟨k, Nat.lt_of_succ_lt_succ hk, hclimb⟩)

/-! ## Links -/

section Link

variable {a : Arena} {p c : Nat}

/-- The children of a container after `c` has been moved below `p`. -/
def relinkedChildren (a : Arena) (p c q : Nat) : List Nat :=
  (if a.parent c = some q then (a.children q).filter (· ≠ c) else a.children q) ++
    if p = q then [c] else []

structure Relinks (a a' : Arena) (p c : Nat) : Prop where
  parent : a'.parent = Function.update a.parent c (some p)
  children : ∀ q, a'.children q = relinkedChildren a p c q
  message : a'.message = a.message
  name : a'.name = a.name
  table : a'.idTable = a.idTable
  length : a'.containers.length = a.containers.length

theorem unlink_spec (h : Wf a) (hc : c < a.containers.length) :
    (a.unlinkFromParent c).parent = Function.update a.parent c none ∧
    (∀ q, (a.unlinkFromParent c).children q =
      if a.parent c = some q then (a.children q).filter (· ≠ c) else a.children q) ∧
    (a.unlinkFromParent c).message = a.message ∧ (a.unlinkFromParent c).name = a.name ∧
    (a.unlinkFromParent c).idTable = a.idTable ∧
    (a.unlinkFromParent c).containers.length = a.containers.length := by
  unfold unlinkFromParent
  cases hp : a.parent c with
  | none =>
    exact ⟨(Function.update_eq_self_iff.mpr hp.symm).symm, fun q => by simp, rfl, rfl, rfl, rfl⟩
  | some q =>
    have hq := h.range c q hp
    refine ⟨?_, ?_, ?_, ?_, rfl, by simp⟩
    · funext k
      have hkeep := fun i => parent_modify (a := a) (i := q) (k := i)
        (f := fun c' => { c' with children := c'.children.filter (· ≠ c) }) (fun _ => rfl)
      rw [parent_modify_parent (by simpa using hc), hkeep, Function.update_apply]
      simp only [eq_comm]
    · intro k
      rw [children_modify]
      · rw [children_modify_children (g := fun l => l.filter (· ≠ c)) hq]
        simp
      · exact fun _ => rfl
    · funext k
      rw [message_modify, message_modify]
      all_goals exact fun _ => rfl
    · funext k
      rw [name_modify, name_modify]
      all_goals exact fun _ => rfl

/-- A link is refused when the walk up from `p` meets `c` in time, and then nothing changes. -/
theorem link_cases (h : Wf a) (hp : p < a.containers.length) (hc : c < a.containers.length) :
    ((∃ k, k < maxDepth ∧ climb a.parent k p = some c) ∧ a.linkParentChild p c = a) ∨
    (¬ (∃ k, k < maxDepth ∧ climb a.parent k p = some c) ∧ a.parent c = some p ∧ a.linkParentChild p c = a) ∨
    (¬ (∃ k, k < maxDepth ∧ climb a.parent k p = some c) ∧ a.parent c ≠ some p ∧
      Relinks a (a.linkParentChild p c) p c) := by
  unfold linkParentChild
  split
  · rename_i hanc
    exact .inl ⟨ancestorWalk_iff.mp hanc, rfl⟩
  rename_i hanc
  have hanc : ¬ ∃ k, k < maxDepth ∧ climb a.parent k p = some c :=
    fun hex => hanc (ancestorWalk_iff.mpr hex)
  split
  · rename_i hpar
    exact .inr (.inl ⟨hanc, hpar, rfl⟩)
  rename_i hpar
  refine .inr (.inr ⟨hanc, hpar, ?_⟩)
  obtain ⟨h1, h2, h3, h4, h5, h6⟩ := unlink_spec h hc
  refine ⟨?_, ?_, ?_, ?_, h5, by simpa using h6⟩
  · funext k
    rw [parent_modify]
    · rw [parent_modify_parent (by rw [h6]; exact hc), h1, Function.update_apply,
        Function.update_apply]
      by_cases hk : k = c
      · rw [if_pos hk.symm, if_pos hk]
      · rw [if_neg (fun heq => hk heq.symm), if_neg hk, if_neg hk]
    · exact fun _ => rfl
  · intro q
    have hkeep := children_modify (a := a.unlinkFromParent c) (i := c) (k := q)
      (f := fun c' => { c' with parent := some p }) (fun _ => rfl)
    rw [children_modify_children (g := fun l => l ++ [c]) (by simpa [h6] using hp), hkeep, h2,
      relinkedChildren]
    by_cases hq : p = q
    · rw [if_pos hq, if_pos hq]
    · rw [if_neg hq, if_neg hq, append_nil]
  · funext k
    rw [message_modify, message_modify, h3]
    all_goals exact fun _ => rfl
  · funext k
    rw [name_modify, name_modify, h4]
    all_goals exact fun _ => rfl

theorem Relinks.wf {a' : Arena} (hr : Relinks a a' p c) (h : Wf a) (hp : p < a.containers.length) :
    Wf a' := by
  have hbase : ∀ q x, (x ∈ if a.parent c = some q then (a.children q).filter (· ≠ c) else a.children q) ↔
      x ≠ c ∧ a.parent x = some q := by
    intro q x
    by_cases hq : a.parent c = some q
    · rw [if_pos hq, mem_filter, h.linked.mem x q]
      simp [and_comm]
    · rw [if_neg hq, h.linked.mem x q]
      refine ⟨fun hx => ⟨?_, hx⟩, And.right⟩
      rintro rfl
      exact hq hx
  refine ⟨⟨?_, ?_⟩, ?_, ?_⟩
  · intro x q
    rw [hr.children, relinkedChildren, mem_append, hbase, hr.parent]
    by_cases hx : x = c
    · subst hx
      by_cases hq : p = q <;> simp [hq]
    · by_cases hq : p = q <;> simp [hx]
  · intro q
    rw [hr.children, relinkedChildren]
    have hnodup : (if a.parent c = some q then (a.children q).filter (· ≠ c) else a.children q).Nodup := by
      split
      · exact (h.linked.nodup q).filter _
      · exact h.linked.nodup q
    by_cases hq : p = q
    · rw [if_pos hq]
      refine nodup_append_comm.mp (nodup_cons.mpr ⟨?_, hnodup⟩)
      intro hmem
      exact ((hbase q c).mp hmem).1 rfl
    · rw [if_neg hq, append_nil]
      exact hnodup
  · intro i q hi
    rw [hr.length]
    rw [hr.parent, Function.update_apply] at hi
    split at hi
    · cases hi
      exact hp
    · exact h.range i q hi
  · intro m i
    rw [hr.table, hr.name]
    exact h.table m i

structure SameNodes (a a' : Arena) : Prop where
  message : a'.message = a.message
  name : a'.name = a.name
  length : a'.containers.length = a.containers.length

theorem wf_link (h : Wf a) (hp : p < a.containers.length) (hc : c < a.containers.length) :
    Wf (a.linkParentChild p c) ∧ SameNodes a (a.linkParentChild p c) := by
  rcases link_cases h hp hc with ⟨-, heq⟩ | ⟨-, -, heq⟩ | ⟨-, -, hr⟩
  · rw [heq]
    exact ⟨h, rfl, rfl, rfl⟩
  · rw [heq]
    exact ⟨h, rfl, rfl, rfl⟩
  · exact ⟨hr.wf h hp, hr.message, hr.name, hr.length⟩

end Link

/-! ## New containers -/

theorem wf_setMessage (h : Wf a) (i : Nat) (m : ThreadableMessage) :
    Wf (a.modify i (fun c => { c with message := some m })) := by
  have hparent : (a.modify i (fun c => { c with message := some m })).parent = a.parent :=
    funext fun k => parent_modify (fun _ => rfl)
  have hchildren : (a.modify i (fun c => { c with message := some m })).children = a.children :=
    funext fun k => children_modify (fun _ => rfl)
  refine ⟨?_, ?_, ?_⟩
  · rw [hparent, hchildren]
    exact h.linked
  · rw [hparent, length_modify]
    exact h.range
  · intro n k
    rw [name_modify]
    · exact h.table n k
    · exact fun _ => rfl

/-- `m` has a container in `a'`, namely `i`; nothing else is different. -/
structure Extends (a a' : Arena) (m : String) (i : Nat) : Prop where
  wf : Wf a'
  parent : a'.parent = a.parent
  message : a'.message = a.message
  name : ∀ k n, a'.name k = some n ↔ a.name k = some n ∨ (k = i ∧ n = m)

theorem wf_new : Wf Arena.new := by
  refine ⟨⟨?_, ?_⟩, ?_, ?_⟩
  · intro c p
    simp [Arena.new, children, parent]
  · intro p
    exact nodup_nil
  · intro i p h
    simp [Arena.new, parent] at h
  · intro m i
    simp [Arena.new, name]

theorem append_spec (h : Wf a) (hm : a.idTable.lookup m = none) :
    Extends a ⟨a.containers ++ [⟨m, none, none, []⟩], (m, a.containers.length) :: a.idTable⟩ m
      a.containers.length := by
  have hget : ∀ k, (a.containers ++ [⟨m, none, none, []⟩])[k]? =
      if k = a.containers.length then some ⟨m, none, none, []⟩ else a.containers[k]? := by
    intro k
    rw [getElem?_append]
    split
    · rename_i hk
      rw [if_neg (Nat.ne_of_lt hk)]
    · by_cases heq : k = a.containers.length
      · subst heq
        simp
      · rw [if_neg heq, getElem?_eq_none (by simp; omega), getElem?_eq_none (by omega)]
  have hlast : a.containers[a.containers.length]? = none := getElem?_eq_none (Nat.le_refl _)
  have hparent : Arena.parent ⟨a.containers ++ [⟨m, none, none, []⟩],
      (m, a.containers.length) :: a.idTable⟩ = a.parent := by
    funext k
    rw [parent, hget, parent]
    split
    · rename_i hk
      rw [hk, hlast]
      rfl
    · rfl
  have hname : ∀ k n, Arena.name ⟨a.containers ++ [⟨m, none, none, []⟩],
      (m, a.containers.length) :: a.idTable⟩ k = some n ↔
      a.name k = some n ∨ (k = a.containers.length ∧ n = m) := by
    intro k n
    rw [name, hget, name]
    split
    · rename_i hk
      simp [hk, eq_comm]
    · rename_i hk
      simp [hk]
  refine ⟨⟨?_, ?_, ?_⟩, hparent, ?_, hname⟩
  · rw [hparent]
    have hchildren : Arena.children ⟨a.containers ++ [⟨m, none, none, []⟩],
        (m, a.containers.length) :: a.idTable⟩ = a.children := by
      funext k
      rw [children, hget, children]
      by_cases hk : k = a.containers.length
      · rw [if_pos hk, hk, hlast]
      · rw [if_neg hk]
    rw [hchildren]
    exact h.linked
  · intro i p hi
    rw [hparent] at hi
    exact Nat.lt_of_lt_of_le (h.range i p hi) (by simp)
  · intro n i
    rw [hname, ← h.table n i, lookup_cons]
    by_cases hn : n = m
    · subst hn
      simp [hm, eq_comm]
    · have hbeq : (n == m) = false := by simpa using hn
      simp [hbeq, hn]
  · funext k
    rw [message, hget, message]
    split
    · rename_i hk
      rw [hk, hlast]
      rfl
    · rfl

theorem getOrCreate_spec (h : Wf a) (m : String) : Extends a (a.getOrCreate m).1 m (a.getOrCreate m).2 := by
  unfold getOrCreate
  split
  · rename_i i hi
    refine ⟨h, rfl, rfl, ?_⟩
    intro k n
    refine ⟨.inl, ?_⟩
    rintro (hk | ⟨rfl, rfl⟩)
    · exact hk
    · exact (h.table n k).mp hi
  · rename_i hm
    exact append_spec h hm

end Arena

end Ratatoskr.Threading
