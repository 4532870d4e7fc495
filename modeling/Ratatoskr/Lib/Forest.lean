import Mathlib.Data.Finset.Card
import Mathlib.Logic.Function.Basic

/-!
# Lib.Forest

Parent maps `par : α → Option α`. Nothing keeps such a map from having loops; a node is `Rooted` when
the walk up from it ends.

* `Rooted.climb_ne` : a rooted node does not lie on a loop.
* `Rooted.relink_iff` : hanging one root below another roots the same nodes.
* `rooted_update_iff` : moving a node keeps a forest iff its new parent does not hang below it.
* `mem_preorder`, `nodup_preorder` : the preorder walk below a rooted node sees each of its
  descendants once.
* `Rooted.climb_lt` : in a finite set of nodes, no walk up takes as many steps as there are nodes.
-/

namespace Ratatoskr.Lib

section Forest

variable {α : Type} {par : α → Option α}

/-- `n` steps up. -/
def climb (par : α → Option α) : Nat → α → Option α
  | 0, x => some x
  | n + 1, x => (climb par n x).bind par

inductive Rooted (par : α → Option α) : α → Prop
  | root {x : α} : par x = none → Rooted par x
  | step {x p : α} : par x = some p → Rooted par p → Rooted par x

@[simp] theorem climb_zero (x : α) : climb par 0 x = some x := rfl

theorem climb_succ (n : Nat) (x : α) : climb par (n + 1) x = (climb par n x).bind par := rfl

theorem climb_add (m n : Nat) (x : α) : climb par (m + n) x = (climb par m x).bind (climb par n) := by
  induction n with
  | zero => cases climb par m x <;> rfl
  | succ n ih =>
    rw [← Nat.add_assoc, climb_succ, ih, Option.bind_assoc]
    rfl

theorem climb_succ' (n : Nat) (x : α) : climb par (n + 1) x = (par x).bind (climb par n) := by
  rw [Nat.add_comm, climb_add]
  rfl

variable {x : α}

theorem Rooted.up {p : α} (h : Rooted par x) (hp : par x = some p) : Rooted par p := by
  cases h with
  | root hx =>
    rw [hx] at hp
    cases hp
  | step hx h =>
    rw [hx] at hp
    cases hp
    exact h

variable {n : Nat}

theorem Rooted.upward {y : α} (h : Rooted par x) (hn : climb par n x = some y) :
    Rooted par y := by
  induction n generalizing y with
  | zero =>
    cases hn
    exact h
  | succ n ih =>
    rw [climb_succ, Option.bind_eq_some_iff] at hn
    obtain ⟨z, hz, hy⟩ := hn
    exact (ih hz).up hy

theorem rooted_of_climb {y : α} (hn : climb par n x = some y) (h : Rooted par y) :
    Rooted par x := by
  induction n generalizing x with
  | zero =>
    cases hn
    exact h
  | succ n ih =>
    rw [climb_succ', Option.bind_eq_some_iff] at hn
    obtain ⟨z, hz, hy⟩ := hn
    exact .step hz (ih hy)

theorem Rooted.climb_ne (h : Rooted par x) : ∀ n, climb par (n + 1) x ≠ some x := by
  induction h with
  | root hx =>
    intro n hn
    rw [climb_succ', hx] at hn
    cases hn
  | @step x p hx _ ih =>
    intro n hn
    -- the parent lies on the same loop
    have hloop : climb par (n + 1) p = some p := by
      have h1 : climb par (n + 1 + 1) x = some p := by rw [climb_succ, hn]; exact hx
      rw [climb_succ', hx] at h1
      exact h1
    exact ih n hloop

theorem Rooted.climb_inj {y : α} (h : Rooted par x) {m : Nat} (hm : climb par m x = some y)
    (hn : climb par n x = some y) : m = n := by
  have hlt : ∀ {m n : Nat}, climb par m x = some y → climb par n x = some y → ¬ m < n := by
    intro m n hm hn hlt
    obtain ⟨k, rfl⟩ := Nat.exists_eq_add_of_lt hlt
    rw [Nat.add_assoc, climb_add, hm] at hn
    exact (h.upward hm).climb_ne k hn
  have h1 := hlt hm hn
  have h2 := hlt hn hm
  omega

theorem root_unique {r r' : α} {m : Nat} (hm : climb par m x = some r) (hr : par r = none)
    (hn : climb par n x = some r') (hr' : par r' = none) : r = r' := by
  have hstop : ∀ {m n : Nat} {r r' : α}, climb par m x = some r → par r = none →
      climb par n x = some r' → n ≤ m := by
    intro m n r r' hm hr hn
    by_contra hlt
    obtain ⟨k, rfl⟩ := Nat.exists_eq_add_of_lt (Nat.lt_of_not_le hlt)
    rw [Nat.add_assoc, climb_add, hm] at hn
    change climb par (k + 1) r = some r' at hn
    rw [climb_succ', hr] at hn
    cases hn
  have h1 := hstop hm hr hn
  have h2 := hstop hn hr' hm
  obtain rfl : m = n := by omega
  rw [hm] at hn
  exact Option.some.inj hn

theorem Rooted.exists_root (h : Rooted par x) : ∃ n r, climb par n x = some r ∧ par r = none := by
  induction h with
  | @root x hx => exact ⟨0, x, rfl, hx⟩
  | @step x p hx _ ih =>
    obtain ⟨n, r, hn, hr⟩ := ih
    exact ⟨n + 1, r, by rw [climb_succ', hx]; exact hn, hr⟩

section Relink

variable [DecidableEq α] {c p : α}

theorem Rooted.relink_iff (hc : par c = none) (hp : par p = none) (hne : p ≠ c) {x : α} :
    Rooted (Function.update par c (some p)) x ↔ Rooted par x := by
  constructor
  · intro h
    induction h with
    | @root x hx =>
      by_cases hxc : x = c
      · subst hxc
        exact .root hc
      · rw [Function.update_of_ne hxc] at hx
        exact .root hx
    | @step x q hx _ ih =>
      by_cases hxc : x = c
      · subst hxc
        exact .root hc
      · rw [Function.update_of_ne hxc] at hx
        exact .step hx ih
  · intro h
    have hroot : Rooted (Function.update par c (some p)) p := .root (by rw [Function.update_of_ne hne, hp])
    induction h with
    | @root x hx =>
      by_cases hxc : x = c
      · subst hxc
        exact .step (Function.update_self ..) hroot
      · exact .root (by rw [Function.update_of_ne hxc, hx])
    | @step x q hx _ ih =>
      by_cases hxc : x = c
      · subst hxc
        exact .step (Function.update_self ..) hroot
      · exact .step (by rw [Function.update_of_ne hxc, hx]) ih

theorem climb_update {q : Option α} {x : α} {n : Nat} (h : ∀ k, k < n → climb par k x ≠ some c) :
    climb (Function.update par c q) n x = climb par n x := by
  induction n with
  | zero => rfl
  | succ n ih =>
    rw [climb_succ, climb_succ, ih (fun k hk => h k (Nat.lt_succ_of_lt hk))]
    cases hn : climb par n x with
    | none => rfl
    | some y =>
      have hy : y ≠ c := by
        rintro rfl
        exact h n (Nat.lt_succ_self n) hn
      exact Function.update_of_ne hy ..

theorem Rooted.update {x : α} (hp : Rooted (Function.update par c (some p)) p) (h : Rooted par x) :
    Rooted (Function.update par c (some p)) x := by
  have hc : Function.update par c (some p) c = some p := Function.update_self ..
  induction h with
  | @root x hx =>
    by_cases hxc : x = c
    · rw [hxc]
      exact .step hc hp
    · exact .root (by rw [Function.update_of_ne hxc, hx])
  | @step x q hx _ ih =>
    by_cases hxc : x = c
    · rw [hxc]
      exact .step hc hp
    · exact .step (by rw [Function.update_of_ne hxc, hx]) ih

theorem rooted_update_iff (h : ∀ x, Rooted par x) :
    (∀ x, Rooted (Function.update par c (some p)) x) ↔ ∀ k, climb par k p ≠ some c := by
  constructor
  · intro hnew k hk
    -- the first time the old walk meets `c`, the new one does, and goes on to `p`
    have hfirst : ∀ j, j < k → climb par j p ≠ some c := by
      intro j hj heq
      exact absurd ((h p).climb_inj heq hk) (Nat.ne_of_lt hj)
    apply (hnew p).climb_ne k
    rw [climb_succ, climb_update hfirst, hk, Option.bind_some, Function.update_self]
  · intro hno x
    refine Rooted.update ?_ (h x)
    obtain ⟨n, r, hn, hr⟩ := (h p).exists_root
    refine rooted_of_climb (n := n) (y := r) ?_ (.root ?_)
    · rw [climb_update (fun k _ => hno k), hn]
    · have hrc : r ≠ c := by
        rintro rfl
        exact hno n hn
      rw [Function.update_of_ne hrc, hr]

end Relink

/-! ## Children -/

structure Linked (par : α → Option α) (kids : α → List α) : Prop where
  mem : ∀ c p, c ∈ kids p ↔ par c = some p
  nodup : ∀ p, (kids p).Nodup

/-- The nodes at most `n - 1` steps below `x`, parents first. -/
def preorder (kids : α → List α) : Nat → α → List α
  | 0, _ => []
  | n + 1, x => x :: (kids x).flatMap (preorder kids n)

variable {kids : α → List α}

theorem mem_preorder (hl : Linked par kids) {y : α} :
    y ∈ preorder kids n x ↔ ∃ k, k < n ∧ climb par k y = some x := by
  induction n generalizing x with
  | zero => simp [preorder]
  | succ n ih =>
    simp only [preorder, List.mem_cons, List.mem_flatMap]
    constructor
    · rintro (rfl | ⟨c, hc, hy⟩)
      · exact ⟨0, Nat.succ_pos n, rfl⟩
      · obtain ⟨k, hk, hclimb⟩ := ih.mp hy
        refine ⟨k + 1, Nat.succ_lt_succ hk, ?_⟩
        rw [climb_succ, hclimb]
        exact (hl.mem c x).mp hc
    · rintro ⟨k, hk, hclimb⟩
      cases k with
      | zero => exact .inl (Option.some.inj hclimb)
      | succ k =>
        rw [climb_succ, Option.bind_eq_some_iff] at hclimb
        obtain ⟨c, hc, hx⟩ := hclimb
        exact .inr ⟨c, (hl.mem c x).mpr hx, ih.mpr ⟨k, Nat.lt_of_succ_lt_succ hk, hc⟩⟩

theorem nodup_preorder (hl : Linked par kids) (hx : Rooted par x) :
    (preorder kids n x).Nodup := by
  induction n generalizing x with
  | zero => exact List.nodup_nil
  | succ n ih =>
    have hkid : ∀ c ∈ kids x, Rooted par c := fun c hc => .step ((hl.mem c x).mp hc) hx
    refine List.nodup_cons.mpr ⟨?_, List.nodup_flatMap.mpr ⟨fun c hc => ih (hkid c hc), ?_⟩⟩
    · intro hmem
      obtain ⟨c, hc, hxc⟩ := List.mem_flatMap.mp hmem
      obtain ⟨k, -, hk⟩ := (mem_preorder hl).mp hxc
      apply hx.climb_ne k
      rw [climb_succ, hk]
      exact (hl.mem c x).mp hc
    · refine (hl.nodup x).pairwise_of_forall_ne ?_
      intro c hc d hd hne y hyc hyd
      obtain ⟨j, -, hj⟩ := (mem_preorder hl).mp hyc
      obtain ⟨k, -, hk⟩ := (mem_preorder hl).mp hyd
      have hyx : ∀ {m : Nat} {e : α}, e ∈ kids x → climb par m y = some e →
          climb par (m + 1) y = some x := by
        intro m e he hm
        rw [climb_succ, hm]
        exact (hl.mem e x).mp he
      have hy : Rooted par y := rooted_of_climb hj (hkid c hc)
      have hjk := hy.climb_inj (hyx hc hj) (hyx hd hk)
      obtain rfl : j = k := by omega
      rw [hj] at hk
      exact hne (Option.some.inj hk)

theorem Rooted.climb_lt [DecidableEq α] {s : Finset α} (hs : ∀ x p, x ∈ s → par x = some p → p ∈ s)
    {y : α} (hx : x ∈ s) (h : Rooted par x) (hn : climb par n x = some y) : n < s.card := by
  have hsome : ∀ k, k ≤ n → ∃ z, climb par k x = some z := by
    intro k hk
    obtain ⟨m, rfl⟩ := Nat.exists_eq_add_of_le hk
    rw [climb_add, Option.bind_eq_some_iff] at hn
    obtain ⟨z, hz, -⟩ := hn
    exact ⟨z, hz⟩
  have hmem : ∀ k z, climb par k x = some z → z ∈ s := by
    intro k
    induction k with
    | zero =>
      intro z hz
      cases hz
      exact hx
    | succ k ih =>
      intro z hz
      rw [climb_succ, Option.bind_eq_some_iff] at hz
      obtain ⟨w, hw, hz⟩ := hz
      exact hs w z (ih w hw) hz
  have hcard : (Finset.range (n + 1)).card ≤ s.card := by
    apply Finset.card_le_card_of_injOn (fun k => (climb par k x).getD x)
    · intro k hk
      obtain ⟨z, hz⟩ := hsome k (by simpa [Nat.lt_succ_iff] using hk)
      simp only [hz]
      exact hmem k z hz
    · intro j hj k hk heq
      obtain ⟨z, hz⟩ := hsome j (by simpa [Nat.lt_succ_iff] using hj)
      obtain ⟨w, hw⟩ := hsome k (by simpa [Nat.lt_succ_iff] using hk)
      simp only [hz, hw] at heq
      subst heq
      exact h.climb_inj hz hw
  rw [Finset.card_range] at hcard
  exact hcard

end Forest

end Ratatoskr.Lib
