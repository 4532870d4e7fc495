import Mathlib.Data.Finset.Union
import Mathlib.Data.List.Sort
import Mathlib.Data.String.Basic
import Ratatoskr.Lib.Walk

/-!
# Contacts.Groups

Contact groups (`db/src/db/queries_extra/contact_groups.rs`). Both expansions are walks over the member rows
that enter a group once; `to_lowercase` and the names of the contacts are parameters.

* `expandRecursive_spec`, `expandGroupWithNamesSync_spec` : the addresses of the groups that can be reached.
* `contact_groups_expand` : these, the group that matches given addresses, and saving a group.
-/

namespace Ratatoskr.Contacts

open List

inductive MemberType where
  | email | group
  deriving DecidableEq

structure MemberRow where
  groupId : String
  memberType : MemberType
  memberValue : String

structure GroupTables where
  groups : List (String × String)
  members : List MemberRow
  members_key : members.Nodup

structure ExpandedGroupContact where
  email : String
  displayName : Option String

structure MatchedGroup where
  id : String
  name : String
  memberCount : Nat

/-- `SELECT member_type, member_value FROM contact_group_members WHERE group_id = ?1`; groups are on the left. -/
def GroupTables.rows (t : GroupTables) (groupId : String) : List (String ⊕ String) :=
  (t.members.filter fun m => m.groupId = groupId).map fun m =>
    match m.memberType with
    | .group => .inl m.memberValue
    | .email => .inr m.memberValue

variable (lower : String → String) (displayName : String → Option String) (t : GroupTables)

def expandRecursive (fuel : Nat) (groupId : String) : Option (Finset String) :=
  (Lib.walk t.rows (fun emails value => insert (lower value) emails) fuel groupId (∅, ∅)).map Prod.snd

/-- An address is taken along with its name when it is seen first. -/
def pushContact (st : List ExpandedGroupContact × Finset String) (value : String) :
    List ExpandedGroupContact × Finset String :=
  if lower value ∈ st.2 then st else (st.1 ++ [⟨value, displayName value⟩], insert (lower value) st.2)

def expandGroupWithNamesSync (fuel : Nat) (groupId : String) : Option (List ExpandedGroupContact) :=
  (Lib.walk t.rows (pushContact lower displayName) fuel groupId (∅, ([], ∅))).map fun st =>
    st.2.1.insertionSort fun a b => a.email ≤ b.email

/-- The loop over the groups. -/
def findGroup (fuel : Nat) (target : Finset String) : List (String × String) → Option (Option MatchedGroup)
  | [] => some none
  | (id, name) :: groups =>
    match expandRecursive lower t fuel id with
    | none => none
    | some emails =>
      if emails = target then some (some ⟨id, name, emails.card⟩) else findGroup fuel target groups

def dbFindGroupMatchingEmails (fuel : Nat) (emails : List String) : Option (Option MatchedGroup) :=
  let target := (emails.map lower).toFinset
  if target = ∅ then some none else findGroup lower t fuel target t.groups

def loadGroupMemberEmailsSync (groupId : String) : List String :=
  let rows := t.members.filter fun m => m.groupId = groupId && m.memberType = .email
  (rows.map MemberRow.memberValue).insertionSort (· ≤ ·)

def emailRow (groupId email : String) : MemberRow := ⟨groupId, .email, email⟩

/-- The upsert of the group, its rows deleted, the new ones inserted. A row inserted twice fails the transaction. -/
def saveGroupSync (id name : String) (memberEmails : List String) : Option GroupTables :=
  if h : memberEmails.Nodup then
    some {
      groups :=
        if id ∈ t.groups.map Prod.fst then t.groups.map fun g => if g.1 = id then (id, name) else g
        else t.groups ++ [(id, name)]
      members := t.members.filter (fun m => m.groupId ≠ id) ++ memberEmails.map (emailRow id)
      members_key := by
        refine nodup_append.mpr ⟨t.members_key.filter _, h.map fun _ _ heq => (MemberRow.mk.inj heq).2.2, ?_⟩
        rintro m hm _ hnew rfl
        obtain ⟨email, -, rfl⟩ := mem_map.mp hnew
        exact of_decide_eq_true (mem_filter.mp hm).2 rfl }
  else none

def GroupTables.Child (x y : String) : Prop := ⟨x, .group, y⟩ ∈ t.members

/-- An address, in lower case, of a group that is reached from `g`. -/
def GroupTables.Reachable (g a : String) : Prop :=
  ∃ x e, Relation.ReflTransGen t.Child g x ∧ ⟨x, .email, e⟩ ∈ t.members ∧ lower e = a

variable {t} {fuel : Nat}

theorem mem_rows_group {x y : String} : .inl y ∈ t.rows x ↔ t.Child x y := by
  rw [GroupTables.rows, mem_map]
  constructor
  · rintro ⟨⟨_, type, value⟩, hrow, heq⟩
    obtain ⟨hmem, hid⟩ := mem_filter.mp hrow
    cases of_decide_eq_true hid
    cases type <;> cases heq
    exact hmem
  · intro hrow
    exact ⟨_, mem_filter.mpr ⟨hrow, decide_eq_true rfl⟩, rfl⟩

theorem mem_rows_email {x e : String} : .inr e ∈ t.rows x ↔ ⟨x, .email, e⟩ ∈ t.members := by
  rw [GroupTables.rows, mem_map]
  constructor
  · rintro ⟨⟨_, type, value⟩, hrow, heq⟩
    obtain ⟨hmem, hid⟩ := mem_filter.mp hrow
    cases of_decide_eq_true hid
    cases type <;> cases heq
    exact hmem
  · intro hrow
    exact ⟨_, mem_filter.mpr ⟨hrow, decide_eq_true rfl⟩, rfl⟩

/-- Two calls more than there are rows are deep enough. -/
theorem walk_groups {σ : Type} (visit : σ → String → σ) (s : σ) (hfuel : t.members.length + 2 ≤ fuel)
    (g : String) : ∃ (seen : Finset String) (values : List String),
      Lib.walk t.rows visit fuel g (∅, s) = some (seen, values.foldl visit s) ∧
        ∀ a, (∃ e ∈ values, lower e = a) ↔ t.Reachable lower g a := by
  let U := insert g (t.members.map MemberRow.memberValue).toFinset
  have hU : ∀ x ∈ U, ∀ y, .inl y ∈ t.rows x → y ∈ U := by
    intro x _ y hy
    exact Finset.mem_insert_of_mem (mem_toFinset.mpr (mem_map_of_mem (mem_rows_group.mp hy)))
  have hcard : U.card < fuel := by
    have hle := Finset.card_insert_le g (t.members.map MemberRow.memberValue).toFinset
    have hlist := toFinset_card_le (t.members.map MemberRow.memberValue)
    rw [length_map] at hlist
    exact Nat.lt_of_le_of_lt hle (by omega)
  obtain ⟨seen, values, hrun, hvalues⟩ := Lib.walk_reaches visit hU (Finset.mem_insert_self g _) hcard s
  simp only [mem_rows_group, mem_rows_email] at hvalues
  refine ⟨seen, values, hrun, fun a => ?_⟩
  constructor
  · rintro ⟨e, he, heq⟩
    obtain ⟨x, hreach, hrow⟩ := (hvalues e).mp he
    exact ⟨x, e, hreach, hrow, heq⟩
  · rintro ⟨x, e, hreach, hrow, heq⟩
    exact ⟨e, (hvalues e).mpr ⟨x, hreach, hrow⟩, heq⟩

theorem expandRecursive_spec (hfuel : t.members.length + 2 ≤ fuel) (g : String) :
    ∃ emails, expandRecursive lower t fuel g = some emails ∧ ∀ a, a ∈ emails ↔ t.Reachable lower g a := by
  obtain ⟨seen, values, hrun, hvalues⟩ := walk_groups lower
    (fun emails value => insert (lower value) emails) (∅ : Finset String) hfuel g
  have hfold : ∀ (l : List String) (emails : Finset String) (a : String),
      a ∈ l.foldl (fun emails value => insert (lower value) emails) emails ↔
        a ∈ emails ∨ ∃ e ∈ l, lower e = a := by
    intro l
    induction l with
    | nil => simp
    | cons value l ih =>
      intro emails a
      rw [foldl_cons, ih, Finset.mem_insert]
      simp only [mem_cons, exists_eq_or_imp]
      tauto
  refine ⟨_, by rw [expandRecursive, hrun, Option.map_some], fun a => ?_⟩
  rw [hfold, ← hvalues]
  exact or_iff_right (Finset.notMem_empty a)

theorem pushContact_fold (l : List String) (st : List ExpandedGroupContact × Finset String)
    (hnodup : (st.1.map fun c => lower c.email).Nodup)
      (hseen : ∀ a, a ∈ st.2 ↔ a ∈ st.1.map fun c => lower c.email) :
    ((l.foldl (pushContact lower displayName) st).1.map fun c => lower c.email).Nodup ∧
      ∀ a, a ∈ (l.foldl (pushContact lower displayName) st).1.map (fun c => lower c.email) ↔
        a ∈ st.1.map (fun c => lower c.email) ∨ ∃ e ∈ l, lower e = a := by
  induction l generalizing st with
  | nil => exact ⟨hnodup, fun a => by simp⟩
  | cons value l ih =>
    rw [foldl_cons, pushContact]
    by_cases hmem : lower value ∈ st.2
    · rw [if_pos hmem]
      obtain ⟨hn, ha⟩ := ih st hnodup hseen
      refine ⟨hn, fun a => ?_⟩
      rw [ha a, ← hseen a]
      simp only [mem_cons, exists_eq_or_imp]
      constructor
      · tauto
      · rintro (h | rfl | h)
        · exact .inl h
        · exact .inl hmem
        · exact .inr h
    · rw [if_neg hmem]
      have hfresh : lower value ∉ st.1.map fun c => lower c.email := fun h => hmem ((hseen _).mpr h)
      obtain ⟨hn, ha⟩ := ih (st.1 ++ [⟨value, displayName value⟩], insert (lower value) st.2)
        (by
          rw [map_append, map_singleton]
          exact nodup_append.mpr ⟨hnodup, nodup_singleton _, fun a ha b hb heq => hfresh
            (mem_singleton.mp hb ▸ heq ▸ ha)⟩)
        (fun a => by rw [Finset.mem_insert, hseen, map_append, mem_append, map_singleton, mem_singleton,
          or_comm])
      refine ⟨hn, fun a => ?_⟩
      rw [ha a, map_append, mem_append, map_singleton]
      simp only [mem_cons, exists_eq_or_imp]
      tauto

theorem expandGroupWithNamesSync_spec (hfuel : t.members.length + 2 ≤ fuel) (g : String) :
    ∃ contacts, expandGroupWithNamesSync lower displayName t fuel g = some contacts ∧
      (contacts.map fun c => lower c.email).Nodup ∧
        ∀ a, a ∈ contacts.map (fun c => lower c.email) ↔ t.Reachable lower g a := by
  obtain ⟨seen, values, hrun, hvalues⟩ := walk_groups lower (pushContact lower displayName) ([], ∅) hfuel g
  obtain ⟨hnodup, hmem⟩ := pushContact_fold lower displayName values ([], ∅) nodup_nil
    fun a => iff_of_false (Finset.notMem_empty a) not_mem_nil
  have hsorted := (perm_insertionSort (fun a b : ExpandedGroupContact => a.email ≤ b.email)
    (values.foldl (pushContact lower displayName) ([], ∅)).1).map fun c => lower c.email
  refine ⟨_, by rw [expandGroupWithNamesSync, hrun, Option.map_some], hsorted.nodup_iff.mpr hnodup, fun a => ?_⟩
  rw [hsorted.mem_iff, hmem, ← hvalues]
  exact or_iff_right not_mem_nil

/-! ## The group of given addresses -/

theorem findGroup_spec (hfuel : t.members.length + 2 ≤ fuel) (target : Finset String)
    (groups : List (String × String)) : ∃ found, findGroup lower t fuel target groups = some found ∧
      (found.isSome ↔ ∃ g ∈ groups, ∀ a, a ∈ target ↔ t.Reachable lower g.1 a) := by
  induction groups with
  | nil => exact ⟨none, rfl, iff_of_false nofun fun ⟨_, hg, _⟩ => not_mem_nil hg⟩
  | cons g groups ih =>
    obtain ⟨emails, hemails, hmem⟩ := expandRecursive_spec lower hfuel g.1
    have hsame : emails = target ↔ ∀ a, a ∈ target ↔ t.Reachable lower g.1 a := by
      simp only [← hmem, Finset.ext_iff, iff_comm]
    rw [findGroup, hemails]
    by_cases heq : emails = target
    · exact ⟨_, if_pos heq, iff_of_true rfl ⟨g, mem_cons_self, hsame.mp heq⟩⟩
    · obtain ⟨found, hfound, hiff⟩ := ih
      refine ⟨found, (if_neg heq).trans hfound, ?_⟩
      rw [hiff, exists_mem_cons_iff, ← hsame, or_iff_right heq]

theorem mem_load {id e : String} : e ∈ loadGroupMemberEmailsSync t id ↔ ⟨id, .email, e⟩ ∈ t.members := by
  rw [loadGroupMemberEmailsSync, (perm_insertionSort _ _).mem_iff, mem_map]
  constructor
  · rintro ⟨⟨_, type, value⟩, hrow, rfl⟩
    obtain ⟨hmem, hrow⟩ := mem_filter.mp hrow
    simp only [Bool.and_eq_true, decide_eq_true_eq] at hrow
    obtain ⟨rfl, rfl⟩ := hrow
    exact hmem
  · intro hmem
    exact ⟨_, mem_filter.mpr ⟨hmem, by simp⟩, rfl⟩

theorem load_nodup (id : String) : (loadGroupMemberEmailsSync t id).Nodup := by
  rw [loadGroupMemberEmailsSync, (perm_insertionSort _ _).nodup_iff]
  refine (t.members_key.filter _).map_on ?_
  rintro ⟨_, _, _⟩ hx ⟨_, _, _⟩ hy rfl
  simp only [mem_filter, Bool.and_eq_true, decide_eq_true_eq] at hx hy
  obtain ⟨-, rfl, rfl⟩ := hx
  obtain ⟨-, rfl, rfl⟩ := hy
  rfl

/-- A group of addresses has the rows that it had. -/
theorem save_loaded {id : String} (name : String) (h : ∀ v, ¬ t.Child id v) :
    ∃ t', saveGroupSync t id name (loadGroupMemberEmailsSync t id) = some t' ∧
      ∀ g a, t'.Reachable lower g a ↔ t.Reachable lower g a := by
  have hmem : ∀ r, r ∈ t.members.filter (fun m => m.groupId ≠ id) ++
      (loadGroupMemberEmailsSync t id).map (emailRow id) ↔ r ∈ t.members := by
    rintro ⟨x, type, v⟩
    rw [mem_append, mem_filter, mem_map]
    constructor
    · rintro (⟨hr, -⟩ | ⟨e, he, heq⟩)
      · exact hr
      · cases heq
        exact mem_load.mp he
    · intro hr
      by_cases hx : x = id
      · subst hx
        cases type with
        | group => exact absurd hr (h v)
        | email => exact .inr ⟨v, mem_load.mpr hr, rfl⟩
      · exact .inl ⟨hr, decide_eq_true hx⟩
  refine ⟨_, dif_pos (load_nodup id), fun g a => ?_⟩
  have hchild : ∀ t' : GroupTables, (∀ r, r ∈ t'.members ↔ r ∈ t.members) → t'.Child = t.Child :=
    fun t' ht => funext fun x => funext fun y => propext (ht _)
  rw [GroupTables.Reachable, GroupTables.Reachable, hchild _ hmem]
  simp only [hmem]

variable (t) in
/-- Both expansions end and give the addresses that can be reached, the second one each of them once; the group of
some addresses is found if there is one; and a group without groups is saved as it was loaded. -/
theorem contact_groups_expand :
    (∀ fuel, t.members.length + 2 ≤ fuel → ∀ g,
      ∃ emails, expandRecursive lower t fuel g = some emails ∧ ∀ a, a ∈ emails ↔ t.Reachable lower g a) ∧
    (∀ fuel, t.members.length + 2 ≤ fuel → ∀ g,
      ∃ contacts, expandGroupWithNamesSync lower displayName t fuel g = some contacts ∧
        (contacts.map fun c => lower c.email).Nodup ∧
          ∀ a, a ∈ contacts.map (fun c => lower c.email) ↔ t.Reachable lower g a) ∧
    (∀ fuel, t.members.length + 2 ≤ fuel → ∀ emails, emails ≠ [] →
      ∃ found, dbFindGroupMatchingEmails lower t fuel emails = some found ∧
        (found.isSome ↔ ∃ g ∈ t.groups, ∀ a, a ∈ emails.map lower ↔ t.Reachable lower g.1 a)) ∧
    ∀ id name, (∀ v, ¬ t.Child id v) →
      ∃ t', saveGroupSync t id name (loadGroupMemberEmailsSync t id) = some t' ∧
        ∀ g a, t'.Reachable lower g a ↔ t.Reachable lower g a := by
  refine ⟨fun fuel hfuel g => expandRecursive_spec lower hfuel g,
    fun fuel hfuel g => expandGroupWithNamesSync_spec lower displayName hfuel g,
    fun fuel hfuel emails hne => ?_, fun id name h => save_loaded lower name h⟩
  obtain ⟨found, hfound, hiff⟩ := findGroup_spec lower hfuel (emails.map lower).toFinset t.groups
  have htarget : (emails.map lower).toFinset ≠ ∅ := by
    rw [Ne, toFinset_eq_empty_iff, map_eq_nil_iff]
    exact hne
  refine ⟨found, (if_neg htarget).trans hfound, ?_⟩
  simp [hiff]

/-- A group that nobody is in. -/
def friends : GroupTables := ⟨[("g", "Friends")], [], nodup_nil⟩

theorem friends_unmatched : ¬ ∀ emails found, dbFindGroupMatchingEmails id friends 2 emails = some found →
      (found.isSome ↔ ∃ g ∈ friends.groups, ∀ a, a ∈ emails.map id ↔ friends.Reachable id g.1 a) := by
  intro h
  refine absurd ((h [] none rfl).mpr ⟨_, mem_cons_self, fun a => iff_of_false not_mem_nil ?_⟩) nofun
  rintro ⟨_, _, _, hmem, _⟩
  exact not_mem_nil hmem

end Ratatoskr.Contacts
