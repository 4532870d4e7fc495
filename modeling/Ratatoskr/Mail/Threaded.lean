import Ratatoskr.Mail.Refiled

/-!
# Mail.Threaded

All groups of a drive, one after the other. No message is in two of them; then the row of a thread is that
of the last group filed under it, or the old one: as it was if no message left it, without the row if all
did, else with folders and labels of the rest.
-/

namespace Ratatoskr.Mail

open List
open Threading (ThreadGroup)

variable {acc : List ImapThreadPartition} {db db' : Tables} {groups : List ThreadGroup}
  {group : ThreadGroup} {t : ThreadId} {skipped : ThreadId → Bool}

def placedIn (acc : List ImapThreadPartition) (groups : List ThreadGroup) (id : MessageId) :
    Option ThreadId :=
  (groups.reverse.find? (fun g => id ∈ groupIds acc g)).map ThreadGroup.threadId

def lastFiled (groups : List ThreadGroup) (thread : ThreadId) : Option ThreadGroup :=
  groups.reverse.find? (fun g => g.threadId = thread)

section Places

variable {acc : List ImapThreadPartition} {groups : List ThreadGroup}
variable {thread : ThreadId} {group : ThreadGroup} {id : MessageId}

theorem placedIn_snoc (group : ThreadGroup) (id : MessageId) : placedIn acc (groups ++ [group]) id =
      if id ∈ groupIds acc group then some group.threadId else placedIn acc groups id := by
  rw [placedIn, reverse_append, reverse_singleton, singleton_append]
  by_cases h : id ∈ groupIds acc group
  · simp [h]
  · simp [h, placedIn]

theorem lastFiled_snoc (group : ThreadGroup) (thread : ThreadId) : lastFiled (groups ++ [group]) thread =
      if group.threadId = thread then some group else lastFiled groups thread := by
  rw [lastFiled, reverse_append, reverse_singleton, singleton_append]
  by_cases h : group.threadId = thread
  · simp [h]
  · simp [h, lastFiled]

theorem lastFiled_eq_none : lastFiled groups thread = none ↔ ∀ g ∈ groups, g.threadId ≠ thread := by
  rw [lastFiled]
  simp

theorem lastFiled_mem (h : lastFiled groups thread = some group) :
    group ∈ groups ∧ group.threadId = thread := by
  refine ⟨mem_reverse.mp (mem_of_find?_eq_some h), ?_⟩
  simpa using find?_some h

theorem placedIn_mem (h : placedIn acc groups id = some thread) :
    ∃ g ∈ groups, id ∈ groupIds acc g ∧ g.threadId = thread := by
  rw [placedIn, Option.map_eq_some_iff] at h
  obtain ⟨g, hg, rfl⟩ := h
  exact ⟨g, mem_reverse.mp (mem_of_find?_eq_some hg), by simpa using find?_some hg, rfl⟩

theorem placedIn_of_mem (hnodup : (groups.flatMap (groupIds acc)).Nodup) (hgroup : group ∈ groups)
    (hid : id ∈ groupIds acc group) : placedIn acc groups id = some group.threadId := by
  cases h : placedIn acc groups id with
  | none =>
    rw [placedIn, Option.map_eq_none_iff, find?_eq_none] at h
    exact absurd (decide_eq_true hid) (h group (mem_reverse.mpr hgroup))
  | some thread =>
    obtain ⟨g, hg, hmem, rfl⟩ := placedIn_mem h
    by_cases heq : g = group
    · rw [heq]
    · have hdisjoint := (nodup_flatMap.mp hnodup).2
      have hsymm : Std.Symm (Function.onFun List.Disjoint (groupIds acc)) := ⟨fun _ _ hd => hd.symm⟩
      exact absurd hid (hdisjoint.forall hg hgroup heq hmem)

end Places

def Message.placed (m : Message) : Option ThreadId → Message
  | some thread => m.refile thread
  | none => m

structure Threaded (acc : List ImapThreadPartition) (db : Tables) (groups : List ThreadGroup)
    (db' : Tables) : Prop where
  attachments : db'.attachments = db.attachments
  imapFolders : db'.imapFolders = db.imapFolders
  messages : ∀ id, db'.messages.lookup id =
    (db.messages.lookup id).map (fun m => m.placed (placedIn acc groups id))
  byGroup : ∀ t g, lastFiled groups t = some g → ∃ r, db'.threads.lookup t = some r ∧
    CountsGroup acc g r ∧ (r.folders = groupFolders acc g ∨
      r.folders = derivedFolders db'.imapFolders (views db' t))
  untouched : ∀ t, lastFiled groups t = none →
    (∀ id, threadOf db id = some t → placedIn acc groups id = none) →
      db'.threads.lookup t = db.threads.lookup t ∧ messagesOf db' t = messagesOf db t
  left : ∀ t, lastFiled groups t = none →
    (∃ id, threadOf db id = some t ∧ placedIn acc groups id ≠ none) →
      db'.threads.lookup t =
        if messagesOf db' t = [] then none else (db.threads.lookup t).map (rederived db' t)

theorem Threaded.threadOf (h : Threaded acc db groups db') (id : MessageId) :
    threadOf db' id = (threadOf db id).map (fun t => (placedIn acc groups id).getD t) := by
  rw [Mail.threadOf, Mail.threadOf, h.messages, Option.map_map, Option.map_map]
  congr 1
  cases placedIn acc groups id with
  | none => rfl
  | some t => rfl

/-- Messages leave a thread only for the group's, and only those of the group. -/
theorem Refiled.messagesOf_other (h : Refiled acc db group db') (ht : t ≠ group.threadId) :
    messagesOf db' t = (messagesOf db t).filter (fun m => m.1 ∉ groupIds acc group) := by
  rw [messagesOf_of_messages h.mail.messages, messagesOf_updateMessageThreadIds db ht]

theorem Refiled.unmoved (h : Refiled acc db group db') (ht : t ≠ group.threadId)
    (hold : t ∉ queryOldThreadIdsForMessages db group.threadId (groupIds acc group)) :
    messagesOf db' t = messagesOf db t ∧ views db' t = views db t := by
  have hstay : ∀ id ∈ groupIds acc group, Mail.threadOf db id ≠ some t :=
    fun id hid heq => hold (mem_oldThreadIds.mpr ⟨ht, id, hid, heq⟩)
  constructor
  · rw [h.messagesOf_other ht, filter_eq_self]
    intro m hm
    rw [decide_eq_true_eq]
    exact fun hid => hstay m.1 hid (threadOf_eq_some.mpr ⟨m.2, hm⟩)
  · rw [h.mail.views, views_updateMessageThreadIds db ht hstay]

theorem Threaded.refl (acc : List ImapThreadPartition) (db : Tables) : Threaded acc db [] db where
  attachments := rfl
  imapFolders := rfl
  messages := by
    intro id
    cases db.messages.lookup id with
    | none => rfl
    | some m => rfl
  byGroup := by
    intro t g h
    cases h
  untouched := fun _ _ _ => ⟨rfl, rfl⟩
  left := by
    rintro t - ⟨id, -, hplaced⟩
    exact absurd rfl hplaced

section Snoc

variable {acc : List ImapThreadPartition} {db db₁ db' : Tables} {groups : List ThreadGroup}
  {group : ThreadGroup}

/-- A thread no group is filed under loses a message to the next group only if that one left it first. -/
theorem Threaded.leaves (h : Threaded acc db groups db₁) {t : ThreadId} (hnone : lastFiled groups t = none)
    {id : MessageId} (hid : Mail.threadOf db₁ id = some t) :
    Mail.threadOf db id = some t ∧ placedIn acc groups id = none := by
  rw [h.threadOf, Option.map_eq_some_iff] at hid
  obtain ⟨t₀, ht₀, hplace⟩ := hid
  cases hp : placedIn acc groups id with
  | some t₁ =>
    rw [hp] at hplace
    obtain ⟨g, hg, -, hthread⟩ := placedIn_mem hp
    exact absurd (hthread.trans hplace) (lastFiled_eq_none.mp hnone g hg)
  | none =>
    rw [hp] at hplace
    exact ⟨ht₀.trans (congrArg some hplace), rfl⟩

theorem Threaded.snoc (h : Threaded acc db groups db₁) (hone : Refiled acc db₁ group db')
    (hnodup : ((groups ++ [group]).flatMap (groupIds acc)).Nodup)
    (hsome : ∀ g ∈ groups, ∃ id ∈ groupIds acc g, (db.messages.lookup id).isSome) :
    Threaded acc db (groups ++ [group]) db' where
  attachments := hone.mail.attachments.trans h.attachments
  imapFolders := hone.mail.imapFolders.trans h.imapFolders
  messages := by
    intro id
    rw [hone.mail.messages, lookup_updateMessageThreadIds, h.messages, Option.map_map, placedIn_snoc]
    congr 1
    funext m
    split
    · cases placedIn acc groups id with
      | none => rfl
      | some t => rfl
    · rfl
  byGroup := by
    intro t g hlast
    rw [lastFiled_snoc] at hlast
    split at hlast
    · rename_i heq
      cases hlast
      subst heq
      obtain ⟨r, hr, hcounts, hfolders⟩ := hone.target
      exact ⟨r, hr, hcounts, .inl hfolders⟩
    · rename_i hne
      have hne : t ≠ group.threadId := fun heq => hne heq.symm
      obtain ⟨r, hr, hcounts, hfolders⟩ := h.byGroup t g hlast
      by_cases hold : t ∈ queryOldThreadIdsForMessages db₁ group.threadId (groupIds acc group)
      · -- The messages of `g` stay, so the thread keeps its row.
        obtain ⟨hg, rfl⟩ := lastFiled_mem hlast
        obtain ⟨id, hid, hstored⟩ := hsome g hg
        obtain ⟨m, hm⟩ := Option.isSome_iff_exists.mp hstored
        have hplaced := placedIn_of_mem hnodup (mem_append_left _ hg) hid
        have hmem : messagesOf db' g.threadId ≠ [] := by
          have hthread : Mail.threadOf db' id = some g.threadId := by
            rw [Mail.threadOf, hone.mail.messages, lookup_updateMessageThreadIds, h.messages, hm]
            rw [placedIn_snoc] at hplaced
            split at hplaced
            · rename_i hin
              have heq : group.threadId = g.threadId := Option.some.inj hplaced
              simp [hin, heq]
            · rename_i hout
              simp [hout, hplaced, Message.placed]
          obtain ⟨m', hm'⟩ := threadOf_eq_some.mp hthread
          exact ne_nil_of_mem hm'
        rw [hone.sources _ hold, if_neg hmem, hr]
        exact ⟨_, rfl, hcounts, .inr rfl⟩
      · rw [hone.others t hne hold, hone.mail.imapFolders, (hone.unmoved hne hold).2]
        exact ⟨r, hr, hcounts, hfolders⟩
  untouched := by
    intro t hlast hstay
    rw [lastFiled_snoc] at hlast
    split at hlast
    · cases hlast
    rename_i hne
    have hne : t ≠ group.threadId := fun heq => hne heq.symm
    have hbefore : ∀ id, Mail.threadOf db id = some t →
        id ∉ groupIds acc group ∧ placedIn acc groups id = none := by
      intro id hid
      have hplaced := hstay id hid
      rw [placedIn_snoc] at hplaced
      split at hplaced
      · cases hplaced
      · rename_i hout
        exact ⟨hout, hplaced⟩
    have hold : t ∉ queryOldThreadIdsForMessages db₁ group.threadId (groupIds acc group) := by
      intro hmem
      obtain ⟨-, id, hid, hthread⟩ := mem_oldThreadIds.mp hmem
      exact (hbefore id (h.leaves hlast hthread).1).1 hid
    obtain ⟨hrow, hmessages⟩ := h.untouched t hlast (fun id hid => (hbefore id hid).2)
    rw [hone.others t hne hold, (hone.unmoved hne hold).1]
    exact ⟨hrow, hmessages⟩
  left := by
    intro t hlast hleft
    rw [lastFiled_snoc] at hlast
    split at hlast
    · cases hlast
    rename_i hne
    have hne : t ≠ group.threadId := fun heq => hne heq.symm
    by_cases hold : t ∈ queryOldThreadIdsForMessages db₁ group.threadId (groupIds acc group)
    · rw [hone.sources t hold]
      split
      · rfl
      rename_i hsome'
      by_cases hbefore : ∃ id, Mail.threadOf db id = some t ∧ placedIn acc groups id ≠ none
      · have hmore : messagesOf db₁ t ≠ [] := by
          intro hnil
          rw [hone.messagesOf_other hne, hnil] at hsome'
          exact hsome' rfl
        rw [h.left t hlast hbefore, if_neg hmore, Option.map_map]
        rfl
      · have hnone : ∀ id, Mail.threadOf db id = some t → placedIn acc groups id = none := by
          intro id hid
          by_contra hplaced
          exact hbefore ⟨id, hid, hplaced⟩
        rw [(h.untouched t hlast hnone).1]
    · obtain ⟨id, hid, hplaced⟩ := hleft
      have hbefore : placedIn acc groups id ≠ none := by
        intro hnone
        rw [placedIn_snoc] at hplaced
        split at hplaced
        · rename_i hin
          refine hold (mem_oldThreadIds.mpr ⟨hne, id, hin, ?_⟩)
          rw [h.threadOf, hid, hnone]
          rfl
        · exact hplaced hnone
      obtain ⟨hmessages, hviews⟩ := hone.unmoved hne hold
      rw [hone.others t hne hold, h.left t hlast ⟨id, hid, hbefore⟩, hmessages]
      congr 2
      funext r
      rw [rederived, rederived, hviews, hone.mail.imapFolders]
      rfl

end Snoc

theorem storeGroups_eq (acc : List ImapThreadPartition) (skipped : ThreadId → Bool) (db : Tables)
    (groups : List ThreadGroup) : groups.foldl (storeGroup acc skipped) db =
      (groups.filter (filed acc skipped)).foldl (storeGroup acc skipped) db := by
  induction groups generalizing db with
  | nil => rfl
  | cons g groups ih =>
    rw [foldl_cons, filter_cons]
    cases h : filed acc skipped g with
    | true => exact ih _
    | false =>
      rw [storeGroup_of_not_filed h]
      exact ih db

theorem groupIds_ne_nil {g : ThreadGroup} (h : filed acc skipped g = true) : groupIds acc g ≠ [] := by
  have hsome : groupMessages acc g ≠ [] := by
    simp only [filed, Bool.and_eq_true, Bool.not_eq_true', isEmpty_eq_false_iff] at h
    exact h.2
  simpa [groupIds] using hsome

theorem storeGroups_threaded (hfiled : ∀ g ∈ groups, filed acc skipped g = true)
    (hnodup : (groups.flatMap (groupIds acc)).Nodup)
    (hstored : ∀ g ∈ groups, ∀ id ∈ groupIds acc g, (db.messages.lookup id).isSome) :
    Threaded acc db groups (groups.foldl (storeGroup acc skipped) db) := by
  induction groups using List.reverseRecOn with
  | nil => exact .refl acc db
  | append_singleton groups g ih =>
    have hbefore : ∀ x ∈ groups, x ∈ groups ++ [g] := fun x hx => mem_append_left _ hx
    have hrest : (groups.flatMap (groupIds acc)).Nodup := by
      rw [flatMap_append] at hnodup
      exact hnodup.of_append_left
    have hthreaded := ih (fun x hx => hfiled x (hbefore x hx)) hrest (fun x hx => hstored x (hbefore x hx))
    rw [foldl_append]
    refine hthreaded.snoc (storeGroup_refiled (hfiled g (by simp)) _) hnodup ?_
    intro x hx
    obtain ⟨id, hid⟩ := exists_mem_of_ne_nil _ (groupIds_ne_nil (hfiled x (hbefore x hx)))
    exact ⟨id, hid, hstored x (hbefore x hx) id hid⟩

end Ratatoskr.Mail
