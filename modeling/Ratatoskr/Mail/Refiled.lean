import Ratatoskr.Mail.Counts

/-!
# Mail.Refiled

What a group of a drive does: its thread gets the counts and the folders of the drive's messages, the
messages move there, and the threads they leave keep their counts and lose their row if they are empty.
-/

namespace Ratatoskr.Mail

open List
open Threading (ThreadGroup)

variable {thread other : ThreadId} {ids : List MessageId} {acc : List ImapThreadPartition}
  {skipped : ThreadId → Bool} {group : ThreadGroup}

def Message.refile (m : Message) (thread : ThreadId) : Message :=
  { m with columns := { m.columns with threadId := thread } }

@[simp] theorem Message.refile_threadId (m : Message) (thread : ThreadId) :
    (m.refile thread).columns.threadId = thread := rfl

theorem lookup_updateMessageThreadIds (db : Tables) (thread : ThreadId) (ids : List MessageId)
    (id : MessageId) : (updateMessageThreadIds db thread ids).messages.lookup id =
      (db.messages.lookup id).map (fun m => if id ∈ ids then m.refile thread else m) := by
  rw [updateMessageThreadIds, Lib.Table.lookup_update]
  rfl

theorem messagesOf_updateMessageThreadIds (db : Tables) (h : other ≠ thread) (ids : List MessageId) :
    messagesOf (updateMessageThreadIds db thread ids) other =
      (messagesOf db other).filter (fun m => m.1 ∉ ids) := by
  rw [messagesOf, messagesOf, updateMessageThreadIds, Lib.Table.rows_update, filter_filter]
  induction db.messages.rows with
  | nil => rfl
  | cons m rows ih =>
    rw [map_cons, filter_cons, filter_cons, ih]
    by_cases hid : m.1 ∈ ids
    · simp [hid, h.symm]
    · simp [hid]

theorem views_updateMessageThreadIds (db : Tables) (h : other ≠ thread)
    (hstay : ∀ id ∈ ids, threadOf db id ≠ some other) :
    views (updateMessageThreadIds db thread ids) other = views db other := by
  apply views_congr
  · rw [messagesOf_updateMessageThreadIds db h, filter_eq_self]
    intro m hm
    rw [decide_eq_true_eq]
    intro hid
    exact hstay m.1 hid (threadOf_eq_some.mpr ⟨m.2, hm⟩)
  · intro r _
    rfl

def rederived (db : Tables) (thread : ThreadId) (row : Thread) : Thread :=
  { row with
    folders := derivedFolders db.imapFolders (views db thread)
    labels := derivedLabels (views db thread) }

theorem rederived_congr {db db' : Tables} (h : SameMail db db') (thread : ThreadId) (row : Thread) :
    rederived db' thread row = rederived db thread row := by
  rw [rederived, rederived, h.views, h.imapFolders]

structure Repaired (db : Tables) (old : List ThreadId) (db' : Tables) : Prop where
  same : SameMail db db'
  others : ∀ t, t ∉ old → db'.threads.lookup t = db.threads.lookup t
  repaired : ∀ t ∈ old, db'.threads.lookup t =
    if messagesOf db t = [] then none else (db.threads.lookup t).map (rederived db t)

theorem recompute_spec (db : Tables) (thread : ThreadId) :
    let db' := recomputeThreadLabelsFromMessages (recomputeThreadFoldersFromMessages db thread) thread
    SameMail db db' ∧ (∀ t, t ≠ thread → db'.threads.lookup t = db.threads.lookup t) ∧
      db'.threads.lookup thread = (db.threads.lookup thread).map (rederived db thread) := by
  intro db'
  have hfolders : SameMail db (recomputeThreadFoldersFromMessages db thread) := .modifyThread ..
  refine ⟨hfolders.trans (.modifyThread ..), ?_, ?_⟩
  · intro t ht
    exact (lookup_modifyThread_ne _ ht _).trans (lookup_modifyThread_ne _ ht _)
  · have hself : db'.threads.lookup thread =
        ((recomputeThreadFoldersFromMessages db thread).threads.lookup thread).map _ :=
      lookup_modifyThread_self _ thread _
    rw [hself, recomputeThreadFoldersFromMessages, lookup_modifyThread_self, Option.map_map]
    congr 1

theorem repairOldThread_repaired (db : Tables) (thread : ThreadId) :
    Repaired db [thread] (repairOldThread db thread) := by
  rw [repairOldThread, repairThreadAfterMessageReassignment]
  split
  · rename_i hnil
    obtain ⟨hsame, hothers, hself⟩ := recompute_spec (deleteThread db thread) thread
    have hdelete : SameMail db (deleteThread db thread) := ⟨rfl, rfl, rfl⟩
    refine ⟨hdelete.trans hsame, ?_, ?_⟩
    · intro t ht
      have hne : t ≠ thread := fun heq => ht (mem_singleton.mpr heq)
      rw [hothers t hne, deleteThread, Lib.Table.lookup_erase_if, if_neg hne]
    · intro t ht
      have heq := mem_singleton.mp ht
      subst heq
      rw [hself, deleteThread, AList.lookup_erase, if_pos hnil]
      rfl
  · rename_i hsome
    obtain ⟨hsame, hothers, hself⟩ := recompute_spec db thread
    refine ⟨hsame, ?_, ?_⟩
    · intro t ht
      exact hothers t (fun heq => ht (mem_singleton.mpr heq))
    · intro t ht
      have heq := mem_singleton.mp ht
      subst heq
      rw [hself, if_neg hsome]

theorem Repaired.cons {db db₁ db' : Tables} {thread : ThreadId} {old : List ThreadId}
    (hone : Repaired db [thread] db₁) (hrest : Repaired db₁ old db') : Repaired db (thread :: old) db' := by
  have hmessages : ∀ t, messagesOf db₁ t = messagesOf db t := messagesOf_of_messages hone.same.messages
  refine ⟨hone.same.trans hrest.same, ?_, ?_⟩
  · intro t ht
    rw [mem_cons, not_or] at ht
    rw [hrest.others t ht.2, hone.others t (fun hmem => ht.1 (mem_singleton.mp hmem))]
  · intro t ht
    by_cases hmem : t ∈ old
    · rw [hrest.repaired t hmem, hmessages]
      split
      · rfl
      rename_i hsome
      by_cases heq : t = thread
      · rw [hone.repaired t (mem_singleton.mpr heq), if_neg hsome, Option.map_map]
        congr 1
        funext row
        rw [Function.comp_apply, rederived_congr hone.same]
        rfl
      · rw [hone.others t (fun hin => heq (mem_singleton.mp hin))]
        congr 1
        funext row
        rw [rederived_congr hone.same]
    · have heq : t = thread := (mem_cons.mp ht).resolve_right hmem
      rw [hrest.others t hmem, hone.repaired t (mem_singleton.mpr heq)]

theorem repairOldThreads_repaired (db : Tables) (old : List ThreadId) :
    Repaired db old (old.foldl repairOldThread db) := by
  induction old generalizing db with
  | nil => exact ⟨.refl db, fun _ _ => rfl, fun _ hmem => by cases hmem⟩
  | cons thread old ih => exact (repairOldThread_repaired db thread).cons (ih _)

theorem mem_oldThreadIds {db : Tables} {t : ThreadId} : t ∈ queryOldThreadIdsForMessages db thread ids ↔
      t ≠ thread ∧ ∃ id ∈ ids, threadOf db id = some t := by
  rw [queryOldThreadIdsForMessages, mem_dedup, mem_filter, mem_filterMap, decide_eq_true_eq, and_comm]

structure Reassigned (db : Tables) (thread : ThreadId) (ids : List MessageId) (db' : Tables) : Prop where
  mail : SameMail (updateMessageThreadIds db thread ids) db'
  target : db'.threads.lookup thread = (db.threads.lookup thread).map (rederived db' thread)
  sources : ∀ t ∈ queryOldThreadIdsForMessages db thread ids, db'.threads.lookup t =
    if messagesOf db' t = [] then none else (db.threads.lookup t).map (rederived db' t)
  others : ∀ t, t ≠ thread → t ∉ queryOldThreadIdsForMessages db thread ids →
    db'.threads.lookup t = db.threads.lookup t

theorem reassign_reassigned (db : Tables) (thread : ThreadId) (hids : ids ≠ []) :
    Reassigned db thread ids (reassignMessagesAndRepairThreads db thread ids) := by
  rw [reassignMessagesAndRepairThreads, if_neg hids]
  dsimp only
  have hrepaired := repairOldThreads_repaired (updateMessageThreadIds db thread ids)
    (queryOldThreadIdsForMessages db thread ids)
  generalize (queryOldThreadIdsForMessages db thread ids).foldl repairOldThread
    (updateMessageThreadIds db thread ids) = db₁ at hrepaired ⊢
  obtain ⟨hsame, hothers, hself⟩ := recompute_spec db₁ thread
  generalize recomputeThreadLabelsFromMessages (recomputeThreadFoldersFromMessages db₁ thread) thread =
    db' at hsame hothers hself ⊢
  have hmail := hrepaired.same.trans hsame
  have hself_not : thread ∉ queryOldThreadIdsForMessages db thread ids :=
    fun hmem => (mem_oldThreadIds.mp hmem).1 rfl
  refine ⟨hmail, ?_, ?_, ?_⟩
  · rw [hself, hrepaired.others thread hself_not]
    congr 1
    funext row
    rw [rederived_congr hsame]
  · intro t ht
    rw [hothers t (mem_oldThreadIds.mp ht).1, hrepaired.repaired t ht, messagesOf_of_messages hmail.messages]
    congr 2
    funext row
    rw [rederived_congr hmail]
  · intro t hne ht
    rw [hothers t hne, hrepaired.others t ht]
    rfl

/-! ## A group -/

def groupIds (acc : List ImapThreadPartition) (group : ThreadGroup) : List MessageId :=
  (groupMessages acc group).map MessageMeta.id

def groupFacts (acc : List ImapThreadPartition) (group : ThreadGroup) : List Fact :=
  (groupMessages acc group).map MessageMeta.fact

def groupFolders (acc : List ImapThreadPartition) (group : ThreadGroup) : Finset FolderId :=
  ((groupIds acc group).flatMap (allFolderIds acc)).toFinset

def CountsGroup (acc : List ImapThreadPartition) (group : ThreadGroup) (row : Thread) : Prop :=
  ∃ a, row.aggregate = some a ∧ countsOf (groupFacts acc group) = some a.counts

structure Refiled (acc : List ImapThreadPartition) (db : Tables) (group : ThreadGroup) (db' : Tables) :
    Prop where
  mail : SameMail (updateMessageThreadIds db group.threadId (groupIds acc group)) db'
  target : ∃ r, db'.threads.lookup group.threadId = some r ∧ CountsGroup acc group r ∧
    r.folders = groupFolders acc group
  sources : ∀ t ∈ queryOldThreadIdsForMessages db group.threadId (groupIds acc group),
    db'.threads.lookup t =
      if messagesOf db' t = [] then none else (db.threads.lookup t).map (rederived db' t)
  others : ∀ t, t ≠ group.threadId →
    t ∉ queryOldThreadIdsForMessages db group.threadId (groupIds acc group) →
    db'.threads.lookup t = db.threads.lookup t

/-- A group is filed unless it is skipped or the drive has none of its messages. -/
def filed (acc : List ImapThreadPartition) (skipped : ThreadId → Bool) (group : ThreadGroup) : Bool :=
  !skipped group.threadId && !(groupMessages acc group).isEmpty

theorem storeGroup_of_not_filed (h : filed acc skipped group = false) (db : Tables) :
    storeGroup acc skipped db group = db := by
  rw [storeGroup]
  split
  · rfl
  · rename_i hskip
    have hempty : groupMessages acc group = [] := by simpa [filed, hskip] using h
    rw [hempty]

theorem storeGroup_refiled (h : filed acc skipped group = true) (db : Tables) :
    Refiled acc db group (storeGroup acc skipped db group) := by
  obtain ⟨hskip, hsome⟩ : skipped group.threadId = false ∧ groupMessages acc group ≠ [] := by
    simpa [filed] using h
  unfold storeGroup
  rw [if_neg (by simp [hskip])]
  cases hms : groupMessages acc group with
  | nil => exact absurd hms hsome
  | cons first rest =>
    have hids : (first :: rest).map MessageMeta.id = groupIds acc group := by rw [groupIds, hms]
    have hne : groupIds acc group ≠ [] := by simp [groupIds, hms]
    dsimp only
    rw [hids]
    have hup := upsertThreadAggregate_sameMail db group.threadId (computeFromMessages first rest)
      (some false) ((threadNamespace acc group.threadId).bind namespaceKind)
      ((threadNamespace acc group.threadId).bind namespaceId)
    obtain ⟨r, hr, hagg, -⟩ := upsertThreadAggregate_self db group.threadId
      (computeFromMessages first rest) (some false)
      ((threadNamespace acc group.threadId).bind namespaceKind)
      ((threadNamespace acc group.threadId).bind namespaceId)
    have hupOthers : ∀ t, t ≠ group.threadId → _ = db.threads.lookup t := fun t ht =>
      upsertThreadAggregate_others db ht (computeFromMessages first rest) (some false)
        ((threadNamespace acc group.threadId).bind namespaceKind)
        ((threadNamespace acc group.threadId).bind namespaceId)
    generalize upsertThreadAggregate db group.threadId (computeFromMessages first rest) (some false)
      ((threadNamespace acc group.threadId).bind namespaceKind)
      ((threadNamespace acc group.threadId).bind namespaceId) = db₁ at hup hr hupOthers ⊢
    have hmove := reassign_reassigned db₁ group.threadId hne
    generalize reassignMessagesAndRepairThreads db₁ group.threadId (groupIds acc group) = db₂ at hmove ⊢
    have hold : queryOldThreadIdsForMessages db₁ group.threadId (groupIds acc group) =
        queryOldThreadIdsForMessages db group.threadId (groupIds acc group) := by
      have hthreads : threadOf db₁ = threadOf db := funext (threadOf_congr hup.skeleton)
      rw [queryOldThreadIdsForMessages, queryOldThreadIdsForMessages, hthreads]
    have hmail : SameMail (updateMessageThreadIds db group.threadId (groupIds acc group)) db₂ := by
      refine ⟨?_, hmove.mail.attachments.trans hup.attachments, hmove.mail.imapFolders.trans hup.imapFolders⟩
      rw [hmove.mail.messages, updateMessageThreadIds, updateMessageThreadIds, hup.messages]
    refine ⟨hmail.trans (.modifyThread ..), ?_, ?_, ?_⟩
    · rw [lookup_modifyThread_self, hmove.target, hr]
      refine ⟨_, rfl, ⟨_, hagg, ?_⟩, rfl⟩
      rw [groupFacts, hms]
      exact countsOf_computeFromMessages first rest
    · intro t ht
      have hne : t ≠ group.threadId := (mem_oldThreadIds.mp ht).1
      rw [lookup_modifyThread_ne _ hne, hmove.sources t (hold ▸ ht), hupOthers t hne]
      rfl
    · intro t hne ht
      rw [lookup_modifyThread_ne _ hne, hmove.others t hne (hold ▸ ht), hupOthers t hne]

end Ratatoskr.Mail
