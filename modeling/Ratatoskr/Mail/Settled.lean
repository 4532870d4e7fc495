import Ratatoskr.Mail.Threaded
import Ratatoskr.Threading.Partition

/-!
# Mail.Settled

When the row of a thread is right after the end of a drive. What the drive gathered is stored as it was
gathered; then a thread that a group is filed under has to hold the messages of the group and no others,
and the row of a thread that only lost messages has to fit the rest already.
-/

namespace Ratatoskr.Mail

open List
open Threading (ThreadGroup)

variable {t : ThreadId} {acc : List ImapThreadPartition}

structure Cleared (db : Tables) (gone : List ThreadId) (db' : Tables) : Prop where
  imapFolders : db'.imapFolders = db.imapFolders
  others : ∀ t, t ∉ gone → db'.threads.lookup t = db.threads.lookup t ∧
    messagesOf db' t = messagesOf db t ∧ views db' t = views db t
  gone : ∀ t ∈ gone, db'.threads.lookup t = none

theorem messagesOf_deleteThreadByAccountAndId (db : Tables) {thread : ThreadId} (h : t ≠ thread) :
    messagesOf (deleteThreadByAccountAndId db thread) t = messagesOf db t := by
  rw [messagesOf, deleteThreadByAccountAndId, Lib.Table.rows_restrict, filter_filter]
  apply filter_congr
  intro m _
  by_cases ht : m.2.columns.threadId = t
  · simp [ht, h]
  · simp [ht]

theorem deleteThreadByAccountAndId_cleared (db : Tables) (thread : ThreadId) :
    Cleared db [thread] (deleteThreadByAccountAndId db thread) := by
  refine ⟨rfl, ?_, ?_⟩
  · intro t ht
    have hne : t ≠ thread := fun heq => ht (mem_singleton.mpr heq)
    have hmessages := messagesOf_deleteThreadByAccountAndId db hne
    refine ⟨?_, hmessages, ?_⟩
    · rw [deleteThreadByAccountAndId, Lib.Table.lookup_erase_if, if_neg hne]
    · apply views_congr hmessages
      intro r hr
      have hthread : threadOf db r.1 = some t := threadOf_eq_some.mpr ⟨r.2, hr⟩
      rw [attached, deleteThreadByAccountAndId, Lib.Table.rows_restrict, any_filter]
      congr 1
      funext a
      by_cases ha : a.2.messageId = r.1
      · simp [ha, hthread, hne]
      · simp [ha]
  · intro t ht
    rw [mem_singleton.mp ht, deleteThreadByAccountAndId, AList.lookup_erase]

theorem Cleared.cons {db db₁ db' : Tables} {thread : ThreadId} {gone : List ThreadId}
    (hone : Cleared db [thread] db₁) (hrest : Cleared db₁ gone db') : Cleared db (thread :: gone) db' := by
  refine ⟨hrest.imapFolders.trans hone.imapFolders, ?_, ?_⟩
  · intro t ht
    rw [mem_cons, not_or] at ht
    obtain ⟨hrow, hmessages, hviews⟩ := hone.others t (fun h => ht.1 (mem_singleton.mp h))
    obtain ⟨hrow', hmessages', hviews'⟩ := hrest.others t ht.2
    exact ⟨hrow'.trans hrow, hmessages'.trans hmessages, hviews'.trans hviews⟩
  · intro t ht
    by_cases hmem : t ∈ gone
    · exact hrest.gone t hmem
    · have heq := (mem_cons.mp ht).resolve_right hmem
      rw [(hrest.others t hmem).1, hone.gone t (mem_singleton.mpr heq)]

/-- The threads with the id of a message of the drive and without a group. -/
def orphans (acc : List ImapThreadPartition) : List ThreadId :=
  ((pushedRows acc).map Prod.fst).dedup.filter (fun id =>
    id ∉ (threadGroups acc).map ThreadGroup.threadId)

theorem cleanupOrphanThreads_cleared (db : Tables) (ids : List MessageId) (final : List ThreadId) :
    Cleared db (ids.filter (fun id => id ∉ final)) (cleanupOrphanThreads db ids final) := by
  induction ids generalizing db with
  | nil => exact ⟨rfl, fun _ _ => ⟨rfl, rfl, rfl⟩, fun _ hmem => by cases hmem⟩
  | cons id ids ih =>
    have hcons : cleanupOrphanThreads db (id :: ids) final =
        cleanupOrphanThreads (if id ∈ final then db else deleteThreadByAccountAndId db id) ids final := rfl
    rw [hcons]
    by_cases hid : id ∈ final
    · rw [if_pos hid, filter_cons_of_neg (by simpa using hid)]
      exact ih db
    · rw [if_neg hid, filter_cons_of_pos (by simpa using hid)]
      exact (deleteThreadByAccountAndId_cleared db id).cons (ih _)

/-- The rows of the drive are stored: under their Message-ID, the last of each id with its date, flags,
attachments and folders, each id in one namespace. Only Gmail has reactions. -/
structure Stored (db : Tables) (acc : List ImapThreadPartition) : Prop where
  stored : ∀ p ∈ pushedRows acc, ∃ m, db.messages.lookup p.1 = some m ∧
    p.2.message.messageIdHeader = m.columns.messageIdHeader
  latest : ∀ id p, pushedRow acc id = some p → ∀ m, db.messages.lookup id = some m →
    (metaOf p).fact = m.fact (attached db id) ∧ p.2.folders.toFinset = foldersOf db.imapFolders m
  onePartition : acc.Pairwise (fun p q => ∀ x ∈ p.rows, ∀ y ∈ q.rows, x.1 ≠ y.1)
  plain : ∀ id m, db.messages.lookup id = some m → m.columns.isReaction = false

section Gathered

variable {acc : List ImapThreadPartition} {db : Tables}
variable {id : MessageId} {p : MessageId × ConsumerMessageRow} {g : ThreadGroup}

theorem pushedRow_id (h : pushedRow acc id = some p) : p.1 = id := by
  simpa using find?_some h

theorem pushedRow_isSome (h : p ∈ pushedRows acc) : ∃ q, pushedRow acc p.1 = some q := by
  cases hq : pushedRow acc p.1 with
  | some q => exact ⟨q, rfl⟩
  | none =>
    rw [pushedRow, find?_eq_none] at hq
    exact absurd (decide_eq_true rfl) (hq p (mem_reverse.mpr h))

theorem pushedRow_mem (h : pushedRow acc id = some p) : p ∈ pushedRows acc :=
  mem_reverse.mp (mem_of_find?_eq_some h)

theorem mem_partitionGroups {p : ImapThreadPartition}
    (h : id ∈ (partitionGroups p).flatMap (·.messageIds)) : ∃ x ∈ p.rows, x.1 = id := by
  rw [partitionGroups, flatMap_map] at h
  obtain ⟨k, hk, rfl⟩ := mem_map.mp (Threading.buildThreads_perm.mem_iff.mp h)
  obtain ⟨x, hx, rfl⟩ := mem_map.mp (Threading.lastWith_mem (Threading.mem_kept.mp hk).1)
  exact ⟨x, hx, rfl⟩

theorem mem_group (hg : g ∈ threadGroups acc) (hid : id ∈ g.messageIds) : ∃ p ∈ pushedRows acc, p.1 = id := by
  rw [threadGroups, mem_flatMap] at hg
  obtain ⟨p, hp, hg⟩ := hg
  obtain ⟨x, hx, hxid⟩ := mem_partitionGroups (mem_flatMap.mpr ⟨g, hg, hid⟩)
  exact ⟨x, mem_flatMap.mpr ⟨p, hp, hx⟩, hxid⟩

theorem Stored.nodup_partition (h : Stored db acc) {p : ImapThreadPartition} (hp : p ∈ acc) :
    ((partitionGroups p).flatMap (·.messageIds)).Nodup := by
  rw [partitionGroups, flatMap_map]
  refine Threading.buildThreads_perm.nodup_iff.mpr ?_
  refine List.Nodup.map_on ?_ Threading.nodup_kept
  intro k hk k' hk' hid
  have hlast := (Threading.mem_kept.mp hk).1
  have hlast' := (Threading.mem_kept.mp hk').1
  obtain ⟨x, hx, rfl⟩ := mem_map.mp (Threading.lastWith_mem hlast)
  obtain ⟨y, hy, rfl⟩ := mem_map.mp (Threading.lastWith_mem hlast')
  -- One stored id has one Message-ID, and of one Message-ID one message is kept.
  have hsame : x.1 = y.1 := hid
  obtain ⟨m, hm, hheader⟩ := h.stored x (mem_flatMap.mpr ⟨p, hp, hx⟩)
  obtain ⟨m', hm', hheader'⟩ := h.stored y (mem_flatMap.mpr ⟨p, hp, hy⟩)
  rw [hsame, hm'] at hm
  cases hm
  have hmessageId : (threadableOf x).messageId = (threadableOf y).messageId := by
    rw [threadableOf, threadableOf]
    rw [imapThreadMessageId, imapThreadMessageId, hheader, hheader', hsame]
  rw [hmessageId, hlast'] at hlast
  exact (Option.some.inj hlast).symm

theorem Stored.nodup (h : Stored db acc) : ((threadGroups acc).flatMap (·.messageIds)).Nodup := by
  rw [threadGroups, flatMap_assoc, nodup_flatMap]
  refine ⟨fun p hp => h.nodup_partition hp, ?_⟩
  refine h.onePartition.imp ?_
  intro p q hpq id hid hid'
  obtain ⟨x, hx, rfl⟩ := mem_partitionGroups hid
  obtain ⟨y, hy, heq⟩ := mem_partitionGroups hid'
  exact hpq x hx y hy heq.symm

theorem groupIds_perm (hg : g ∈ threadGroups acc) : (groupIds acc g).Perm g.messageIds := by
  have hmap : ∀ ids : List MessageId, (∀ id ∈ ids, ∃ p ∈ pushedRows acc, p.1 = id) →
      (ids.filterMap (allMeta acc)).map MessageMeta.id = ids := by
    intro ids hids
    induction ids with
    | nil => rfl
    | cons id ids ih =>
      rw [forall_mem_cons] at hids
      obtain ⟨⟨p, hp, rfl⟩, hrest⟩ := hids
      obtain ⟨q, hq⟩ := pushedRow_isSome hp
      have hmeta : allMeta acc p.1 = some (metaOf q) := by rw [allMeta, hq, Option.map_some]
      rw [filterMap_cons_some hmeta, map_cons, ih hrest]
      exact congrArg (· :: ids) (pushedRow_id hq)
  have hperm := ((g.messageIds.filterMap (allMeta acc)).perm_insertionSort
    (fun x y : MessageMeta => x.date ≤ y.date)).map MessageMeta.id
  rw [hmap g.messageIds (fun id hid => mem_group hg hid)] at hperm
  exact hperm

theorem Stored.of_group (h : Stored db acc) (hg : g ∈ threadGroups acc)
    (hid : id ∈ groupIds acc g) : ∃ m p, db.messages.lookup id = some m ∧
      pushedRow acc id = some p ∧ (metaOf p).fact = m.fact (attached db id) ∧
      p.2.folders.toFinset = foldersOf db.imapFolders m := by
  obtain ⟨q, hq, rfl⟩ := mem_group hg ((groupIds_perm hg).mem_iff.mp hid)
  obtain ⟨p, hp⟩ := pushedRow_isSome hq
  obtain ⟨m, hm, -⟩ := h.stored q hq
  exact ⟨m, p, hm, hp, h.latest q.1 p hp m hm⟩

end Gathered

/-! ## The row of a thread -/

def filedGroups (acc : List ImapThreadPartition) (blocked : ThreadId → Bool) : List ThreadGroup :=
  (threadGroups acc).filter (filed acc blocked)

/-- The thread that a stored message is in after the groups. -/
def homeOf (db : Tables) (acc : List ImapThreadPartition) (blocked : ThreadId → Bool) (id : MessageId) :
    Option ThreadId :=
  (threadOf db id).map (fun t => (placedIn acc (filedGroups acc blocked) id).getD t)

def staying (db : Tables) (acc : List ImapThreadPartition) (blocked : ThreadId → Bool) (t : ThreadId) :
    List Fact :=
  ((messagesOf db t).filter (fun m => placedIn acc (filedGroups acc blocked) m.1 = none)).map
    (fun m => m.2.fact (attached db m.1))

/-- The thread ends up with the messages of its group and no others; without a group its row already fits
what stays, and where no message leaves it the folders are right already. -/
def Settled (db : Tables) (acc : List ImapThreadPartition) (blocked : ThreadId → Bool) (t : ThreadId) :
    Prop :=
  match lastFiled (filedGroups acc blocked) t with
  | some g => ∀ id, homeOf db acc blocked id = some t → id ∈ g.messageIds
  | none => ∃ r a, db.threads.lookup t = some r ∧ r.aggregate = some a ∧
    countsOf (staying db acc blocked t) = some a.counts ∧
    ((∃ id, threadOf db id = some t ∧ placedIn acc (filedGroups acc blocked) id ≠ none) ∨
      r.folders = derivedFolders db.imapFolders (views db t))

section Row

variable {db db₂ : Tables} {acc : List ImapThreadPartition} {blocked : ThreadId → Bool}
variable {t : ThreadId} {g : ThreadGroup} {id : MessageId} {x : FolderId}

theorem runDriveEndThreading_eq (db : Tables) (blocked : ThreadId → Bool) (acc : List ImapThreadPartition) :
    runDriveEndThreading db blocked acc = cleanupOrphanThreads
      ((filedGroups acc blocked).foldl (storeGroup acc blocked) db)
      ((pushedRows acc).map Prod.fst).dedup ((threadGroups acc).map ThreadGroup.threadId) := by
  rw [filedGroups, ← storeGroups_eq]
  cases acc with
  | nil => rfl
  | cons p acc => rfl

theorem Stored.filed_nodup (h : Stored db acc) (blocked : ThreadId → Bool) :
    ((filedGroups acc blocked).flatMap (groupIds acc)).Nodup := by
  have hsub : (filedGroups acc blocked).Sublist (threadGroups acc) := filter_sublist
  have hperm : ((filedGroups acc blocked).flatMap (groupIds acc)).Perm
      ((filedGroups acc blocked).flatMap (·.messageIds)) :=
    List.Perm.flatMap_left _ (fun g hg => groupIds_perm (hsub.subset hg))
  exact hperm.nodup_iff.mpr (h.nodup.sublist ((hsub.map _).flatten))

theorem Stored.threaded (h : Stored db acc) (blocked : ThreadId → Bool) :
    Threaded acc db (filedGroups acc blocked)
      ((filedGroups acc blocked).foldl (storeGroup acc blocked) db) := by
  apply storeGroups_threaded
  · intro g hg
    exact (mem_filter.mp hg).2
  · exact h.filed_nodup blocked
  · intro g hg id hid
    obtain ⟨m, -, hm, -⟩ := h.of_group (mem_filter.mp hg).1 hid
    exact Option.isSome_iff_exists.mpr ⟨m, hm⟩

theorem Stored.home_of_group (h : Stored db acc)
    (hlast : lastFiled (filedGroups acc blocked) t = some g) (hid : id ∈ groupIds acc g) :
    homeOf db acc blocked id = some t := by
  obtain ⟨hfiled, hthread⟩ := lastFiled_mem hlast
  obtain ⟨m, -, hm, -⟩ := h.of_group (mem_filter.mp hfiled).1 hid
  rw [homeOf, placedIn_of_mem (h.filed_nodup blocked) hfiled hid, threadOf, hm, ← hthread]
  rfl

theorem Message.placed_fact (m : Message) (o : Option ThreadId) (b : Bool) :
    (m.placed o).fact b = m.fact b := by
  cases o with
  | none => rfl
  | some t => rfl

theorem Message.placed_folders (imapFolders : String → Finset FolderId) (m : Message)
    (o : Option ThreadId) : foldersOf imapFolders (m.placed o) = foldersOf imapFolders m := by
  cases o with
  | none => rfl
  | some t => rfl

theorem mem_derivedFolders {imapFolders : String → Finset FolderId} {vs : List View} :
    x ∈ derivedFolders imapFolders vs ↔ ∃ v ∈ vs, x ∈ foldersOf imapFolders v.message := by
  induction vs with
  | nil => simp [derivedFolders]
  | cons v vs ih =>
    have hcons : derivedFolders imapFolders (v :: vs) =
        foldersOf imapFolders v.message ∪ derivedFolders imapFolders vs := rfl
    rw [hcons, Finset.mem_union, ih, exists_mem_cons_iff]

theorem messagesOf_keys_nodup (db : Tables) (t : ThreadId) : ((messagesOf db t).map Prod.fst).Nodup :=
  db.messages.rows_keys_nodup.sublist (List.filter_sublist.map _)

theorem Threaded.plain_views (h : Threaded acc db (filedGroups acc blocked) db₂)
    (hplain : ∀ id m, db.messages.lookup id = some m → m.columns.isReaction = false) (t : ThreadId) :
    (plain (views db₂ t)).map View.fact = (messagesOf db₂ t).map (fun m => m.2.fact (attached db m.1)) := by
  have hall : plain (views db₂ t) = views db₂ t := by
    rw [plain, filter_eq_self]
    intro v hv
    obtain ⟨m, hm, rfl⟩ := mem_map.mp hv
    obtain ⟨hlookup, -⟩ := mem_messagesOf.mp hm
    rw [h.messages, Option.map_eq_some_iff] at hlookup
    obtain ⟨m₀, hm₀, heq⟩ := hlookup
    have hsame : m.2.columns.isReaction = m₀.columns.isReaction := by
      rw [← heq]
      cases placedIn acc (filedGroups acc blocked) m.1 with
      | none => rfl
      | some t => rfl
    simp [hsame, hplain m.1 m₀ hm₀]
  rw [hall, views, map_map]
  apply map_congr_left
  intro m _
  rw [Function.comp_apply, View.fact, attached, attached, h.attachments]

theorem Threaded.mem_messagesOf (h : Threaded acc db (filedGroups acc blocked) db₂) :
    id ∈ (messagesOf db₂ t).map Prod.fst ↔ homeOf db acc blocked id = some t := by
  rw [homeOf, ← h.threadOf, threadOf_eq_some, mem_map]
  constructor
  · rintro ⟨m, hm, rfl⟩
    exact ⟨m.2, hm⟩
  · rintro ⟨m, hm⟩
    exact ⟨(id, m), hm, rfl⟩

def factAt (db : Tables) (id : MessageId) : Fact :=
  match db.messages.lookup id with
  | some m => m.fact (attached db id)
  | none => ⟨0, false, false, false⟩

theorem Threaded.facts (h : Threaded acc db (filedGroups acc blocked) db₂) (t : ThreadId) :
    (messagesOf db₂ t).map (fun m => m.2.fact (attached db m.1)) =
      ((messagesOf db₂ t).map Prod.fst).map (factAt db) := by
  rw [map_map]
  apply map_congr_left
  intro m hm
  obtain ⟨hlookup, -⟩ := Mail.mem_messagesOf.mp hm
  rw [h.messages, Option.map_eq_some_iff] at hlookup
  obtain ⟨m₀, hm₀, heq⟩ := hlookup
  rw [Function.comp_apply, factAt, hm₀, ← heq]
  exact Message.placed_fact ..

theorem allMeta_of_mem {m : MessageMeta} (h : m ∈ groupMessages acc g) : allMeta acc m.id = some m := by
  rw [groupMessages, mem_insertionSort, mem_filterMap] at h
  obtain ⟨id, -, hm⟩ := h
  obtain ⟨p, hp, rfl⟩ := Option.map_eq_some_iff.mp hm
  have hid : (metaOf p).id = id := pushedRow_id hp
  rw [hid, hm]

theorem Stored.groupFacts (h : Stored db acc) (hg : g ∈ threadGroups acc) :
    groupFacts acc g = (groupIds acc g).map (factAt db) := by
  rw [groupIds, map_map]
  apply map_congr_left
  intro x hx
  obtain ⟨m, p, hm, hp, hfact, -⟩ := h.of_group hg (mem_map_of_mem hx)
  have hmeta := allMeta_of_mem hx
  rw [allMeta, hp, Option.map_some, Option.some_inj] at hmeta
  have hat : factAt db x.id = m.fact (attached db x.id) := by rw [factAt, hm]
  rw [Function.comp_apply, hat, ← hfact, hmeta]

theorem Stored.groupFolders (h : Stored db acc) (hg : g ∈ threadGroups acc) :
    x ∈ groupFolders acc g ↔ ∃ id ∈ groupIds acc g, ∃ m,
      db.messages.lookup id = some m ∧ x ∈ foldersOf db.imapFolders m := by
  rw [Mail.groupFolders, mem_toFinset, mem_flatMap]
  refine exists_congr fun id => and_congr_right fun hid => ?_
  obtain ⟨m, p, hm, hp, -, hfolders⟩ := h.of_group hg hid
  rw [allFolderIds, hp, Option.map_some, Option.getD_some, ← mem_toFinset, hfolders, hm]
  simp

theorem Threaded.derivedFolders (h : Threaded acc db (filedGroups acc blocked) db₂) :
    x ∈ derivedFolders db₂.imapFolders (views db₂ t) ↔ ∃ id, homeOf db acc blocked id = some t ∧ ∃ m,
        db.messages.lookup id = some m ∧ x ∈ foldersOf db.imapFolders m := by
  rw [mem_derivedFolders, h.imapFolders]
  constructor
  · rintro ⟨v, hv, hx⟩
    obtain ⟨m, hm, rfl⟩ := mem_map.mp hv
    refine ⟨m.1, h.mem_messagesOf.mp (mem_map_of_mem hm), ?_⟩
    obtain ⟨hlookup, -⟩ := Mail.mem_messagesOf.mp hm
    rw [h.messages, Option.map_eq_some_iff] at hlookup
    obtain ⟨m₀, hm₀, heq⟩ := hlookup
    rw [← heq, Message.placed_folders] at hx
    exact ⟨m₀, hm₀, hx⟩
  · rintro ⟨id, hhome, m₀, hm₀, hx⟩
    obtain ⟨m, hm, rfl⟩ := mem_map.mp (h.mem_messagesOf.mpr hhome)
    refine ⟨⟨m.2, attached db₂ m.1⟩, mem_map_of_mem hm, ?_⟩
    obtain ⟨hlookup, -⟩ := Mail.mem_messagesOf.mp hm
    rw [h.messages, hm₀, Option.map_some, Option.some_inj] at hlookup
    rw [← hlookup, Message.placed_folders]
    exact hx

theorem right_of_group (hs : Stored db acc) (h : Threaded acc db (filedGroups acc blocked) db₂)
    (hlast : lastFiled (filedGroups acc blocked) t = some g) {r : Thread}
    (hr : db₂.threads.lookup t = some r) :
    Right db₂ t r ↔ ∀ id, homeOf db acc blocked id = some t → id ∈ g.messageIds := by
  obtain ⟨hfiled, -⟩ := lastFiled_mem hlast
  have hg : g ∈ threadGroups acc := (mem_filter.mp hfiled).1
  have hgroup : (groupIds acc g).Nodup := (nodup_flatMap.mp (hs.filed_nodup blocked)).1 g hfiled
  have hsub : groupIds acc g ⊆ (messagesOf db₂ t).map Prod.fst :=
    fun id hid => h.mem_messagesOf.mpr (hs.home_of_group hlast hid)
  obtain ⟨r', hr', ⟨a, ha, hcounts⟩, hfolders⟩ := h.byGroup t g hlast
  rw [hr] at hr'
  cases hr'
  rw [right_iff, h.plain_views hs.plain, h.facts]
  constructor
  · rintro ⟨a', ha', hcounts', -⟩ id hid
    rw [ha] at ha'
    cases ha'
    have hlength : ((messagesOf db₂ t).map Prod.fst).length = (groupIds acc g).length := by
      have hviews := countsOf_count hcounts'
      have hrow := countsOf_count hcounts
      rw [length_map] at hviews
      rw [hs.groupFacts hg, length_map] at hrow
      exact hviews.symm.trans hrow
    have hperm := (subperm_of_subset hgroup hsub).perm_of_length_le hlength.le
    exact (groupIds_perm hg).mem_iff.mp (hperm.mem_iff.mpr (h.mem_messagesOf.mpr hid))
  · intro hsettled
    have hperm : (groupIds acc g).Perm ((messagesOf db₂ t).map Prod.fst) := by
      refine (perm_ext_iff_of_nodup hgroup (messagesOf_keys_nodup db₂ t)).mpr ?_
      intro id
      refine ⟨fun hid => hsub hid, fun hid => ?_⟩
      exact (groupIds_perm hg).mem_iff.mpr (hsettled id (h.mem_messagesOf.mp hid))
    refine ⟨a, ha, ?_, ?_⟩
    · rw [← countsOf_perm (hperm.map (factAt db)), ← hs.groupFacts hg]
      exact hcounts
    · rcases hfolders with hfolders | hfolders
      · rw [hfolders]
        ext x
        rw [hs.groupFolders hg, h.derivedFolders]
        refine exists_congr fun id => and_congr_left fun _ => ?_
        rw [hperm.mem_iff, h.mem_messagesOf]
      · exact hfolders

theorem Threaded.staying_perm (h : Threaded acc db (filedGroups acc blocked) db₂)
    (hlast : lastFiled (filedGroups acc blocked) t = none) :
    ((messagesOf db₂ t).map (fun m => m.2.fact (attached db m.1))).Perm (staying db acc blocked t) := by
  refine List.Perm.map _ ((perm_ext_iff_of_nodup ?_ ?_).mpr ?_)
  · exact (messagesOf_keys_nodup db₂ t).of_map
  · exact (messagesOf_keys_nodup db t).of_map.filter _
  · rintro ⟨id, m⟩
    rw [Mail.mem_messagesOf, mem_filter, Mail.mem_messagesOf, h.messages]
    cases hplaced : placedIn acc (filedGroups acc blocked) id with
    | none => simp [Message.placed]
    | some t' =>
      obtain ⟨g, hg, -, hthread⟩ := placedIn_mem hplaced
      have hne : t' ≠ t := fun heq => lastFiled_eq_none.mp hlast g hg (hthread.trans heq)
      constructor
      · rintro ⟨hlookup, hm⟩
        obtain ⟨m₀, -, rfl⟩ := Option.map_eq_some_iff.mp hlookup
        exact absurd hm hne
      · rintro ⟨-, hnone⟩
        cases hnone

theorem right_of_no_group (hs : Stored db acc) (h : Threaded acc db (filedGroups acc blocked) db₂)
    (hlast : lastFiled (filedGroups acc blocked) t = none) {r : Thread} (hr : db₂.threads.lookup t = some r) :
    Right db₂ t r ↔ ∃ r a, db.threads.lookup t = some r ∧ r.aggregate = some a ∧
      countsOf (staying db acc blocked t) = some a.counts ∧
      ((∃ id, threadOf db id = some t ∧ placedIn acc (filedGroups acc blocked) id ≠ none) ∨
        r.folders = Mail.derivedFolders db.imapFolders (views db t)) := by
  rw [right_iff, h.plain_views hs.plain, countsOf_perm (h.staying_perm hlast)]
  by_cases hleft : ∃ id, threadOf db id = some t ∧ placedIn acc (filedGroups acc blocked) id ≠ none
  · have hrow := h.left t hlast hleft
    rw [hr] at hrow
    split at hrow
    · cases hrow
    obtain ⟨r₀, hr₀, heq⟩ := Option.map_eq_some_iff.mp hrow.symm
    subst heq
    constructor
    · rintro ⟨a, ha, hcounts, -⟩
      exact ⟨r₀, a, hr₀, ha, hcounts, .inl hleft⟩
    · rintro ⟨r₁, a, hr₁, ha, hcounts, -⟩
      rw [hr₀] at hr₁
      cases hr₁
      exact ⟨a, ha, hcounts, rfl⟩
  · have hnone : ∀ id, threadOf db id = some t → placedIn acc (filedGroups acc blocked) id = none := by
      intro id hid
      by_contra hplaced
      exact hleft ⟨id, hid, hplaced⟩
    obtain ⟨hrow, hmessages⟩ := h.untouched t hlast hnone
    have hviews : views db₂ t = views db t := by
      apply views_congr hmessages
      intro m _
      rw [attached, attached, h.attachments]
    rw [hr] at hrow
    rw [hviews, h.imapFolders]
    constructor
    · rintro ⟨a, ha, hcounts, hfolders⟩
      exact ⟨r, a, hrow.symm, ha, hcounts, .inr hfolders⟩
    · rintro ⟨r₁, a, hr₁, ha, hcounts, hin | hfolders⟩
      · exact absurd hin hleft
      · rw [← hrow] at hr₁
        cases hr₁
        exact ⟨a, ha, hcounts, hfolders⟩

end Row

theorem right_iff_settled {db : Tables} (hs : Stored db acc) (blocked : ThreadId → Bool)
    {r : Thread} (hr : (runDriveEndThreading db blocked acc).threads.lookup t = some r) :
    Right (runDriveEndThreading db blocked acc) t r ↔ Settled db acc blocked t := by
  have hthreaded := hs.threaded blocked
  rw [runDriveEndThreading_eq] at hr ⊢
  generalize (filedGroups acc blocked).foldl (storeGroup acc blocked) db = db₂ at hthreaded hr ⊢
  have hcleared := cleanupOrphanThreads_cleared db₂ ((pushedRows acc).map Prod.fst).dedup
    ((threadGroups acc).map ThreadGroup.threadId)
  generalize cleanupOrphanThreads db₂ ((pushedRows acc).map Prod.fst).dedup
    ((threadGroups acc).map ThreadGroup.threadId) = db' at hcleared hr ⊢
  have hkept : t ∉ orphans acc := by
    intro hmem
    rw [hcleared.gone t hmem] at hr
    cases hr
  obtain ⟨hrow, -, hviews⟩ := hcleared.others t hkept
  rw [hrow] at hr
  have hsame : Right db' t r ↔ Right db₂ t r := by
    rw [Right, Right, hviews, hcleared.imapFolders]
  rw [hsame, Settled]
  cases hlast : lastFiled (filedGroups acc blocked) t with
  | some g => exact right_of_group hs hthreaded hlast hr
  | none => exact right_of_no_group hs hthreaded hlast hr

/-- No thread is left without a message, unless one was before and the drive has nothing for it. -/
theorem rows_have_messages_iff {db : Tables} (hs : Stored db acc) (blocked : ThreadId → Bool) :
    (∀ t r, (runDriveEndThreading db blocked acc).threads.lookup t = some r →
      messagesOf (runDriveEndThreading db blocked acc) t ≠ []) ↔
      ∀ t r, db.threads.lookup t = some r → messagesOf db t = [] →
        lastFiled (filedGroups acc blocked) t ≠ none ∨ t ∈ orphans acc := by
  have hthreaded := hs.threaded blocked
  rw [runDriveEndThreading_eq]
  generalize (filedGroups acc blocked).foldl (storeGroup acc blocked) db = db₂ at hthreaded ⊢
  have hcleared := cleanupOrphanThreads_cleared db₂ ((pushedRows acc).map Prod.fst).dedup
    ((threadGroups acc).map ThreadGroup.threadId)
  generalize cleanupOrphanThreads db₂ ((pushedRows acc).map Prod.fst).dedup
    ((threadGroups acc).map ThreadGroup.threadId) = db' at hcleared ⊢
  have huntouched : ∀ t, t ∉ orphans acc → lastFiled (filedGroups acc blocked) t = none →
      (∀ id, threadOf db id = some t → placedIn acc (filedGroups acc blocked) id = none) →
        db'.threads.lookup t = db.threads.lookup t ∧ messagesOf db' t = messagesOf db t := by
    intro t horphan hlast hstay
    obtain ⟨hrow, hmessages⟩ := hthreaded.untouched t hlast hstay
    obtain ⟨hrow', hmessages', -⟩ := hcleared.others t horphan
    exact ⟨hrow'.trans hrow, hmessages'.trans hmessages⟩
  constructor
  · intro hall t r hr hnil
    by_contra hnot
    rw [not_or, not_not] at hnot
    obtain ⟨hrow, hmessages⟩ := huntouched t hnot.2 hnot.1 (by
      intro id hid
      obtain ⟨m, hm⟩ := threadOf_eq_some.mp hid
      rw [hnil] at hm
      cases hm)
    exact hall t r (hrow.trans hr) (hmessages.trans hnil)
  · intro hbefore t r hr hnil
    have horphan : t ∉ orphans acc := by
      intro hmem
      rw [hcleared.gone t hmem] at hr
      cases hr
    obtain ⟨hrow, hmessages, -⟩ := hcleared.others t horphan
    cases hlast : lastFiled (filedGroups acc blocked) t with
    | some g =>
      obtain ⟨hfiled, -⟩ := lastFiled_mem hlast
      obtain ⟨id, hid⟩ := exists_mem_of_ne_nil _ (groupIds_ne_nil (mem_filter.mp hfiled).2)
      have hmem := hthreaded.mem_messagesOf.mpr (hs.home_of_group hlast hid)
      rw [← hmessages, hnil] at hmem
      cases hmem
    | none =>
      by_cases hleft : ∃ id, threadOf db id = some t ∧ placedIn acc (filedGroups acc blocked) id ≠ none
      · rw [hrow, hthreaded.left t hlast hleft, ← hmessages, if_pos hnil] at hr
        cases hr
      have hstay : ∀ id, threadOf db id = some t →
          placedIn acc (filedGroups acc blocked) id = none := by
        intro id hid
        by_contra hplaced
        exact hleft ⟨id, hid, hplaced⟩
      obtain ⟨hrow₀, hmessages₀⟩ := huntouched t horphan hlast hstay
      rcases hbefore t r (hrow₀.symm.trans hr) (hmessages₀.symm.trans hnil) with hgroup | hmem
      · exact hgroup hlast
      · exact horphan hmem

end Ratatoskr.Mail
