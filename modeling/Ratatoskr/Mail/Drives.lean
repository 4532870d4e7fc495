import Ratatoskr.Mail.Batch
import Ratatoskr.Mail.Settled

/-!
# Mail.Drives

Drives of an IMAP account, one after the other (`service/src/bifrost/consumer/mod.rs`): the batches of a
drive are persisted and gathered, then it ends. As long as every thread that a drive touches is settled by
it, all threads stay right, and what a thread counts does not depend on how its messages came.
-/

namespace Ratatoskr.Mail

open List
open Actions (NamespaceAttribution)
open Consumer (BifrostProviderKind)
open Lib (Reaches)
open Threading (ThreadGroup)

variable {rows : List ConsumerMessageRow} {db db' db₁ : Tables} {id : MessageId} {t : ThreadId}
  {acc acc₁ : List ImapThreadPartition}

structure MailBatch where
  ns : NamespaceAttribution
  rows : List ConsumerMessageRow
  deleted : List DeletedId

structure Drive where
  batches : List MailBatch
  blocked : ThreadId → Bool

/-- The rows are gathered under the ids of those that were written. -/
def takeBatch (st : Tables × List ImapThreadPartition) (b : MailBatch) :
    Except String (Tables × List ImapThreadPartition) :=
  match persistInNamespace st.1 .imap b.ns b.rows b.deleted with
  | .error e => .error e
  | .ok db => .ok (db, pushRowsWithIds st.2 b.rows
      ((writtenRows st.1 .imap b.ns b.rows).map ConsumerMessageRow.id) b.ns)

def drive (db : Tables) (d : Drive) : Except String Tables :=
  match d.batches.foldlM takeBatch (db, []) with
  | .error e => .error e
  | .ok (db, acc) => .ok (runDriveEndThreading db d.blocked acc)

/-- The threads that the rows of a batch name, and those their messages were in. -/
def touchedBy (db : Tables) (b : MailBatch) : List ThreadId :=
  named db .imap b.ns b.rows ++
    ((writtenRows db .imap b.ns b.rows).map ConsumerMessageRow.id).filterMap (threadOf db)

def touched (db : Tables) : List MailBatch → List ThreadId
  | [] => []
  | b :: rest => touchedBy db b ++
    match persistInNamespace db .imap b.ns b.rows b.deleted with
    | .ok db' => touched db' rest | .error _ => []

theorem writeRows_untouched (h : rows.foldlM (writeRow .imap) db = .ok db') :
    skeleton db' = skeleton db ∧ db'.imapFolders = db.imapFolders ∧ db'.threads = db.threads ∧
      ∀ t, (∀ r ∈ rows, threadOf db r.id ≠ some t) → views db' t = views db t := by
  induction rows generalizing db with
  | nil =>
    cases h
    exact ⟨rfl, rfl, rfl, fun _ _ => rfl⟩
  | cons row rows ih =>
    obtain ⟨db₁, hone, hrest⟩ := Lib.foldlM_cons_eq_ok.mp h
    have htouches : Touches db row.id db₁ := by
      unfold writeRow at hone
      split at hone
      · cases hone
      rename_i labels _
      have hkeywords : ∀ m : Message, ({ m with keywords := labels } : Message).columns = m.columns :=
        fun _ => rfl
      cases hone
      exact (touches_insertAttachments db row.id row.attachments).trans
        (touches_modifyMessage _ row.id hkeywords)
    obtain ⟨hskeleton, hfolders, hthreads, hviews⟩ := ih hrest
    refine ⟨hskeleton.trans htouches.skeleton, hfolders.trans htouches.imapFolders,
      hthreads.trans htouches.threads, ?_⟩
    intro t ht
    rw [forall_mem_cons] at ht
    refine (hviews t ?_).trans (htouches.views t ht.1)
    intro r hr
    rw [threadOf_congr htouches.skeleton]
    exact ht.2 r hr

theorem threadOf_deleteMessages {ids : List MessageId}
    (h : threadOf (ids.foldl deleteMessage db) id = some t) : threadOf db id = some t := by
  induction ids generalizing db with
  | nil => exact h
  | cons other ids ih =>
    have hrest := ih h
    by_cases heq : id = other
    · subst heq
      rw [threadOf, deleteMessage, AList.lookup_erase] at hrest
      cases hrest
    · rw [threadOf_deleteMessage_of_ne heq] at hrest
      exact hrest

theorem right_of_derived {r : Thread} (h : Derived db t r) : Right db t r := by
  obtain ⟨a, ha, hagg⟩ := h.aggregate
  exact ⟨a, a, hagg, ha, rfl, h.folders⟩

theorem Right.congr {r : Thread} (h : Right db t r) (hviews : views db' t = views db t)
    (hfolders : db'.imapFolders = db.imapFolders) : Right db' t r := by
  rw [Right, hviews, hfolders]
  exact h

def RightAt (db : Tables) (t : ThreadId) : Prop := ∀ r, db.threads.lookup t = some r → Right db t r

section Batch

variable {db db' : Tables} {b : MailBatch} {t : ThreadId}

theorem persist_imapFolders (h : persistInNamespace db .imap b.ns b.rows b.deleted = .ok db') :
    db'.imapFolders = db.imapFolders := by
  obtain ⟨db₂, db₃, h₂, h₃, h₄⟩ := persistInNamespace_stages.mp h
  rw [(cleanupThreads_cleaned h₄).same.imapFolders, (deleteMessages_rest db₃ _).2]
  cases h₃
  rw [(writeRows_untouched h₂).2.1, incoming_imapFolders]

theorem persist_untouched (h : persistInNamespace db .imap b.ns b.rows b.deleted = .ok db')
    (ht : t ∉ touchedBy db b) :
    (RightAt db t → RightAt db' t) ∧ ∀ id, threadOf db' id = some t → threadOf db id = some t ∧
      id ∉ (writtenRows db .imap b.ns b.rows).map ConsumerMessageRow.id := by
  rw [touchedBy, mem_append, not_or] at ht
  obtain ⟨hnamed, hwas⟩ := ht
  have hout : ∀ id ∈ (writtenRows db .imap b.ns b.rows).map ConsumerMessageRow.id,
      threadOf db id ≠ some t := fun id hid heq => hwas (mem_filterMap.mpr ⟨id, hid, heq⟩)
  obtain ⟨db₂, db₃, h₂, h₃, h₄⟩ := persistInNamespace_stages.mp h
  cases h₃
  obtain ⟨hskeleton, hfolders₂, hthreads, hviews₂⟩ := writeRows_untouched h₂
  have hincoming : ∀ id, threadOf (incoming db .imap b.ns b.rows) id = some t →
      threadOf db id = some t := by
    intro id hid
    rcases threadOf_insertMessages _ (writtenRows db .imap b.ns b.rows) id with hsame | ⟨r, hr, -, hrow⟩
    · obtain ⟨hm, -, -⟩ := insertPlaceholders_rest db (writtenRows db .imap b.ns b.rows)
      have hthread : threadOf (insertPlaceholders db (writtenRows db .imap b.ns b.rows)) id =
          threadOf db id := by rw [threadOf, threadOf, hm]
      rw [← hthread, ← hsame]
      exact hid
    · have hin : some r.threadId = some t := hrow.symm.trans hid
      exact absurd (Option.some.inj hin ▸ mem_map_of_mem hr) hnamed
  have hclean := cleanupThreads_cleaned h₄
  have hmoved : ∀ r ∈ writtenRows db .imap b.ns b.rows,
      threadOf (incoming db .imap b.ns b.rows) r.id ≠ some t :=
    fun r hr heq => hout r.id (mem_map_of_mem hr) (hincoming r.id heq)
  constructor
  · intro hright r hr
    by_cases haffected : t ∈ affectedThreads db₂ (resolveDeletedIds db .imap b.deleted)
    · exact (right_of_derived (hclean.cleaned t haffected r hr)).congr (hclean.same.views t)
        hclean.same.imapFolders
    have hstay : ∀ id ∈ resolveDeletedIds db .imap b.deleted, threadOf db₂ id ≠ some t := by
      intro id hid heq
      exact haffected (mem_dedup.mpr (mem_filterMap.mpr ⟨id, hid, heq⟩))
    obtain ⟨hdel, hdelFolders⟩ := deleteMessages_rest db₂ (resolveDeletedIds db .imap b.deleted)
    rw [hclean.others t haffected, hdel, hthreads, incoming_lookup_of_not_named hnamed] at hr
    refine (hright r hr).congr ?_ ?_
    · rw [hclean.same.views, views_deleteMessages hstay, hviews₂ t hmoved]
      exact incoming_views hnamed (fun x hx => hout x.id (mem_map_of_mem hx))
    · rw [hclean.same.imapFolders, hdelFolders, hfolders₂, incoming_imapFolders]
  · intro id hid
    rw [threadOf_congr hclean.same.skeleton] at hid
    have hdb : threadOf db id = some t := by
      apply hincoming
      rw [← threadOf_congr hskeleton]
      exact threadOf_deleteMessages hid
    exact ⟨hdb, fun hin => hout id hin hdb⟩

theorem mem_pushRowsWithIds {acc : List ImapThreadPartition} {rows : List ConsumerMessageRow}
    {ids : List MessageId} {ns : NamespaceAttribution} {p : MessageId × ConsumerMessageRow}
    (h : p ∈ pushedRows (pushRowsWithIds acc rows ids ns)) : p ∈ pushedRows acc ∨ p.1 ∈ ids := by
  have hzip : p ∈ ids.zip rows → p.1 ∈ ids := fun hp => (of_mem_zip hp).1
  rw [pushedRows, pushRowsWithIds, mem_flatMap] at h
  obtain ⟨q, hq, hp⟩ := h
  split at hq
  · obtain ⟨q₀, hq₀, rfl⟩ := mem_map.mp hq
    split at hp
    · rcases mem_append.mp hp with hp | hp
      · exact .inl (mem_flatMap.mpr ⟨q₀, hq₀, hp⟩)
      · exact .inr (hzip hp)
    · exact .inl (mem_flatMap.mpr ⟨q₀, hq₀, hp⟩)
  · rcases mem_append.mp hq with hq | hq
    · exact .inl (mem_flatMap.mpr ⟨q, hq, hp⟩)
    · rw [mem_singleton.mp hq] at hp
      exact .inr (hzip hp)

end Batch

variable {batches : List MailBatch}

/-- A thread that the batches do not touch is as right as before, and holds nothing they gathered. -/
theorem takeBatches_untouched (h : batches.foldlM takeBatch (db, acc) = .ok (db₁, acc₁))
    (ht : t ∉ touched db batches) (hright : RightAt db t)
    (hacc : ∀ p ∈ pushedRows acc, threadOf db p.1 ≠ some t) :
    RightAt db₁ t ∧ ∀ p ∈ pushedRows acc₁, threadOf db₁ p.1 ≠ some t := by
  induction batches generalizing db acc with
  | nil =>
    cases h
    exact ⟨hright, hacc⟩
  | cons b batches ih =>
    obtain ⟨⟨db', acc'⟩, hone, hrest⟩ := Lib.foldlM_cons_eq_ok.mp h
    rw [takeBatch] at hone
    split at hone
    · cases hone
    rename_i db₀ hpersist
    cases hone
    rw [touched, hpersist, mem_append, not_or] at ht
    obtain ⟨hkeeps, hthread⟩ := persist_untouched hpersist ht.1
    refine ih hrest ht.2 (hkeeps hright) ?_
    intro p hp heq
    obtain ⟨hwas, hnot⟩ := hthread p.1 heq
    rcases mem_pushRowsWithIds hp with hp | hp
    · exact hacc p hp hwas
    · exact hnot hp

theorem takeBatches_imapFolders (h : batches.foldlM takeBatch (db, acc) = .ok (db₁, acc₁)) :
    db₁.imapFolders = db.imapFolders := by
  induction batches generalizing db acc with
  | nil =>
    cases h
    rfl
  | cons b batches ih =>
    obtain ⟨⟨db', acc'⟩, hone, hrest⟩ := Lib.foldlM_cons_eq_ok.mp h
    rw [takeBatch] at hone
    split at hone
    · cases hone
    · rename_i db₀ hpersist
      cases hone
      rw [ih hrest, persist_imapFolders hpersist]

/-! ## Runs -/

/-- The row of the thread is deleted: it is an orphan, or all its messages left it. -/
def Gone (db : Tables) (acc : List ImapThreadPartition) (blocked : ThreadId → Bool) (t : ThreadId) : Prop :=
  t ∈ orphans acc ∨ lastFiled (filedGroups acc blocked) t = none ∧
    (∃ id, threadOf db id = some t ∧ placedIn acc (filedGroups acc blocked) id ≠ none) ∧
    ∀ id, homeOf db acc blocked id ≠ some t

theorem lookup_of_gone {blocked : ThreadId → Bool} (hs : Stored db acc) (h : Gone db acc blocked t) :
    (runDriveEndThreading db blocked acc).threads.lookup t = none := by
  have hthreaded := hs.threaded blocked
  rw [runDriveEndThreading_eq]
  generalize (filedGroups acc blocked).foldl (storeGroup acc blocked) db = db₂ at hthreaded ⊢
  have hcleared := cleanupOrphanThreads_cleared db₂ ((pushedRows acc).map Prod.fst).dedup
    ((threadGroups acc).map ThreadGroup.threadId)
  by_cases horphan : t ∈ orphans acc
  · exact hcleared.gone t horphan
  obtain ⟨hlast, hleft, hempty⟩ := h.resolve_left horphan
  rw [(hcleared.others t horphan).1, hthreaded.left t hlast hleft, if_pos]
  rw [eq_nil_iff_forall_not_mem]
  intro m hm
  exact hempty m.1 (hthreaded.mem_messagesOf.mp (mem_map_of_mem hm))

/-- What the drive gathered is stored, and it settles or empties every thread that it touches. -/
def Meets (db : Tables) (d : Drive) : Prop :=
  ∀ db₁ acc, d.batches.foldlM takeBatch (db, []) = .ok (db₁, acc) →
    Stored db₁ acc ∧ ∀ t, t ∈ touched db d.batches ∨ (∃ g ∈ filedGroups acc d.blocked, g.threadId = t) →
      Settled db₁ acc d.blocked t ∨ Gone db₁ acc d.blocked t

theorem drive_right {d : Drive} (h : drive db d = .ok db') (hmeets : Meets db d)
    (hright : ∀ t, RightAt db t) : (∀ t, RightAt db' t) ∧ db'.imapFolders = db.imapFolders := by
  rw [drive] at h
  split at h
  · cases h
  rename_i db₁ acc hbatches
  cases h
  obtain ⟨hs, hsettles⟩ := hmeets db₁ acc hbatches
  constructor
  · intro t r hr
    by_cases htouched : t ∈ touched db d.batches ∨ ∃ g ∈ filedGroups acc d.blocked, g.threadId = t
    · rcases hsettles t htouched with hsettled | hgone
      · exact (right_iff_settled hs d.blocked hr).mpr hsettled
      · rw [lookup_of_gone hs hgone] at hr
        cases hr
    · rw [not_or] at htouched
      have hlast : lastFiled (filedGroups acc d.blocked) t = none :=
        lastFiled_eq_none.mpr (fun g hg heq => htouched.2 ⟨g, hg, heq⟩)
      obtain ⟨hright₁, hgathered⟩ := takeBatches_untouched hbatches htouched.1 (hright t)
        (fun p hp => by cases hp)
      have hstay : ∀ id, threadOf db₁ id = some t →
          placedIn acc (filedGroups acc d.blocked) id = none := by
        intro id hid
        cases hplaced : placedIn acc (filedGroups acc d.blocked) id with
        | none => rfl
        | some t' =>
          obtain ⟨g, hg, hin, -⟩ := placedIn_mem hplaced
          have hgroup := (mem_filter.mp hg).1
          obtain ⟨p, hp, rfl⟩ := mem_group hgroup ((groupIds_perm hgroup).mem_iff.mp hin)
          exact absurd hid (hgathered p hp)
      have hthreaded := hs.threaded d.blocked
      rw [runDriveEndThreading_eq] at hr ⊢
      generalize (filedGroups acc d.blocked).foldl (storeGroup acc d.blocked) db₁ = db₂
        at hthreaded hr ⊢
      have hcleared := cleanupOrphanThreads_cleared db₂ ((pushedRows acc).map Prod.fst).dedup
        ((threadGroups acc).map ThreadGroup.threadId)
      have hkept : t ∉ orphans acc := by
        intro hmem
        rw [hcleared.gone t hmem] at hr
        cases hr
      obtain ⟨hrow, -, hviews⟩ := hcleared.others t hkept
      obtain ⟨hrow₂, hmessages₂⟩ := hthreaded.untouched t hlast hstay
      have hviews₂ : views db₂ t = views db₁ t := by
        apply views_congr hmessages₂
        intro m _
        rw [attached, attached, hthreaded.attachments]
      rw [hrow, hrow₂] at hr
      exact (hright₁ r hr).congr (hviews.trans hviews₂)
        (hcleared.imapFolders.trans hthreaded.imapFolders)
  · have hcleared := cleanupOrphanThreads_cleared
      ((filedGroups acc d.blocked).foldl (storeGroup acc d.blocked) db₁)
      ((pushedRows acc).map Prod.fst).dedup ((threadGroups acc).map ThreadGroup.threadId)
    rw [runDriveEndThreading_eq, hcleared.imapFolders, (hs.threaded d.blocked).imapFolders,
      takeBatches_imapFolders hbatches]

def rollup (r : Thread) : Option Counts × Finset FolderId :=
  (r.aggregate.map ThreadAggregate.counts, r.folders)

theorem rollup_eq {db₂ : Tables} {r₁ r₂ : Thread} (h₁ : Right db₁ t r₁) (h₂ : Right db₂ t r₂)
    (hviews : (views db₁ t).Perm (views db₂ t)) (hfolders : db₁.imapFolders = db₂.imapFolders) :
    rollup r₁ = rollup r₂ := by
  obtain ⟨a₁, ha₁, hc₁, hf₁⟩ := (right_iff ..).mp h₁
  obtain ⟨a₂, ha₂, hc₂, hf₂⟩ := (right_iff ..).mp h₂
  have hplain : (plain (views db₁ t)).Perm (plain (views db₂ t)) := hviews.filter _
  rw [countsOf_perm (hplain.map View.fact), hc₂] at hc₁
  rw [rollup, rollup, ha₁, ha₂, Option.map_some, Option.map_some, hc₁, hf₁, hf₂]
  congr 1
  ext x
  rw [mem_derivedFolders, mem_derivedFolders, hfolders]
  simp [hviews.mem_iff]

theorem drive_end_settles (db : Tables) (acc : List ImapThreadPartition) (blocked : ThreadId → Bool) :
    (Stored db acc →
      (∀ t r, (runDriveEndThreading db blocked acc).threads.lookup t = some r →
        (Right (runDriveEndThreading db blocked acc) t r ↔ Settled db acc blocked t)) ∧
      ((∀ t r, (runDriveEndThreading db blocked acc).threads.lookup t = some r →
        messagesOf (runDriveEndThreading db blocked acc) t ≠ []) ↔
          ∀ t r, db.threads.lookup t = some r → messagesOf db t = [] →
            lastFiled (filedGroups acc blocked) t ≠ none ∨ t ∈ orphans acc)) ∧
    ((∀ t, RightAt db t) → ∀ db₁ db₂ : Tables, Reaches drive Meets db db₁ →
      Reaches drive Meets db db₂ → ∀ t, (views db₁ t).Perm (views db₂ t) →
        ∀ r₁ r₂, db₁.threads.lookup t = some r₁ → db₂.threads.lookup t = some r₂ →
          rollup r₁ = rollup r₂) := by
  constructor
  · intro hs
    exact ⟨fun t r hr => right_iff_settled hs blocked hr, rows_have_messages_iff hs blocked⟩
  · intro hstart db₁ db₂ h₁ h₂ t hviews r₁ r₂ hr₁ hr₂
    have hrun : ∀ db', Reaches drive Meets db db' →
        (∀ t, RightAt db' t) ∧ db'.imapFolders = db.imapFolders := by
      intro db' hreach
      apply hreach.invariant ⟨hstart, rfl⟩
      rintro u d v ⟨hright, hfolders⟩ hmeets hstep
      obtain ⟨hright', hfolders'⟩ := drive_right hstep hmeets hright
      exact ⟨hright', hfolders'.trans hfolders⟩
    obtain ⟨hright₁, hf₁⟩ := hrun db₁ h₁
    obtain ⟨hright₂, hf₂⟩ := hrun db₂ h₂
    exact rollup_eq (hright₁ t r₁ hr₁) (hright₂ t r₂ hr₂) hviews (hf₁.trans hf₂.symm)

def inbox : Tables := Tables.empty (fun folder => if folder = "INBOX" then {"inbox"} else ∅)

def topicRow (id header : String) (references : Option String) (uid date : Int) : ConsumerMessageRow :=
  ⟨id, ⟨"imap-thread-b88583e", none, some "topic", "snippet", date, false, false, some header, references,
    none, false, false, some uid, some "INBOX"⟩, ["inbox"], [], [], [], false⟩

def topic : ConsumerMessageRow := topicRow "m1" "a@x" none 1 10
def reply : ConsumerMessageRow := topicRow "m2" "b@x" (some "<a@x>") 2 20

def delivery (batches : List (List ConsumerMessageRow)) : Drive :=
  ⟨batches.map (fun rows => ⟨.personal, rows, []⟩), fun _ => false⟩

def topicMessage (row : ConsumerMessageRow) : Message := ⟨row.message, false, ∅, ∅, ∅⟩

def topicStored : Tables where
  threads := (∅ : Lib.Table ThreadId Thread).insert "imap-thread-b88583e" ⟨none, false, none, none, ∅, ∅⟩
  messages := ((∅ : Lib.Table MessageId Message).insert "m1" (topicMessage topic)).insert "m2"
    (topicMessage reply)
  attachments := ∅
  imapFolders := inbox.imapFolders

def gatheredRows (rows : List ConsumerMessageRow) : List ImapThreadPartition :=
  [⟨.personal, rows.map (fun row => (row.id, row))⟩]

theorem topic_gathered (batches : List (List ConsumerMessageRow))
    (h : batches = [[topic, reply]] ∨ batches = [[topic], [reply]]) :
    (delivery batches).batches.foldlM takeBatch (inbox, []) =
      .ok (topicStored, gatheredRows [topic, reply]) := by
  rcases h with rfl | rfl
  · rfl
  · rfl

theorem topicStored_lookup {m : Message} (h : topicStored.messages.lookup id = some m) :
    ∃ row ∈ [topic, reply], row.id = id ∧ m = topicMessage row := by
  have hlookup : topicStored.messages.lookup id = if id = "m2" then some (topicMessage reply) else
      if id = "m1" then some (topicMessage topic) else none := by
    refine (Lib.Table.lookup_insert_if ..).trans ?_
    split
    · rfl
    · exact Lib.Table.lookup_insert_if ..
  rw [hlookup] at h
  split at h
  · rename_i heq
    cases h
    exact ⟨reply, by simp, heq.symm, rfl⟩
  · split at h
    · rename_i heq
      cases h
      exact ⟨topic, by simp, heq.symm, rfl⟩
    · cases h

theorem topicStored_stored (hrows : ∀ row ∈ rows, row ∈ [topic, reply]) :
    Stored topicStored (gatheredRows rows) := by
  have hpushed : ∀ p ∈ pushedRows (gatheredRows rows), ∃ row ∈ [topic, reply], p = (row.id, row) := by
    intro p hp
    simp only [pushedRows, gatheredRows, flatMap_singleton, mem_map] at hp
    obtain ⟨row, hrow, rfl⟩ := hp
    exact ⟨row, hrows row hrow, rfl⟩
  refine ⟨?_, ?_, pairwise_singleton .., ?_⟩
  · intro p hp
    obtain ⟨row, hrow, rfl⟩ := hpushed p hp
    simp only [mem_cons, not_mem_nil, or_false] at hrow
    rcases hrow with rfl | rfl
    · exact ⟨topicMessage topic, rfl, rfl⟩
    · exact ⟨topicMessage reply, rfl, rfl⟩
  · intro id p hp m hm
    obtain ⟨row, hrow, heq⟩ := hpushed p (pushedRow_mem hp)
    have hid := pushedRow_id hp
    subst heq
    subst hid
    simp only [mem_cons, not_mem_nil, or_false] at hrow
    rcases hrow with rfl | rfl
    · have hm' : topicStored.messages.lookup topic.id = some (topicMessage topic) := rfl
      cases hm
      decide
    · have hm' : topicStored.messages.lookup reply.id = some (topicMessage reply) := rfl
      cases hm
      decide
  · intro id m hm
    obtain ⟨row, hrow, -, rfl⟩ := topicStored_lookup hm
    simp only [mem_cons, not_mem_nil, or_false] at hrow
    rcases hrow with rfl | rfl
    · rfl
    · rfl

theorem topic_meets {batches : List (List ConsumerMessageRow)}
    (h : batches = [[topic, reply]] ∨ batches = [[topic], [reply]]) : Meets inbox (delivery batches) := by
  intro db₁ acc hbatches
  rw [topic_gathered batches h] at hbatches
  cases hbatches
  refine ⟨topicStored_stored (fun row hrow => hrow), ?_⟩
  intro t ht
  have hgroups : filedGroups (gatheredRows [topic, reply]) (fun _ => false) =
      [⟨"imap-thread-b88583e", ["m1", "m2"]⟩] := by decide
  have hthread : t = "imap-thread-b88583e" := by
    rcases ht with ht | ⟨g, hg, rfl⟩
    · rcases h with rfl | rfl
      · have htouched : touched inbox (delivery [[topic, reply]]).batches =
            ["imap-thread-b88583e", "imap-thread-b88583e"] := rfl
        rw [htouched] at ht
        simpa using ht
      · have htouched : touched inbox (delivery [[topic], [reply]]).batches =
            ["imap-thread-b88583e", "imap-thread-b88583e"] := rfl
        rw [htouched] at ht
        simpa using ht
    · have hg : g ∈ filedGroups (gatheredRows [topic, reply]) (fun _ => false) := hg
      rw [hgroups] at hg
      rw [mem_singleton.mp hg]
  subst hthread
  left
  have hlast : lastFiled (filedGroups (gatheredRows [topic, reply]) (delivery batches).blocked)
      "imap-thread-b88583e" = some ⟨"imap-thread-b88583e", ["m1", "m2"]⟩ := by
    have hsame : filedGroups (gatheredRows [topic, reply]) (delivery batches).blocked =
        [⟨"imap-thread-b88583e", ["m1", "m2"]⟩] := hgroups
    rfl
  intro id hid
  rw [homeOf, Option.map_eq_some_iff] at hid
  obtain ⟨t, ht, -⟩ := hid
  obtain ⟨m, hm⟩ := threadOf_eq_some.mp ht
  obtain ⟨row, hrow, rfl, -⟩ := topicStored_lookup (mem_messagesOf.mp hm).1
  simp only [mem_cons, not_mem_nil, or_false] at hrow
  rcases hrow with rfl | rfl
  · exact mem_cons_self
  · exact mem_cons_of_mem _ mem_cons_self

theorem one_drive_settles : ∃ db₁ db₂, drive inbox (delivery [[topic, reply]]) = .ok db₁ ∧
    drive inbox (delivery [[topic], [reply]]) = .ok db₂ ∧
    (∀ r, db₁.threads.lookup "imap-thread-b88583e" = some r → Right db₁ "imap-thread-b88583e" r) ∧
    ∀ r₁ r₂, db₁.threads.lookup "imap-thread-b88583e" = some r₁ →
      db₂.threads.lookup "imap-thread-b88583e" = some r₂ → rollup r₁ = rollup r₂ := by
  have hmeets₁ := topic_meets (.inl rfl)
  have hmeets₂ := topic_meets (.inr rfl)
  have hdrive : ∀ batches, batches = [[topic, reply]] ∨ batches = [[topic], [reply]] →
      drive inbox (delivery batches) =
        .ok (runDriveEndThreading topicStored (fun _ => false) (gatheredRows [topic, reply])) := by
    intro batches h
    rw [drive, topic_gathered batches h]
    rfl
  have h₁ := hdrive _ (.inl rfl)
  have h₂ := hdrive _ (.inr rfl)
  refine ⟨_, _, h₁, h₂, ?_, ?_⟩
  · intro r hr
    obtain ⟨hs, hsettles⟩ := hmeets₁ _ _ (topic_gathered _ (.inl rfl))
    have hsettled : Settled topicStored (gatheredRows [topic, reply]) (fun _ => false)
        "imap-thread-b88583e" := by
      rcases hsettles "imap-thread-b88583e" (.inl (by decide)) with hsettled | hgone
      · exact hsettled
      have hrow := lookup_of_gone hs hgone
      have hr' : (runDriveEndThreading topicStored (fun _ => false)
          (gatheredRows [topic, reply])).threads.lookup "imap-thread-b88583e" = some r := hr
      have hsame := hr'.symm.trans hrow
      cases hsame
    exact (((drive_end_settles _ _ _).1 hs).1 _ r hr).mpr hsettled
  · have hstart : ∀ t, RightAt inbox t := by
      intro t r hr
      cases hr
    exact (drive_end_settles inbox [] (fun _ => false)).2 hstart _ _ ((Reaches.refl _).tail hmeets₁ h₁)
      ((Reaches.refl _).tail hmeets₂ h₂) _ (List.Perm.refl _)

/-- A drive that only brings the reply: the thread has one message, and two are stored. -/
theorem reply_alone_unsettles :
    (¬∀ (db : Tables) (acc : List ImapThreadPartition) (blocked : ThreadId → Bool), Stored db acc →
      ∀ t r, (runDriveEndThreading db blocked acc).threads.lookup t = some r →
        (∃ p ∈ pushedRows acc, threadOf (runDriveEndThreading db blocked acc) p.1 = some t) →
          Right (runDriveEndThreading db blocked acc) t r) ∧
    ¬∀ (start db₁ db₂ : Tables) (ds₁ ds₂ : List Drive), (∀ t, RightAt start t) →
      ds₁.flatMap (fun d => d.batches.flatMap MailBatch.rows) =
        ds₂.flatMap (fun d => d.batches.flatMap MailBatch.rows) →
      ds₁.foldlM drive start = .ok db₁ → ds₂.foldlM drive start = .ok db₂ →
        ∀ t r₁ r₂, db₁.threads.lookup t = some r₁ → db₂.threads.lookup t = some r₂ →
          rollup r₁ = rollup r₂ := by
  constructor
  · intro hall
    have hs : Stored topicStored (gatheredRows [reply]) :=
      topicStored_stored (fun row hrow => mem_cons_of_mem _ hrow)
    have hrow : ∃ r, (runDriveEndThreading topicStored (fun _ => false)
        (gatheredRows [reply])).threads.lookup "imap-thread-b88583e" = some r := ⟨_, rfl⟩
    obtain ⟨r, hr⟩ := hrow
    have hright := hall topicStored (gatheredRows [reply]) (fun _ => false) hs _ r hr
      ⟨("m2", reply), mem_cons_self, rfl⟩
    have hsettled := (right_iff_settled hs (fun _ => false) hr).mp hright
    have hlast : lastFiled (filedGroups (gatheredRows [reply]) (fun _ => false)) "imap-thread-b88583e" =
        some ⟨"imap-thread-b88583e", ["m2"]⟩ := by decide
    rw [Settled, hlast] at hsettled
    have hmem : "m1" ∈ ["m2"] := hsettled "m1" (by decide)
    exact absurd hmem (by decide)
  · intro hall
    have hstart : ∀ t, RightAt inbox t := by
      intro t r hr
      cases hr
    have hruns : ∃ db₁ db₂ r₁ r₂, [delivery [[topic, reply]]].foldlM drive inbox = .ok db₁ ∧
        [delivery [[topic]], delivery [[reply]]].foldlM drive inbox = .ok db₂ ∧
        db₁.threads.lookup "imap-thread-b88583e" = some r₁ ∧
        db₂.threads.lookup "imap-thread-b88583e" = some r₂ ∧
        (r₁.aggregate.map ThreadAggregate.messageCount) = some 2 ∧
        (r₂.aggregate.map ThreadAggregate.messageCount) = some 1 :=
      ⟨_, _, _, _, rfl, rfl, rfl, rfl, by decide, by decide⟩
    obtain ⟨db₁, db₂, r₁, r₂, h₁, h₂, hr₁, hr₂, hcount₁, hcount₂⟩ := hruns
    have heq := hall inbox db₁ db₂ _ _ hstart (by decide) h₁ h₂ _ r₁ r₂ hr₁ hr₂
    have hcounts := congrArg (fun x => x.1.map Counts.messageCount) heq
    simp only [rollup, Option.map_map] at hcounts
    have htwo : r₁.aggregate.map (Counts.messageCount ∘ ThreadAggregate.counts) = some 2 := hcount₁
    have hone : r₂.aggregate.map (Counts.messageCount ∘ ThreadAggregate.counts) = some 1 := hcount₂
    rw [htwo, hone] at hcounts
    cases hcounts

end Ratatoskr.Mail
