import Ratatoskr.Mail.Persist

/-!
# Mail.Views

What each write leaves of the messages a thread sees. A write to a thread leaves all views alone; a write
to a message leaves the views of every thread it is not in, and, unless it inserts or deletes, the
`skeleton` of the tables: which messages there are, in which order, with which columns.
-/

namespace Ratatoskr.Mail

open List
open Lib (Table)

variable {db db' : Tables} {thread : ThreadId} {id messageId id' : MessageId}
  {f : Message → Message} {c : MessageColumns}

theorem mem_messagesOf {m : Message} :
    (id, m) ∈ messagesOf db thread ↔ db.messages.lookup id = some m ∧ m.columns.threadId = thread := by
  rw [messagesOf, mem_filter, Table.mem_rows]
  simp

theorem threadOf_eq_some : threadOf db id = some thread ↔ ∃ m, (id, m) ∈ messagesOf db thread := by
  simp [threadOf, mem_messagesOf]

theorem id_ne_of_mem {r : MessageId × Message} (h : threadOf db id ≠ some thread)
    (hr : r ∈ messagesOf db thread) : r.1 ≠ id := by
  intro heq
  exact h (threadOf_eq_some.mpr ⟨r.2, heq ▸ hr⟩)

/-- Views are fixed by the thread's messages and by which of them have attachments. -/
theorem views_congr (hm : messagesOf db' thread = messagesOf db thread)
    (ha : ∀ r ∈ messagesOf db thread, attached db' r.1 = attached db r.1) :
    views db' thread = views db thread := by
  rw [views, hm]
  apply map_congr_left
  intro r hr
  rw [ha r hr]

theorem messagesOf_modifyMessage (hf : ∀ m, (f m).columns = m.columns) (thread : ThreadId) :
    messagesOf (modifyMessage db id f) thread =
      (messagesOf db thread).map (fun r => (r.1, if r.1 = id then f r.2 else r.2)) := by
  have hrows : (modifyMessage db id f).messages.rows =
      db.messages.rows.map (fun r => (r.1, if r.1 = id then f r.2 else r.2)) := Table.rows_update ..
  rw [messagesOf, hrows, filter_map]
  congr 1
  apply filter_congr
  intro r _
  simp only [Function.comp]
  split
  · rw [hf]
  · rfl

theorem messagesOf_modifyMessage_of_ne (hf : ∀ m, (f m).columns = m.columns)
    (h : threadOf db id ≠ some thread) :
    messagesOf (modifyMessage db id f) thread = messagesOf db thread := by
  rw [messagesOf_modifyMessage hf]
  refine (map_congr_left ?_).trans (map_id _)
  intro r hr
  rw [if_neg (id_ne_of_mem h hr)]
  rfl

theorem views_modifyMessage_of_ne (hf : ∀ m, (f m).columns = m.columns)
    (h : threadOf db id ≠ some thread) : views (modifyMessage db id f) thread = views db thread :=
  views_congr (messagesOf_modifyMessage_of_ne hf h) (fun _ _ => rfl)

def skeleton (db : Tables) : List (MessageId × MessageColumns) :=
  db.messages.rows.map (fun r => (r.1, r.2.columns))

theorem skeleton_modifyMessage (hf : ∀ m, (f m).columns = m.columns) :
    skeleton (modifyMessage db id f) = skeleton db := by
  have hrows : (modifyMessage db id f).messages.rows =
      db.messages.rows.map (fun r => (r.1, if r.1 = id then f r.2 else r.2)) := Table.rows_update ..
  rw [skeleton, hrows, map_map]
  apply map_congr_left
  intro r _
  simp only [Function.comp]
  split
  · rw [hf]
  · rfl

theorem mem_skeleton : (id, c) ∈ skeleton db ↔ (db.messages.lookup id).map Message.columns = some c := by
  rw [skeleton, mem_map, Option.map_eq_some_iff]
  constructor
  · rintro ⟨r, hr, heq⟩
    cases heq
    exact ⟨r.2, Table.mem_rows.mp hr, rfl⟩
  · rintro ⟨m, hm, rfl⟩
    exact ⟨(id, m), Table.mem_rows.mpr hm, rfl⟩

theorem lookup_columns_congr (h : skeleton db' = skeleton db) (id : MessageId) :
    (db'.messages.lookup id).map Message.columns = (db.messages.lookup id).map Message.columns := by
  refine Option.ext fun c => ?_
  rw [← mem_skeleton, ← mem_skeleton, h]

theorem threadOf_congr (h : skeleton db' = skeleton db) (id : MessageId) :
    threadOf db' id = threadOf db id := by
  have hcols := congrArg (Option.map MessageColumns.threadId) (lookup_columns_congr h id)
  rw [Option.map_map, Option.map_map] at hcols
  exact hcols

theorem messagesOf_map_columns (db : Tables) (thread : ThreadId) :
    (messagesOf db thread).map (fun r => (r.1, r.2.columns)) =
      (skeleton db).filter (fun e => e.2.threadId = thread) := by
  rw [skeleton, filter_map]
  rfl

theorem messagesOf_eq_nil_iff (db : Tables) (thread : ThreadId) :
    messagesOf db thread = [] ↔ ∀ e ∈ skeleton db, e.2.threadId ≠ thread := by
  have hmap := messagesOf_map_columns db thread
  rw [← map_eq_nil_iff, hmap]
  simp

def HasPlain (s : List (MessageId × MessageColumns)) (thread : ThreadId) : Prop :=
  ∃ e ∈ s, e.2.threadId = thread ∧ e.2.isReaction = false

instance (s : List (MessageId × MessageColumns)) (thread : ThreadId) : Decidable (HasPlain s thread) :=
  inferInstanceAs (Decidable (∃ e ∈ s, e.2.threadId = thread ∧ e.2.isReaction = false))

theorem plain_views_eq_nil_iff (db : Tables) (thread : ThreadId) :
    plain (views db thread) = [] ↔ ¬ HasPlain (skeleton db) thread := by
  rw [plain, filter_eq_nil_iff]
  constructor
  · rintro h ⟨e, he, ht, hr⟩
    obtain ⟨r, hrow, rfl⟩ := mem_map.mp he
    have hmem : r ∈ messagesOf db thread := mem_filter.mpr ⟨hrow, decide_eq_true ht⟩
    have hplain : (!r.2.columns.isReaction) = true := by
      rw [show r.2.columns.isReaction = false from hr]
      rfl
    exact h _ (mem_map_of_mem hmem) hplain
  · intro h v hv hplain
    obtain ⟨r, hr, rfl⟩ := mem_map.mp hv
    obtain ⟨hrow, ht⟩ := mem_filter.mp hr
    refine h ⟨(r.1, r.2.columns), mem_map_of_mem hrow, of_decide_eq_true ht, ?_⟩
    simpa using hplain

theorem latest_eq_none_iff (vs : List View) : latest vs = none ↔ vs = [] := by
  cases vs with
  | nil => simp [latest]
  | cons v vs =>
    simp only [latest]
    cases latest vs with
    | none => simp
    | some w =>
      dsimp only
      split <;> simp

theorem earliest_eq_none_iff (vs : List View) : earliest vs = none ↔ vs = [] := by
  cases vs with
  | nil => simp [earliest]
  | cons v vs =>
    simp only [earliest]
    cases earliest vs with
    | none => simp
    | some w =>
      dsimp only
      split <;> simp

theorem computeThreadAggregate_ok_iff (vs : List View) :
    (∃ a, computeThreadAggregate vs = .ok a) ↔ plain vs ≠ [] := by
  rw [computeThreadAggregate]
  cases hl : latest (plain vs) with
  | none =>
    have hnil := (latest_eq_none_iff _).mp hl
    simp [hnil]
  | some last =>
    cases he : earliest (plain vs) with
    | none =>
      have hnil := (earliest_eq_none_iff _).mp he
      simp [hnil]
    | some first =>
      have hne : plain vs ≠ [] := by
        intro hnil
        rw [hnil] at hl
        cases hl
      simp [hne]

theorem computeThreadAggregate_views_ok_iff (db : Tables) (thread : ThreadId) :
    (∃ a, computeThreadAggregate (views db thread) = .ok a) ↔ HasPlain (skeleton db) thread := by
  rw [computeThreadAggregate_ok_iff, Ne, plain_views_eq_nil_iff, not_not]

/-! ## Attachments -/

theorem attached_iff :
    attached db id = true ↔ ∃ a row, db.attachments.lookup a = some row ∧ row.messageId = id := by
  rw [attached, any_eq_true]
  constructor
  · rintro ⟨⟨a, row⟩, hrow, hid⟩
    exact ⟨a, row, Table.mem_rows.mp hrow, of_decide_eq_true hid⟩
  · rintro ⟨a, row, hrow, hid⟩
    exact ⟨(a, row), Table.mem_rows.mpr hrow, decide_eq_true hid⟩

/-- The message of an attachment that was there does not change, and a new one is the row's. -/
theorem insertAttachment_messageId (db : Tables) (messageId : MessageId) (row : AttachmentInsertRow)
    (a : AttachmentId) : ((insertAttachment messageId db row).attachments.lookup a).map Attachment.messageId =
        (db.attachments.lookup a).map Attachment.messageId ∨
      (db.attachments.lookup a = none ∧
        ((insertAttachment messageId db row).attachments.lookup a).map Attachment.messageId =
          some messageId) := by
  rw [insertAttachment]
  cases h : db.attachments.lookup row.id with
  | some old =>
    refine .inl ?_
    simp only [Table.lookup_update, Option.map_map]
    congr 1
    funext x
    split <;> rfl
  | none =>
    simp only [Table.lookup_insert_if]
    by_cases ha : a = row.id
    · subst ha
      exact .inr ⟨h, by simp⟩
    · exact .inl (by rw [if_neg ha])

theorem attached_insertAttachment_of_ne (h : id ≠ messageId) (row : AttachmentInsertRow) :
    attached (insertAttachment messageId db row) id = attached db id := by
  have hkey : ∀ a, ((insertAttachment messageId db row).attachments.lookup a).map Attachment.messageId =
      some id ↔ (db.attachments.lookup a).map Attachment.messageId = some id := by
    intro a
    rcases insertAttachment_messageId db messageId row a with hsame | ⟨hnone, hnew⟩
    · rw [hsame]
    rw [hnew, hnone]
    simp only [Option.map_none, reduceCtorEq, iff_false]
    intro heq
    exact h (Option.some.inj heq).symm
  rw [Bool.eq_iff_iff, attached_iff, attached_iff]
  simp only [← Option.map_eq_some_iff] at *
  constructor
  · rintro ⟨a, ha⟩
    exact ⟨a, (hkey a).mp ha⟩
  · rintro ⟨a, ha⟩
    exact ⟨a, (hkey a).mpr ha⟩

theorem insertAttachment_rest (db : Tables) (messageId : MessageId) (row : AttachmentInsertRow) :
    (insertAttachment messageId db row).messages = db.messages ∧
      (insertAttachment messageId db row).threads = db.threads ∧
      (insertAttachment messageId db row).imapFolders = db.imapFolders := by
  rw [insertAttachment]
  split
  · exact ⟨rfl, rfl, rfl⟩
  · exact ⟨rfl, rfl, rfl⟩

theorem insertAttachments_rest (db : Tables) (messageId : MessageId) (rows : List AttachmentInsertRow) :
    (insertAttachments db messageId rows).messages = db.messages ∧
      (insertAttachments db messageId rows).threads = db.threads ∧
      (insertAttachments db messageId rows).imapFolders = db.imapFolders := by
  induction rows generalizing db with
  | nil => exact ⟨rfl, rfl, rfl⟩
  | cons row rows ih =>
    obtain ⟨hm, ht, hf⟩ := insertAttachment_rest db messageId row
    obtain ⟨hm', ht', hf'⟩ := ih (insertAttachment messageId db row)
    exact ⟨hm'.trans hm, ht'.trans ht, hf'.trans hf⟩

theorem attached_insertAttachments_of_ne (h : id ≠ messageId) (rows : List AttachmentInsertRow) :
    attached (insertAttachments db messageId rows) id = attached db id := by
  induction rows generalizing db with
  | nil => rfl
  | cons row rows ih =>
    have hrest : attached (insertAttachments (insertAttachment messageId db row) messageId rows) id =
        attached (insertAttachment messageId db row) id := ih
    exact hrest.trans (attached_insertAttachment_of_ne h row)

theorem messagesOf_of_messages (h : db'.messages = db.messages) (thread : ThreadId) :
    messagesOf db' thread = messagesOf db thread := by
  rw [messagesOf, messagesOf, h]

theorem skeleton_of_messages (h : db'.messages = db.messages) : skeleton db' = skeleton db := by
  rw [skeleton, skeleton, h]

theorem views_insertAttachments_of_ne (h : threadOf db id ≠ some thread) (rows : List AttachmentInsertRow) :
    views (insertAttachments db id rows) thread = views db thread := by
  apply views_congr (messagesOf_of_messages (insertAttachments_rest db id rows).1 thread)
  intro r hr
  exact attached_insertAttachments_of_ne (id_ne_of_mem h hr) rows

theorem attached_restrict_of_ne (h : id' ≠ id) :
    attached { db with attachments := db.attachments.restrict (fun _ a => a.messageId ≠ id) } id' =
      attached db id' := by
  rw [attached, Table.rows_restrict, any_filter]
  congr 1
  funext a
  by_cases ha : a.2.messageId = id'
  · simp [ha, h]
  · simp [ha]

theorem views_insertMessage_of_ne (hc : c.threadId ≠ thread) (h : threadOf db id ≠ some thread) :
    views (insertMessage db id c) thread = views db thread := by
  have hm : messagesOf (insertMessage db id c) thread = messagesOf db thread := by
    have hrows : (insertMessage db id c).messages.rows =
        (id, ⟨c, false, ∅, ∅, ∅⟩) :: db.messages.rows.filter (fun r => decide (r.1 ≠ id)) :=
      Table.rows_insert ..
    rw [messagesOf, hrows, filter_cons_of_neg (by simpa using hc), filter_filter]
    apply filter_congr
    intro r hr
    by_cases ht : r.2.columns.threadId = thread
    · have hne : r.1 ≠ id := id_ne_of_mem h (mem_filter.mpr ⟨hr, decide_eq_true ht⟩)
      simp [hne]
    · simp [ht]
  apply views_congr hm
  intro r hr
  exact attached_restrict_of_ne (id_ne_of_mem h hr)

theorem threadOf_insertMessage (db : Tables) (id id' : MessageId) (c : MessageColumns) :
    threadOf (insertMessage db id c) id' = if id' = id then some c.threadId else threadOf db id' := by
  rw [threadOf, insertMessage, Table.lookup_insert_if]
  split
  · rfl
  · rfl

theorem skeleton_deleteMessage (db : Tables) (id : MessageId) :
    skeleton (deleteMessage db id) = (skeleton db).filter (fun e => decide (e.1 ≠ id)) := by
  have hrows : (deleteMessage db id).messages.rows =
      db.messages.rows.filter (fun r => decide (r.1 ≠ id)) := Table.rows_erase ..
  rw [skeleton, hrows, skeleton, filter_map]
  rfl

theorem views_deleteMessage_of_ne (h : threadOf db id ≠ some thread) :
    views (deleteMessage db id) thread = views db thread := by
  have hm : messagesOf (deleteMessage db id) thread = messagesOf db thread := by
    have hrows : (deleteMessage db id).messages.rows =
        db.messages.rows.filter (fun r => decide (r.1 ≠ id)) := Table.rows_erase ..
    rw [messagesOf, hrows, filter_filter]
    apply filter_congr
    intro r hr
    by_cases ht : r.2.columns.threadId = thread
    · have hne : r.1 ≠ id := id_ne_of_mem h (mem_filter.mpr ⟨hr, decide_eq_true ht⟩)
      simp [hne]
    · simp [ht]
  apply views_congr hm
  intro r hr
  exact attached_restrict_of_ne (id_ne_of_mem h hr)

theorem threadOf_deleteMessage_of_ne (h : id' ≠ id) :
    threadOf (deleteMessage db id) id' = threadOf db id' := by
  rw [threadOf, deleteMessage, Table.lookup_erase_if, if_neg h]
  rfl

/-! ## Threads -/

theorem lookup_modifyThread_self (db : Tables) (thread : ThreadId) (f : Thread → Thread) :
    (modifyThread db thread f).threads.lookup thread = (db.threads.lookup thread).map f := by
  rw [modifyThread, Table.lookup_update]
  congr 1
  funext row
  exact if_pos rfl

theorem lookup_modifyThread_ne (db : Tables) {other : ThreadId} (h : other ≠ thread) (f : Thread → Thread) :
    (modifyThread db thread f).threads.lookup other = db.threads.lookup other := by
  rw [modifyThread, Table.lookup_update]
  refine (congrArg (fun g => Option.map g _) ?_).trans Option.map_id'
  funext row
  exact if_neg h

theorem derivedFolders_views (db : Tables) (thread : ThreadId) :
    derivedFolders db.imapFolders (views db thread) =
      ((messagesOf db thread).map (fun r => foldersOf db.imapFolders r.2)).foldr (· ∪ ·) ∅ := by
  rw [derivedFolders, views, foldr_map, foldr_map]

end Ratatoskr.Mail
