import Ratatoskr.Mail.Batch

/-!
# Mail.LocalState

Read receipts (`service/src/actions/{mark_read,mdn_send}.rs`, `db/src/db/queries_extra/mdn.rs`): marking
a thread as read sends one to the sender of every message of the thread that asked for it, whose
`mdn_sent` is not set and whose sender the policy allows. The receipt itself is left out: `receipts` keeps the
messages for which one went out. So is the keyword on the server, which nothing here reads back.

What a batch does to the columns that no server row carries: `mdn_sent` of a message, `content_hash` and
`text_indexed_at` of an attachment. A written row replaces the row of its message, and what cascades from
it goes: the flag is cleared, and the attachments that the row brings again are new.
-/

namespace Ratatoskr.Mail

open List
open Actions (NamespaceAttribution)
open Consumer (BifrostProviderKind)
open Lib (Reaches)

inductive ReadReceiptPolicy where
  | always
  | ask
  | never

def ReadReceiptPolicy.fromStr (s : String) : ReadReceiptPolicy :=
  if s = "always" then .always else if s = "ask" then .ask else .never

/-- The rows of `read_receipt_policy` by scope, and the `default_read_receipt_policy` of the settings. -/
structure Policies where
  scopes : String → Option String
  default : Option String

def queryPolicy (policies : Policies) (scope : String) : Option ReadReceiptPolicy :=
  (policies.scopes scope).map ReadReceiptPolicy.fromStr

section Policy

-- Rust's `to_lowercase`, which is that of Unicode.
variable (toLowercase : String → String)

/-- The most specific scope wins: the sender, the domain, the account, the default. -/
def resolveReadReceiptPolicy (policies : Policies) (sender : String) : ReadReceiptPolicy :=
  let lower := toLowercase sender
  let domain := (lower.splitOn "@")[1]?
  ((queryPolicy policies ("sender:" ++ lower)).or
    ((domain.bind (fun d => queryPolicy policies ("domain:" ++ d))).or
      ((queryPolicy policies "account").or
        (policies.default.map ReadReceiptPolicy.fromStr)))).getD .never

structure Candidate where
  messageId : MessageId
  fromAddress : String
  messageIdHeader : String

def candidateOf (m : MessageId × Message) : Option Candidate :=
  if m.2.columns.mdnRequested ∧ ¬m.2.mdnSent then
    match m.2.columns.fromAddress, m.2.columns.messageIdHeader with
    | some sender, some header => some ⟨m.1, sender, header⟩
    | _, _ => none
  else none

def collectCandidates (db : Tables) (thread : ThreadId) : List Candidate :=
  (messagesOf db thread).filterMap candidateOf

/-- What the world answers to one `send_mdn_responses`. `policies` are those in force when a candidate's
turn comes, `none` where they cannot be read. -/
structure Answers where
  collected : Bool
  identity : Option (String × Option String)
  policies : Candidate → Option Policies
  sends : Candidate → Bool
  marks : MessageId → Bool

structure Mailbox where
  tables : Tables
  receipts : List MessageId

def markMdnSentLocal (db : Tables) (id : MessageId) : Tables :=
  modifyMessage db id (fun m => { m with mdnSent := true })

/-- `Ask` is treated as `Never`. A receipt that cannot be marked was sent all the same. -/
def respond (answers : Answers) (box : Mailbox) (candidate : Candidate) : Mailbox :=
  match ((answers.policies candidate).map
      (fun p => resolveReadReceiptPolicy toLowercase p candidate.fromAddress)).getD .never with
  | .always =>
    if answers.sends candidate then
      { tables := if answers.marks candidate.messageId then
          markMdnSentLocal box.tables candidate.messageId else box.tables
        receipts := candidate.messageId :: box.receipts }
    else box
  | .ask => box
  | .never => box

def sendMdnResponses (answers : Answers) (box : Mailbox) (thread : ThreadId) : Mailbox :=
  if answers.collected then
    match answers.identity with
    | some _ => (collectCandidates box.tables thread).foldl (respond toLowercase answers) box
    | none => box
  else box

/-- `set_thread_read` and the flags of the messages, in one transaction. -/
def markReadLocal (db : Tables) (thread : ThreadId) (read : Bool) : Tables :=
  let db := modifyThread db thread (fun row =>
    { row with aggregate := row.aggregate.map (fun a => { a with isRead := read }) })
  { db with messages := db.messages.update (fun _ m =>
      if m.columns.threadId = thread then { m with columns := { m.columns with isRead := read } } else m) }

/-- `markRead` has the answers that follow where the server took the flag. -/
inductive Event where
  | markRead (thread : ThreadId) (dispatched : Option Answers)
  | markUnread (thread : ThreadId)
  | sync (provider : BifrostProviderKind) (ns : NamespaceAttribution) (rows : List ConsumerMessageRow)
      (deleted : List DeletedId)

def Mailbox.step (box : Mailbox) : Event → Except String Mailbox
  | .markRead thread dispatched =>
    let box := { box with tables := markReadLocal box.tables thread true }
    match dispatched with
    | some answers => .ok (sendMdnResponses toLowercase answers box thread)
    | none => .ok box
  | .markUnread thread => .ok { box with tables := markReadLocal box.tables thread false }
  | .sync provider ns rows deleted =>
    match persistInNamespace box.tables provider ns rows deleted with
    | .error e => .error e
    | .ok db => .ok { box with tables := db }

end Policy

variable {db db' : Tables} {rows : List (MessageId × AttachmentInsertRow)}
  {provider : BifrostProviderKind} {c : Candidate} {box : Mailbox}

def sentFlag (db : Tables) (id : MessageId) : Option Bool := (db.messages.lookup id).map Message.mdnSent

theorem sentFlag_of_messages (h : db'.messages = db.messages) (id : MessageId) :
    sentFlag db' id = sentFlag db id := by
  rw [sentFlag, sentFlag, h]

theorem sentFlag_modifyMessage (db : Tables) (id : MessageId) {f : Message → Message}
    (hf : ∀ m, (f m).mdnSent = m.mdnSent) (other : MessageId) :
    sentFlag (modifyMessage db id f) other = sentFlag db other := by
  rw [sentFlag, modifyMessage, Lib.Table.lookup_update, Option.map_map]
  congr 1
  funext m
  split
  · exact hf m
  · rfl

theorem sentFlag_insertMessage (db : Tables) (id other : MessageId) (columns : MessageColumns) :
    sentFlag (insertMessage db id columns) other = if other = id then some false else sentFlag db other := by
  rw [sentFlag, insertMessage, Lib.Table.lookup_insert_if]
  split
  · rfl
  · rfl

theorem sentFlag_insertMessages (db : Tables) (rows : List ConsumerMessageRow) (id : MessageId) :
    sentFlag (insertMessages db rows) id =
      if id ∈ rows.map ConsumerMessageRow.id then some false else sentFlag db id := by
  induction rows generalizing db with
  | nil => rfl
  | cons row rows ih =>
    have hcons : insertMessages db (row :: rows) =
        insertMessages (insertMessage db row.id row.message) rows := rfl
    rw [hcons, ih, sentFlag_insertMessage]
    by_cases hrest : id ∈ rows.map ConsumerMessageRow.id
    · simp [hrest]
    · by_cases hid : id = row.id
      · simp [hid]
      · simp [hid]

theorem sentFlag_deleteMessages (db : Tables) (ids : List MessageId) (id : MessageId) :
    sentFlag (ids.foldl deleteMessage db) id = if id ∈ ids then none else sentFlag db id := by
  induction ids generalizing db with
  | nil => rfl
  | cons other ids ih =>
    have hone : sentFlag (deleteMessage db other) id = if id = other then none else sentFlag db id := by
      rw [sentFlag, deleteMessage, Lib.Table.lookup_erase_if]
      split
      · rfl
      · rfl
    rw [foldl_cons, ih, hone]
    by_cases hrest : id ∈ ids
    · simp [hrest]
    · by_cases hid : id = other
      · simp [hid]
      · simp [hid]

def bring (messageId : MessageId) (row : AttachmentInsertRow) : Option Attachment → Attachment
  | some old => { old with columns := row.columns, contentHash := row.contentHash.or old.contentHash }
  | none => ⟨messageId, row.columns, row.contentHash, none⟩

/-- The rows for one attachment, in the order they are written, each with its message. -/
def carried (rows : List ConsumerMessageRow) (id : AttachmentId) : List (MessageId × AttachmentInsertRow) :=
  rows.flatMap (fun row => (row.attachments.filter (fun a => a.id = id)).map (fun a => (row.id, a)))

def bringAll (rows : List (MessageId × AttachmentInsertRow)) (old : Option Attachment) : Option Attachment :=
  rows.foldl (fun old row => some (bring row.1 row.2 old)) old

def carriedHash (rows : List (MessageId × AttachmentInsertRow)) (old : Option String) : Option String :=
  rows.foldl (fun old row => row.2.contentHash.or old) old

theorem lookup_insertAttachment (db : Tables) (messageId : MessageId) (row : AttachmentInsertRow)
    (id : AttachmentId) : (insertAttachment messageId db row).attachments.lookup id =
      if row.id = id then some (bring messageId row (db.attachments.lookup id))
      else db.attachments.lookup id := by
  rw [insertAttachment]
  by_cases hid : row.id = id
  · subst hid
    cases h : db.attachments.lookup row.id with
    | some old => simp [h, bring]
    | none => simp [bring]
  · have hne : id ≠ row.id := fun heq => hid heq.symm
    rw [if_neg hid]
    split
    · simp [hne]
    · rw [Lib.Table.lookup_insert_if, if_neg hne]

theorem lookup_insertAttachments (db : Tables) (messageId : MessageId) (rows : List AttachmentInsertRow)
    (id : AttachmentId) : (insertAttachments db messageId rows).attachments.lookup id =
      bringAll ((rows.filter (fun a => a.id = id)).map (fun a => (messageId, a)))
        (db.attachments.lookup id) := by
  induction rows generalizing db with
  | nil => rfl
  | cons row rows ih =>
    have hcons : insertAttachments db messageId (row :: rows) =
        insertAttachments (insertAttachment messageId db row) messageId rows := rfl
    rw [hcons, ih, lookup_insertAttachment]
    by_cases hid : row.id = id
    · rw [if_pos hid, filter_cons_of_pos (by simpa using hid)]
      rfl
    · rw [if_neg hid, filter_cons_of_neg (by simpa using hid)]

def cascade (attachments : Lib.Table AttachmentId Attachment) (ids : List MessageId) :
    Lib.Table AttachmentId Attachment :=
  ids.foldl (fun t id => t.restrict (fun _ a => a.messageId ≠ id)) attachments

theorem lookup_cascade (t : Lib.Table AttachmentId Attachment) (ids : List MessageId) (id : AttachmentId) :
    (cascade t ids).lookup id = (t.lookup id).filter (fun a => a.messageId ∉ ids) := by
  induction ids generalizing t with
  | nil =>
    cases h : t.lookup id with
    | none => simp [cascade, h]
    | some a =>
      rw [cascade, foldl_nil, h]
      rfl
  | cons other ids ih =>
    have hcons : cascade t (other :: ids) = cascade (t.restrict (fun _ a => a.messageId ≠ other)) ids := rfl
    rw [hcons, ih, Lib.Table.lookup_restrict, Option.filter_filter]
    congr 1
    funext a
    by_cases ha : a.messageId = other
    · simp [ha]
    · simp [ha]

theorem attachments_insertMessages (db : Tables) (rows : List ConsumerMessageRow) :
    (insertMessages db rows).attachments = cascade db.attachments (rows.map ConsumerMessageRow.id) := by
  induction rows generalizing db with
  | nil => rfl
  | cons row rows ih => exact ih (insertMessage db row.id row.message)

theorem attachments_deleteMessages (db : Tables) (ids : List MessageId) :
    (ids.foldl deleteMessage db).attachments = cascade db.attachments ids := by
  induction ids generalizing db with
  | nil => rfl
  | cons id ids ih => exact ih (deleteMessage db id)

/-- The rows after the first keep whose the attachment is, and whether its text is indexed. -/
theorem bringAll_some (rows : List (MessageId × AttachmentInsertRow)) (a : Attachment) :
    ∃ a', bringAll rows (some a) = some a' ∧ a'.messageId = a.messageId ∧
      a'.textIndexedAt = a.textIndexedAt ∧ a'.contentHash = carriedHash rows a.contentHash := by
  induction rows generalizing a with
  | nil => exact ⟨a, rfl, rfl, rfl, rfl⟩
  | cons row rows ih => exact ih (bring row.1 row.2 (some a))

/-- An attachment brought again is the first row's, not indexed, and has the last hash that comes. -/
theorem bringAll_none {a' : Attachment} (h : bringAll rows none = some a') :
    rows.head?.map Prod.fst = some a'.messageId ∧ a'.textIndexedAt = none ∧
      a'.contentHash = carriedHash rows none := by
  cases rows with
  | nil => cases h
  | cons row rows =>
    obtain ⟨b, hb, hid, hindexed, hhash⟩ := bringAll_some rows (bring row.1 row.2 none)
    have hsome : some a' = some b := h.symm.trans hb
    cases hsome
    refine ⟨congrArg some hid.symm, hindexed, ?_⟩
    rw [hhash, carriedHash, carriedHash, foldl_cons, Option.or_none]
    rfl

theorem bringAll_none_isSome (h : rows ≠ []) : ∃ a', bringAll rows none = some a' := by
  cases rows with
  | nil => exact absurd rfl h
  | cons row rows =>
    obtain ⟨b, hb, -⟩ := bringAll_some rows (bring row.1 row.2 none)
    exact ⟨b, hb⟩

/-! ## A batch -/

theorem replaceMembership_frame (provider : BifrostProviderKind) (db : Tables) (row : ConsumerMessageRow) :
    (replaceMembership provider db row).attachments = db.attachments ∧
      ∀ id, sentFlag (replaceMembership provider db row) id = sentFlag db id := by
  have hfolders : ∀ m : Message, { m with folders := row.folders.toFinset }.mdnSent = m.mdnSent :=
    fun _ => rfl
  have hlabels : ∀ m : Message, { m with labels := row.labels.toFinset }.mdnSent = m.mdnSent :=
    fun _ => rfl
  have hboth : ∀ id, sentFlag (replaceMessageLabelRows
      (replaceMessageFolderRows db row.id row.folders) row.id row.labels) id = sentFlag db id := by
    intro id
    exact (sentFlag_modifyMessage _ row.id hlabels id).trans (sentFlag_modifyMessage db row.id hfolders id)
  cases provider with
  | jmap => exact ⟨rfl, sentFlag_modifyMessage db row.id hfolders⟩
  | graph => exact ⟨rfl, hboth⟩
  | gmail => exact ⟨rfl, hboth⟩
  | imap => exact ⟨rfl, fun _ => rfl⟩

theorem writeRow_local {row : ConsumerMessageRow} (h : writeRow provider db row = .ok db') :
    (∀ id, sentFlag db' id = sentFlag db id) ∧
      ∀ id, db'.attachments.lookup id = bringAll (carried [row] id) (db.attachments.lookup id) := by
  obtain ⟨hattachments, hflag⟩ := replaceMembership_frame provider db row
  obtain ⟨hmessages, -, -⟩ :=
    insertAttachments_rest (replaceMembership provider db row) row.id row.attachments
  unfold writeRow at h
  split at h
  · cases h
  rename_i labels _
  have hkeywords : ∀ m : Message, { m with keywords := labels }.mdnSent = m.mdnSent := fun _ => rfl
  have hset : (∀ id, sentFlag (setMessageKeywords (insertAttachments (replaceMembership provider db row)
        row.id row.attachments) row.id labels) id = sentFlag db id) ∧
      ∀ id, (setMessageKeywords (insertAttachments (replaceMembership provider db row)
        row.id row.attachments) row.id labels).attachments.lookup id =
          bringAll (carried [row] id) (db.attachments.lookup id) := by
    constructor
    · intro id
      rw [setMessageKeywords, sentFlag_modifyMessage _ _ hkeywords, sentFlag_of_messages hmessages, hflag]
    · intro id
      rw [carried, flatMap_singleton, ← hattachments]
      exact lookup_insertAttachments ..
  cases h
  split
  · exact hset
  · exact hset

theorem writeRows_local {rows : List ConsumerMessageRow} (h : rows.foldlM (writeRow provider) db = .ok db') :
    (∀ id, sentFlag db' id = sentFlag db id) ∧
      ∀ id, db'.attachments.lookup id = bringAll (carried rows id) (db.attachments.lookup id) := by
  induction rows generalizing db with
  | nil =>
    cases h
    exact ⟨fun _ => rfl, fun _ => rfl⟩
  | cons row rows ih =>
    obtain ⟨db₁, hone, hrest⟩ := Lib.foldlM_cons_eq_ok.mp h
    obtain ⟨hflag, hattachments⟩ := writeRow_local hone
    obtain ⟨hflags, hall⟩ := ih hrest
    refine ⟨fun id => (hflags id).trans (hflag id), ?_⟩
    intro id
    have hcarried : carried (row :: rows) id = carried [row] id ++ carried rows id := by
      simp [carried]
    rw [hall, hattachments, hcarried, bringAll, bringAll, bringAll, foldl_append]

theorem updateThreads_sameMail {ns : NamespaceAttribution} {written : List ConsumerMessageRow}
    (h : updateThreads provider ns written db = .ok db') : SameMail db db' := by
  rw [updateThreads] at h
  split at h
  · cases h
    exact .refl db
  · exact (updateThreads_updated h).same

section Batch

variable {db db' : Tables} {provider : BifrostProviderKind} {ns : NamespaceAttribution}
  {rows : List ConsumerMessageRow} {deleted : List DeletedId}
variable {id : MessageId}

def writtenIds (db : Tables) (provider : BifrostProviderKind) (ns : NamespaceAttribution)
    (rows : List ConsumerMessageRow) : List MessageId :=
  (writtenRows db provider ns rows).map ConsumerMessageRow.id

theorem persist_sentFlag (h : persistInNamespace db provider ns rows deleted = .ok db') (id : MessageId) :
    sentFlag db' id =
      if id ∈ resolveDeletedIds db provider deleted then none
      else if id ∈ writtenIds db provider ns rows then some false
      else sentFlag db id := by
  obtain ⟨db₂, db₃, h₂, h₃, h₄⟩ := persistInNamespace_stages.mp h
  obtain ⟨hmessages, -, -⟩ := insertPlaceholders_rest db (writtenRows db provider ns rows)
  rw [sentFlag_of_messages (cleanupThreads_cleaned h₄).same.messages, sentFlag_deleteMessages,
    sentFlag_of_messages (updateThreads_sameMail h₃).messages, (writeRows_local h₂).1, incoming, insertRows,
    sentFlag_insertMessages, sentFlag_of_messages hmessages]
  rfl

theorem persist_attachment (h : persistInNamespace db provider ns rows deleted = .ok db')
    (id : AttachmentId) : db'.attachments.lookup id =
      (bringAll (carried (writtenRows db provider ns rows) id)
        ((db.attachments.lookup id).filter (fun a => a.messageId ∉ writtenIds db provider ns rows))).filter
        (fun a => a.messageId ∉ resolveDeletedIds db provider deleted) := by
  obtain ⟨db₂, db₃, h₂, h₃, h₄⟩ := persistInNamespace_stages.mp h
  obtain ⟨-, hplaceholders, -⟩ := insertPlaceholders_rest db (writtenRows db provider ns rows)
  rw [(cleanupThreads_cleaned h₄).same.attachments, attachments_deleteMessages, lookup_cascade,
    (updateThreads_sameMail h₃).attachments, (writeRows_local h₂).2, incoming, insertRows,
    attachments_insertMessages, lookup_cascade, hplaceholders]
  rfl

/-- The message, and what is still there of its attachments, keep the local columns. -/
structure KeepsLocal (db db' : Tables) (id : MessageId) : Prop where
  mdnSent : ∀ m m', db.messages.lookup id = some m → db'.messages.lookup id = some m' →
    m'.mdnSent = m.mdnSent
  attachments : ∀ attachment old new, db.attachments.lookup attachment = some old →
    db'.attachments.lookup attachment = some new → old.messageId = id → new.messageId = id →
      new.contentHash = old.contentHash ∧ new.textIndexedAt = old.textIndexedAt

/-- The message has no local columns that the rows would not bring again. -/
structure NothingLocal (db : Tables) (written : List ConsumerMessageRow) (id : MessageId) : Prop where
  mdnSent : ∀ m, db.messages.lookup id = some m → m.mdnSent = false
  attachments : ∀ attachment old, db.attachments.lookup attachment = some old → old.messageId = id →
    (carried written attachment).head?.map Prod.fst = some id →
      carriedHash (carried written attachment) none = old.contentHash ∧ old.textIndexedAt = none

theorem keepsLocal_of_deleted (h : persistInNamespace db provider ns rows deleted = .ok db')
    (hdel : id ∈ resolveDeletedIds db provider deleted) : KeepsLocal db db' id := by
  constructor
  · intro m m' _ hm'
    have hflag := persist_sentFlag h id
    rw [if_pos hdel, sentFlag, hm'] at hflag
    cases hflag
  · intro attachment old new _ hnew _ hid
    rw [persist_attachment h, Option.filter_eq_some_iff] at hnew
    have hkept : new.messageId ∉ resolveDeletedIds db provider deleted := by simpa using hnew.2
    rw [hid] at hkept
    exact absurd hdel hkept

/-- An attachment of a written message is gone before the rows bring it again. -/
theorem persist_attachment_of_written (h : persistInNamespace db provider ns rows deleted = .ok db')
    {id : AttachmentId} {old : Attachment} (hold : db.attachments.lookup id = some old)
    (hw : old.messageId ∈ writtenIds db provider ns rows) :
    db'.attachments.lookup id = (bringAll (carried (writtenRows db provider ns rows) id) none).filter
      (fun a => a.messageId ∉ resolveDeletedIds db provider deleted) := by
  rw [persist_attachment h, hold, Option.filter_some, if_neg (by simpa using hw)]

theorem keepsLocal_iff (h : persistInNamespace db provider ns rows deleted = .ok db')
    (hw : id ∈ writtenIds db provider ns rows) :
    KeepsLocal db db' id ↔ id ∈ resolveDeletedIds db provider deleted ∨
      NothingLocal db (writtenRows db provider ns rows) id := by
  by_cases hdel : id ∈ resolveDeletedIds db provider deleted
  · exact ⟨fun _ => .inl hdel, fun _ => keepsLocal_of_deleted h hdel⟩
  have hflag := persist_sentFlag h id
  rw [if_neg hdel, if_pos hw, sentFlag, Option.map_eq_some_iff] at hflag
  obtain ⟨m', hm', hcleared⟩ := hflag
  constructor
  · intro hkeeps
    refine .inr ⟨?_, ?_⟩
    · intro m₀ hm₀
      rw [← hkeeps.mdnSent m₀ m' hm₀ hm', hcleared]
    · intro attachment old hold hid hfirst
      have hne : carried (writtenRows db provider ns rows) attachment ≠ [] := by
        intro hnil
        rw [hnil] at hfirst
        cases hfirst
      obtain ⟨new, hnew⟩ := bringAll_none_isSome hne
      obtain ⟨howner, hindexed, hhash⟩ := bringAll_none hnew
      have hsame : new.messageId = id := Option.some.inj (howner.symm.trans hfirst)
      have hlookup : db'.attachments.lookup attachment = some new := by
        rw [persist_attachment_of_written h hold (hid ▸ hw), hnew, Option.filter_some]
        simpa [hsame] using hdel
      obtain ⟨hh, hi⟩ := hkeeps.attachments attachment old new hold hlookup hid hsame
      exact ⟨hhash.symm.trans hh, hi.symm.trans hindexed⟩
  · rintro (hin | hnone)
    · exact absurd hin hdel
    refine ⟨?_, ?_⟩
    · intro m₀ m₁ hm₀ hm₁
      rw [hm'] at hm₁
      cases hm₁
      rw [hcleared, hnone.mdnSent m₀ hm₀]
    · intro attachment old new hold hnew hid hsame
      rw [persist_attachment_of_written h hold (hid ▸ hw), Option.filter_eq_some_iff] at hnew
      obtain ⟨howner, hindexed, hhash⟩ := bringAll_none hnew.1
      obtain ⟨hh, hi⟩ := hnone.attachments attachment old hold hid (hsame ▸ howner)
      exact ⟨hhash.trans hh, hindexed.trans hi.symm⟩

end Batch

/-! ## Receipts -/

theorem sentFlag_markMdnSentLocal (db : Tables) (id other : MessageId) :
    sentFlag (markMdnSentLocal db id) other =
      if other = id then (sentFlag db other).map (fun _ => true) else sentFlag db other := by
  rw [sentFlag, sentFlag, markMdnSentLocal, modifyMessage, Lib.Table.lookup_update, Option.map_map]
  split
  · rw [Option.map_map]
    rfl
  · rfl

theorem sentFlag_markReadLocal (db : Tables) (thread : ThreadId) (read : Bool) (id : MessageId) :
    sentFlag (markReadLocal db thread read) id = sentFlag db id := by
  rw [sentFlag, markReadLocal, Lib.Table.lookup_update, Option.map_map]
  congr 1
  funext m
  rw [Function.comp_apply]
  split
  · rfl
  · rfl

theorem candidateOf_eq_some {m : MessageId × Message} (h : candidateOf m = some c) :
    c.messageId = m.1 ∧ m.2.mdnSent = false := by
  rw [candidateOf] at h
  split at h
  · rename_i hopen
    split at h
    · cases h
      exact ⟨rfl, by simpa using hopen.2⟩
    · cases h
  · cases h

theorem candidates_sublist (messages : List (MessageId × Message)) :
    ((messages.filterMap candidateOf).map Candidate.messageId).Sublist (messages.map Prod.fst) := by
  induction messages with
  | nil => exact .slnil
  | cons m messages ih =>
    cases h : candidateOf m with
    | none =>
      rw [filterMap_cons_none h]
      exact ih.cons _
    | some c =>
      rw [filterMap_cons_some h, map_cons, (candidateOf_eq_some h).1]
      exact ih.cons_cons _

theorem collectCandidates_nodup (db : Tables) (thread : ThreadId) :
    ((collectCandidates db thread).map Candidate.messageId).Nodup := by
  have hsub : ((messagesOf db thread).map Prod.fst).Sublist (db.messages.rows.map Prod.fst) :=
    List.filter_sublist.map _
  exact (db.messages.rows_keys_nodup.sublist hsub).sublist (candidates_sublist _)

theorem collectCandidates_open {thread : ThreadId} (h : c ∈ collectCandidates db thread) :
    sentFlag db c.messageId = some false := by
  rw [collectCandidates, mem_filterMap] at h
  obtain ⟨⟨id, m⟩, hm, hc⟩ := h
  obtain ⟨hid, hopen⟩ := candidateOf_eq_some hc
  rw [hid, sentFlag, (mem_messagesOf.mp hm).1, Option.map_some, hopen]

/-- No message has two receipts, and none that has one is open. -/
structure Answered (box : Mailbox) : Prop where
  nodup : box.receipts.Nodup
  marked : ∀ id ∈ box.receipts, sentFlag box.tables id ≠ some false

theorem Answered.congr (h : Answered box) (hflag : ∀ id, sentFlag db id = sentFlag box.tables id) :
    Answered { box with tables := db } := by
  refine ⟨h.nodup, ?_⟩
  intro id hid
  rw [hflag id]
  exact h.marked id hid

theorem Answered.send (h : Answered box) {id : MessageId} (hopen : sentFlag box.tables id = some false) :
    Answered ⟨markMdnSentLocal box.tables id, id :: box.receipts⟩ := by
  constructor
  · refine nodup_cons.mpr ⟨?_, h.nodup⟩
    intro hmem
    exact h.marked id hmem hopen
  · intro other hother
    rw [sentFlag_markMdnSentLocal]
    by_cases heq : other = id
    · rw [heq]
      simp
    · rw [if_neg heq]
      exact h.marked other ((mem_cons.mp hother).resolve_left heq)

section Receipts

variable {toLowercase : String → String} {answers : Answers}
variable {box : Mailbox}

theorem respond_answered (toLowercase : String → String) (h : Answered box) {c : Candidate}
    (hopen : sentFlag box.tables c.messageId = some false) (hmarks : answers.marks c.messageId = true) :
    Answered (respond toLowercase answers box c) ∧ ∀ id, id ≠ c.messageId →
      sentFlag (respond toLowercase answers box c).tables id = sentFlag box.tables id := by
  rw [respond]
  split
  · split
    · refine ⟨h.send hopen, ?_⟩
      intro id hne
      rw [sentFlag_markMdnSentLocal, if_neg hne]
    · exact ⟨h, fun _ _ => rfl⟩
  · exact ⟨h, fun _ _ => rfl⟩
  · exact ⟨h, fun _ _ => rfl⟩

theorem responds_answered {candidates : List Candidate} (h : Answered box)
    (hnodup : (candidates.map Candidate.messageId).Nodup)
    (hopen : ∀ c ∈ candidates, sentFlag box.tables c.messageId = some false)
    (hmarks : ∀ c ∈ candidates, answers.marks c.messageId = true) :
    Answered (candidates.foldl (respond toLowercase answers) box) := by
  induction candidates generalizing box with
  | nil => exact h
  | cons c candidates ih =>
    rw [map_cons, nodup_cons] at hnodup
    rw [forall_mem_cons] at hopen hmarks
    obtain ⟨hnext, hothers⟩ := respond_answered toLowercase h hopen.1 hmarks.1
    refine ih hnext hnodup.2 ?_ hmarks.2
    intro d hd
    rw [hothers d.messageId]
    · exact hopen.2 d hd
    · intro heq
      exact hnodup.1 (heq ▸ mem_map_of_mem hd)

theorem sendMdnResponses_answered (h : Answered box) {thread : ThreadId}
    (hmarks : ∀ c ∈ collectCandidates box.tables thread, answers.marks c.messageId = true) :
    Answered (sendMdnResponses toLowercase answers box thread) := by
  rw [sendMdnResponses]
  split
  · split
    · exact responds_answered h (collectCandidates_nodup _ _) (fun c hc => collectCandidates_open hc) hmarks
    · exact h
  · exact h

end Receipts

/-- Every receipt that goes out can be marked, and no row of a message that has one is written, unless the
batch deletes the message as well. -/
def Spares (box : Mailbox) : Event → Prop
  | .markRead thread (some answers) =>
    ∀ c ∈ collectCandidates (markReadLocal box.tables thread true) thread,
      answers.marks c.messageId = true
  | .markRead _ none => True
  | .markUnread _ => True
  | .sync provider ns rows deleted =>
    ∀ id ∈ writtenIds box.tables provider ns rows, id ∈ box.receipts →
      id ∈ resolveDeletedIds box.tables provider deleted

instance (box : Mailbox) (event : Event) : Decidable (Spares box event) :=
  match event with
  | .markRead thread (some answers) => inferInstanceAs
      (Decidable (∀ c ∈ collectCandidates (markReadLocal box.tables thread true) thread,
        answers.marks c.messageId = true))
  | .markRead _ none => inferInstanceAs (Decidable True)
  | .markUnread _ => inferInstanceAs (Decidable True)
  | .sync provider ns rows deleted => inferInstanceAs
      (Decidable (∀ id ∈ writtenIds box.tables provider ns rows, id ∈ box.receipts →
        id ∈ resolveDeletedIds box.tables provider deleted))

theorem step_answered {toLowercase : String → String} {box' : Mailbox} {event : Event}
    (h : Answered box) (hspares : Spares box event)
    (hstep : box.step toLowercase event = .ok box') : Answered box' := by
  cases event with
  | markRead thread dispatched =>
    have hread := h.congr (sentFlag_markReadLocal box.tables thread true)
    cases dispatched with
    | none =>
      cases hstep
      exact hread
    | some answers =>
      cases hstep
      exact sendMdnResponses_answered hread hspares
  | markUnread thread =>
    cases hstep
    exact h.congr (sentFlag_markReadLocal box.tables thread false)
  | sync provider ns rows deleted =>
    rw [Mailbox.step] at hstep
    split at hstep
    · cases hstep
    rename_i db hok
    cases hstep
    refine ⟨h.nodup, ?_⟩
    intro id hid
    rw [persist_sentFlag hok]
    split
    · simp
    · rename_i hkept
      rw [if_neg (fun hw => hkept (hspares id hw hid))]
      exact h.marked id hid

theorem resync_keeps_local (toLowercase : String → String) (start : Mailbox)
    (provider : BifrostProviderKind) (ns : NamespaceAttribution) (rows : List ConsumerMessageRow)
    (deleted : List DeletedId) :
    (∀ db', persistInNamespace start.tables provider ns rows deleted = .ok db' →
      ∀ id ∈ writtenIds start.tables provider ns rows,
        (KeepsLocal start.tables db' id ↔ id ∈ resolveDeletedIds start.tables provider deleted ∨
          NothingLocal start.tables (writtenRows start.tables provider ns rows) id)) ∧
    (start.receipts = [] → ∀ box, Reaches (Mailbox.step toLowercase) Spares start box →
      ∀ id, box.receipts.count id ≤ 1) := by
  constructor
  · intro db' h id hw
    exact keepsLocal_iff h hw
  · intro hempty box hrun
    have hstart : Answered start := by
      refine ⟨?_, ?_⟩
      · rw [hempty]
        exact nodup_nil
      · rw [hempty]
        intro id hid
        cases hid
    have hend : Answered box := by
      apply hrun.invariant hstart
      intro u event v hu hspares hstep
      exact step_answered hu hspares hstep
    exact nodup_iff_count_le_one.mp hend.nodup

/-! ## A message that asks for a receipt -/

def askingColumns : MessageColumns :=
  ⟨"a", some "ann@x.org", some "subject", "snippet", 1, false, false, some "<m@x.org>", none, none, true,
    false, some 7, some "INBOX"⟩

/-- The message `m` with its attachment. -/
def asking (sent : Bool) (hash : Option String) (indexed : Option Int) : Tables where
  threads := (∅ : Lib.Table ThreadId Thread).insert "a"
    ⟨some ⟨some "subject", "snippet", 1, 1, false, false, true⟩, false, none, none, ∅, ∅⟩
  messages := (∅ : Lib.Table MessageId Message).insert "m" ⟨askingColumns, sent, ∅, ∅, ∅⟩
  attachments := (∅ : Lib.Table AttachmentId Attachment).insert "m/1"
    ⟨"m", ⟨none, none, none, none, none, none, false⟩, hash, indexed⟩
  imapFolders := fun _ => ∅

def askingRow : ConsumerMessageRow :=
  ⟨"m", askingColumns, [], [], [], [⟨"m/1", ⟨none, none, none, none, none, none, false⟩, none⟩], false⟩

def allowing : Answers where
  collected := true
  identity := some ("me@x.org", none)
  policies := fun _ =>
    some ⟨fun scope => if scope = "sender:ann@x.org" then some "always" else none, none⟩
  sends := fun _ => true
  marks := fun _ => true

theorem asking_nothingLocal : NothingLocal (asking false none none) [askingRow] "m" := by
  constructor
  · intro m hm
    have hlookup : (asking false none none).messages.lookup "m" =
        some ⟨askingColumns, false, ∅, ∅, ∅⟩ := rfl
    cases hm
    rfl
  · intro attachment old hold _ _
    have hlookup : (asking false none none).attachments.lookup attachment = if attachment = "m/1" then
        some ⟨"m", ⟨none, none, none, none, none, none, false⟩, none, none⟩ else none :=
      Lib.Table.lookup_insert_if ..
    rw [hlookup] at hold
    split at hold
    · rename_i heq
      cases hold
      subst heq
      exact ⟨rfl, rfl⟩
    · cases hold

/-- The message comes again before it is read, and is read twice. -/
theorem resync_before_receipt :
    (∃ db', persistInNamespace (asking false none none) .imap .personal [askingRow] [] = .ok db' ∧
      KeepsLocal (asking false none none) db' "m") ∧
    ∃ box, Reaches (Mailbox.step id) Spares ⟨asking false none none, []⟩ box ∧
      box.receipts = ["m"] ∧ ∀ id, box.receipts.count id ≤ 1 := by
  have hpersist : ∃ db',
      persistInNamespace (asking false none none) .imap .personal [askingRow] [] = .ok db' := ⟨_, rfl⟩
  have hrun : ∃ box, [Event.sync .imap .personal [askingRow] [], .markRead "a" (some allowing),
      .markUnread "a", .markRead "a" (some allowing)].foldlM
        (fun box event => if Spares box event then box.step id event else .error "")
        ⟨asking false none none, []⟩ = .ok box ∧ box.receipts = ["m"] := ⟨_, rfl, by decide⟩
  obtain ⟨db', hok⟩ := hpersist
  obtain ⟨box, hbox, hreceipts⟩ := hrun
  have hreach : Reaches (Mailbox.step id) Spares ⟨asking false none none, []⟩ box :=
    Lib.reaches_of_checked "" hbox
  obtain ⟨hkeeps, honce⟩ := resync_keeps_local id ⟨asking false none none, []⟩ .imap .personal
    [askingRow] []
  refine ⟨⟨db', hok, ?_⟩, box, hreach, hreceipts, honce rfl box hreach⟩
  exact (hkeeps db' hok "m" (by decide)).mpr (.inr asking_nothingLocal)

/-- A flag of the server comes in between: the receipt, the hash and the index are forgotten, and the next
reading sends a second receipt. -/
theorem resync_after_receipt :
    (¬∀ (db : Tables) (provider : BifrostProviderKind) (ns : NamespaceAttribution)
      (rows : List ConsumerMessageRow) (deleted : List DeletedId) (db' : Tables),
      persistInNamespace db provider ns rows deleted = .ok db' →
        ∀ id ∈ writtenIds db provider ns rows, ∀ m, db.messages.lookup id = some m → KeepsLocal db db' id) ∧
    ¬∀ (toLowercase : String → String) (start box : Mailbox), start.receipts = [] →
      Reaches (Mailbox.step toLowercase) (fun _ _ => True) start box →
        ∀ id, box.receipts.count id ≤ 1 := by
  constructor
  · intro hall
    have hpersist : ∃ db', persistInNamespace (asking true (some "hash") (some 5)) .imap .personal
        [askingRow] [] = .ok db' := ⟨_, rfl⟩
    obtain ⟨db', hok⟩ := hpersist
    have hkeeps := hall _ _ _ _ _ db' hok "m" (by decide) _ rfl
    rcases (keepsLocal_iff hok (by decide)).mp hkeeps with hdel | hnothing
    · cases hdel
    · have hfalse := hnothing.mdnSent _ rfl
      cases hfalse
  · intro hall
    have hrun : ∃ box, [Event.markRead "a" (some allowing), .sync .imap .personal [askingRow] [],
        .markRead "a" (some allowing)].foldlM (Mailbox.step id) ⟨asking false none none, []⟩ = .ok box ∧
          box.receipts = ["m", "m"] := ⟨_, rfl, by decide⟩
    obtain ⟨box, hbox, hreceipts⟩ := hrun
    have hcount := hall id _ box rfl (Lib.reaches_foldlM hbox) "m"
    rw [hreceipts] at hcount
    exact absurd hcount (by decide)

end Ratatoskr.Mail
