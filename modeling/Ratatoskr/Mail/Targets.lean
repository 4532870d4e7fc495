import Ratatoskr.Consumer.Stream
import Ratatoskr.Mail.Bodies

/-!
# Mail.Targets

From the object id of a message to its row and back: `build_consumer_row` and `qualify_namespace`
(`service/src/bifrost/consumer/hydrate.rs`) give the row its id and its IMAP columns, an action reads the
object id back off them (`service/src/actions/dispatch_target.rs`).

`imap_uidvalidity` stands in a table of its own, written with the message rows. `sources` follows the rows
in the same way and holds which message each was written from; the code has no such table.
-/

namespace Ratatoskr.Mail

open List
open Actions (NamespaceAttribution ObjectId ActionError DecodedImapObjectId SharedFolderRights MailOperation
  decodeImapObjectId encodeImapObjectId objectIdOf objectIdsOf resolveThreadMessages validateNamespaceAction
  isLocalOnly)
open Consumer (BifrostProviderKind qualify)
open Lib (Table)

variable {ns : NamespaceAttribution} {o : ObjectId} {account : AccountId} {db : Tables}
  {provider : BifrostProviderKind} {m : MessageId × Message}
  {resolved : Except ActionError ObjectId}

/-- A message as the engine hands it over; `content` is its row, but for what the id decides. -/
structure NativeMessage where
  objectId : ObjectId
  content : ConsumerMessageRow

abbrev Source := NamespaceAttribution × ObjectId

structure HydratedMessage where
  row : ConsumerMessageRow
  imapUidvalidity : Option Int
  source : Source

def decodedImap (provider : BifrostProviderKind) (o : ObjectId) : Option DecodedImapObjectId :=
  if provider = .imap then decodeImapObjectId o else none

def localId (account : AccountId) (provider : BifrostProviderKind) (o : ObjectId) : MessageId :=
  match decodedImap provider o with
  | some d => "imap-" ++ account ++ "-" ++ d.folder ++ "-" ++ toString d.uid.toNat
  | none => o

def buildConsumerRow (account : AccountId) (provider : BifrostProviderKind) (m : NativeMessage) :
    ConsumerMessageRow :=
  { m.content with
    id := localId account provider m.objectId
    message := { m.content.message with
      imapFolder := (decodedImap provider m.objectId).map DecodedImapObjectId.folder
      imapUid := (decodedImap provider m.objectId).map (fun d => (d.uid.toNat : Int)) } }

/-- The ids of the message, of its thread and of its attachments, and no other column. -/
def qualifyRow (ns : NamespaceAttribution) (row : ConsumerMessageRow) : ConsumerMessageRow :=
  { row with
    id := qualify ns row.id
    message := { row.message with threadId := qualify ns row.message.threadId }
    attachments := row.attachments.map (fun a => { a with id := qualify ns a.id }) }

def hydrate (account : AccountId) (provider : BifrostProviderKind) (ns : NamespaceAttribution)
    (m : NativeMessage) : HydratedMessage where
  row := qualifyRow ns (buildConsumerRow account provider m)
  imapUidvalidity := (decodedImap provider m.objectId).map (fun d => (d.uidvalidity.toNat : Int))
  source := (ns, m.objectId)

def deletedId (ns : NamespaceAttribution) (id : ObjectId) : DeletedId :=
  ⟨qualify ns id, (decodeImapObjectId (qualify ns id)).map (fun d => (d.folder, (d.uid.toNat : Int)))⟩

/-- `adopt_existing_imap_identity`, which leaves the other columns as they are. -/
def HydratedMessage.adopt (db : Tables) (h : HydratedMessage) : HydratedMessage :=
  { h with row := adoptExistingImapIdentity db h.row }

def persistedMessages (db : Tables) (provider : BifrostProviderKind) (ns : NamespaceAttribution)
    (hs : List HydratedMessage) : List HydratedMessage :=
  (if provider = .imap then hs.map (HydratedMessage.adopt db) else hs).filter (fun h => inNamespace db ns h.row)

/-- A column of the message rows that were written and then deleted. -/
def follow {α : Type} (value : HydratedMessage → α) (t : Table MessageId α) (written : List HydratedMessage)
    (deleted : List MessageId) : Table MessageId α :=
  deleteIds (written.foldl (fun t h => t.insert h.row.id (value h)) t) deleted

structure SourcedTables where
  tables : Tables
  imapUidvalidity : Table MessageId (Option Int)
  sources : Table MessageId Source

def SourcedTables.empty (imapFolders : String → Finset FolderId) : SourcedTables :=
  ⟨.empty imapFolders, ∅, ∅⟩

/-- What one call of `persist_in_namespace` is about. -/
structure Hydration where
  ns : NamespaceAttribution
  messages : List NativeMessage
  deletedIds : List ObjectId

def SourcedTables.persist (account : AccountId) (provider : BifrostProviderKind) (s : SourcedTables)
    (h : Hydration) : Except String SourcedTables :=
  let hydrated := h.messages.map (hydrate account provider h.ns)
  let deleted := h.deletedIds.map (deletedId h.ns)
  match persistInNamespace s.tables provider h.ns (hydrated.map HydratedMessage.row) deleted with
  | .error e => .error e
  | .ok db =>
    let written := persistedMessages s.tables provider h.ns hydrated
    let removed := resolveDeletedIds s.tables provider deleted
    .ok {
      tables := db
      imapUidvalidity := follow HydratedMessage.imapUidvalidity s.imapUidvalidity written removed
      sources := follow HydratedMessage.source s.sources written removed }

def SourcedTables.messageRow (s : SourcedTables) (m : MessageId × Message) : Actions.MessageRow where
  id := m.1
  imapFolder := m.2.columns.imapFolder
  imapUid := m.2.columns.imapUid
  imapUidvalidity := (s.imapUidvalidity.lookup m.1).join
  isRead := m.2.columns.isRead
  isStarred := m.2.columns.isStarred
  mdnRequested := m.2.columns.mdnRequested
  mdnSent := m.2.mdnSent
  fromAddress := m.2.columns.fromAddress
  messageIdHeader := m.2.columns.messageIdHeader

/-- `ORDER BY date ASC, id ASC` -/
def orderedMessages (db : Tables) (thread : ThreadId) : List (MessageId × Message) :=
  (messagesOf db thread).mergeSort (fun a b =>
    a.2.columns.date < b.2.columns.date || a.2.columns.date = b.2.columns.date && a.1 ≤ b.1)

def actionProvider : BifrostProviderKind → Actions.BifrostProviderKind
  | .jmap => .jmap
  | .graph => .graph
  | .gmail => .gmail
  | .imap => .imap

/-- `accounts.provider` -/
def providerName : BifrostProviderKind → String
  | .jmap => "jmap"
  | .graph => "graph"
  | .gmail => "gmail"
  | .imap => "imap"

def resolveMessageObjectId (dbError : Option String) (s : SourcedTables) (id : MessageId)
    (provider : Actions.BifrostProviderKind) : Except ActionError ObjectId :=
  match dbError with
  | some e => .error (.db e)
  | none =>
    match s.tables.messages.lookup id with
    | none => .error (.notFound ("message " ++ id ++ " not found"))
    | some m => objectIdOf provider (s.messageRow (id, m))

/-- The object ids that the messages of a thread came with. -/
def SourcedTables.objectIds (s : SourcedTables) (thread : ThreadId) : List ObjectId :=
  (orderedMessages s.tables thread).filterMap (fun m => (s.sources.lookup m.1).map Prod.snd)

/-! ## What the ids keep -/

/-- An IMAP message in any namespace whose id has the current form, any other in the personal mailbox. -/
def Addressable (provider : BifrostProviderKind) : Source → Prop
  | (ns, o) =>
    if provider = .imap then ∃ d : DecodedImapObjectId, d.folder.utf8ByteSize < 2 ^ 64 ∧ o = d.encode
    else ns = .personal

def Refused (provider : BifrostProviderKind) (ns : NamespaceAttribution) : Prop :=
  ns.isPublic ∨ ns.isShared ∧ provider = .jmap

theorem qualify_length_le (ns : NamespaceAttribution) (o : ObjectId) :
    ns = .personal ∨ o.length < (qualify ns o).length := by
  cases ns with
  | personal => exact .inl rfl
  | shared owner =>
    simp only [qualify, Consumer.idPrefix?, String.length_append]
    have hcolon : ":".length = 1 := rfl
    omega
  | publicFolder id =>
    simp only [qualify, Consumer.idPrefix?, String.length_append]
    have hcolon : ":".length = 1 := rfl
    omega

theorem qualify_eq_iff : qualify ns o = o ↔ ns = .personal := by
  constructor
  · intro h
    rcases qualify_length_le ns o with hns | hlt
    · exact hns
    · rw [h] at hlt
      exact absurd hlt (Nat.lt_irrefl _)
  · rintro rfl
    rfl

/-- The columns of a message row as its source gives them. -/
structure FromSource (provider : BifrostProviderKind) (id : MessageId) (columns : MessageColumns)
    (imapUidvalidity : Option Int) (source : Source) : Prop where
  imapFolder : columns.imapFolder = (decodedImap provider source.2).map DecodedImapObjectId.folder
  imapUid : columns.imapUid = (decodedImap provider source.2).map (fun d => (d.uid.toNat : Int))
  imapUidvalidity : imapUidvalidity =
    (decodedImap provider source.2).map (fun d => (d.uidvalidity.toNat : Int))
  id : provider ≠ .imap → id = qualify source.1 source.2

theorem adopt_columns (db : Tables) (row : ConsumerMessageRow) :
    (adoptExistingImapIdentity db row).message.imapFolder = row.message.imapFolder ∧
      (adoptExistingImapIdentity db row).message.imapUid = row.message.imapUid := by
  unfold adoptExistingImapIdentity
  split
  · split
    · exact ⟨rfl, rfl⟩
    · exact ⟨rfl, rfl⟩
  · exact ⟨rfl, rfl⟩

theorem hydrate_fromSource (account : AccountId) (provider : BifrostProviderKind) (ns : NamespaceAttribution)
    (m : NativeMessage) :
    FromSource provider (hydrate account provider ns m).row.id (hydrate account provider ns m).row.message
      (hydrate account provider ns m).imapUidvalidity (hydrate account provider ns m).source where
  imapFolder := rfl
  imapUid := rfl
  imapUidvalidity := rfl
  id := by
    intro hp
    have hid : (hydrate account provider ns m).row.id = qualify ns (localId account provider m.objectId) := rfl
    rw [hid, localId, decodedImap, if_neg hp]
    rfl

theorem persistedMessages_fromSource {messages : List NativeMessage} {h : HydratedMessage}
    (hh : h ∈ persistedMessages db provider ns (messages.map (hydrate account provider ns))) :
    FromSource provider h.row.id h.row.message h.imapUidvalidity h.source := by
  rw [persistedMessages, mem_filter] at hh
  obtain ⟨hmem, -⟩ := hh
  split at hmem
  · rename_i hp
    rw [map_map] at hmem
    obtain ⟨m, -, rfl⟩ := mem_map.mp hmem
    have hfrom := hydrate_fromSource account provider ns m
    obtain ⟨hfolder, huid⟩ := adopt_columns db (hydrate account provider ns m).row
    exact {
      imapFolder := hfolder.trans hfrom.imapFolder
      imapUid := huid.trans hfrom.imapUid
      imapUidvalidity := hfrom.imapUidvalidity
      id := fun hne => absurd hp hne }
  · obtain ⟨m, -, rfl⟩ := mem_map.mp hmem
    exact hydrate_fromSource account provider ns m

variable {source : Source}

/-- The id that is read off the row is that of its source just where the source is addressable. -/
theorem FromSource.objectIdOf_iff {row : Actions.MessageRow} {columns : MessageColumns}
    (h : FromSource provider row.id columns row.imapUidvalidity source)
    (hfolder : row.imapFolder = columns.imapFolder) (huid : row.imapUid = columns.imapUid) :
    objectIdOf (actionProvider provider) row = .ok source.2 ↔ Addressable provider source := by
  obtain ⟨ns, o⟩ := source
  by_cases hp : provider = .imap
  · subst hp
    have hread := h.imapUidvalidity
    rw [h.imapFolder] at hfolder
    rw [h.imapUid] at huid
    simp only [decodedImap] at hread hfolder huid
    cases hdecoded : decodeImapObjectId o with
    | none =>
      rw [hdecoded] at hfolder
      simp only [actionProvider, objectIdOf, if_true, hfolder, Option.map_none, reduceCtorEq, false_iff]
      rintro ⟨d, hsize, rfl⟩
      rw [Actions.decode_encode d hsize] at hdecoded
      cases hdecoded
    | some d =>
      rw [hdecoded] at hfolder huid hread
      simp only [actionProvider, objectIdOf, if_true, hfolder, huid, hread, Option.map_some, Except.ok.injEq]
      constructor
      · intro heq
        exact ⟨d, Actions.decode_folder_size hdecoded, heq.symm⟩
      · rintro ⟨d', hsize, rfl⟩
        rw [Actions.decode_encode d' hsize] at hdecoded
        cases hdecoded
        rfl
  · have hkind : actionProvider provider ≠ .imap := by
      intro heq
      cases provider with
      | imap => exact hp rfl
      | jmap => cases heq
      | graph => cases heq
      | gmail => cases heq
    rw [Addressable, if_neg hp, objectIdOf, if_neg hkind, Except.ok.injEq, h.id hp]
    exact qualify_eq_iff

def columnsOf (db : Tables) (id : MessageId) : Option MessageColumns :=
  (db.messages.lookup id).map Message.columns

def lastOf (written : List HydratedMessage) (id : MessageId) : Option HydratedMessage :=
  (written.filter (fun h => h.row.id = id)).getLast?

theorem lookup_follow {α : Type} (value : HydratedMessage → α) (t : Table MessageId α)
    (written : List HydratedMessage) (deleted : List MessageId) (id : MessageId) :
    (follow value t written deleted).lookup id =
      if id ∈ deleted then none else ((lastOf written id).map value).or (t.lookup id) := by
  have hwritten := Table.lookup_foldl_insert (fun h : HydratedMessage => h.row.id) value written t id
  rw [follow, lookup_deleteIds, hwritten, lastOf]

theorem columnsOf_insertMessages (db : Tables) (written : List HydratedMessage) (id : MessageId) :
    columnsOf (insertMessages db (written.map HydratedMessage.row)) id =
      ((lastOf written id).map (fun h => h.row.message)).or (columnsOf db id) := by
  have hmessages : ∀ db : Tables, (insertMessages db (written.map HydratedMessage.row)).messages =
      written.foldl (fun t h => AList.insert h.row.id ⟨h.row.message, false, ∅, ∅, ∅⟩ t) db.messages := by
    induction written with
    | nil => exact fun _ => rfl
    | cons h written ih => exact fun db => ih (insertMessage db h.row.id h.row.message)
  have hlookup := Table.lookup_foldl_insert (fun h : HydratedMessage => h.row.id)
    (fun h => (⟨h.row.message, false, ∅, ∅, ∅⟩ : Message)) written db.messages id
  rw [columnsOf, hmessages, hlookup, lastOf]
  cases (written.filter (fun h => h.row.id = id)).getLast? with
  | none => rfl
  | some h => rfl

theorem columnsOf_deleteMessages (db : Tables) (ids : List MessageId) (id : MessageId) :
    columnsOf (ids.foldl deleteMessage db) id = if id ∈ ids then none else columnsOf db id := by
  refine Option.ext fun c => ?_
  rw [columnsOf, ← mem_skeleton, skeleton_deleteMessages, mem_filter, mem_skeleton]
  by_cases hid : id ∈ ids
  · simp [hid]
  · simp [hid, columnsOf]

theorem skeleton_replaceMembership (provider : BifrostProviderKind) (db : Tables) (row : ConsumerMessageRow) :
    skeleton (replaceMembership provider db row) = skeleton db := by
  have hfolders : ∀ m : Message, { m with folders := row.folders.toFinset }.columns = m.columns :=
    fun _ => rfl
  have hlabels : ∀ m : Message, { m with labels := row.labels.toFinset }.columns = m.columns :=
    fun _ => rfl
  have hboth : skeleton (replaceMessageLabelRows
      (replaceMessageFolderRows db row.id row.folders) row.id row.labels) = skeleton db :=
    (skeleton_modifyMessage hlabels).trans (skeleton_modifyMessage hfolders)
  cases provider with
  | jmap => exact skeleton_modifyMessage hfolders
  | graph => exact hboth
  | gmail => exact hboth
  | imap => rfl

theorem skeleton_writeRow {db' : Tables} {row : ConsumerMessageRow}
    (h : writeRow provider db row = .ok db') : skeleton db' = skeleton db := by
  obtain ⟨hmessages, -, -⟩ :=
    insertAttachments_rest (replaceMembership provider db row) row.id row.attachments
  unfold writeRow at h
  split at h
  · cases h
  rename_i labels _
  have hkeywords : ∀ m : Message, { m with keywords := labels }.columns = m.columns := fun _ => rfl
  have hset : skeleton (setMessageKeywords (insertAttachments (replaceMembership provider db row)
      row.id row.attachments) row.id labels) = skeleton db :=
    (skeleton_modifyMessage hkeywords).trans
      ((skeleton_of_messages hmessages).trans (skeleton_replaceMembership provider db row))
  cases h
  split
  · exact hset
  · exact hset

theorem skeleton_writeRows {rows : List ConsumerMessageRow} {db' : Tables}
    (h : rows.foldlM (writeRow provider) db = .ok db') : skeleton db' = skeleton db := by
  induction rows generalizing db with
  | nil =>
    cases h
    rfl
  | cons row rows ih =>
    obtain ⟨db₁, hone, hrest⟩ := Lib.foldlM_cons_eq_ok.mp h
    exact (ih hrest).trans (skeleton_writeRow hone)

theorem persistedMessages_row (db : Tables) (provider : BifrostProviderKind) (ns : NamespaceAttribution)
    (hs : List HydratedMessage) : (persistedMessages db provider ns hs).map HydratedMessage.row =
      writtenRows db provider ns (hs.map HydratedMessage.row) := by
  unfold persistedMessages writtenRows
  split
  · rw [filter_map, filter_map, map_map, filter_map, map_map]
    rfl
  · rw [filter_map]
    rfl

section Call

variable {account : AccountId} {provider : BifrostProviderKind} {s s' : SourcedTables} {h : Hydration}

/-- The rows that a call writes, and the ids that it deletes. -/
def Hydration.written (account : AccountId) (provider : BifrostProviderKind) (s : SourcedTables)
    (h : Hydration) : List HydratedMessage :=
  persistedMessages s.tables provider h.ns (h.messages.map (hydrate account provider h.ns))

def Hydration.removed (provider : BifrostProviderKind) (s : SourcedTables) (h : Hydration) : List MessageId :=
  resolveDeletedIds s.tables provider (h.deletedIds.map (deletedId h.ns))

theorem persist_columnsOf (hpersist : s.persist account provider h = .ok s') (id : MessageId) :
    columnsOf s'.tables id =
      if id ∈ h.removed provider s then none
      else ((lastOf (h.written account provider s) id).map (fun h => h.row.message)).or
        (columnsOf s.tables id) := by
  rw [SourcedTables.persist] at hpersist
  split at hpersist
  · cases hpersist
  rename_i db hdb
  cases hpersist
  obtain ⟨db₂, db₃, h₂, h₃, h₄⟩ := persistInNamespace_stages.mp hdb
  obtain ⟨hmessages, -, -⟩ := insertPlaceholders_rest s.tables (writtenRows s.tables provider h.ns
    ((h.messages.map (hydrate account provider h.ns)).map HydratedMessage.row))
  have hskeleton : ∀ {db db' : Tables}, skeleton db' = skeleton db → columnsOf db' id = columnsOf db id :=
    fun heq => lookup_columns_congr heq id
  rw [hskeleton (cleanupThreads_cleaned h₄).same.skeleton, columnsOf_deleteMessages,
    hskeleton (updateThreads_sameMail h₃).skeleton, hskeleton (skeleton_writeRows h₂), incoming, insertRows,
    ← persistedMessages_row, columnsOf_insertMessages]
  rw [← persistedMessages_row] at hmessages
  rw [hskeleton (skeleton_of_messages hmessages)]
  rfl

end Call

/-! ## Runs -/

/-- Every message row has a source, and is as it gives it. -/
structure Sourced (provider : BifrostProviderKind) (s : SourcedTables) : Prop where
  source : ∀ id, (s.sources.lookup id).isSome = (columnsOf s.tables id).isSome
  columns : ∀ id columns source, columnsOf s.tables id = some columns → s.sources.lookup id = some source →
    FromSource provider id columns (s.imapUidvalidity.lookup id).join source

theorem sourced_empty (provider : BifrostProviderKind) (imapFolders : String → Finset FolderId) :
    Sourced provider (.empty imapFolders) where
  source := fun _ => rfl
  columns := by
    intro id columns source hcolumns
    cases hcolumns

variable {s s' : SourcedTables}

theorem Sourced.persist {h : Hydration} (hs : Sourced provider s)
    (hpersist : s.persist account provider h = .ok s') : Sourced provider s' := by
  have hcolumns := persist_columnsOf hpersist
  have htables : (∀ id, s'.imapUidvalidity.lookup id = if id ∈ h.removed provider s then none else
        ((lastOf (h.written account provider s) id).map HydratedMessage.imapUidvalidity).or
          (s.imapUidvalidity.lookup id)) ∧
      ∀ id, s'.sources.lookup id = if id ∈ h.removed provider s then none else
        ((lastOf (h.written account provider s) id).map HydratedMessage.source).or (s.sources.lookup id) := by
    rw [SourcedTables.persist] at hpersist
    split at hpersist
    · cases hpersist
    · cases hpersist
      exact ⟨fun id => lookup_follow _ _ _ _ id, fun id => lookup_follow _ _ _ _ id⟩
  obtain ⟨hvalidity, hsources⟩ := htables
  constructor
  · intro id
    rw [hsources, hcolumns]
    split
    · rfl
    · cases lastOf (h.written account provider s) id with
      | none => exact hs.source id
      | some last => rfl
  · intro id columns source hc hsource
    rw [hcolumns] at hc
    rw [hsources] at hsource
    rw [hvalidity]
    split at hc
    · cases hc
    rename_i hid
    rw [if_neg hid] at hsource ⊢
    cases hlast : lastOf (h.written account provider s) id with
    | none =>
      rw [hlast] at hc hsource
      exact hs.columns id columns source hc hsource
    | some last =>
      rw [hlast] at hc hsource
      cases hc
      cases hsource
      obtain ⟨hmem, hid⟩ := mem_filter.mp (mem_of_getLast? hlast)
      have hfrom := persistedMessages_fromSource hmem
      rw [of_decide_eq_true hid] at hfrom
      exact hfrom

theorem sourced_run {calls : List Hydration} (hs : Sourced provider s)
    (hrun : calls.foldlM (SourcedTables.persist account provider) s = .ok s') : Sourced provider s' := by
  induction calls generalizing s with
  | nil =>
    cases hrun
    exact hs
  | cons h calls ih =>
    obtain ⟨s₁, hone, hrest⟩ := Lib.foldlM_cons_eq_ok.mp hrun
    exact ih (hs.persist hone) hrest

theorem objectIdsOf_cons_iff {provider : Actions.BifrostProviderKind} {m : Actions.MessageRow}
    {ms : List Actions.MessageRow} {os : List ObjectId} : objectIdsOf provider (m :: ms) = .ok (o :: os) ↔
      objectIdOf provider m = .ok o ∧ objectIdsOf provider ms = .ok os := by
  rw [objectIdsOf]
  cases objectIdOf provider m with
  | error e => simp
  | ok id =>
    cases objectIdsOf provider ms with
    | error e => simp
    | ok ids => simp

theorem Sourced.objectIdOf_iff (hs : Sourced provider s)
    (hm : s.tables.messages.lookup m.1 = some m.2) (hsource : s.sources.lookup m.1 = some source) :
    objectIdOf (actionProvider provider) (s.messageRow m) = .ok source.2 ↔ Addressable provider source := by
  have hcolumns : columnsOf s.tables m.1 = some m.2.columns := by rw [columnsOf, hm, Option.map_some]
  have hfrom : FromSource provider (s.messageRow m).id m.2.columns (s.messageRow m).imapUidvalidity source :=
    hs.columns m.1 m.2.columns source hcolumns hsource
  exact hfrom.objectIdOf_iff rfl rfl

theorem Sourced.exists_source (hs : Sourced provider s) (hm : s.tables.messages.lookup m.1 = some m.2) :
    ∃ source, s.sources.lookup m.1 = some source := by
  refine Option.isSome_iff_exists.mp ?_
  rw [hs.source, columnsOf, hm]
  rfl

theorem Sourced.objectIdsOf_iff (hs : Sourced provider s) {ms : List (MessageId × Message)}
    (hms : ∀ m ∈ ms, s.tables.messages.lookup m.1 = some m.2) :
    objectIdsOf (actionProvider provider) (ms.map s.messageRow) =
        .ok (ms.filterMap (fun m => (s.sources.lookup m.1).map Prod.snd)) ↔
      ∀ m ∈ ms, ∀ source, s.sources.lookup m.1 = some source → Addressable provider source := by
  induction ms with
  | nil => simp [objectIdsOf]
  | cons m ms ih =>
    obtain ⟨hm, hms⟩ := forall_mem_cons.mp hms
    obtain ⟨source, hsource⟩ := hs.exists_source hm
    rw [map_cons, filterMap_cons, hsource, Option.map_some, objectIdsOf_cons_iff,
      hs.objectIdOf_iff hm hsource, ih hms, forall_mem_cons, hsource]
    simp

theorem Sourced.resolveMessageObjectId_iff (hs : Sourced provider s) {id : MessageId}
    (hsource : s.sources.lookup id = some source) :
    resolveMessageObjectId none s id (actionProvider provider) = .ok source.2 ↔
      Addressable provider source := by
  have hstored : (columnsOf s.tables id).isSome = true := by rw [← hs.source, hsource, Option.isSome_some]
  rw [columnsOf, Option.isSome_map] at hstored
  obtain ⟨m, hm⟩ := Option.isSome_iff_exists.mp hstored
  rw [resolveMessageObjectId, hm]
  exact hs.objectIdOf_iff hm hsource

theorem Sourced.resolveThreadMessages_iff (hs : Sourced provider s) {ctx : Actions.Ctx}
    {thread : ThreadId} {rows : Actions.Rows} (hread : ctx.dbError account thread .resolve = none)
    (hne : messagesOf s.tables thread ≠ [])
    (hrows : rows.messages = (orderedMessages s.tables thread).map s.messageRow) :
    resolveThreadMessages ctx account thread rows (actionProvider provider) = .ok (s.objectIds thread) ↔
      ∀ m ∈ messagesOf s.tables thread, ∀ source, s.sources.lookup m.1 = some source →
        Addressable provider source := by
  have hperm : (orderedMessages s.tables thread).Perm (messagesOf s.tables thread) := mergeSort_perm _ _
  have hmessages : rows.messages ≠ [] := by
    rw [hrows]
    intro hnil
    rw [map_eq_nil_iff.mp hnil] at hperm
    exact hne hperm.symm.eq_nil
  have hlookup : ∀ m ∈ orderedMessages s.tables thread, s.tables.messages.lookup m.1 = some m.2 :=
    fun m hm => (mem_messagesOf.mp (hperm.mem_iff.mp hm)).1
  rw [resolveThreadMessages, hread]
  rw [if_neg hmessages, hrows, SourcedTables.objectIds, hs.objectIdsOf_iff hlookup]
  constructor
  · intro h m hm
    exact h m (hperm.mem_iff.mpr hm)
  · intro h m hm
    exact h m (hperm.mem_iff.mp hm)

/-- Every operation that passes the preflight in the namespace of the source gets the id of the source. -/
def ExactWherePermitted (provider : BifrostProviderKind) (source : Source)
    (resolved : Except ActionError ObjectId) : Prop :=
  ∀ (rights : SharedFolderRights) (op : MailOperation),
    validateNamespaceAction source.1 (providerName provider) rights op = some (.ok ()) →
      resolved = .ok source.2

def ExactWhereSent (provider : BifrostProviderKind) (source : Source)
    (resolved : Except ActionError ObjectId) : Prop :=
  ∀ (rights : SharedFolderRights) (op : MailOperation), isLocalOnly op = false →
    validateNamespaceAction source.1 (providerName provider) rights op = some (.ok ()) →
      resolved = .ok source.2

theorem exactWherePermitted_iff : ExactWherePermitted provider source resolved ↔ resolved = .ok source.2 := by
  constructor
  · intro h
    exact h ⟨false, false, false⟩ .unsnooze rfl
  · intro h rights op _
    exact h

theorem providerName_eq_jmap_iff : providerName provider = "jmap" ↔ provider = .jmap := by
  cases provider with
  | jmap => simp [providerName]
  | graph => simp [providerName]
  | gmail => simp [providerName]
  | imap => simp [providerName]

theorem exactWhereSent_iff :
    ExactWhereSent provider source resolved ↔ resolved = .ok source.2 ∨ Refused provider source.1 := by
  obtain ⟨ns, o⟩ := source
  constructor
  · intro h
    by_cases hrefused : Refused provider ns
    · exact .inr hrefused
    rw [Refused, not_or, not_and_or] at hrefused
    obtain ⟨hpublic, hjmap⟩ := hrefused
    have hshared : ¬ (ns.isShared && decide (providerName provider = "jmap")) = true := by
      rw [Bool.and_eq_true, decide_eq_true_eq, providerName_eq_jmap_iff, not_and_or]
      exact hjmap
    refine .inl (h ⟨true, true, true⟩ (.setRead true) rfl ?_)
    rw [validateNamespaceAction, if_neg (by decide), if_neg hpublic, if_neg hshared, if_neg (by simp
      [Actions.permittedBy])]
    rfl
  · rintro (h | hrefused) rights op hsent hpermitted
    · exact h
    · have hop : ¬ isLocalOnly op = true := by rw [hsent]; exact Bool.false_ne_true
      rw [validateNamespaceAction, if_neg hop] at hpermitted
      rcases hrefused with hpublic | ⟨hshared, rfl⟩
      · rw [if_pos hpublic] at hpermitted
        cases hpermitted
      · split at hpermitted
        · cases hpermitted
        · rw [if_pos (by rw [hshared]; rfl)] at hpermitted
          cases hpermitted

/-- In every run of an account, what is read off a row is the id of the message that the row was written
from just where that is addressable. -/
theorem stored_targets_iff {account : AccountId} {provider : BifrostProviderKind}
    {imapFolders : String → Finset FolderId} {calls : List Hydration} {s : SourcedTables}
    (hrun : calls.foldlM (SourcedTables.persist account provider) (.empty imapFolders) = .ok s)
    {id : MessageId} {source : Source} (hsource : s.sources.lookup id = some source) :
    (ExactWherePermitted provider source (resolveMessageObjectId none s id (actionProvider provider)) ↔
      Addressable provider source) ∧
    (ExactWhereSent provider source (resolveMessageObjectId none s id (actionProvider provider)) ↔
      Addressable provider source ∨ Refused provider source.1) ∧
    ∀ (ctx : Actions.Ctx) (thread : ThreadId) (rows : Actions.Rows),
      ctx.dbError account thread .resolve = none → threadOf s.tables id = some thread →
      rows.messages = (orderedMessages s.tables thread).map s.messageRow →
      (resolveThreadMessages ctx account thread rows (actionProvider provider) = .ok (s.objectIds thread) ↔
        ∀ m ∈ messagesOf s.tables thread, ∀ source, s.sources.lookup m.1 = some source →
          Addressable provider source) := by
  have hs := sourced_run (sourced_empty provider imapFolders) hrun
  have hmessage := hs.resolveMessageObjectId_iff hsource
  refine ⟨exactWherePermitted_iff.trans hmessage, exactWhereSent_iff.trans (or_congr_left hmessage), ?_⟩
  intro ctx thread rows hread hthread hrows
  obtain ⟨m, hmem⟩ := threadOf_eq_some.mp hthread
  have hne : messagesOf s.tables thread ≠ [] := by
    intro hnil
    rw [hnil] at hmem
    cases hmem
  exact hs.resolveThreadMessages_iff hread hne hrows

/-! ## A message of a shared mailbox -/

def graphMessage : NativeMessage :=
  ⟨"m", ⟨"", ⟨"t", some "ann@x.org", some "subject", "snippet", 1, false, false, none, none, none, false, false,
    none, none⟩, [], [], [], [], false⟩⟩

theorem persist_graphMessage (hns : ns = .personal ∨ ns = .shared "owner") :
    ∃ s, [(⟨ns, [graphMessage], []⟩ : Hydration)].foldlM (SourcedTables.persist "a" .graph)
      (.empty (fun _ => ∅)) = .ok s ∧ s.sources.lookup (qualify ns "m") = some (ns, "m") := by
  have hpersist : ∃ db, persistInNamespace (.empty (fun _ => ∅)) .graph ns
      [(hydrate "a" .graph ns graphMessage).row] [] = .ok db := by
    have hthreads : threadIds (writtenRows (.empty (fun _ => ∅)) .graph ns
        [(hydrate "a" .graph ns graphMessage).row]) = [qualify ns "t"] := by
      exact mergeSort_singleton _
    have hrows : ∃ db₂ db₃,
        (writtenRows (.empty (fun _ => ∅)) .graph ns [(hydrate "a" .graph ns graphMessage).row]).foldlM
          (writeRow .graph) (incoming (.empty (fun _ => ∅)) .graph ns
            [(hydrate "a" .graph ns graphMessage).row]) = .ok db₂ ∧
        updateThreads .graph ns
          (writtenRows (.empty (fun _ => ∅)) .graph ns [(hydrate "a" .graph ns graphMessage).row]) db₂ =
            .ok db₃ := by
      simp only [updateThreads, hthreads]
      rcases hns with rfl | rfl
      · exact ⟨_, _, rfl, rfl⟩
      · exact ⟨_, _, rfl, rfl⟩
    obtain ⟨db₂, db₃, hwrite, hupdate⟩ := hrows
    exact ⟨db₃, persistInNamespace_stages.mpr ⟨db₂, db₃, hwrite, hupdate, rfl⟩⟩
  obtain ⟨db, hdb⟩ := hpersist
  have hcall : (SourcedTables.empty (fun _ => ∅)).persist "a" .graph ⟨ns, [graphMessage], []⟩ = .ok {
      tables := db
      imapUidvalidity := follow HydratedMessage.imapUidvalidity ∅
        [hydrate "a" .graph ns graphMessage] []
      sources := follow HydratedMessage.source ∅ [hydrate "a" .graph ns graphMessage] [] } := by
    have hempty : (SourcedTables.empty (fun _ => ∅)).tables = .empty (fun _ => ∅) := rfl
    rw [SourcedTables.persist]
    simp only [map_cons, map_nil, hempty, hdb]
    rfl
  refine ⟨_, Lib.foldlM_cons_eq_ok.mpr ⟨_, hcall, rfl⟩, ?_⟩
  rw [lookup_follow]
  simp [lastOf, hydrate, qualifyRow, buildConsumerRow, localId, decodedImap, graphMessage]

/-- A message of the personal mailbox is sent under its own id. -/
theorem personal_is_target : ∃ s, [(⟨.personal, [graphMessage], []⟩ : Hydration)].foldlM
    (SourcedTables.persist "a" .graph) (.empty (fun _ => ∅)) = .ok s ∧
    s.sources.lookup "m" = some (.personal, "m") ∧
    ExactWherePermitted .graph (.personal, "m") (resolveMessageObjectId none s "m" .graph) := by
  obtain ⟨s, hrun, hsource⟩ := persist_graphMessage (.inl rfl)
  exact ⟨s, hrun, hsource, (stored_targets_iff hrun hsource).1.mpr rfl⟩

/-- A message of a shared Graph mailbox is starred under the id of its row. -/
theorem shared_is_no_target :
    ¬∀ (account : AccountId) (provider : BifrostProviderKind) (imapFolders : String → Finset FolderId)
      (calls : List Hydration) (s : SourcedTables),
      calls.foldlM (SourcedTables.persist account provider) (.empty imapFolders) = .ok s →
      ∀ id source, s.sources.lookup id = some source →
        ExactWherePermitted provider source (resolveMessageObjectId none s id (actionProvider provider)) := by
  intro hall
  obtain ⟨s, hrun, hsource⟩ := persist_graphMessage (.inr rfl)
  have hs := sourced_run (sourced_empty .graph (fun _ => ∅)) hrun
  have hexact := exactWherePermitted_iff.mp (hall "a" .graph _ _ s hrun _ _ hsource)
  have hpersonal := (hs.resolveMessageObjectId_iff hsource).mp hexact
  cases hpersonal

end Ratatoskr.Mail
