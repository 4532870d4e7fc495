import Ratatoskr.Actions.Operation
import Ratatoskr.Labels.Tables
import Ratatoskr.Lib.Sized

/-!
# Actions.Rows

The local half of a mail action (`service/src/actions/{archive,trash,spam,star,mark_read,pin,mute,
snooze,move_to_folder,permanent_delete}.rs`) and the namespace preflight of `batch.rs`. Every statement
is keyed by account and thread, so a function takes the rows of one thread and returns them. `Ctx` holds
what an action reads and never writes, and what the outside answers; a database call fails where
`dbError` says so, which includes violated foreign keys. The object id of an IMAP message
(`service/src/bifrost/imap_object_id.rs`) is folder, UID validity and UID in one text, the folder behind its
byte length.
-/

namespace Ratatoskr.Actions

abbrev ObjectId := String

inductive BifrostProviderKind where
  | gmail | graph | jmap | imap
  deriving DecidableEq

inductive NamespaceAttribution where
  | personal
  | shared (owner : String)
  | publicFolder (folderStorageId : String)
  deriving DecidableEq

/-- The columns of `threads` that the actions touch; the label generation is with the label rows. -/
structure ThreadRow where
  isRead : Bool
  isStarred : Bool
  isPinned : Bool
  isMuted : Bool
  isSnoozed : Bool
  snoozeUntil : Option Int
  namespaceKind : Option String
  namespaceId : Option String

structure MessageRow where
  id : MessageId
  imapFolder : Option String
  imapUid : Option Int
  imapUidvalidity : Option Int
  isRead : Bool
  isStarred : Bool
  mdnRequested : Bool
  mdnSent : Bool
  fromAddress : Option String
  messageIdHeader : Option String

/-- `messages` are in the order of their date and id; `labels` are the label rows of this thread. -/
structure Rows where
  thread : Option ThreadRow
  folders : List FolderId
  messages : List MessageRow
  labels : Labels.Tables

/-- A row of `folders`; a right the provider never reported is `none`. -/
structure FolderRow where
  rightRemove : Option Bool
  rightSetSeen : Option Bool
  rightSetKeywords : Option Bool

inductive FolderRole where
  | inbox | archive | trash | spam

/-- `folderMap` lists the native ids with their storage ids, in the order of the map. -/
structure ContainerIndex where
  roles : NamespaceAttribution → FolderRole → Option String
  folderMap : List (String × FolderId)

/-- `refreshed` is the answer of `refresh_containers`. -/
structure ResidentActionAccount where
  provider : BifrostProviderKind
  containers : ContainerIndex
  refreshed : Except String ContainerIndex

inductive Importance where
  | high | normal | low

/-- A call of the sync engine, with the messages it is about. -/
inductive EngineCall where
  | bulkSetFlags (ids : List ObjectId) (flag : String) (add : Bool)
  | bulkDestroy (ids : List ObjectId)
  | bulkMoveFrom (ids : List ObjectId) (destination : String) (source : Option String)
  | removeFromContainer (id : ObjectId) (container : String)
  | setImportance (id : ObjectId) (importance : Importance)
  | applyLabel (id : ObjectId) (native : String)
  | removeLabel (id : ObjectId) (native : String)

inductive DbStep where
  | preflight | verify | write | resolve | confirm | memberKind | enqueue
  /-- the statements of a drain -/
  | markExecuting | deleteRow | incrementRetry

structure MapOrder (κ : Type) where
  order : List κ → List κ
  perm : ∀ keys, (order keys).Perm keys

/-- `syncRuntime` hands out the resident account or says why it cannot; `opId` is the id that the action
on a thread draws if it enqueues; `receipted` are the messages whose read receipt goes out; an intent is
`stale` when it was last written more than 48 hours ago. -/
structure Ctx where
  accountProvider : AccountId → Option String
  folder : AccountId → FolderId → Option FolderRow
  labelGroups : List Int
  groupMembers : AccountId → Int → List LabelId
  suppressPendingEnqueue : Bool
  syncRuntime : Option (AccountId → Except String ResidentActionAccount)
  answer : AccountId → EngineCall → Except ActionError Unit
  dbError : AccountId → ThreadId → DbStep → Option String
  opId : AccountId → ThreadId → String
  receipted : AccountId → MessageId → Bool
  stale : AccountId → ThreadId → LabelId → Bool
  now : Int
  accountOrder : MapOrder AccountId
  batchOrder : MapOrder RemoteBatchKey

structure SharedFolderRights where
  mayRemove : Bool
  maySetSeen : Bool
  maySetKeywords : Bool

/-- `COALESCE(f.right, CASE WHEN f.id IS NULL THEN 0 ELSE 1 END)` -/
def grants (right : FolderRow → Option Bool) : Option FolderRow → Bool
  | none => false
  | some row => (right row).getD true

/-- The `MIN` of every right over the folders of the thread. -/
def threadRights (ctx : Ctx) (account : AccountId) (rows : Rows) : SharedFolderRights where
  mayRemove := rows.folders.all (fun f => grants FolderRow.rightRemove (ctx.folder account f))
  maySetSeen := rows.folders.all (fun f => grants FolderRow.rightSetSeen (ctx.folder account f))
  maySetKeywords := rows.folders.all (fun f => grants FolderRow.rightSetKeywords (ctx.folder account f))

def permittedBy (rights : SharedFolderRights) : MailOperation → Bool
  | .setRead _ => rights.maySetSeen
  | .setStarred _ => rights.maySetKeywords
  | .addLabel _ => rights.maySetKeywords
  | .removeLabel _ => rights.maySetKeywords
  | .applyLabelGroup _ => rights.maySetKeywords
  | .removeLabelGroup _ => rights.maySetKeywords
  | .archive => rights.mayRemove
  | .trash => rights.mayRemove
  | .permanentDelete => rights.mayRemove
  | .setSpam _ => rights.mayRemove
  | .moveToFolder _ _ => rights.mayRemove
  | .setPinned _ => true
  | .setMuted _ => true
  | .snooze _ => true
  | .unsnooze => true

def startsWith (s start : String) : Bool := start.toList.isPrefixOf s.toList

def notImplemented (message : String) : ActionError := .remote .notImplemented message

/-- A destination outside the thread's namespace; `none` is the `unreachable!` of a public thread. -/
def crossNamespace (attribution : NamespaceAttribution) (destination : FolderId) : Option Bool :=
  match attribution with
  | .shared owner => some (!startsWith destination ("shared:" ++ owner ++ ":"))
  | .publicFolder _ => none
  | .personal => some (startsWith destination "shared:" || startsWith destination "public:")

def validateMove (attribution : NamespaceAttribution) : MailOperation → Option (Except ActionError Unit)
  | .moveToFolder dest _ =>
    (crossNamespace attribution dest).map (fun crosses =>
      if crosses then .error (notImplemented "cross-namespace moves are not supported") else .ok ())
  | _ => some (.ok ())

def NamespaceAttribution.isPublic : NamespaceAttribution → Bool
  | .publicFolder _ => true
  | _ => false

def NamespaceAttribution.isShared : NamespaceAttribution → Bool
  | .shared _ => true
  | _ => false

def validateNamespaceAction (attribution : NamespaceAttribution) (provider : String)
    (rights : SharedFolderRights) (op : MailOperation) : Option (Except ActionError Unit) :=
  if isLocalOnly op then some (.ok ())
  else if attribution.isPublic then
    some (.error (notImplemented "public-folder items are read-only"))
  else if attribution.isShared && provider = "jmap" then
    some (.error (notImplemented "JMAP shared-mailbox mutations are not supported"))
  else if attribution.isShared && !permittedBy rights op then
    some (.error (notImplemented "shared mailbox rights do not permit this mutation"))
  else validateMove attribution op

def attributionOf (row : ThreadRow) : NamespaceAttribution :=
  match row.namespaceKind, row.namespaceId with
  | some "shared", some owner => .shared owner
  | some "public", some folderStorageId => .publicFolder folderStorageId
  | _, _ => .personal

/-- A thread without a row, or of an account without one, counts as personal. -/
def namespacePreflight (ctx : Ctx) (account : AccountId) (thread : ThreadId) (rows : Rows)
    (op : MailOperation) : Option (Except ActionError NamespaceAttribution) :=
  match ctx.dbError account thread .preflight with
  | some e => some (.error (.db e))
  | none =>
    match rows.thread, ctx.accountProvider account with
    | some row, some provider =>
      (validateNamespaceAction (attributionOf row) provider (threadRights ctx account rows) op).map
        (fun checked => checked.map (fun _ => attributionOf row))
    | _, _ => some (.ok .personal)

theorem validateNamespaceAction_isSome (attribution : NamespaceAttribution) (provider : String)
    (rights : SharedFolderRights) (op : MailOperation) :
    (validateNamespaceAction attribution provider rights op).isSome := by
  unfold validateNamespaceAction
  split
  · rfl
  split
  · rfl
  rename_i hpublic
  split
  · rfl
  split
  · rfl
  cases attribution with
  | publicFolder id => exact absurd rfl hpublic
  | personal => cases op <;> rfl
  | shared owner => cases op <;> rfl

theorem namespacePreflight_isSome (ctx : Ctx) (account : AccountId) (thread : ThreadId) (rows : Rows)
    (op : MailOperation) : (namespacePreflight ctx account thread rows op).isSome := by
  unfold namespacePreflight
  split
  · rfl
  split
  · rw [Option.isSome_map]
    exact validateNamespaceAction_isSome _ _ _ _
  · rfl

variable {account : AccountId} {thread : ThreadId}

theorem namespacePreflight_of_isLocalOnly {ctx : Ctx}
    {rows : Rows} {op : MailOperation} (hop : isLocalOnly op)
    (hdb : ctx.dbError account thread .preflight = none) :
    ∃ ns, namespacePreflight ctx account thread rows op = some (.ok ns) := by
  unfold namespacePreflight
  rw [hdb]
  simp only
  split
  · rw [validateNamespaceAction, if_pos hop]
    exact ⟨_, rfl⟩
  · exact ⟨_, rfl⟩

theorem namespacePreflight_of_dbError {ctx : Ctx} {rows : Rows} {op : MailOperation} {e : String}
    (hdb : ctx.dbError account thread .preflight = some e) :
    namespacePreflight ctx account thread rows op = some (.error (.db e)) := by
  rw [namespacePreflight, hdb]

/-! ## Targets -/

def encodeImapObjectId (folder : String) (uidvalidity uid : Int) : ObjectId :=
  "imap2:" ++ toString folder.utf8ByteSize ++ ":" ++ folder ++ ":" ++ toString uidvalidity ++ ":" ++
    toString uid

def objectIdOf (provider : BifrostProviderKind) (m : MessageRow) : Except ActionError ObjectId :=
  if provider = .imap then
    match m.imapFolder, m.imapUid, m.imapUidvalidity with
    | none, _, _ => .error (.db "IMAP message missing folder")
    | _, none, _ => .error (.db "IMAP message missing UID")
    | _, _, none => .error (.db "IMAP message missing uidvalidity")
    | some folder, some uid, some uidvalidity => .ok (encodeImapObjectId folder uidvalidity uid)
  else .ok m.id

def objectIdsOf (provider : BifrostProviderKind) : List MessageRow → Except ActionError (List ObjectId)
  | [] => .ok []
  | m :: ms =>
    match objectIdOf provider m with
    | .error e => .error e
    | .ok id =>
      match objectIdsOf provider ms with
      | .error e => .error e
      | .ok ids => .ok (id :: ids)

def resolveThreadMessages (ctx : Ctx) (account : AccountId) (thread : ThreadId) (rows : Rows)
    (provider : BifrostProviderKind) : Except ActionError (List ObjectId) :=
  match ctx.dbError account thread .resolve with
  | some e => .error (.db e)
  | none =>
    if rows.messages = [] then .error (.remote .transient "thread messages not hydrated")
    else objectIdsOf provider rows.messages

theorem resolveThreadMessages_ne_nil {ctx : Ctx}
    {rows : Rows} {provider : BifrostProviderKind} {ids : List ObjectId}
    (h : resolveThreadMessages ctx account thread rows provider = .ok ids) : ids ≠ [] := by
  unfold resolveThreadMessages at h
  split at h
  · cases h
  split at h
  · cases h
  rename_i hne
  cases hm : rows.messages with
  | nil => exact absurd hm hne
  | cons m ms =>
    rw [hm, objectIdsOf] at h
    split at h
    · cases h
    split at h
    · cases h
    · cases h
      exact List.cons_ne_nil _ _

def removeFolder (rows : Rows) (folder : FolderId) : Rows :=
  { rows with folders := rows.folders.filter (fun f => f ≠ folder) }

/-- `INSERT OR IGNORE` -/
def insertFolder (rows : Rows) (folder : FolderId) : Rows :=
  if folder ∈ rows.folders then rows else { rows with folders := rows.folders ++ [folder] }

/-- `UPDATE threads`: nothing happens without the row. -/
def updateThread (rows : Rows) (f : ThreadRow → ThreadRow) : Rows :=
  { rows with thread := rows.thread.map f }

def updateMessages (rows : Rows) (f : MessageRow → MessageRow) : Rows :=
  { rows with messages := rows.messages.map f }

/-- One write transaction that gives the rows `next`. -/
def withWrite {α : Type} (ctx : Ctx) (account : AccountId) (thread : ThreadId) (rows next : Rows)
    (result : α) : Rows × Except ActionError α :=
  match ctx.dbError account thread .write with
  | some e => (rows, .error (.db e))
  | none => (next, .ok result)

def verifyThreadExists (ctx : Ctx) (account : AccountId) (thread : ThreadId) (rows : Rows) :
    Except ActionError Unit :=
  match ctx.dbError account thread .verify with
  | some e => .error (.db e)
  | none =>
    if rows.thread.isSome then .ok ()
    else .error (.notFound ("thread " ++ thread ++ " not found for account " ++ account))

/-- The message update has no guard on the old value: it counts every message of the thread. -/
def starLocal (ctx : Ctx) (account : AccountId) (thread : ThreadId) (rows : Rows) (starred : Bool) :
    Rows × Except ActionError Bool :=
  match verifyThreadExists ctx account thread rows with
  | .error e => (rows, .error e)
  | .ok () =>
    let threadChanged := rows.thread.any (fun row => row.isStarred ≠ starred)
    let messageChanged := rows.messages ≠ []
    withWrite ctx account thread rows
      (updateMessages (updateThread rows (fun row => { row with isStarred := starred }))
        (fun m => { m with isStarred := starred }))
      (threadChanged || messageChanged)

def archiveLocal (ctx : Ctx) (account : AccountId) (thread : ThreadId) (rows : Rows) :
    Rows × Except ActionError Bool :=
  match verifyThreadExists ctx account thread rows with
  | .error e => (rows, .error e)
  | .ok () => withWrite ctx account thread rows (removeFolder rows "INBOX") ("INBOX" ∈ rows.folders)

def trashLocal (ctx : Ctx) (account : AccountId) (thread : ThreadId) (rows : Rows) :
    Rows × Except ActionError Unit :=
  withWrite ctx account thread rows (insertFolder (removeFolder rows "INBOX") "TRASH") ()

def spamLocal (ctx : Ctx) (account : AccountId) (thread : ThreadId) (rows : Rows) (isSpam : Bool) :
    Rows × Except ActionError Unit :=
  withWrite ctx account thread rows
    (if isSpam then insertFolder (removeFolder rows "INBOX") "SPAM"
     else insertFolder (removeFolder rows "SPAM") "INBOX") ()

def moveLocal (ctx : Ctx) (account : AccountId) (thread : ThreadId) (rows : Rows) (folder : FolderId)
    (source : Option FolderId) : Rows × Except ActionError Unit :=
  withWrite ctx account thread rows
    (insertFolder (match source with | some src => removeFolder rows src | none => rows) folder) ()

def markReadLocal (ctx : Ctx) (account : AccountId) (thread : ThreadId) (rows : Rows) (read : Bool) :
    Rows × Except ActionError Unit :=
  withWrite ctx account thread rows
    (updateMessages (updateThread rows (fun row => { row with isRead := read }))
      (fun m => { m with isRead := read })) ()

/-- `DELETE FROM threads`; every other row of the thread goes with it. -/
def permanentDeleteLocal (ctx : Ctx) (account : AccountId) (thread : ThreadId) (rows : Rows) :
    Rows × Except ActionError Unit :=
  withWrite ctx account thread rows ⟨none, [], [], .empty⟩ ()

def localOutcome : Except ActionError Unit → ActionOutcome
  | .ok () => .success
  | .error e => .failed e

def pin (ctx : Ctx) (account : AccountId) (thread : ThreadId) (rows : Rows) (pinned : Bool) :
    Rows × Except ActionError Unit :=
  withWrite ctx account thread rows (updateThread rows (fun row => { row with isPinned := pinned })) ()

def mute (ctx : Ctx) (account : AccountId) (thread : ThreadId) (rows : Rows) (muted : Bool) :
    Rows × Except ActionError Unit :=
  withWrite ctx account thread rows (updateThread rows (fun row => { row with isMuted := muted })) ()

def snooze (ctx : Ctx) (account : AccountId) (thread : ThreadId) (rows : Rows) (wakeAt : Int) :
    Rows × Except ActionError Unit :=
  withWrite ctx account thread rows
    (updateThread (removeFolder rows "INBOX")
      (fun row => { row with isSnoozed := true, snoozeUntil := some wakeAt })) ()

def unsnooze (ctx : Ctx) (account : AccountId) (thread : ThreadId) (rows : Rows) :
    Rows × Except ActionError Unit :=
  withWrite ctx account thread rows
    (updateThread (insertFolder rows "INBOX")
      (fun row => { row with isSnoozed := false, snoozeUntil := none })) ()

/-- The write of a local-only operation; `none` is the `unreachable!` of the others. -/
def localOnlyWrite (ctx : Ctx) (account : AccountId) (thread : ThreadId) (rows : Rows) :
    MailOperation → Option (Rows × Except ActionError Unit)
  | .setPinned value => some (pin ctx account thread rows value)
  | .setMuted value => some (mute ctx account thread rows value)
  | .snooze wakeAt => some (snooze ctx account thread rows wakeAt)
  | .unsnooze => some (unsnooze ctx account thread rows)
  | _ => none

/-- `send_mdn_for_read`: the receipts that go out are marked on their messages. -/
def sendMdnForRead (ctx : Ctx) (account : AccountId) (rows : Rows) : Rows :=
  updateMessages rows (fun m =>
    if m.mdnRequested && !m.mdnSent && m.fromAddress.isSome && m.messageIdHeader.isSome &&
        ctx.receipted account m.id then
      { m with mdnSent := true }
    else m)

structure DecodedImapObjectId where
  folder : String
  uidvalidity : UInt32
  uid : UInt32
  deriving DecidableEq

def DecodedImapObjectId.encode (d : DecodedImapObjectId) : ObjectId :=
  encodeImapObjectId d.folder d.uidvalidity.toNat d.uid.toNat

def decodeImapObjectId (id : ObjectId) : Option DecodedImapObjectId := do
  let rest ← (Lib.after "imap2:".toList id.toList).or (Lib.after "imap1:".toList id.toList)
  let (lenText, afterLen) ← Lib.splitFirst ':' rest
  let len ← Lib.parseDecimal (2 ^ 64) lenText
  let (folder, rest) ← Lib.splitBytes len afterLen
  let rest ← Lib.after [':'] rest
  let (uidvalidity, uid) ← Lib.bothFields ':' rest
  let uidvalidity ← Lib.parseDecimal (2 ^ 32) uidvalidity
  let uid ← Lib.parseDecimal (2 ^ 32) uid
  some ⟨String.ofList folder, UInt32.ofNat uidvalidity, UInt32.ofNat uid⟩

theorem toList_encode (d : DecodedImapObjectId) :
    d.encode.toList = "imap2:".toList ++ (d.folder.utf8ByteSize.repr.toList ++ ':' :: (d.folder.toList ++
      ([':'] ++ (d.uidvalidity.toNat.repr.toList ++ ':' :: d.uid.toNat.repr.toList)))) := by
  have hvalidity : toString (d.uidvalidity.toNat : Int) = d.uidvalidity.toNat.repr := rfl
  have huid : toString (d.uid.toNat : Int) = d.uid.toNat.repr := rfl
  rw [DecodedImapObjectId.encode, encodeImapObjectId, hvalidity, huid]
  simp

theorem decode_encode (d : DecodedImapObjectId) (hfolder : d.folder.utf8ByteSize < 2 ^ 64) :
    decodeImapObjectId d.encode = some d := by
  have hcolon : Char.isDigit ':' = false := rfl
  have hnumber : ∀ n : Nat, ∀ c ∈ n.repr.toList, c ≠ ':' := fun n => Lib.repr_ne_of_not_isDigit hcolon
  have hvalidity := Lib.parseDecimal_repr d.uidvalidity.toNat_lt
  have huid := Lib.parseDecimal_repr d.uid.toNat_lt
  rw [decodeImapObjectId, toList_encode]
  simp only [Option.or, Option.bind_eq_bind, Option.bind_some, Lib.splitFirst_append (hnumber _),
    Lib.parseDecimal_repr hfolder, Lib.splitBytes_toList, Lib.after_append,
    Lib.bothFields_append (hnumber _) (hnumber _), hvalidity, huid, String.ofList_toList, UInt32.ofNat_toNat]

theorem decode_folder_size {id : ObjectId} {d : DecodedImapObjectId} (h : decodeImapObjectId id = some d) :
    d.folder.utf8ByteSize < 2 ^ 64 := by
  simp only [decodeImapObjectId, Option.bind_eq_bind, Option.bind_eq_some_iff] at h
  obtain ⟨_, -, ⟨_, _⟩, -, len, hlen, ⟨folder, _⟩, hfolder, _, -, ⟨_, _⟩, -, _, -, _, -, heq⟩ := h
  cases heq
  rw [← Lib.byteLength_toList, String.toList_ofList, Lib.splitBytes_length hfolder]
  exact Lib.parseDecimal_lt hlen

end Ratatoskr.Actions
