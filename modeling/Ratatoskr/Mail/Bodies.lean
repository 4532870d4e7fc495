import Ratatoskr.Mail.LocalState

/-!
# Mail.Bodies

What `persist_in_namespace` writes beside its transaction: the body store (`stores/src/body_store.rs`) and
the search index (`service/src/search_writer.rs`). The mail tables are keyed by account and id, both stores
by the message id alone.

The `shared` stores of the code stand next to `own`, where every account has the two stores for itself and
goes through the same calls. As long as no call writes or deletes an id that another account has stored,
both are read the same.

Blobs are kept as their text, `inserted_at` and the inline images are left out, and the attachment texts
that the writer adds to a document. I/O does not fail. Attachments, whose ids are not keyed by account
either, are kept with their account: nothing here reads them.
-/

namespace Ratatoskr.Mail

open List
open Actions (NamespaceAttribution)
open Consumer (BifrostProviderKind)
open Lib (Table Reaches)

variable {db : Tables} {provider : BifrostProviderKind} {ns : NamespaceAttribution}

abbrev AccountId := String

structure MessageBody where
  bodyHtml : Option String
  bodyText : Option String

structure SearchDocument where
  messageId : MessageId
  accountId : AccountId
  threadId : ThreadId
  subject : Option String
  bodyText : Option String
  snippet : Option String

/-- A row with what goes to the two stores; its document is about its message. -/
structure HydratedRow where
  row : ConsumerMessageRow
  body : MessageBody
  searchDocument : SearchDocument
  documented : searchDocument.messageId = row.id

/-- `adopt_existing_imap_identity`, which renames the document with its row. -/
def adoptIdentity (db : Tables) (h : HydratedRow) : HydratedRow :=
  match h.row.message.imapFolder, h.row.message.imapUid with
  | some folder, some uid =>
    match findByUid db folder uid with
    | some (id, m) => { h with
        row := { h.row with id := id, message := { h.row.message with threadId := m.columns.threadId } }
        searchDocument := { h.searchDocument with messageId := id, threadId := m.columns.threadId }
        documented := rfl }
    | none => h
  | _, _ => h

def persistedRows (db : Tables) (provider : BifrostProviderKind) (ns : NamespaceAttribution)
    (rows : List HydratedRow) : List HydratedRow :=
  (if provider = .imap then rows.map (adoptIdentity db) else rows).filter
    (fun h => inNamespace db ns h.row)

theorem adoptIdentity_row (db : Tables) (h : HydratedRow) :
    (adoptIdentity db h).row = adoptExistingImapIdentity db h.row := by
  cases hfolder : h.row.message.imapFolder with
  | none => simp [adoptIdentity, adoptExistingImapIdentity, hfolder]
  | some folder =>
    cases huid : h.row.message.imapUid with
    | none => simp [adoptIdentity, adoptExistingImapIdentity, huid]
    | some uid =>
      cases hfound : findByUid db folder uid with
      | none => simp [adoptIdentity, adoptExistingImapIdentity, hfolder, huid, hfound]
      | some m => simp [adoptIdentity, adoptExistingImapIdentity, hfolder, huid, hfound]

theorem persistedRows_row (db : Tables) (provider : BifrostProviderKind) (ns : NamespaceAttribution)
    (rows : List HydratedRow) : (persistedRows db provider ns rows).map HydratedRow.row =
      writtenRows db provider ns (rows.map HydratedRow.row) := by
  have hadopt : (rows.map (adoptIdentity db)).map HydratedRow.row =
      (rows.map HydratedRow.row).map (adoptExistingImapIdentity db) := by
    rw [map_map, map_map]
    exact map_congr_left (fun h _ => adoptIdentity_row db h)
  unfold persistedRows writtenRows
  split
  · rw [← hadopt, filter_map (f := HydratedRow.row)]
    rfl
  · rw [filter_map]
    rfl

theorem adoptIdentity_accountId (db : Tables) (h : HydratedRow) :
    (adoptIdentity db h).searchDocument.accountId = h.searchDocument.accountId := by
  unfold adoptIdentity
  split
  · split
    · rfl
    · rfl
  · rfl

theorem persistedRows_accountId {rows : List HydratedRow} {account : AccountId}
    (hrows : ∀ h ∈ rows, h.searchDocument.accountId = account) :
    ∀ h ∈ persistedRows db provider ns rows, h.searchDocument.accountId = account := by
  intro h hh
  rw [persistedRows, mem_filter] at hh
  obtain ⟨hmem, -⟩ := hh
  split at hmem
  · obtain ⟨h₀, hh₀, rfl⟩ := mem_map.mp hmem
    rw [adoptIdentity_accountId]
    exact hrows h₀ hh₀
  · exact hrows h hmem

structure Stores where
  bodies : Table MessageId MessageBody
  index : Table MessageId SearchDocument

def hasBody (h : HydratedRow) : Bool := h.body.bodyHtml.isSome || h.body.bodyText.isSome

def storeMessageBodies (bodies : Table MessageId MessageBody) (rows : List HydratedRow) :
    Table MessageId MessageBody :=
  (rows.filter hasBody).foldl (fun bodies h => bodies.insert h.row.id h.body) bodies

/-- `filter_deleted_messages`: the documents whose id some message still has. -/
def filterDeletedMessages (surviving : MessageId → Bool) (rows : List HydratedRow) : List SearchDocument :=
  (rows.map HydratedRow.searchDocument).filter (fun doc => surviving doc.messageId)

/-- A document replaces those of its id (`delete_term`, `add_document`). -/
def indexMessagesBatch (surviving : MessageId → Bool) (index : Table MessageId SearchDocument)
    (rows : List HydratedRow) : Table MessageId SearchDocument :=
  (filterDeletedMessages surviving rows).foldl (fun index doc => index.insert doc.messageId doc) index

/-- `DELETE FROM bodies WHERE message_id IN (…)`, and the documents of these ids. -/
def deleteIds {α : Type} (t : Table MessageId α) (ids : List MessageId) : Table MessageId α :=
  t.restrict (fun id _ => id ∉ ids)

def Stores.write (surviving : MessageId → Bool) (rows : List HydratedRow) (deleted : List MessageId)
    (s : Stores) : Stores where
  bodies := deleteIds (storeMessageBodies s.bodies rows) deleted
  index := deleteIds (indexMessagesBatch surviving s.index rows) deleted

def Stores.read (s : Stores) (id : MessageId) : Option MessageBody × Option SearchDocument :=
  (s.bodies.lookup id, s.index.lookup id)

theorem lookup_deleteIds {α : Type} (t : Table MessageId α) (ids : List MessageId) (id : MessageId) :
    (deleteIds t ids).lookup id = if id ∈ ids then none else t.lookup id := by
  rw [deleteIds, Lib.Table.lookup_restrict]
  by_cases hid : id ∈ ids
  · simp [hid]
  rw [if_neg hid]
  cases t.lookup id with
  | none => rfl
  | some a => simp [hid]

theorem lookup_storeMessageBodies (bodies : Table MessageId MessageBody) (rows : List HydratedRow)
    (id : MessageId) : (storeMessageBodies bodies rows).lookup id =
      ((((rows.filter hasBody).filter (fun h => h.row.id = id)).getLast?).map HydratedRow.body).or
        (bodies.lookup id) :=
  Lib.Table.lookup_foldl_insert (fun h : HydratedRow => h.row.id) HydratedRow.body _ _ id

theorem lookup_indexMessagesBatch (surviving : MessageId → Bool) (index : Table MessageId SearchDocument)
    (rows : List HydratedRow) (id : MessageId) : (indexMessagesBatch surviving index rows).lookup id =
      (((filterDeletedMessages surviving rows).filter (fun doc => doc.messageId = id)).getLast?).or
        (index.lookup id) := by
  have h := Lib.Table.lookup_foldl_insert SearchDocument.messageId (fun doc => doc)
    (filterDeletedMessages surviving rows) index id
  rw [Option.map_id'] at h
  exact h

theorem filterDeletedMessages_id (surviving : MessageId → Bool) (rows : List HydratedRow) (id : MessageId) :
    (filterDeletedMessages surviving rows).filter (fun doc => doc.messageId = id) =
      if surviving id then (rows.map HydratedRow.searchDocument).filter (fun doc => doc.messageId = id)
      else [] := by
  rw [filterDeletedMessages, filter_filter]
  split
  · rename_i hs
    refine filter_congr ?_
    intro doc _
    by_cases hdoc : doc.messageId = id
    · simp [hdoc, hs]
    · simp [hdoc]
  · rename_i hs
    refine filter_eq_nil_iff.mpr ?_
    intro doc _
    by_cases hdoc : doc.messageId = id
    · simp [hdoc, hs]
    · simp [hdoc]

section Write

variable {surviving : MessageId → Bool} {rows : List HydratedRow} {deleted : List MessageId} {s t : Stores}
  {id : MessageId}

theorem Stores.write_deleted (h : id ∈ deleted) :
    (s.write surviving rows deleted).read id = (none, none) := by
  rw [Stores.read, Stores.write, lookup_deleteIds, lookup_deleteIds, if_pos h, if_pos h]

theorem Stores.write_frame (hrows : id ∉ rows.map (fun h => h.row.id)) (hdel : id ∉ deleted) :
    (s.write surviving rows deleted).read id = s.read id := by
  have hbodies : (rows.filter hasBody).filter (fun h => h.row.id = id) = [] := by
    refine filter_eq_nil_iff.mpr ?_
    intro h hh heq
    exact hrows (mem_map.mpr ⟨h, (mem_filter.mp hh).1, by simpa using heq⟩)
  have hdocs : (filterDeletedMessages surviving rows).filter (fun doc => doc.messageId = id) = [] := by
    refine filter_eq_nil_iff.mpr ?_
    intro doc hdoc heq
    obtain ⟨h, hh, rfl⟩ := mem_map.mp (mem_filter.mp hdoc).1
    exact hrows (mem_map.mpr ⟨h, hh, by simpa [h.documented] using heq⟩)
  rw [Stores.read, Stores.write, lookup_deleteIds, lookup_deleteIds, if_neg hdel, if_neg hdel,
    lookup_storeMessageBodies, lookup_indexMessagesBatch, hbodies, hdocs]
  rfl

theorem Stores.write_congr {surviving' : MessageId → Bool} (hread : s.read id = t.read id)
    (hs : surviving id = surviving' id) :
    (s.write surviving rows deleted).read id = (t.write surviving' rows deleted).read id := by
  rw [Stores.read, Stores.read, Prod.mk.injEq] at hread
  obtain ⟨hbodies, hindex⟩ := hread
  rw [Stores.read, Stores.read, Stores.write, Stores.write, lookup_deleteIds, lookup_deleteIds,
    lookup_deleteIds, lookup_deleteIds, lookup_storeMessageBodies, lookup_storeMessageBodies,
    lookup_indexMessagesBatch, lookup_indexMessagesBatch, filterDeletedMessages_id, filterDeletedMessages_id,
    hs, hbodies, hindex]

theorem Stores.write_document (hrow : id ∈ rows.map (fun h => h.row.id)) (hdel : id ∉ deleted)
    (hs : surviving id = true) :
    ∃ h ∈ rows, (s.write surviving rows deleted).index.lookup id = some h.searchDocument := by
  have hdocs := filterDeletedMessages_id surviving rows id
  rw [if_pos hs] at hdocs
  rw [Stores.write, lookup_deleteIds, if_neg hdel, lookup_indexMessagesBatch, hdocs]
  obtain ⟨h, hh, hid⟩ := mem_map.mp hrow
  cases hlast : ((rows.map HydratedRow.searchDocument).filter (fun doc => doc.messageId = id)).getLast? with
  | none =>
    have hmem : h.searchDocument ∈
        (rows.map HydratedRow.searchDocument).filter (fun doc => doc.messageId = id) :=
      mem_filter.mpr ⟨mem_map_of_mem hh, by simpa [h.documented] using hid⟩
    rw [getLast?_eq_none_iff.mp hlast] at hmem
    cases hmem
  | some doc =>
    obtain ⟨h', hh', rfl⟩ := mem_map.mp (mem_filter.mp (mem_of_getLast? hlast)).1
    exact ⟨h', hh', rfl⟩

end Write

/-! ## Calls -/

/-- A call of `persist_in_namespace`, its rows hydrated for its account. -/
structure Call where
  account : AccountId
  provider : BifrostProviderKind
  ns : NamespaceAttribution
  rows : List HydratedRow
  deleted : List DeletedId
  hydrated : ∀ h ∈ rows, h.searchDocument.accountId = account

/-- The database, the two stores, and stores of its own for every account. -/
structure World where
  accounts : List AccountId
  tables : AccountId → Tables
  shared : Stores
  own : AccountId → Stores

def Call.written (w : World) (c : Call) : List HydratedRow :=
  persistedRows (w.tables c.account) c.provider c.ns c.rows

def Call.removed (w : World) (c : Call) : List MessageId :=
  resolveDeletedIds (w.tables c.account) c.provider c.deleted

def stored (db : Tables) (id : MessageId) : Bool := (db.messages.lookup id).isSome

/-- `SELECT id FROM messages WHERE id IN (…)`: the messages of every account. -/
def storedAnywhere (accounts : List AccountId) (tables : AccountId → Tables) (id : MessageId) : Bool :=
  accounts.any (fun account => stored (tables account) id)

def World.persist (w : World) (c : Call) : Except String World :=
  if c.account ∉ w.accounts then .error "FOREIGN KEY constraint failed"
  else
    match persistInNamespace (w.tables c.account) c.provider c.ns (c.rows.map HydratedRow.row) c.deleted with
    | .error e => .error e
    | .ok db =>
      let tables := Function.update w.tables c.account db
      .ok { w with
        tables := tables
        shared := w.shared.write (storedAnywhere w.accounts tables) (c.written w) (c.removed w)
        own := Function.update w.own c.account
          ((w.own c.account).write (stored db) (c.written w) (c.removed w)) }

def World.fresh (accounts : List AccountId) (imapFolders : AccountId → String → Finset FolderId) : World :=
  ⟨accounts, fun account => .empty (imapFolders account), ⟨∅, ∅⟩, fun _ => ⟨∅, ∅⟩⟩

/-- Every stored message is read as if its account had the stores for itself. -/
def World.Faithful (w : World) : Prop :=
  ∀ account id, stored (w.tables account) id = true → w.shared.read id = (w.own account).read id

/-- What the call writes or deletes is no message of another account. -/
def Apart (w : World) (c : Call) : Prop :=
  ∀ account, account ≠ c.account → ∀ id, stored (w.tables account) id = true →
    id ∉ (c.written w).map (fun h => h.row.id) ∧ id ∉ c.removed w

theorem persist_stored {db' : Tables} {rows : List ConsumerMessageRow} {deleted : List DeletedId}
    (h : persistInNamespace db provider ns rows deleted = .ok db') (id : MessageId) :
    stored db' id = true ↔ id ∉ resolveDeletedIds db provider deleted ∧
      (id ∈ writtenIds db provider ns rows ∨ stored db id = true) := by
  have hsent : ∀ db : Tables, stored db id = (sentFlag db id).isSome := by
    intro db
    rw [stored, sentFlag, Option.isSome_map]
  rw [hsent, hsent, persist_sentFlag h]
  by_cases hdel : id ∈ resolveDeletedIds db provider deleted
  · simp [hdel]
  · by_cases hw : id ∈ writtenIds db provider ns rows
    · simp [hw]
    · simp [hdel, hw]

section Step

variable {w w' : World} {c : Call}
variable {id : MessageId} {surviving : MessageId → Bool}

structure Persisted (w w' : World) (c : Call) : Prop where
  known : c.account ∈ w.accounts
  accounts : w'.accounts = w.accounts
  others : ∀ account, account ≠ c.account →
    w'.tables account = w.tables account ∧ w'.own account = w.own account
  stored : ∀ id, stored (w'.tables c.account) id = true ↔ id ∉ c.removed w ∧
    (id ∈ (c.written w).map (fun h => h.row.id) ∨ stored (w.tables c.account) id = true)
  shared : w'.shared = w.shared.write (storedAnywhere w.accounts w'.tables) (c.written w) (c.removed w)
  own : w'.own c.account =
    (w.own c.account).write (Mail.stored (w'.tables c.account)) (c.written w) (c.removed w)

theorem persisted (h : w.persist c = .ok w') : Persisted w w' c := by
  rw [World.persist] at h
  split at h
  · cases h
  rename_i hknown
  split at h
  · cases h
  rename_i db hdb
  have hids : (c.written w).map (fun h => h.row.id) =
      writtenIds (w.tables c.account) c.provider c.ns (c.rows.map HydratedRow.row) := by
    rw [writtenIds, ← persistedRows_row, map_map]
    rfl
  cases h
  refine ⟨by simpa using hknown, rfl, ?_, ?_, rfl, ?_⟩
  · intro account hne
    exact ⟨Function.update_of_ne hne .., Function.update_of_ne hne ..⟩
  · intro id
    dsimp only
    rw [Function.update_self, hids]
    exact persist_stored hdb id
  · dsimp only
    rw [Function.update_self, Function.update_self]

/-- What holds of both sides as long as the calls stay apart. -/
structure Kept (w : World) : Prop where
  faithful : w.Faithful
  own : ∀ account id, stored (w.tables account) id = false → (w.own account).read id = (none, none)
  shared : ∀ id, (∀ account, stored (w.tables account) id = false) → w.shared.read id = (none, none)
  documented : ∀ account id, stored (w.tables account) id = true →
    ∃ doc, (w.own account).index.lookup id = some doc ∧ doc.accountId = account

theorem kept_fresh (accounts : List AccountId) (imapFolders : AccountId → String → Finset FolderId) :
    Kept (.fresh accounts imapFolders) := by
  constructor
  · intro account id _
    rfl
  · intro account id _
    rfl
  · intro id _
    rfl
  · intro account id h
    cases h

theorem Persisted.storedAnywhere (h : Persisted w w' c) (hid : Mail.stored (w'.tables c.account) id = true) :
    Mail.storedAnywhere w.accounts w'.tables id = true :=
  any_eq_true.mpr ⟨c.account, h.known, hid⟩

theorem Persisted.read_none (h : Persisted w w' c) {s : Stores}
    (hid : Mail.stored (w'.tables c.account) id = false)
    (hbefore : Mail.stored (w.tables c.account) id = false → s.read id = (none, none)) :
    (s.write surviving (c.written w) (c.removed w)).read id = (none, none) := by
  have hnot : ¬ (id ∉ c.removed w ∧ (id ∈ (c.written w).map (fun h => h.row.id) ∨
      Mail.stored (w.tables c.account) id = true)) := by
    rw [← h.stored id, hid]
    simp
  by_cases hdel : id ∈ c.removed w
  · exact Stores.write_deleted hdel
  · rw [Stores.write_frame (fun hw => hnot ⟨hdel, .inl hw⟩) hdel]
    exact hbefore (by simpa using fun hs => hnot ⟨hdel, .inr hs⟩)

theorem Persisted.document {s : Stores} (hw : id ∈ (c.written w).map (fun h => h.row.id))
    (hdel : id ∉ c.removed w) (hs : surviving id = true) :
    ∃ doc, (s.write surviving (c.written w) (c.removed w)).index.lookup id = some doc ∧
      doc.accountId = c.account := by
  obtain ⟨row, hrow, hdoc⟩ := Stores.write_document (s := s) hw hdel hs
  exact ⟨row.searchDocument, hdoc, persistedRows_accountId c.hydrated row hrow⟩

/-- A call that stays apart leaves the messages of the other accounts in place. -/
theorem Persisted.frame (h : Persisted w w' c) (hapart : Apart w c) {account : AccountId}
    (hne : account ≠ c.account) (hid : Mail.stored (w.tables account) id = true) :
    w'.shared.read id = w.shared.read id := by
  obtain ⟨hw, hdel⟩ := hapart account hne id hid
  rw [h.shared, Stores.write_frame hw hdel]

theorem Persisted.faithful (h : Persisted w w' c) (hkept : Kept w) (hapart : Apart w c) : w'.Faithful := by
  intro account id hid
  by_cases hne : account = c.account
  · subst hne
    obtain ⟨hdel, hor⟩ := (h.stored id).mp hid
    have hread : w.shared.read id = (w.own c.account).read id := by
      by_cases hs : Mail.stored (w.tables c.account) id = true
      · exact hkept.faithful c.account id hs
      have hnone : ∀ account, Mail.stored (w.tables account) id = false := by
        intro account
        by_cases hac : account = c.account
        · simpa [hac] using hs
        · by_contra hsome
          exact (hapart account hac id (by simpa using hsome)).1 (hor.resolve_right hs)
      rw [hkept.shared id hnone, hkept.own c.account id (hnone c.account)]
    rw [h.shared, h.own]
    exact Stores.write_congr hread (by rw [h.storedAnywhere hid, hid])
  · obtain ⟨htables, hown⟩ := h.others account hne
    rw [htables] at hid
    rw [hown, h.frame hapart hne hid]
    exact hkept.faithful account id hid

theorem Persisted.kept (h : Persisted w w' c) (hkept : Kept w) (hapart : Apart w c) : Kept w' := by
  refine ⟨h.faithful hkept hapart, ?_, ?_, ?_⟩
  · intro account id hid
    by_cases hne : account = c.account
    · subst hne
      rw [h.own]
      exact h.read_none hid (hkept.own c.account id)
    · obtain ⟨htables, hown⟩ := h.others account hne
      rw [hown]
      exact hkept.own account id (htables ▸ hid)
  · intro id hid
    rw [h.shared]
    refine h.read_none (hid c.account) ?_
    intro hbefore
    apply hkept.shared id
    intro account
    by_cases hne : account = c.account
    · rw [hne, hbefore]
    · rw [← (h.others account hne).1]
      exact hid account
  · intro account id hid
    by_cases hne : account = c.account
    · subst hne
      obtain ⟨hdel, hor⟩ := (h.stored id).mp hid
      rw [h.own]
      by_cases hw : id ∈ (c.written w).map (fun h => h.row.id)
      · exact Persisted.document hw hdel hid
      have hread : Stores.read ((w.own c.account).write (Mail.stored (w'.tables c.account))
          (c.written w) (c.removed w)) id = (w.own c.account).read id := Stores.write_frame hw hdel
      rw [Stores.read, Prod.mk.injEq] at hread
      rw [hread.2]
      exact hkept.documented c.account id (hor.resolve_left hw)
    · obtain ⟨htables, hown⟩ := h.others account hne
      rw [hown]
      exact hkept.documented account id (htables ▸ hid)

/-- A call that does not stay apart takes the document of another account's message. -/
theorem Persisted.apart (h : Persisted w w' c) (hkept : Kept w) (hfaithful : w'.Faithful) : Apart w c := by
  intro account hne id hid
  obtain ⟨htables, hown⟩ := h.others account hne
  obtain ⟨doc, hdoc, haccount⟩ := hkept.documented account id hid
  have hread := hfaithful account id (htables ▸ hid)
  rw [hown, Stores.read, Stores.read, Prod.mk.injEq, hdoc, h.shared] at hread
  have hdel : id ∉ c.removed w := by
    intro hmem
    have hnone : Stores.read (w.shared.write (Mail.storedAnywhere w.accounts w'.tables)
        (c.written w) (c.removed w)) id = (none, none) := Stores.write_deleted hmem
    rw [Stores.read, Prod.mk.injEq] at hnone
    rw [hnone.2] at hread
    cases hread.2
  refine ⟨?_, hdel⟩
  intro hw
  have hany := h.storedAnywhere ((h.stored id).mpr ⟨hdel, .inl hw⟩)
  obtain ⟨doc', hdoc', haccount'⟩ := Persisted.document (s := w.shared) hw hdel hany
  rw [hdoc'] at hread
  cases hread.2
  exact hne (haccount.symm.trans haccount')

end Step

theorem calls_apart_keep_bodies (accounts : List AccountId)
    (imapFolders : AccountId → String → Finset FolderId) {w : World}
    (hrun : Reaches World.persist Apart (.fresh accounts imapFolders) w) :
    w.Faithful ∧ ∀ c w', w.persist c = .ok w' → (w'.Faithful ↔ Apart w c) ∧
      (Apart w c → ∀ account, account ≠ c.account → ∀ id, stored (w.tables account) id = true →
        w'.shared.read id = w.shared.read id) := by
  have hkept : Kept w := by
    apply hrun.invariant (kept_fresh accounts imapFolders)
    intro u c v hu hapart hstep
    exact (persisted hstep).kept hu hapart
  refine ⟨hkept.faithful, ?_⟩
  intro c w' hstep
  have h := persisted hstep
  refine ⟨⟨h.apart hkept, h.faithful hkept⟩, ?_⟩
  intro hapart account hne id hid
  exact h.frame hapart hne hid

/-! ## Two accounts -/

def letterColumns : MessageColumns :=
  ⟨"t", some "ann@x.org", some "subject", "snippet", 1, false, false, none, none, none, false, false, none,
    none⟩

def letter (account : AccountId) (text : String) : HydratedRow where
  row := ⟨"m", letterColumns, ["inbox"], [], [], [], false⟩
  body := ⟨none, some text⟩
  searchDocument := ⟨"m", account, "t", some "subject", some text, some "snippet"⟩
  documented := rfl

def arrives (account : AccountId) (text : String) : Call :=
  ⟨account, .jmap, .personal, [letter account text], [], by simp [letter]⟩

def goes (account : AccountId) (id : MessageId) : Call :=
  ⟨account, .jmap, .personal, [], [⟨id, none⟩], by simp⟩

def twoAccounts : World := .fresh ["a", "b"] (fun _ _ => ∅)

theorem persist_letter (account : AccountId) (text : String) :
    ∃ db, persistInNamespace (.empty (fun _ => ∅)) .jmap .personal [(letter account text).row] [] =
      .ok db := by
  have hthreads : threadIds (writtenRows (.empty (fun _ => ∅)) .jmap .personal
      [(letter account text).row]) = ["t"] := by
    exact mergeSort_singleton _
  have hrows : ∃ db₂ db₃,
      (writtenRows (.empty (fun _ => ∅)) .jmap .personal [(letter account text).row]).foldlM
        (writeRow .jmap) (incoming (.empty (fun _ => ∅)) .jmap .personal [(letter account text).row]) =
          .ok db₂ ∧
      updateThreads .jmap .personal
        (writtenRows (.empty (fun _ => ∅)) .jmap .personal [(letter account text).row]) db₂ = .ok db₃ := by
    simp only [updateThreads, hthreads]
    exact ⟨_, _, rfl, rfl⟩
  obtain ⟨db₂, db₃, hwrite, hupdate⟩ := hrows
  exact ⟨db₃, persistInNamespace_stages.mpr ⟨db₂, db₃, hwrite, hupdate, rfl⟩⟩

theorem persist_deleted (id : MessageId) :
    ∃ db, persistInNamespace (.empty (fun _ => ∅)) .jmap .personal [] [⟨id, none⟩] = .ok db := by
  have hnone : ∀ db : Tables, updateThreads .jmap .personal [] db = .ok db := by
    intro db
    rw [updateThreads, threadIds, map_nil, dedup_nil, mergeSort_nil]
    rfl
  exact ⟨_, persistInNamespace_stages.mpr ⟨_, _, rfl, hnone _, rfl⟩⟩

theorem persist_ok {w : World} {c : Call} (hknown : c.account ∈ w.accounts)
    (h : persistInNamespace (w.tables c.account) c.provider c.ns (c.rows.map HydratedRow.row) c.deleted =
      .ok db) : ∃ w', w.persist c = .ok w' := by
  rw [World.persist, if_neg (not_not_intro hknown), h]
  exact ⟨_, rfl⟩

theorem first_arrives : ∃ w, twoAccounts.persist (arrives "a" "one") = .ok w ∧
    Persisted twoAccounts w (arrives "a" "one") ∧ Kept w ∧
    Reaches World.persist Apart twoAccounts w ∧ stored (w.tables "a") "m" = true ∧
    w.accounts = ["a", "b"] ∧ ∀ account, account ≠ "a" → w.tables account = .empty (fun _ => ∅) := by
  obtain ⟨db, hdb⟩ := persist_letter "a" "one"
  obtain ⟨w, hw⟩ := persist_ok (w := twoAccounts) (c := arrives "a" "one") (by decide) hdb
  have hp := persisted hw
  have hapart : Apart twoAccounts (arrives "a" "one") := by
    intro account _ id hid
    cases hid
  have hstored : stored (w.tables "a") "m" = true := (hp.stored "m").mpr (by decide)
  exact ⟨w, hw, hp, hp.kept (kept_fresh _ _) hapart, (Reaches.refl _).tail hapart hw, hstored,
    hp.accounts, fun account hne => (hp.others account hne).1⟩

theorem other_id_goes : ∃ w w', Reaches World.persist Apart twoAccounts w ∧
    w.persist (goes "b" "n") = .ok w' ∧ w'.Faithful ∧ w'.shared.read "m" = w.shared.read "m" := by
  obtain ⟨w, -, hp, -, hrun, hstored, haccounts, hothers⟩ := first_arrives
  obtain ⟨db, hdb⟩ := persist_deleted "n"
  obtain ⟨w', hw'⟩ := persist_ok (w := w) (c := goes "b" "n") (by rw [haccounts]; decide)
    (by rw [← hothers "b" (by decide)] at hdb; exact hdb)
  obtain ⟨-, hcalls⟩ := calls_apart_keep_bodies ["a", "b"] (fun _ _ => ∅) hrun
  obtain ⟨hiff, hframe⟩ := hcalls (goes "b" "n") w' hw'
  have hapart : Apart w (goes "b" "n") := by
    intro account hne id hid
    refine ⟨not_mem_nil, ?_⟩
    by_cases ha : account = "a"
    · subst ha
      intro hn
      have hm : id = "n" := mem_singleton.mp hn
      subst hm
      exact absurd ((hp.stored "n").mp hid) (by decide)
    · rw [hothers account ha] at hid
      cases hid
  exact ⟨w, w', hrun, hw', hiff.mpr hapart, hframe hapart "a" (by decide) "m" hstored⟩

/-- A message of the other account that has the same id is read with its body; deleted, it takes the body
along. -/
theorem same_id_mixes :
    (¬∀ (accounts : List AccountId) (imapFolders : AccountId → String → Finset FolderId) (w : World),
      Reaches World.persist (fun _ _ => True) (.fresh accounts imapFolders) w → w.Faithful) ∧
    ¬∀ (accounts : List AccountId) (imapFolders : AccountId → String → Finset FolderId) (w : World),
      Reaches World.persist (fun _ _ => True) (.fresh accounts imapFolders) w →
        ∀ c w', c.rows = [] → w.persist c = .ok w' → ∀ account, account ≠ c.account →
          ∀ id, stored (w.tables account) id = true → w'.shared.read id = w.shared.read id := by
  obtain ⟨w, hw, -, hkept, -, hstored, haccounts, hothers⟩ := first_arrives
  have hfirst : Reaches World.persist (fun _ _ => True) twoAccounts w :=
    (Reaches.refl _).tail trivial hw
  constructor
  · intro hall
    obtain ⟨db, hdb⟩ := persist_letter "b" "two"
    obtain ⟨w', hw'⟩ := persist_ok (w := w) (c := arrives "b" "two") (by rw [haccounts]; decide)
      (by rw [← hothers "b" (by decide)] at hdb; exact hdb)
    have hfaithful := hall ["a", "b"] (fun _ _ => ∅) w' (hfirst.tail trivial hw')
    have hapart := (persisted hw').apart hkept hfaithful "a" (by decide) "m" hstored
    have hwritten : Call.written w (arrives "b" "two") =
        persistedRows (.empty (fun _ => ∅)) .jmap .personal [letter "b" "two"] := by
      rw [← hothers "b" (by decide)]
      rfl
    rw [hwritten] at hapart
    exact hapart.1 (by decide)
  · intro hall
    obtain ⟨db, hdb⟩ := persist_deleted "m"
    obtain ⟨w', hw'⟩ := persist_ok (w := w) (c := goes "b" "m") (by rw [haccounts]; decide)
      (by rw [← hothers "b" (by decide)] at hdb; exact hdb)
    have hread := hall ["a", "b"] (fun _ _ => ∅) w hfirst (goes "b" "m") w' rfl hw' "a" (by decide) "m"
      hstored
    obtain ⟨doc, hdoc, -⟩ := hkept.documented "a" "m" hstored
    have hremoved : "m" ∈ Call.removed w (goes "b" "m") := mem_singleton.mpr rfl
    rw [hkept.faithful "a" "m" hstored, (persisted hw').shared, Stores.write_deleted hremoved, Stores.read,
      Prod.mk.injEq, hdoc] at hread
    cases hread.2

end Ratatoskr.Mail
