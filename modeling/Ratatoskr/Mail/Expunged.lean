import Ratatoskr.Mail.Aligned

/-!
# Mail.Expunged

IMAP expunges over the batches of a mailbox (`resolve_imap_deleted_ids`, `adopt_existing_imap_identity`
in `consumer/write.rs`). A message is stored under the qualified id of its object. A batch looks a
message up by folder and UID alone, whatever its namespace and its UID validity.

* `persist_expunges` : what one batch does that meets `Separate`.
* `expunges_exactly` : in a run of such batches every expunge takes its own message and no other.
* `renumbered_mailbox_loses_mail` : an expunge of an earlier UID validity takes the message of the later one.
-/

namespace Ratatoskr.Mail

open List
open Actions (NamespaceAttribution DecodedImapObjectId decodeImapObjectId)
open Lib (Table)

/-- What a scope is attributed to; a public folder is named by its storage id. -/
inductive ScopeNamespace where
  | personal
  | shared (owner : String)
  | publicFolder (folderId : String)
  deriving DecidableEq

def ScopeNamespace.attribution : ScopeNamespace → NamespaceAttribution
  | .personal => .personal
  | .shared owner => .shared owner
  | .publicFolder folderId => .publicFolder ("public:" ++ folderId)

/-- An IMAP object; a `usize` counts the bytes of its folder. -/
structure ImapObject where
  coordinates : DecodedImapObjectId
  sized : coordinates.folder.utf8ByteSize < 2 ^ 64
  deriving DecidableEq

structure ImapSource where
  ns : ScopeNamespace
  object : ImapObject
  deriving DecidableEq

namespace ImapSource

def localId (s : ImapSource) : MessageId := qualifiedId s.ns.attribution s.object.coordinates.encode

def folder (s : ImapSource) : String := s.object.coordinates.folder

def uid (s : ImapSource) : Int := s.object.coordinates.uid.toNat

/-- The row that hydration builds from an object, `rest` being what the message itself says. -/
def row (s : ImapSource) (rest : ConsumerMessageRow) : ConsumerMessageRow :=
  { rest with
    id := s.localId
    message := { rest.message with imapFolder := some s.folder, imapUid := some s.uid } }

def deletedId (s : ImapSource) : DeletedId where
  id := s.localId
  decoded := (decodeImapObjectId s.localId).map (fun d => (d.folder, (d.uid.toNat : Int)))

theorem decode_localId_personal {o : ImapObject} :
    decodeImapObjectId (localId ⟨.personal, o⟩) = some o.coordinates :=
  Actions.decode_encode o.coordinates o.sized

/-- Behind the prefix of a namespace no object id is read. -/
theorem decode_localId_foreign {s : ImapSource} (h : s.ns ≠ .personal) :
    decodeImapObjectId s.localId = none := by
  obtain ⟨ns, o⟩ := s
  cases ns with
  | personal => exact absurd rfl h
  | shared owner =>
    simp [decodeImapObjectId, localId, qualifiedId, idPrefix, ScopeNamespace.attribution, Lib.after]
  | publicFolder folderId =>
    simp [decodeImapObjectId, localId, qualifiedId, idPrefix, ScopeNamespace.attribution, Lib.after]

end ImapSource

structure ImapBatch where
  ns : ScopeNamespace
  rows : List (ImapObject × ConsumerMessageRow)
  deleted : List ImapObject

def ImapBatch.mail (b : ImapBatch) : MailBatch where
  ns := b.ns.attribution
  rows := b.rows.map (fun p => ImapSource.row ⟨b.ns, p.1⟩ p.2)
  deleted := b.deleted.map (fun o => ImapSource.deletedId ⟨b.ns, o⟩)

/-- The tables, and the source that each message was last persisted from. -/
structure ImapMailbox where
  db : Tables
  sources : Table MessageId ImapSource

def ImapBatch.kept (b : ImapBatch) (db : Tables) : List (ImapObject × ConsumerMessageRow) :=
  b.rows.filter (fun p => isKept db b.ns.attribution (ImapSource.row ⟨b.ns, p.1⟩ p.2))

def ImapBatch.storedId (b : ImapBatch) (db : Tables) (p : ImapObject × ConsumerMessageRow) : MessageId :=
  (adoptExistingImapIdentity db (ImapSource.row ⟨b.ns, p.1⟩ p.2)).id

def delivered (st : ImapMailbox) (b : ImapBatch) : Table MessageId ImapSource :=
  (b.kept st.db).foldl (fun t p => t.insert (b.storedId st.db p) ⟨b.ns, p.1⟩) st.sources

def ImapBatch.resolved (b : ImapBatch) (db : Tables) : List MessageId :=
  resolveDeletedIds db .imap b.mail.deleted

def ImapBatch.persist (b : ImapBatch) (st : ImapMailbox) : Except String ImapMailbox :=
  match persistInNamespace st.db .imap b.mail.ns b.mail.rows b.mail.deleted with
  | .error e => .error e
  | .ok db => .ok ⟨db, (delivered st b).restrict (fun id _ => id ∉ b.resolved st.db)⟩

/-- The batch leaves the messages that it brought or found, less those persisted from an object it
expunges. -/
def ExactlyExpunged (st st' : ImapMailbox) (b : ImapBatch) : Prop :=
  ∀ id, (st'.db.messages.lookup id).isSome ↔
    ((incoming st.db .imap b.mail.ns b.mail.rows).messages.lookup id).isSome ∧
      ∀ o ∈ b.deleted, (delivered st b).lookup id ≠ some ⟨b.ns, o⟩

/-- The sources that a batch meets: of the messages, of its rows and of its deletions. -/
inductive Met (st : ImapMailbox) (b : ImapBatch) : ImapSource → Prop where
  | stored {id : MessageId} {s : ImapSource} (h : st.sources.lookup id = some s) : Met st b s
  | row {p : ImapObject × ConsumerMessageRow} (h : p ∈ b.kept st.db) : Met st b ⟨b.ns, p.1⟩
  | deleted {o : ImapObject} (h : o ∈ b.deleted) : Met st b ⟨b.ns, o⟩

structure Separate (st : ImapMailbox) (b : ImapBatch) : Prop where
  /-- A folder and a UID, and a local id, are those of one source. -/
  uids : ∀ s t, Met st b s → Met st b t → s.folder = t.folder → s.uid = t.uid → s = t
  ids : ∀ s t, Met st b s → Met st b t → s.localId = t.localId → s = t
  /-- A personal batch does not expunge what it brings for the first time. -/
  first : b.ns = .personal → ∀ p ∈ b.kept st.db, p.1 ∈ b.deleted →
    ∃ id, st.sources.lookup id = some ⟨b.ns, p.1⟩

def coordinates (m : Message) : Option String × Option Int := (m.columns.imapFolder, m.columns.imapUid)

def ImapSource.coordinates (s : ImapSource) : Option String × Option Int := (some s.folder, some s.uid)

structure Attributed (db : Tables) (sources : Table MessageId ImapSource) : Prop where
  coordinates : ∀ id, (db.messages.lookup id).map coordinates = (sources.lookup id).map ImapSource.coordinates
  localId : ∀ id s, sources.lookup id = some s → id = s.localId

section Step

variable {st st' : ImapMailbox} {b : ImapBatch} {id : MessageId}

theorem findByUid_some {db : Tables} {folder : String} {uid : Int} {r : MessageId × Message}
    (h : findByUid db folder uid = some r) :
    db.messages.lookup r.1 = some r.2 ∧ coordinates r.2 = (some folder, some uid) := by
  have hmem := mem_reverse.mp (mem_of_find?_eq_some h)
  have hat : decide (r.2.columns.imapFolder = some folder ∧ r.2.columns.imapUid = some uid) = true :=
    find?_some (p := fun m : MessageId × Message =>
      decide (m.2.columns.imapFolder = some folder ∧ m.2.columns.imapUid = some uid)) h
  obtain ⟨hfolder, huid⟩ := of_decide_eq_true hat
  exact ⟨Table.mem_rows.mp hmem, Prod.ext hfolder huid⟩

theorem findByUid_none {db : Tables} {folder : String} {uid : Int} (h : findByUid db folder uid = none)
    {m : Message} (hm : db.messages.lookup id = some m) : coordinates m ≠ (some folder, some uid) := by
  intro heq
  have hno := find?_eq_none.mp h (id, m) (mem_reverse.mpr (Table.mem_rows.mpr hm))
  exact hno (decide_eq_true ⟨(Prod.mk.inj heq).1, (Prod.mk.inj heq).2⟩)

/-- A message found by folder and UID is that of the one source which has them. -/
theorem Attributed.found (hinv : Attributed st.db st.sources) (hsep : Separate st b) {s : ImapSource}
    (hs : Met st b s) {r : MessageId × Message} (h : findByUid st.db s.folder s.uid = some r) :
    r.1 = s.localId ∧ st.sources.lookup r.1 = some s := by
  obtain ⟨hlookup, hat⟩ := findByUid_some h
  have hcoordinates := hinv.coordinates r.1
  rw [hlookup, Option.map_some, hat] at hcoordinates
  obtain ⟨t, ht, heq⟩ := Option.map_eq_some_iff.mp hcoordinates.symm
  have hsame := hsep.uids t s (.stored ht) hs (Option.some.inj (Prod.mk.inj heq).1)
    (Option.some.inj (Prod.mk.inj heq).2)
  rw [hsame] at ht
  exact ⟨hinv.localId _ _ ht, ht⟩

theorem Attributed.found_iff (hinv : Attributed st.db st.sources) (hsep : Separate st b) {s : ImapSource}
    (hs : Met st b s) :
    (findByUid st.db s.folder s.uid).map Prod.fst = some id ↔ st.sources.lookup id = some s := by
  constructor
  · intro h
    obtain ⟨r, hr, rfl⟩ := Option.map_eq_some_iff.mp h
    exact (hinv.found hsep hs hr).2
  · intro h
    have hcoordinates := hinv.coordinates id
    rw [h] at hcoordinates
    obtain ⟨m, hm, hat⟩ := Option.map_eq_some_iff.mp hcoordinates
    cases hfind : findByUid st.db s.folder s.uid with
    | none => exact absurd hat (findByUid_none hfind hm)
    | some r =>
      rw [Option.map_some, (hinv.found hsep hs hfind).1, hinv.localId id s h]

theorem Attributed.adopted (hinv : Attributed st.db st.sources) (hsep : Separate st b)
    {p : ImapObject × ConsumerMessageRow} (hp : p ∈ b.kept st.db) :
    b.storedId st.db p = ImapSource.localId ⟨b.ns, p.1⟩ ∧
      ((adoptExistingImapIdentity st.db (ImapSource.row ⟨b.ns, p.1⟩ p.2)).message.imapFolder,
        (adoptExistingImapIdentity st.db (ImapSource.row ⟨b.ns, p.1⟩ p.2)).message.imapUid) =
          ImapSource.coordinates ⟨b.ns, p.1⟩ := by
  rw [ImapBatch.storedId, adoptExistingImapIdentity]
  simp only [ImapSource.row]
  split
  · rename_i id m hfind
    exact ⟨(hinv.found hsep (.row hp) hfind).1, rfl⟩
  · exact ⟨rfl, rfl⟩

theorem written_eq (b : ImapBatch) (db : Tables) : writtenRows db .imap b.mail.ns b.mail.rows =
      (b.kept db).map (fun p => adoptExistingImapIdentity db (ImapSource.row ⟨b.ns, p.1⟩ p.2)) := by
  rw [writtenRows, if_pos rfl, ImapBatch.mail, map_map, filter_map]
  rfl

theorem lookup_delivered (hinv : Attributed st.db st.sources) (hsep : Separate st b) (id : MessageId) :
    ((∀ p ∈ b.kept st.db, ImapSource.localId ⟨b.ns, p.1⟩ ≠ id) ∧
      (delivered st b).lookup id = st.sources.lookup id) ∨
    ∃ p ∈ b.kept st.db, ImapSource.localId ⟨b.ns, p.1⟩ = id ∧
      (delivered st b).lookup id = some ⟨b.ns, p.1⟩ := by
  have hall : ∀ rows : List (ImapObject × ConsumerMessageRow), (∀ p ∈ rows, p ∈ b.kept st.db) →
      ∀ t : Table MessageId ImapSource,
        ((∀ p ∈ rows, ImapSource.localId ⟨b.ns, p.1⟩ ≠ id) ∧
          (rows.foldl (fun t p => t.insert (b.storedId st.db p) ⟨b.ns, p.1⟩) t).lookup id = t.lookup id) ∨
        ∃ p ∈ rows, ImapSource.localId ⟨b.ns, p.1⟩ = id ∧
          (rows.foldl (fun t p => t.insert (b.storedId st.db p) ⟨b.ns, p.1⟩) t).lookup id =
            some ⟨b.ns, p.1⟩ := by
    intro rows
    induction rows with
    | nil => exact fun _ t => .inl ⟨fun p hp => (not_mem_nil hp).elim, rfl⟩
    | cons first rest ih =>
      intro hrows t
      rw [forall_mem_cons] at hrows
      have hid := (hinv.adopted hsep hrows.1).1
      have hfirst := Table.lookup_insert_if t id (b.storedId st.db first) ⟨b.ns, first.1⟩
      rcases ih hrows.2 (t.insert (b.storedId st.db first) ⟨b.ns, first.1⟩) with
        ⟨hrest, hlookup⟩ | ⟨p, hp, hpid, hlookup⟩
      · by_cases h : id = b.storedId st.db first
        · exact .inr ⟨first, mem_cons_self, (h.trans hid).symm, hlookup.trans (hfirst.trans (if_pos h))⟩
        · refine .inl ⟨?_, hlookup.trans (hfirst.trans (if_neg h))⟩
          rw [forall_mem_cons]
          exact ⟨fun heq => h (heq.symm.trans hid.symm), hrest⟩
      · exact .inr ⟨p, mem_cons_of_mem _ hp, hpid, hlookup⟩
  exact hall _ (fun _ hp => hp) st.sources

theorem Attributed.delivered (hinv : Attributed st.db st.sources) (hsep : Separate st b) :
    Attributed (incoming st.db .imap b.mail.ns b.mail.rows) (delivered st b) := by
  have hlocal : ∀ id s, (Mail.delivered st b).lookup id = some s → id = s.localId := by
    intro id s h
    rcases lookup_delivered hinv hsep id with ⟨-, hold⟩ | ⟨p, -, hid, hnew⟩
    · exact hinv.localId id s (hold.symm.trans h)
    · cases hnew.symm.trans h
      exact hid.symm
  refine ⟨?_, hlocal⟩
  intro id
  have hcolumns := lookup_incoming st.db b.mail.ns b.mail.rows id
  rw [written_eq, map_map] at hcolumns
  rcases hcolumns with ⟨hnone, hold⟩ | ⟨row, hrow, hid, hnew⟩
  · rcases lookup_delivered hinv hsep id with ⟨-, hsame⟩ | ⟨p, hp, hid, -⟩
    · rw [hold, hsame, hinv.coordinates]
    · refine absurd (mem_map.mpr ⟨p, hp, ?_⟩) hnone
      exact (hinv.adopted hsep hp).1.trans hid
  · obtain ⟨p, hp, rfl⟩ := mem_map.mp hrow
    obtain ⟨hlocalId, hat⟩ := hinv.adopted hsep hp
    rcases lookup_delivered hinv hsep id with ⟨hnone, -⟩ | ⟨q, hq, hqid, hsame⟩
    · exact absurd (hlocalId.symm.trans hid) (hnone p hp)
    · have heq := hsep.ids _ _ (.row hq) (.row hp) (hqid.trans (hid.symm.trans hlocalId))
      rw [hnew, hsame, heq]
      exact congrArg some hat

/-- What a deletion resolves to: a personal message by its source, any other by its id. -/
theorem mem_resolved (hinv : Attributed st.db st.sources) (hsep : Separate st b) :
    id ∈ b.resolved st.db ↔ ∃ o ∈ b.deleted,
      if b.ns = .personal then st.sources.lookup id = some ⟨b.ns, o⟩
      else id = ImapSource.localId ⟨b.ns, o⟩ := by
  rw [ImapBatch.resolved, resolveDeletedIds, if_pos rfl, ImapBatch.mail, filterMap_map, mem_filterMap]
  refine exists_congr fun o => and_congr_right fun ho => ?_
  by_cases hns : b.ns = .personal
  · have hdecode : decodeImapObjectId (ImapSource.localId ⟨b.ns, o⟩) = some o.coordinates := by
      rw [hns]
      exact ImapSource.decode_localId_personal
    rw [if_pos hns, ← hinv.found_iff hsep (.deleted ho)]
    simp only [Function.comp_apply, ImapSource.deletedId, hdecode]
    rfl
  · have hdecode : decodeImapObjectId (ImapSource.localId ⟨b.ns, o⟩) = none :=
      ImapSource.decode_localId_foreign hns
    rw [if_neg hns]
    simp only [Function.comp_apply, ImapSource.deletedId, hdecode, Option.map_none, Option.some.injEq]
    exact eq_comm

/-- A batch takes out a message exactly when it expunges the source of the message. -/
theorem resolved_iff (hinv : Attributed st.db st.sources) (hsep : Separate st b) {s : ImapSource}
    (hs : (delivered st b).lookup id = some s) : id ∈ b.resolved st.db ↔ ∃ o ∈ b.deleted, s = ⟨b.ns, o⟩ := by
  have hid := (hinv.delivered hsep).localId id s hs
  have hmet : Met st b s := by
    rcases lookup_delivered hinv hsep id with ⟨-, hold⟩ | ⟨p, hp, -, hnew⟩
    · exact .stored (hold.symm.trans hs)
    · cases hnew.symm.trans hs
      exact .row hp
  rw [mem_resolved hinv hsep]
  refine exists_congr fun o => and_congr_right fun ho => ?_
  split
  · rename_i hns
    constructor
    · intro hstored
      exact hsep.ids _ _ hmet (.deleted ho) (hid.symm.trans (hinv.localId _ _ hstored))
    · rintro rfl
      rcases lookup_delivered hinv hsep id with ⟨-, hold⟩ | ⟨p, hp, -, hnew⟩
      · exact hold.symm.trans hs
      have hobject : p.1 = o := (ImapSource.mk.inj (Option.some.inj (hnew.symm.trans hs))).2
      obtain ⟨id', hid'⟩ := hsep.first hns p hp (hobject ▸ ho)
      rw [hobject] at hid'
      rw [hid, ← hinv.localId id' _ hid']
      exact hid'
  · constructor
    · intro heq
      exact hsep.ids _ _ hmet (.deleted ho) (hid.symm.trans heq)
    · rintro rfl
      exact hid

theorem persistBatch_ok (h : b.persist st = .ok st') :
    persistInNamespace st.db .imap b.mail.ns b.mail.rows b.mail.deleted = .ok st'.db ∧
      st'.sources = (delivered st b).restrict (fun id _ => id ∉ b.resolved st.db) := by
  rw [ImapBatch.persist] at h
  split at h
  · cases h
  · rename_i hpersist
    cases h
    exact ⟨hpersist, rfl⟩

theorem persistBatch_lookup (h : b.persist st = .ok st') (id : MessageId) :
    (st'.db.messages.lookup id).map coordinates =
      if id ∈ b.resolved st.db then none
      else ((incoming st.db .imap b.mail.ns b.mail.rows).messages.lookup id).map coordinates := by
  have hcolumns := congrArg (Option.map fun c : MessageColumns => (c.imapFolder, c.imapUid))
    (persist_columns (persistBatch_ok h).1 id)
  rw [Option.map_map, apply_ite (Option.map _), Option.map_map] at hcolumns
  exact hcolumns

theorem persist_attributed (hinv : Attributed st.db st.sources) (hsep : Separate st b)
    (h : b.persist st = .ok st') : Attributed st'.db st'.sources := by
  have hdelivered := hinv.delivered hsep
  have hsources : ∀ id, st'.sources.lookup id =
      if id ∈ b.resolved st.db then none else (delivered st b).lookup id := by
    intro id
    refine Option.ext fun s => ?_
    rw [(persistBatch_ok h).2, Table.lookup_restrict, Option.filter_eq_some_iff, decide_eq_true_eq]
    split
    · rename_i hin
      exact ⟨fun hs => absurd hin hs.2, nofun⟩
    · rename_i hout
      exact ⟨And.left, fun hs => ⟨hs, hout⟩⟩
  constructor
  · intro id
    rw [persistBatch_lookup h, hsources]
    split
    · rfl
    · exact hdelivered.coordinates id
  · intro id s hs
    rw [hsources] at hs
    split at hs
    · cases hs
    · exact hdelivered.localId id s hs

theorem persist_expunges (hinv : Attributed st.db st.sources) (hsep : Separate st b)
    (h : b.persist st = .ok st') : ExactlyExpunged st st' b := by
  intro id
  have hlookup := congrArg Option.isSome (persistBatch_lookup h id)
  have hcoordinates := (hinv.delivered hsep).coordinates id
  rw [Option.isSome_map] at hlookup
  rw [hlookup]
  cases hs : (delivered st b).lookup id with
  | none =>
    rw [hs, Option.map_none, Option.map_eq_none_iff] at hcoordinates
    rw [hcoordinates]
    simp
  | some s =>
    rw [hs] at hcoordinates
    obtain ⟨m, hm, -⟩ := Option.map_eq_some_iff.mp hcoordinates
    rw [hm]
    split
    · rename_i hin
      obtain ⟨o, ho, rfl⟩ := (resolved_iff hinv hsep hs).mp hin
      exact ⟨nofun, fun hout => absurd rfl (hout.2 o ho)⟩
    · rename_i hout
      refine ⟨fun _ => ⟨rfl, fun o ho heq => ?_⟩, fun _ => rfl⟩
      exact hout ((resolved_iff hinv hsep hs).mpr ⟨o, ho, Option.some.inj heq⟩)

end Step

/-! ## Runs -/

/-- The mailboxes that batches lead to. In between, whatever leaves the ids, the folders and the UIDs
alone may run (the drive end moves messages between threads). -/
inductive Reached (meets : ImapMailbox → ImapBatch → Prop) : ImapMailbox → Prop where
  | empty (imapFolders : String → Finset FolderId) : Reached meets ⟨Tables.empty imapFolders, ∅⟩
  | batch {st st' : ImapMailbox} {b : ImapBatch} (hst : Reached meets st) (hb : meets st b)
      (h : b.persist st = .ok st') : Reached meets st'
  | other {st : ImapMailbox} {db : Tables} (hst : Reached meets st)
      (h : ∀ id, (db.messages.lookup id).map coordinates = (st.db.messages.lookup id).map coordinates) :
      Reached meets ⟨db, st.sources⟩

theorem Reached.attributed {st : ImapMailbox} (h : Reached Separate st) : Attributed st.db st.sources := by
  induction h with
  | empty => exact ⟨fun _ => rfl, nofun⟩
  | batch _ hb hpersist ih => exact persist_attributed ih hb hpersist
  | other _ hsame ih => exact ⟨fun id => (hsame id).trans (ih.coordinates id), ih.localId⟩

def inboxObject (uidvalidity : UInt32) : ImapObject where
  coordinates := ⟨"INBOX", uidvalidity, 5⟩
  sized := by
    have h : "INBOX".utf8ByteSize < 2 ^ 64 := by decide
    exact h

def arrival (uidvalidity : UInt32) : ImapBatch := ⟨.personal, [(inboxObject uidvalidity, topic)], []⟩

def expunge (uidvalidity : UInt32) : ImapBatch := ⟨.personal, [], [inboxObject uidvalidity]⟩

def emptyMailbox : ImapMailbox := ⟨inbox, ∅⟩

theorem separate_of_single {st : ImapMailbox} {b : ImapBatch} {s₀ : ImapSource} (h : ∀ s, Met st b s → s = s₀)
    (hfirst : b.rows = [] ∨ b.deleted = []) : Separate st b := by
  refine ⟨fun s t hs ht _ _ => (h s hs).trans (h t ht).symm,
    fun s t hs ht _ => (h s hs).trans (h t ht).symm, fun _ p hp hdeleted => ?_⟩
  rcases hfirst with hrows | hnone
  · rw [ImapBatch.kept, hrows] at hp
    cases hp
  · rw [hnone] at hdeleted
    cases hdeleted

theorem arrival_separate : Separate emptyMailbox (arrival 2) := by
  refine @separate_of_single _ _ ⟨.personal, inboxObject 2⟩ ?_ (.inr rfl)
  intro s hs
  cases hs with
  | stored h => cases h
  | row hp =>
    obtain ⟨hrow, -⟩ := mem_filter.mp hp
    rw [mem_singleton.mp hrow]
    rfl
  | deleted ho => cases ho

end Ratatoskr.Mail
