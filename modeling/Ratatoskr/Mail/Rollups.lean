import Ratatoskr.Lib.Run
import Ratatoskr.Mail.Views

/-!
# Mail.Rollups

What it is for a thread to be what its messages give, and what the stages of `persist_in_namespace` do
for it: the message rows go in, the rows write memberships, the threads they name get their aggregates,
the deletions clean up. A stage leaves the threads it does not name alone.
-/

namespace Ratatoskr.Mail

open List
open Actions (NamespaceAttribution)
open Consumer (BifrostProviderKind)
open Lib (foldlM_cons_eq_ok foldlM_isOk_iff)

variable {db db' : Tables} {thread other : ThreadId} {row : Thread} {rows : List ConsumerMessageRow}
  {provider : BifrostProviderKind} {ns : NamespaceAttribution} {threads : List ThreadId}

/-- The folders and the labels of the thread are those of its messages. -/
structure MembershipOk (db : Tables) (thread : ThreadId) (row : Thread) : Prop where
  folders : row.folders = derivedFolders db.imapFolders (views db thread)
  labels : row.labels = derivedLabels (views db thread)

def AggregateOk (db : Tables) (thread : ThreadId) (row : Thread) : Prop :=
  ∃ a, computeThreadAggregate (views db thread) = .ok a ∧ row.aggregate = some a

structure Derived (db : Tables) (thread : ThreadId) (row : Thread) : Prop extends
    MembershipOk db thread row where
  aggregate : AggregateOk db thread row

def Consistent (db : Tables) : Prop :=
  ∀ thread row, db.threads.lookup thread = some row →
    Derived db thread row ∧ messagesOf db thread ≠ []

theorem MembershipOk.congr (h : MembershipOk db thread row)
    (hv : views db' thread = views db thread) (hf : db'.imapFolders = db.imapFolders) :
    MembershipOk db' thread row where
  folders := by
    rw [hv, hf]
    exact h.folders
  labels := by
    rw [hv]
    exact h.labels

theorem Derived.congr (h : Derived db thread row) (hv : views db' thread = views db thread)
    (hf : db'.imapFolders = db.imapFolders) : Derived db' thread row where
  toMembershipOk := h.toMembershipOk.congr hv hf
  aggregate := by
    rw [AggregateOk, hv]
    exact h.aggregate

theorem AggregateOk.messages (h : AggregateOk db thread row) : messagesOf db thread ≠ [] := by
  obtain ⟨a, ha, -⟩ := h
  obtain ⟨e, he, ht, -⟩ := (computeThreadAggregate_views_ok_iff db thread).mp ⟨a, ha⟩
  intro hnil
  exact (messagesOf_eq_nil_iff db thread).mp hnil e he ht

def ConsumerMessageRow.threadId (row : ConsumerMessageRow) : ThreadId := row.message.threadId

theorem insertPlaceholder_rest (db : Tables) (thread : ThreadId) :
    (insertPlaceholder db thread).messages = db.messages ∧
      (insertPlaceholder db thread).attachments = db.attachments ∧
      (insertPlaceholder db thread).imapFolders = db.imapFolders := by
  rw [insertPlaceholder]
  split
  · exact ⟨rfl, rfl, rfl⟩
  · exact ⟨rfl, rfl, rfl⟩

theorem insertPlaceholder_lookup_ne (db : Tables) (h : other ≠ thread) :
    (insertPlaceholder db thread).threads.lookup other = db.threads.lookup other := by
  rw [insertPlaceholder]
  split
  · rfl
  · rw [Lib.Table.lookup_insert_if, if_neg h]

theorem insertPlaceholder_lookup_self (db : Tables) (thread : ThreadId) :
    ((insertPlaceholder db thread).threads.lookup thread).isSome = true := by
  rw [insertPlaceholder]
  cases h : db.threads.lookup thread with
  | some row => simp [h]
  | none => simp

theorem insertPlaceholder_isSome (h : (db.threads.lookup other).isSome = true) :
    ((insertPlaceholder db thread).threads.lookup other).isSome = true := by
  by_cases ho : other = thread
  · subst ho
    exact insertPlaceholder_lookup_self db other
  · rw [insertPlaceholder_lookup_ne db ho]
    exact h

theorem insertPlaceholders_rest (db : Tables) (rows : List ConsumerMessageRow) :
    (insertPlaceholders db rows).messages = db.messages ∧
      (insertPlaceholders db rows).attachments = db.attachments ∧
      (insertPlaceholders db rows).imapFolders = db.imapFolders := by
  induction rows generalizing db with
  | nil => exact ⟨rfl, rfl, rfl⟩
  | cons row rows ih =>
    obtain ⟨hm, ha, hf⟩ := insertPlaceholder_rest db row.message.threadId
    obtain ⟨hm', ha', hf'⟩ := ih (insertPlaceholder db row.message.threadId)
    exact ⟨hm'.trans hm, ha'.trans ha, hf'.trans hf⟩

theorem insertPlaceholders_lookup_of_not_named (db : Tables)
    (h : thread ∉ rows.map ConsumerMessageRow.threadId) :
    (insertPlaceholders db rows).threads.lookup thread = db.threads.lookup thread := by
  induction rows generalizing db with
  | nil => rfl
  | cons row rows ih =>
    rw [map_cons, mem_cons, not_or] at h
    exact (ih _ h.2).trans (insertPlaceholder_lookup_ne db h.1)

theorem insertPlaceholders_isSome (db : Tables)
    (h : (db.threads.lookup thread).isSome = true ∨ thread ∈ rows.map ConsumerMessageRow.threadId) :
    ((insertPlaceholders db rows).threads.lookup thread).isSome = true := by
  induction rows generalizing db with
  | nil =>
    rcases h with h | h
    · exact h
    · cases h
  | cons row rows ih =>
    apply ih
    rcases h with h | h
    · exact .inl (insertPlaceholder_isSome h)
    · rcases mem_cons.mp h with rfl | h
      · exact .inl (insertPlaceholder_lookup_self db row.threadId)
      · exact .inr h

theorem insertMessages_rest (db : Tables) (rows : List ConsumerMessageRow) :
    (insertMessages db rows).threads = db.threads ∧
      (insertMessages db rows).imapFolders = db.imapFolders := by
  induction rows generalizing db with
  | nil => exact ⟨rfl, rfl⟩
  | cons row rows ih => exact ih (insertMessage db row.id row.message)

theorem threadOf_insertMessages (db : Tables) (rows : List ConsumerMessageRow) (id : MessageId) :
    threadOf (insertMessages db rows) id = threadOf db id ∨
      ∃ row ∈ rows, row.id = id ∧ threadOf (insertMessages db rows) id = some row.threadId := by
  induction rows generalizing db with
  | nil => exact .inl rfl
  | cons row rows ih =>
    rcases ih (insertMessage db row.id row.message) with h | ⟨r, hr, hid, h⟩
    · have hcons : threadOf (insertMessages db (row :: rows)) id =
          threadOf (insertMessage db row.id row.message) id := h
      rw [threadOf_insertMessage] at hcons
      by_cases hid : id = row.id
      · rw [if_pos hid] at hcons
        exact .inr ⟨row, mem_cons_self, hid.symm, hcons⟩
      · rw [if_neg hid] at hcons
        exact .inl hcons
    · exact .inr ⟨r, mem_cons_of_mem _ hr, hid, h⟩

theorem views_insertMessages (hnamed : thread ∉ rows.map ConsumerMessageRow.threadId)
    (hleft : ∀ row ∈ rows, threadOf db row.id ≠ some thread) :
    views (insertMessages db rows) thread = views db thread := by
  induction rows generalizing db with
  | nil => rfl
  | cons row rows ih =>
    rw [map_cons, mem_cons, not_or] at hnamed
    have hc : row.message.threadId ≠ thread := fun h => hnamed.1 h.symm
    have hstep := views_insertMessage_of_ne hc (hleft row mem_cons_self)
    refine (ih hnamed.2 ?_).trans hstep
    intro r hr
    rw [threadOf_insertMessage]
    split
    · intro heq
      exact hc (Option.some.inj heq)
    · exact hleft r (mem_cons_of_mem _ hr)

/-! ## One row -/

/-- The thread of each message is that of its row or of a later one. -/
def LastWins (db : Tables) : List ConsumerMessageRow → Prop
  | [] => True
  | row :: rows =>
    (∀ thread, threadOf db row.id = some thread →
      thread = row.threadId ∨ thread ∈ rows.map ConsumerMessageRow.threadId) ∧ LastWins db rows

theorem lastWins_insertMessages (db : Tables) (rows : List ConsumerMessageRow) :
    LastWins (insertMessages db rows) rows := by
  induction rows generalizing db with
  | nil => trivial
  | cons row rows ih =>
    refine ⟨?_, ih (insertMessage db row.id row.message)⟩
    intro thread hthread
    rcases threadOf_insertMessages (insertMessage db row.id row.message) rows row.id with h | ⟨r, hr, -, h⟩
    · have heq : some thread = threadOf (insertMessage db row.id row.message) row.id :=
        hthread.symm.trans h
      rw [threadOf_insertMessage, if_pos rfl] at heq
      exact .inl (Option.some.inj heq)
    · have heq : some thread = some r.threadId := hthread.symm.trans h
      rw [Option.some.inj heq]
      exact .inr (mem_map_of_mem hr)

theorem LastWins.congr (h : skeleton db' = skeleton db) (hw : LastWins db rows) : LastWins db' rows := by
  induction rows with
  | nil => trivial
  | cons row rows ih =>
    refine ⟨?_, ih hw.2⟩
    rw [threadOf_congr h]
    exact hw.1

/-- Only the message was touched, in what is not a column. -/
structure Touches (db : Tables) (id : MessageId) (db' : Tables) : Prop where
  skeleton : skeleton db' = skeleton db
  imapFolders : db'.imapFolders = db.imapFolders
  threads : db'.threads = db.threads
  views : ∀ thread, threadOf db id ≠ some thread → views db' thread = views db thread

theorem Touches.trans {db'' : Tables} {id : MessageId} (h : Touches db id db')
    (h' : Touches db' id db'') : Touches db id db'' where
  skeleton := h'.skeleton.trans h.skeleton
  imapFolders := h'.imapFolders.trans h.imapFolders
  threads := h'.threads.trans h.threads
  views := by
    intro thread hne
    have hne' : threadOf db' id ≠ some thread := by
      rw [threadOf_congr h.skeleton]
      exact hne
    exact (h'.views thread hne').trans (h.views thread hne)

theorem touches_modifyMessage (db : Tables) (id : MessageId) {f : Message → Message}
    (hf : ∀ m, (f m).columns = m.columns) : Touches db id (modifyMessage db id f) where
  skeleton := skeleton_modifyMessage hf
  imapFolders := rfl
  threads := rfl
  views := fun _ hne => views_modifyMessage_of_ne hf hne

theorem touches_insertAttachments (db : Tables) (id : MessageId) (rows : List AttachmentInsertRow) :
    Touches db id (insertAttachments db id rows) where
  skeleton := skeleton_of_messages (insertAttachments_rest db id rows).1
  imapFolders := (insertAttachments_rest db id rows).2.2
  threads := (insertAttachments_rest db id rows).2.1
  views := fun _ hne => views_insertAttachments_of_ne hne rows

theorem replaceMembership_eq (hp : provider ≠ .imap) (db : Tables) (row : ConsumerMessageRow) :
    ∃ db', Touches db row.id db' ∧ replaceMembership provider db row =
      recomputeThreadLabelsFromMessages (recomputeThreadFoldersFromMessages db' row.threadId)
        row.threadId := by
  have hfolders : Touches db row.id (replaceMessageFolderRows db row.id row.folders) :=
    touches_modifyMessage db row.id (fun _ => rfl)
  have hlabels : Touches db row.id
      (replaceMessageLabelRows (replaceMessageFolderRows db row.id row.folders) row.id row.labels) :=
    hfolders.trans (touches_modifyMessage _ row.id (fun _ => rfl))
  cases provider with
  | jmap => exact ⟨_, hfolders, rfl⟩
  | graph => exact ⟨_, hlabels, rfl⟩
  | gmail => exact ⟨_, hlabels, rfl⟩
  | imap => exact absurd rfl hp

theorem derivedFolders_insertAttachments (db : Tables) (id : MessageId) (rows : List AttachmentInsertRow)
    (thread : ThreadId) : derivedFolders (insertAttachments db id rows).imapFolders
        (views (insertAttachments db id rows) thread) = derivedFolders db.imapFolders (views db thread) := by
  obtain ⟨hm, -, hf⟩ := insertAttachments_rest db id rows
  rw [derivedFolders_views, derivedFolders_views, hf, messagesOf_of_messages hm]

theorem derivedFolders_setMessageKeywords (db : Tables) (id : MessageId) (labels : Finset LabelId)
    (thread : ThreadId) : derivedFolders (setMessageKeywords db id labels).imapFolders
        (views (setMessageKeywords db id labels) thread) =
      derivedFolders db.imapFolders (views db thread) := by
  have hf : ∀ m : Message, ({ m with keywords := labels } : Message).columns = m.columns := fun _ => rfl
  rw [derivedFolders_views, derivedFolders_views, setMessageKeywords, messagesOf_modifyMessage hf, map_map]
  congr 1
  apply map_congr_left
  intro r _
  simp only [Function.comp]
  split
  · rfl
  · rfl

structure Wrote (db : Tables) (row : ConsumerMessageRow) (db' : Tables) : Prop where
  skeleton : skeleton db' = skeleton db
  imapFolders : db'.imapFolders = db.imapFolders
  others : ∀ thread, thread ≠ row.threadId → db'.threads.lookup thread = db.threads.lookup thread
  named : ∀ r, db.threads.lookup row.threadId = some r →
    ∃ r', db'.threads.lookup row.threadId = some r'
  membership : ∀ r, db'.threads.lookup row.threadId = some r → MembershipOk db' row.threadId r
  views : ∀ thread, threadOf db row.id ≠ some thread → views db' thread = views db thread

theorem writeRow_wrote (hp : provider ≠ .imap) {row : ConsumerMessageRow}
    (h : writeRow provider db row = .ok db') : Wrote db row db' := by
  obtain ⟨db₀, h₀, heq⟩ := replaceMembership_eq hp db row
  rw [writeRow, heq] at h
  cases hk : keywordLabels row.keywords with
  | error e =>
    rw [hk] at h
    cases h
  | ok labels =>
    rw [hk] at h
    simp only [if_neg hp] at h
    cases h
    -- the four states between the first write to the message and the last recomputation
    let db₁ := recomputeThreadFoldersFromMessages db₀ row.threadId
    let db₂ := recomputeThreadLabelsFromMessages db₁ row.threadId
    let db₃ := insertAttachments db₂ row.id row.attachments
    let db₄ := setMessageKeywords db₃ row.id labels
    have h₃ : Touches db₂ row.id db₃ := touches_insertAttachments db₂ row.id row.attachments
    have h₄ : Touches db₂ row.id db₄ := h₃.trans (touches_modifyMessage db₃ row.id (fun _ => rfl))
    have hskeleton : skeleton db₄ = skeleton db := h₄.skeleton.trans h₀.skeleton
    have hlookup : db₄.threads.lookup row.threadId = ((db.threads.lookup row.threadId).map (fun r =>
        { r with folders := derivedFolders db₀.imapFolders (views db₀ row.threadId) })).map (fun r =>
        { r with labels := derivedLabels (views db₁ row.threadId) }) := by
      have h₁ : db₁.threads.lookup row.threadId = (db₀.threads.lookup row.threadId).map (fun r =>
          { r with folders := derivedFolders db₀.imapFolders (views db₀ row.threadId) }) :=
        lookup_modifyThread_self ..
      rw [h₄.threads, ← h₀.threads, ← h₁]
      exact lookup_modifyThread_self ..
    have hlast : (recomputeThreadLabelsFromMessages db₄ row.threadId).threads.lookup row.threadId =
        (db₄.threads.lookup row.threadId).map (fun r =>
          { r with labels := derivedLabels (views db₄ row.threadId) }) :=
      lookup_modifyThread_self ..
    exact {
      skeleton := hskeleton
      imapFolders := h₄.imapFolders.trans h₀.imapFolders
      others := by
        intro thread hne
        refine (lookup_modifyThread_ne db₄ hne _).trans ?_
        rw [h₄.threads]
        refine (lookup_modifyThread_ne db₁ hne _).trans ?_
        refine (lookup_modifyThread_ne db₀ hne _).trans ?_
        rw [h₀.threads]
      named := by
        intro r hr
        rw [hlookup, hr] at hlast
        exact ⟨_, hlast⟩
      membership := by
        intro r hfinal
        have hr := hlast.symm.trans hfinal
        rw [hlookup] at hr
        cases hr0 : db.threads.lookup row.threadId with
        | none =>
          rw [hr0] at hr
          cases hr
        | some r₀ =>
          rw [hr0] at hr
          cases hr
          have hfolders : derivedFolders db₄.imapFolders (views db₄ row.threadId) =
              derivedFolders db₀.imapFolders (views db₀ row.threadId) :=
            (derivedFolders_setMessageKeywords db₃ row.id labels row.threadId).trans
              (derivedFolders_insertAttachments db₂ row.id row.attachments row.threadId)
          exact ⟨hfolders.symm, rfl⟩
      views := by
        intro thread hne
        have hne₂ : threadOf db₂ row.id ≠ some thread := by
          have hsame : skeleton db₂ = skeleton db := h₀.skeleton
          rw [threadOf_congr hsame]
          exact hne
        exact (h₄.views thread hne₂).trans (h₀.views thread hne) }

/-! ## All rows -/

theorem writeRow_isOk (provider : BifrostProviderKind) (db : Tables) (row : ConsumerMessageRow) :
    (∃ db', writeRow provider db row = .ok db') ↔ ∃ labels, keywordLabels row.keywords = .ok labels := by
  rw [writeRow]
  cases keywordLabels row.keywords with
  | error e => simp
  | ok labels => simp

theorem writeRows_isOk (provider : BifrostProviderKind) (db : Tables) (rows : List ConsumerMessageRow) :
    (∃ db', rows.foldlM (writeRow provider) db = .ok db') ↔
      ∀ row ∈ rows, ∃ labels, keywordLabels row.keywords = .ok labels :=
  foldlM_isOk_iff (writeRow_isOk provider) (fun _ _ _ _ _ => Iff.rfl) rows db

structure WroteAll (db : Tables) (rows : List ConsumerMessageRow) (db' : Tables) : Prop where
  skeleton : skeleton db' = skeleton db
  imapFolders : db'.imapFolders = db.imapFolders
  others : ∀ thread, thread ∉ rows.map ConsumerMessageRow.threadId →
    db'.threads.lookup thread = db.threads.lookup thread ∧ views db' thread = views db thread
  exists_row : ∀ thread r, db.threads.lookup thread = some r → ∃ r', db'.threads.lookup thread = some r'

theorem WroteAll.cons {db db₁ db' : Tables} {row : ConsumerMessageRow} {rows : List ConsumerMessageRow}
    (hw : LastWins db (row :: rows)) (hrow : Wrote db row db₁) (h : WroteAll db₁ rows db') :
    WroteAll db (row :: rows) db' where
  skeleton := h.skeleton.trans hrow.skeleton
  imapFolders := h.imapFolders.trans hrow.imapFolders
  others := by
    intro thread hmem
    rw [map_cons, mem_cons, not_or] at hmem
    have hne : threadOf db row.id ≠ some thread := by
      intro heq
      rcases hw.1 thread heq with h | h
      · exact hmem.1 h
      · exact hmem.2 h
    obtain ⟨hl, hv⟩ := h.others thread hmem.2
    exact ⟨hl.trans (hrow.others thread hmem.1), hv.trans (hrow.views thread hne)⟩
  exists_row := by
    intro thread r hr
    by_cases hname : thread = row.threadId
    · subst hname
      obtain ⟨r₁, hr₁⟩ := hrow.named r hr
      exact h.exists_row _ r₁ hr₁
    · rw [← hrow.others thread hname] at hr
      exact h.exists_row thread r hr

theorem writeRows_wrote (hp : provider ≠ .imap) (hw : LastWins db rows)
    (h : rows.foldlM (writeRow provider) db = .ok db') : WroteAll db rows db' := by
  induction rows generalizing db with
  | nil =>
    cases h
    exact ⟨rfl, rfl, fun _ _ => ⟨rfl, rfl⟩, fun _ r hr => ⟨r, hr⟩⟩
  | cons row rows ih =>
    obtain ⟨db₁, hrow, hrest⟩ := foldlM_cons_eq_ok.mp h
    have hwrote := writeRow_wrote hp hrow
    exact .cons hw hwrote (ih (hw.2.congr hwrote.skeleton) hrest)

/-- By induction over the rows: a thread is right once a row that names it is written, and the rows that
follow and do not name it leave it alone. -/
theorem writeRows_membership (hp : provider ≠ .imap) (hw : LastWins db rows)
    (h : rows.foldlM (writeRow provider) db = .ok db') {r : Thread} (hr : db'.threads.lookup thread = some r)
    (hcover : thread ∈ rows.map ConsumerMessageRow.threadId ∨
      ∀ r₀, db.threads.lookup thread = some r₀ → MembershipOk db thread r₀) : MembershipOk db' thread r := by
  induction rows generalizing db with
  | nil =>
    cases h
    rcases hcover with hmem | hok
    · cases hmem
    · exact hok r hr
  | cons row rows ih =>
    obtain ⟨db₁, hrow, h⟩ := foldlM_cons_eq_ok.mp h
    have hwrote := writeRow_wrote hp hrow
    apply ih (hw.2.congr hwrote.skeleton) h
    by_cases hrest : thread ∈ rows.map ConsumerMessageRow.threadId
    · exact .inl hrest
    refine .inr fun r₁ hr₁ => ?_
    by_cases hname : thread = row.threadId
    · subst hname
      exact hwrote.membership r₁ hr₁
    rcases hcover with hmem | hok
    · rcases mem_cons.mp hmem with heq | hmem
      · exact absurd heq hname
      · exact absurd hmem hrest
    · have hne : threadOf db row.id ≠ some thread := by
        intro heq
        rcases hw.1 thread heq with h | h
        · exact hname h
        · exact hrest h
      rw [hwrote.others thread hname] at hr₁
      exact (hok r₁ hr₁).congr (hwrote.views thread hne) hwrote.imapFolders

structure SameMail (db db' : Tables) : Prop where
  messages : db'.messages = db.messages
  attachments : db'.attachments = db.attachments
  imapFolders : db'.imapFolders = db.imapFolders

theorem SameMail.refl (db : Tables) : SameMail db db := ⟨rfl, rfl, rfl⟩

theorem SameMail.trans {db'' : Tables} (h : SameMail db db') (h' : SameMail db' db'') : SameMail db db'' :=
  ⟨h'.messages.trans h.messages, h'.attachments.trans h.attachments, h'.imapFolders.trans h.imapFolders⟩

theorem SameMail.views (h : SameMail db db') (thread : ThreadId) : views db' thread = views db thread := by
  apply views_congr (messagesOf_of_messages h.messages thread)
  intro r _
  rw [attached, attached, h.attachments]

theorem SameMail.skeleton (h : SameMail db db') : skeleton db' = skeleton db :=
  skeleton_of_messages h.messages

theorem SameMail.modifyThread (db : Tables) (thread : ThreadId) (f : Thread → Thread) :
    SameMail db (modifyThread db thread f) := ⟨rfl, rfl, rfl⟩

theorem upsertThreadAggregate_sameMail (db : Tables) (thread : ThreadId) (a : ThreadAggregate)
    (important : Option Bool) (kind id : Option String) :
    SameMail db (upsertThreadAggregate db thread a important kind id) := by
  rw [upsertThreadAggregate]
  split
  · exact .modifyThread ..
  · exact ⟨rfl, rfl, rfl⟩

theorem upsertThreadAggregate_others (db : Tables) (h : other ≠ thread) (a : ThreadAggregate)
    (important : Option Bool) (kind id : Option String) :
    (upsertThreadAggregate db thread a important kind id).threads.lookup other = db.threads.lookup other := by
  rw [upsertThreadAggregate]
  split
  · exact lookup_modifyThread_ne db h _
  · rw [Lib.Table.lookup_insert_if, if_neg h]

theorem upsertThreadAggregate_self (db : Tables) (thread : ThreadId) (a : ThreadAggregate)
    (important : Option Bool) (kind id : Option String) :
    ∃ r, (upsertThreadAggregate db thread a important kind id).threads.lookup thread = some r ∧
      r.aggregate = some a ∧
      ∀ r₀, db.threads.lookup thread = some r₀ → r.folders = r₀.folders ∧ r.labels = r₀.labels := by
  rw [upsertThreadAggregate]
  cases h : db.threads.lookup thread with
  | some r₀ =>
    rw [lookup_modifyThread_self, h]
    refine ⟨_, rfl, rfl, ?_⟩
    intro r hr
    cases hr
    exact ⟨rfl, rfl⟩
  | none =>
    refine ⟨_, AList.lookup_insert _, rfl, ?_⟩
    intro r hr
    cases hr

structure Updated (db : Tables) (threads : List ThreadId) (db' : Tables) : Prop where
  same : SameMail db db'
  others : ∀ thread, thread ∉ threads → db'.threads.lookup thread = db.threads.lookup thread
  updated : ∀ thread ∈ threads, ∀ r₀, db.threads.lookup thread = some r₀ →
    ∃ r, db'.threads.lookup thread = some r ∧ AggregateOk db thread r ∧
      r.folders = r₀.folders ∧ r.labels = r₀.labels

theorem updateThread_isOk (ns : NamespaceAttribution) (rows : List ConsumerMessageRow) (db : Tables)
    (thread : ThreadId) :
    (∃ db', updateThread ns rows db thread = .ok db') ↔ HasPlain (skeleton db) thread := by
  rw [← computeThreadAggregate_views_ok_iff, updateThread]
  cases computeThreadAggregate (views db thread) with
  | error e => simp
  | ok a => simp

theorem updateThread_updated (h : updateThread ns rows db thread = .ok db') : Updated db [thread] db' := by
  rw [updateThread] at h
  cases ha : computeThreadAggregate (views db thread) with
  | error e =>
    rw [ha] at h
    cases h
  | ok a =>
    rw [ha] at h
    cases h
    refine ⟨upsertThreadAggregate_sameMail .., ?_, ?_⟩
    · intro other hne
      exact upsertThreadAggregate_others db (fun h => hne (mem_singleton.mpr h)) ..
    · intro other hmem r₀ hr₀
      rw [mem_singleton.mp hmem] at hr₀ ⊢
      obtain ⟨r, hr, hagg, hkeep⟩ := upsertThreadAggregate_self db thread a (some
        (existingThreadIsImportant db thread ||
          rows.any (fun row => row.message.threadId = thread && row.isImportant)))
        (namespaceKind ns) (namespaceId ns)
      exact ⟨r, hr, ⟨a, ha, hagg⟩, hkeep r₀ hr₀⟩

theorem Updated.cons {db db₁ db' : Tables} {thread : ThreadId} {threads : List ThreadId}
    (hone : Updated db [thread] db₁) (h : Updated db₁ threads db') : Updated db (thread :: threads) db' where
  same := hone.same.trans h.same
  others := by
    intro other hmem
    rw [mem_cons, not_or] at hmem
    rw [h.others other hmem.2, hone.others other (by simpa using hmem.1)]
  updated := by
    intro other hmem r₀ hr₀
    by_cases hone' : other = thread
    · subst hone'
      obtain ⟨r₁, hr₁, hagg₁, hf₁, hl₁⟩ := hone.updated other mem_cons_self r₀ hr₀
      by_cases hrest : other ∈ threads
      · obtain ⟨r, hr, hagg, hf, hl⟩ := h.updated other hrest r₁ hr₁
        rw [AggregateOk, hone.same.views] at hagg
        exact ⟨r, hr, hagg, hf.trans hf₁, hl.trans hl₁⟩
      · exact ⟨r₁, (h.others other hrest).trans hr₁, hagg₁, hf₁, hl₁⟩
    · have hrest : other ∈ threads := (mem_cons.mp hmem).resolve_left hone'
      have hr₁ : db₁.threads.lookup other = some r₀ := by
        rw [hone.others other (by simpa using hone')]
        exact hr₀
      obtain ⟨r, hr, hagg, hf, hl⟩ := h.updated other hrest r₀ hr₁
      rw [AggregateOk, hone.same.views] at hagg
      exact ⟨r, hr, hagg, hf, hl⟩

theorem updateThreads_updated (h : threads.foldlM (updateThread ns rows) db = .ok db') :
    Updated db threads db' := by
  induction threads generalizing db with
  | nil =>
    cases h
    exact ⟨.refl _, fun _ _ => rfl, fun _ hmem => by cases hmem⟩
  | cons thread threads ih =>
    obtain ⟨db₁, hone, hrest⟩ := foldlM_cons_eq_ok.mp h
    exact (updateThread_updated hone).cons (ih hrest)

theorem updateThreads_isOk (ns : NamespaceAttribution) (rows : List ConsumerMessageRow) (db : Tables)
    (threads : List ThreadId) : (∃ db', threads.foldlM (updateThread ns rows) db = .ok db') ↔
      ∀ thread ∈ threads, HasPlain (skeleton db) thread := by
  apply foldlM_isOk_iff (updateThread_isOk ns rows)
  intro db thread db' other h
  rw [(updateThread_updated h).same.skeleton]

/-! ## Deletions -/

theorem deleteMessages_rest (db : Tables) (ids : List MessageId) :
    (ids.foldl deleteMessage db).threads = db.threads ∧
      (ids.foldl deleteMessage db).imapFolders = db.imapFolders := by
  induction ids generalizing db with
  | nil => exact ⟨rfl, rfl⟩
  | cons id ids ih => exact ih (deleteMessage db id)

theorem skeleton_deleteMessages (db : Tables) (ids : List MessageId) :
    skeleton (ids.foldl deleteMessage db) = (skeleton db).filter (fun e => decide (e.1 ∉ ids)) := by
  induction ids generalizing db with
  | nil => simp
  | cons id ids ih =>
    rw [foldl_cons, ih, skeleton_deleteMessage, filter_filter]
    apply filter_congr
    intro e _
    by_cases he : e.1 = id
    · simp [he]
    · simp [he]

theorem views_deleteMessages {ids : List MessageId} (h : ∀ id ∈ ids, threadOf db id ≠ some thread) :
    views (ids.foldl deleteMessage db) thread = views db thread := by
  induction ids generalizing db with
  | nil => rfl
  | cons id ids ih =>
    have hid := h id mem_cons_self
    refine (ih ?_).trans (views_deleteMessage_of_ne hid)
    intro other hother
    by_cases heq : other = id
    · subst heq
      rw [threadOf, deleteMessage, AList.lookup_erase]
      intro hnone
      cases hnone
    · rw [threadOf_deleteMessage_of_ne heq]
      exact h other (mem_cons_of_mem _ hother)

structure Cleaned (db : Tables) (threads : List ThreadId) (db' : Tables) : Prop where
  same : SameMail db db'
  others : ∀ thread, thread ∉ threads → db'.threads.lookup thread = db.threads.lookup thread
  cleaned : ∀ thread ∈ threads, ∀ r, db'.threads.lookup thread = some r → Derived db thread r

theorem cleanupThread_isOk (db : Tables) (thread : ThreadId) : (∃ db', cleanupThread db thread = .ok db') ↔
      (∀ e ∈ skeleton db, e.2.threadId ≠ thread) ∨ HasPlain (skeleton db) thread := by
  rw [← messagesOf_eq_nil_iff, ← computeThreadAggregate_views_ok_iff, cleanupThread]
  split
  · rename_i hnil
    exact ⟨fun _ => .inl hnil, fun _ => ⟨_, rfl⟩⟩
  · rename_i hsome
    cases computeThreadAggregate (views db thread) with
    | error e => simp [hsome]
    | ok a => simp

theorem cleanupThread_cleaned (h : cleanupThread db thread = .ok db') : Cleaned db [thread] db' := by
  rw [cleanupThread] at h
  split at h
  · cases h
    refine ⟨⟨rfl, rfl, rfl⟩, ?_, ?_⟩
    · intro other hne
      rw [deleteThread, Lib.Table.lookup_erase_if, if_neg (fun h => hne (mem_singleton.mpr h))]
    · intro other hmem r hr
      rw [mem_singleton.mp hmem, deleteThread, AList.lookup_erase] at hr
      cases hr
  · cases ha : computeThreadAggregate (views db thread) with
    | error e =>
      rw [ha] at h
      cases h
    | ok a =>
      rw [ha] at h
      cases h
      -- the aggregate, the folders and the labels, one write each
      let db₁ := upsertThreadAggregate db thread a none none none
      let db₂ := recomputeThreadFoldersFromMessages db₁ thread
      have h₁ : SameMail db db₁ := upsertThreadAggregate_sameMail ..
      refine ⟨h₁.trans ⟨rfl, rfl, rfl⟩, ?_, ?_⟩
      · intro other hmem
        have hne : other ≠ thread := fun h => hmem (mem_singleton.mpr h)
        refine (lookup_modifyThread_ne db₂ hne _).trans ?_
        refine (lookup_modifyThread_ne db₁ hne _).trans ?_
        exact upsertThreadAggregate_others db hne ..
      · intro other hmem r hr
        rw [mem_singleton.mp hmem] at hr ⊢
        obtain ⟨r₁, hr₁, hagg, -⟩ := upsertThreadAggregate_self db thread a none none none
        have hr₂ : db₂.threads.lookup thread =
            some { r₁ with folders := derivedFolders db₁.imapFolders (views db₁ thread) } := by
          refine (lookup_modifyThread_self db₁ thread _).trans ?_
          rw [show db₁.threads.lookup thread = some r₁ from hr₁]
          rfl
        have hr₃ := (lookup_modifyThread_self db₂ thread _).symm.trans hr
        rw [hr₂] at hr₃
        cases hr₃
        have hv : views db₁ thread = views db thread := h₁.views thread
        exact {
          folders := by
            rw [← hv, ← h₁.imapFolders]
          labels := by
            rw [← hv]
            rfl
          aggregate := ⟨a, ha, hagg⟩ }

theorem Cleaned.cons {db db₁ db' : Tables} {thread : ThreadId} {threads : List ThreadId}
    (hone : Cleaned db [thread] db₁) (h : Cleaned db₁ threads db') : Cleaned db (thread :: threads) db' where
  same := hone.same.trans h.same
  others := by
    intro other hmem
    rw [mem_cons, not_or] at hmem
    rw [h.others other hmem.2, hone.others other (by simpa using hmem.1)]
  cleaned := by
    intro other hmem r hr
    by_cases hrest : other ∈ threads
    · exact (h.cleaned other hrest r hr).congr (hone.same.views other).symm hone.same.imapFolders.symm
    · rw [h.others other hrest] at hr
      have heq : other = thread := (mem_cons.mp hmem).resolve_right hrest
      exact hone.cleaned other (mem_singleton.mpr heq) r hr

theorem cleanupThreads_cleaned (h : threads.foldlM cleanupThread db = .ok db') : Cleaned db threads db' := by
  induction threads generalizing db with
  | nil =>
    cases h
    exact ⟨.refl _, fun _ _ => rfl, fun _ hmem => by cases hmem⟩
  | cons thread threads ih =>
    obtain ⟨db₁, hone, hrest⟩ := foldlM_cons_eq_ok.mp h
    exact (cleanupThread_cleaned hone).cons (ih hrest)

theorem cleanupThreads_isOk (db : Tables) (threads : List ThreadId) :
    (∃ db', threads.foldlM cleanupThread db = .ok db') ↔ ∀ thread ∈ threads,
        (∀ e ∈ skeleton db, e.2.threadId ≠ thread) ∨ HasPlain (skeleton db) thread := by
  apply foldlM_isOk_iff cleanupThread_isOk
  intro db thread db' other h
  rw [(cleanupThread_cleaned h).same.skeleton]

end Ratatoskr.Mail
