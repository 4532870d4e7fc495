import Ratatoskr.Mail.Rollups

/-!
# Mail.Batch

Whether a batch leaves every thread with what its messages give. The writer recomputes the threads that
the rows name and those that lose a message to a deletion. It does not look at the thread a row's message
was in before, and it fails where a thread it recomputes has only reactions.
-/

namespace Ratatoskr.Mail

open List
open Actions (NamespaceAttribution)
open Consumer (BifrostProviderKind)

section Batch

variable (db : Tables) (provider : BifrostProviderKind) (ns : NamespaceAttribution)
  (rows : List ConsumerMessageRow) (deleted : List DeletedId)

def incoming : Tables := insertRows db (writtenRows db provider ns rows)

def named : List ThreadId := (writtenRows db provider ns rows).map ConsumerMessageRow.threadId

def emptied : List ThreadId :=
  affectedThreads (incoming db provider ns rows) (resolveDeletedIds db provider deleted)

def remaining : List (MessageId × MessageColumns) :=
  (skeleton (incoming db provider ns rows)).filter
    (fun e => decide (e.1 ∉ resolveDeletedIds db provider deleted))

structure Recomputed : Prop where
  /-- Every keyword can be a label. -/
  keywords : ∀ row ∈ writtenRows db provider ns rows, ∃ labels, keywordLabels row.keywords = .ok labels
  /-- Every thread that a row names has a message that is not a reaction. -/
  plain : ∀ thread ∈ named db provider ns rows, HasPlain (skeleton (incoming db provider ns rows)) thread
  /-- And so has every thread that a deletion leaves a message. -/
  remains : ∀ thread ∈ emptied db provider ns rows deleted,
    (∀ e ∈ remaining db provider ns rows deleted, e.2.threadId ≠ thread) ∨
      HasPlain (remaining db provider ns rows deleted) thread
  /-- A thread that loses a message to another is named by a row or by a deletion as well, or it gives
  the same without the message. -/
  left : ∀ thread row, db.threads.lookup thread = some row →
    (∃ r ∈ writtenRows db provider ns rows, threadOf db r.id = some thread) →
    thread ∉ named db provider ns rows → thread ∉ emptied db provider ns rows deleted →
    Derived (incoming db provider ns rows) thread row

end Batch

section Stages

variable {db : Tables} {provider : BifrostProviderKind} {ns : NamespaceAttribution}
  {rows : List ConsumerMessageRow} {deleted : List DeletedId}
variable {db' db₂ db₃ : Tables} {thread : ThreadId}

def updateThreads (provider : BifrostProviderKind) (ns : NamespaceAttribution)
    (written : List ConsumerMessageRow) (db : Tables) : Except String Tables :=
  if provider = .imap then .ok db else (threadIds written).foldlM (updateThread ns written) db

theorem persistInNamespace_stages : persistInNamespace db provider ns rows deleted = .ok db' ↔ ∃ db₂ db₃,
      (writtenRows db provider ns rows).foldlM (writeRow provider) (incoming db provider ns rows) = .ok db₂ ∧
      updateThreads provider ns (writtenRows db provider ns rows) db₂ = .ok db₃ ∧
      deleteMessagesAndCleanupThreads db₃ (resolveDeletedIds db provider deleted) = .ok db' := by
  by_cases hempty : rows = [] ∧ deleted = []
  · obtain ⟨rfl, rfl⟩ := hempty
    have hwritten : writtenRows db provider ns [] = [] := by simp [writtenRows]
    have hids : resolveDeletedIds db provider [] = [] := by simp [resolveDeletedIds]
    have hthreads : ∀ db₂, updateThreads provider ns [] db₂ = .ok db₂ := by
      intro db₂
      rw [updateThreads, threadIds, map_nil, dedup_nil, mergeSort_nil]
      split
      · rfl
      · rfl
    have hpersist : persistInNamespace db provider ns [] [] = .ok db := rfl
    rw [incoming, hwritten, hids]
    constructor
    · intro h
      cases h
      exact ⟨db, db, rfl, hthreads db, rfl⟩
    · rintro ⟨db₂, db₃, h₂, h₃, h₄⟩
      cases h₂
      rw [hthreads] at h₃
      cases h₃
      exact h₄
  · simp only [persistInNamespace, if_neg hempty]
    rw [show insertRows db (writtenRows db provider ns rows) = incoming db provider ns rows from rfl]
    cases h₂ : (writtenRows db provider ns rows).foldlM (writeRow provider)
        (incoming db provider ns rows) with
    | error e => simp [bind, Except.bind]
    | ok db₂ =>
      simp only [bind, Except.bind, Except.ok.injEq, existsAndEq]
      by_cases hp : provider = .imap
      · simp only [updateThreads, if_pos hp, Except.ok.injEq, existsAndEq, true_and]
        cases deleteMessagesAndCleanupThreads db₂ (resolveDeletedIds db provider deleted) with
        | error e => simp
        | ok db₄ => simp
      · simp only [updateThreads, if_neg hp]
        cases h₃ : (threadIds (writtenRows db provider ns rows)).foldlM
            (updateThread ns (writtenRows db provider ns rows)) db₂ with
        | error e => simp
        | ok db₃ =>
          simp only [Except.ok.injEq, existsAndEq, true_and]
          cases deleteMessagesAndCleanupThreads db₃ (resolveDeletedIds db provider deleted) with
          | error e => simp
          | ok db₄ => simp

theorem persistInNamespace_eq_ok (hp : provider ≠ .imap) :
    persistInNamespace db provider ns rows deleted = .ok db' ↔ ∃ db₂ db₃,
      (writtenRows db provider ns rows).foldlM (writeRow provider) (incoming db provider ns rows) = .ok db₂ ∧
      (threadIds (writtenRows db provider ns rows)).foldlM
        (updateThread ns (writtenRows db provider ns rows)) db₂ = .ok db₃ ∧
      deleteMessagesAndCleanupThreads db₃ (resolveDeletedIds db provider deleted) = .ok db' := by
  rw [persistInNamespace_stages]
  simp [updateThreads, if_neg hp]

theorem incoming_imapFolders : (incoming db provider ns rows).imapFolders = db.imapFolders :=
  (insertMessages_rest _ _).2.trans (insertPlaceholders_rest db _).2.2

theorem incoming_lookup_of_not_named (h : thread ∉ named db provider ns rows) :
    (incoming db provider ns rows).threads.lookup thread = db.threads.lookup thread := by
  rw [incoming, insertRows, (insertMessages_rest _ _).1]
  exact insertPlaceholders_lookup_of_not_named db h

theorem incoming_lookup_of_named (h : thread ∈ named db provider ns rows) :
    ∃ r, (incoming db provider ns rows).threads.lookup thread = some r := by
  rw [incoming, insertRows, (insertMessages_rest _ _).1]
  exact Option.isSome_iff_exists.mp (insertPlaceholders_isSome db (.inr h))

theorem incoming_views (hnamed : thread ∉ named db provider ns rows)
    (hleft : ∀ r ∈ writtenRows db provider ns rows, threadOf db r.id ≠ some thread) :
    views (incoming db provider ns rows) thread = views db thread := by
  obtain ⟨hm, ha, hf⟩ := insertPlaceholders_rest db (writtenRows db provider ns rows)
  have hsame : SameMail db (insertPlaceholders db (writtenRows db provider ns rows)) := ⟨hm, ha, hf⟩
  refine (views_insertMessages hnamed ?_).trans (hsame.views thread)
  intro r hr
  rw [threadOf_congr hsame.skeleton]
  exact hleft r hr

theorem mem_threadIds (written : List ConsumerMessageRow) :
    thread ∈ threadIds written ↔ thread ∈ written.map ConsumerMessageRow.threadId := by
  rw [threadIds, mem_mergeSort, mem_dedup]
  rfl

/-- What the stages of a batch do, from the tables with the rows in place. -/
structure Ran (db : Tables) (provider : BifrostProviderKind) (ns : NamespaceAttribution)
    (rows : List ConsumerMessageRow) (deleted : List DeletedId) (db₂ db₃ db' : Tables) : Prop where
  wrote : WroteAll (incoming db provider ns rows) (writtenRows db provider ns rows) db₂
  membership : ∀ thread ∈ named db provider ns rows, ∀ r, db₂.threads.lookup thread = some r →
    MembershipOk db₂ thread r
  updated : Updated db₂ (threadIds (writtenRows db provider ns rows)) db₃
  cleaned : Cleaned ((resolveDeletedIds db provider deleted).foldl deleteMessage db₃)
    (affectedThreads db₃ (resolveDeletedIds db provider deleted)) db'

theorem ran_of_ok (hp : provider ≠ .imap)
    (h₂ : (writtenRows db provider ns rows).foldlM (writeRow provider) (incoming db provider ns rows) =
      .ok db₂) (h₃ : (threadIds (writtenRows db provider ns rows)).foldlM
      (updateThread ns (writtenRows db provider ns rows)) db₂ = .ok db₃)
    (h₄ : deleteMessagesAndCleanupThreads db₃ (resolveDeletedIds db provider deleted) = .ok db') :
    Ran db provider ns rows deleted db₂ db₃ db' := by
  have hw : LastWins (incoming db provider ns rows) (writtenRows db provider ns rows) :=
    lastWins_insertMessages _ _
  exact {
    wrote := writeRows_wrote hp hw h₂
    membership := fun thread hmem r hr => writeRows_membership hp hw h₂ hr (.inl hmem)
    updated := updateThreads_updated h₃
    cleaned := cleanupThreads_cleaned h₄ }

theorem affectedThreads_eq (h : skeleton db₃ = skeleton (incoming db provider ns rows)) :
    affectedThreads db₃ (resolveDeletedIds db provider deleted) = emptied db provider ns rows deleted := by
  rw [emptied, affectedThreads]
  congr 2
  funext id
  exact threadOf_congr h id

theorem skeleton_remaining (h : skeleton db₃ = skeleton (incoming db provider ns rows)) :
    skeleton ((resolveDeletedIds db provider deleted).foldl deleteMessage db₃) =
      remaining db provider ns rows deleted := by
  rw [skeleton_deleteMessages, h]
  rfl

namespace Ran

variable {db₂ db₃ db' : Tables} (h : Ran db provider ns rows deleted db₂ db₃ db')
variable {thread : ThreadId}

include h

theorem skeleton₃ : skeleton db₃ = skeleton (incoming db provider ns rows) :=
  h.updated.same.skeleton.trans h.wrote.skeleton

theorem affected_eq : affectedThreads db₃ (resolveDeletedIds db provider deleted) =
    emptied db provider ns rows deleted := affectedThreads_eq h.skeleton₃

theorem imapFolders : db'.imapFolders = (incoming db provider ns rows).imapFolders := by
  rw [h.cleaned.same.imapFolders, (deleteMessages_rest db₃ _).2, h.updated.same.imapFolders,
    h.wrote.imapFolders]

theorem views_of_not_emptied (hne : thread ∉ emptied db provider ns rows deleted) :
    views db' thread = views db₂ thread := by
  rw [h.cleaned.same.views, ← h.updated.same.views]
  apply views_deleteMessages
  intro id hid heq
  apply hne
  rw [← h.affected_eq, affectedThreads, mem_dedup, mem_filterMap]
  exact ⟨id, hid, heq⟩

theorem lookup_of_not_emptied (hne : thread ∉ emptied db provider ns rows deleted) :
    db'.threads.lookup thread = db₃.threads.lookup thread := by
  rw [h.cleaned.others thread (by rw [h.affected_eq]; exact hne), (deleteMessages_rest db₃ _).1]

/-- A thread that is not recomputed keeps its row and sees the rows that went in. -/
theorem untouched (hnamed : thread ∉ named db provider ns rows)
    (hne : thread ∉ emptied db provider ns rows deleted) :
    db'.threads.lookup thread = db.threads.lookup thread ∧
      views db' thread = views (incoming db provider ns rows) thread := by
  obtain ⟨hl, hv⟩ := h.wrote.others thread hnamed
  have hupdated : thread ∉ threadIds (writtenRows db provider ns rows) := by
    rw [mem_threadIds]
    exact hnamed
  rw [h.lookup_of_not_emptied hne, h.updated.others thread hupdated, hl,
    incoming_lookup_of_not_named hnamed, h.views_of_not_emptied hne, hv]
  exact ⟨rfl, rfl⟩

theorem derived_of_emptied {r : Thread} (hmem : thread ∈ emptied db provider ns rows deleted)
    (hr : db'.threads.lookup thread = some r) : Derived db' thread r := by
  rw [← h.affected_eq] at hmem
  exact (h.cleaned.cleaned thread hmem r hr).congr (h.cleaned.same.views thread)
    h.cleaned.same.imapFolders

theorem derived_of_named {r : Thread} (hmem : thread ∈ named db provider ns rows)
    (hne : thread ∉ emptied db provider ns rows deleted) (hr : db'.threads.lookup thread = some r) :
    Derived db' thread r := by
  obtain ⟨r₁, hr₁⟩ := incoming_lookup_of_named hmem
  obtain ⟨r₂, hr₂⟩ := h.wrote.exists_row thread r₁ hr₁
  have hok := h.membership thread hmem r₂ hr₂
  obtain ⟨r₃, hr₃, hagg, hf, hl⟩ := h.updated.updated thread ((mem_threadIds _).mpr hmem) r₂ hr₂
  rw [h.lookup_of_not_emptied hne, hr₃] at hr
  cases hr
  have hderived : Derived db₂ thread r :=
    { folders := hf.trans hok.folders, labels := hl.trans hok.labels, aggregate := hagg }
  exact hderived.congr (h.views_of_not_emptied hne) (h.imapFolders.trans h.wrote.imapFolders.symm)

end Ran

/-! ## The batch -/

theorem consistent_of_recomputed (hdb : Consistent db) (h : Ran db provider ns rows deleted db₂ db₃ db')
    (hre : Recomputed db provider ns rows deleted) : Consistent db' := by
  intro thread r hr
  have hderived : Derived db' thread r := by
    by_cases hem : thread ∈ emptied db provider ns rows deleted
    · exact h.derived_of_emptied hem hr
    by_cases hna : thread ∈ named db provider ns rows
    · exact h.derived_of_named hna hem hr
    obtain ⟨hl, hv⟩ := h.untouched hna hem
    rw [hl] at hr
    have hinc : Derived (incoming db provider ns rows) thread r := by
      by_cases hleft : ∃ x ∈ writtenRows db provider ns rows, threadOf db x.id = some thread
      · exact hre.left thread r hr hleft hna hem
      · have hstay : ∀ x ∈ writtenRows db provider ns rows, threadOf db x.id ≠ some thread :=
          fun x hx heq => hleft ⟨x, hx, heq⟩
        exact (hdb thread r hr).1.congr (incoming_views hna hstay) incoming_imapFolders
    exact hinc.congr hv h.imapFolders
  exact ⟨hderived, hderived.aggregate.messages⟩

theorem left_of_consistent (h : Ran db provider ns rows deleted db₂ db₃ db')
    (hdb' : Consistent db') {r : Thread} (hr : db.threads.lookup thread = some r)
    (hna : thread ∉ named db provider ns rows) (hem : thread ∉ emptied db provider ns rows deleted) :
    Derived (incoming db provider ns rows) thread r := by
  obtain ⟨hl, hv⟩ := h.untouched hna hem
  rw [← hl] at hr
  exact (hdb' thread r hr).1.congr hv.symm h.imapFolders.symm

end Stages

theorem persist_keeps_threads_iff {db : Tables} (hdb : Consistent db) {provider : BifrostProviderKind}
    (hp : provider ≠ .imap) (ns : NamespaceAttribution) (rows : List ConsumerMessageRow)
    (deleted : List DeletedId) :
    (∃ db', persistInNamespace db provider ns rows deleted = .ok db' ∧ Consistent db') ↔
      Recomputed db provider ns rows deleted := by
  constructor
  · rintro ⟨db', hok, hdb'⟩
    obtain ⟨db₂, db₃, h₂, h₃, h₄⟩ := (persistInNamespace_eq_ok hp).mp hok
    have hran := ran_of_ok hp h₂ h₃ h₄
    have hplain := (updateThreads_isOk ns _ db₂ _).mp ⟨db₃, h₃⟩
    have hclean := (cleanupThreads_isOk _ _).mp ⟨db', h₄⟩
    rw [hran.wrote.skeleton] at hplain
    rw [hran.affected_eq, skeleton_remaining hran.skeleton₃] at hclean
    exact {
      keywords := (writeRows_isOk provider _ _).mp ⟨db₂, h₂⟩
      plain := fun thread hmem => hplain thread ((mem_threadIds _).mpr hmem)
      remains := hclean
      left := fun thread r hr _ hna hem => left_of_consistent hran hdb' hr hna hem }
  · intro hre
    obtain ⟨db₂, h₂⟩ := (writeRows_isOk provider (incoming db provider ns rows) _).mpr hre.keywords
    have hw : WroteAll (incoming db provider ns rows) (writtenRows db provider ns rows) db₂ :=
      writeRows_wrote hp (lastWins_insertMessages _ _) h₂
    obtain ⟨db₃, h₃⟩ := (updateThreads_isOk ns (writtenRows db provider ns rows) db₂
      (threadIds (writtenRows db provider ns rows))).mpr (by
        intro thread hmem
        rw [hw.skeleton]
        exact hre.plain thread ((mem_threadIds _).mp hmem))
    have hsame : skeleton db₃ = skeleton (incoming db provider ns rows) :=
      (updateThreads_updated h₃).same.skeleton.trans hw.skeleton
    have hremains := hre.remains
    rw [← affectedThreads_eq hsame, ← skeleton_remaining hsame] at hremains
    obtain ⟨db', h₄⟩ := (cleanupThreads_isOk _ _).mpr hremains
    exact ⟨db', (persistInNamespace_eq_ok hp).mpr ⟨db₂, db₃, h₂, h₃, h₄⟩,
      consistent_of_recomputed hdb (ran_of_ok hp h₂ h₃ h₄) hre⟩

def plainColumns (thread : ThreadId) : MessageColumns :=
  ⟨thread, none, some "subject", "snippet", 1, true, false, none, none, none, false, false, none, none⟩

def oneThread : Thread :=
  ⟨some ⟨some "subject", "snippet", 1, 1, true, false, false⟩, false, none, none, ∅, ∅⟩

/-- The message `m` in the thread `a`. -/
def oneMessage : Tables where
  threads := (∅ : Lib.Table ThreadId Thread).insert "a" oneThread
  messages := (∅ : Lib.Table MessageId Message).insert "m" ⟨plainColumns "a", false, ∅, ∅, ∅⟩
  attachments := ∅
  imapFolders := fun _ => ∅

theorem oneMessage_lookup {thread : ThreadId} {row : Thread}
    (h : oneMessage.threads.lookup thread = some row) : thread = "a" ∧ row = oneThread := by
  have hlookup : oneMessage.threads.lookup thread = if thread = "a" then some oneThread else none :=
    Lib.Table.lookup_insert_if ..
  rw [hlookup] at h
  split at h
  · rename_i heq
    cases h
    exact ⟨heq, rfl⟩
  · cases h

theorem oneMessage_consistent : Consistent oneMessage := by
  intro thread row h
  obtain ⟨rfl, rfl⟩ := oneMessage_lookup h
  have hderived : Derived oneMessage "a" oneThread :=
    { folders := rfl, labels := rfl, aggregate := ⟨_, rfl, rfl⟩ }
  exact ⟨hderived, hderived.aggregate.messages⟩

def rowOf (id : MessageId) (thread : ThreadId) : ConsumerMessageRow :=
  ⟨id, plainColumns thread, ["inbox"], [], [], [], false⟩

/-- The message is in a folder now, and a second one comes. -/
theorem sameThread_consistent :
    ∃ db', persistInNamespace oneMessage .jmap .personal [rowOf "m" "a", rowOf "n" "a"] [] = .ok db' ∧
      Consistent db' := by
  have hwritten : writtenRows oneMessage .jmap .personal [rowOf "m" "a", rowOf "n" "a"] =
      [rowOf "m" "a", rowOf "n" "a"] := rfl
  refine (persist_keeps_threads_iff oneMessage_consistent (by decide) .personal _ []).mpr ?_
  exact {
    keywords := by
      rw [hwritten]
      intro row hrow
      simp only [mem_cons, not_mem_nil, or_false] at hrow
      rcases hrow with rfl | rfl
      · exact ⟨∅, rfl⟩
      · exact ⟨∅, rfl⟩
    plain := by decide
    remains := by decide
    left := by
      intro thread row hrow _ hnamed
      obtain ⟨rfl, -⟩ := oneMessage_lookup hrow
      exact absurd (by decide) hnamed }

/-- The message comes back under another thread: the old one stays, without a message. -/
theorem movedThread_inconsistent :
    ¬∀ (db : Tables), Consistent db → ∀ (provider : BifrostProviderKind), provider ≠ .imap →
      ∀ (ns : NamespaceAttribution) (rows : List ConsumerMessageRow) (deleted : List DeletedId),
        ∃ db', persistInNamespace db provider ns rows deleted = .ok db' ∧ Consistent db' := by
  intro hall
  obtain ⟨db', hok, hdb'⟩ :=
    hall oneMessage oneMessage_consistent .jmap (by decide) .personal [rowOf "m" "b"] []
  obtain ⟨db₂, db₃, h₂, h₃, h₄⟩ := (persistInNamespace_eq_ok (by decide)).mp hok
  have hran := ran_of_ok (by decide) h₂ h₃ h₄
  have hderived : Derived (incoming oneMessage .jmap .personal [rowOf "m" "b"]) "a" oneThread :=
    left_of_consistent hran hdb' rfl (by decide) (by decide)
  exact hderived.aggregate.messages (by decide)

end Ratatoskr.Mail
