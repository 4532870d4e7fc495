import Ratatoskr.Mail.Agreement

/-!
# Mail.Deletion

What `delete_messages_and_cleanup_threads` leaves. Each affected thread is cleaned up on its own: a cleanup
does not touch the rows of another thread, and it fails exactly where the remaining messages are reactions
or one of their keywords has no label row (`cleanupThread_ok_iff`). `delete_completes_iff` puts the rounds
together and says when the threads come out as their messages give them.
-/

namespace Ratatoskr.Mail.Accounts

open List
open Lib (Table)

variable {rows : Finset (AccountId × String × String)} {account : AccountId} {mail : MessageTables}
  {thread : ThreadId}

/-- A message is in a folder by `message_folders` or by its `imap_folder`. -/
def InFolder (mail : MessageTables) (m : (AccountId × MessageId) × MessageRow) (folder : FolderId) : Prop :=
  (m.1.1, m.1.2, folder) ∈ mail.messageFolders ∨
    ∃ path, m.2.imapFolder = some path ∧ (m.1.1, folder) ∈ mail.folders ∧
      (mail.imapFolderPath (m.1.1, folder) = some path ∨ folder = path)

def HasLabel (mail : MessageTables) (m : (AccountId × MessageId) × MessageRow) (label : LabelId) : Prop :=
  (m.1.1, m.1.2, label) ∈ mail.messageLabels ∨ (m.1.1, m.1.2, label) ∈ mail.messageKeywords

/-- The link rows of a thread are those that its messages give. -/
structure Linked (emails : String → Finset String) (mail : MessageTables) (threads : ThreadTables)
    (account : AccountId) (thread : ThreadId) : Prop where
  folders : ∀ folder, (account, thread, folder) ∈ threads.threadFolders ↔
    ∃ m ∈ messagesOf mail account thread, InFolder mail m folder
  labels : ∀ label, (account, thread, label) ∈ threads.threadLabels ↔
    ∃ m ∈ messagesOf mail account thread, HasLabel mail m label
  participants : ∀ email, (account, thread, email) ∈ threads.threadParticipants ↔
    ∃ m ∈ messagesOf mail account thread, email ∈ addressesOf emails m.2

/-- The rows of a thread are those that its messages give: none without messages, and the aggregate that of
the messages other than reactions, where there are any. -/
structure Consistent (emails : String → Finset String) (mail : MessageTables) (threads : ThreadTables)
    (account : AccountId) (thread : ThreadId) : Prop where
  linked : Linked emails mail threads account thread
  gone : messagesOf mail account thread = [] → threads.threads.lookup (account, thread) = none
  row : messagesOf mail account thread ≠ [] → ∃ row, threads.threads.lookup (account, thread) = some row ∧
    (plainOf mail account thread ≠ [] → ∃ a, row.aggregate = some a ∧
      Summarizes ((plainOf mail account thread).map (storedMeta mail)) a)

theorem mem_withoutLinks {id : String} {r : AccountId × String × String} :
    r ∈ withoutLinks rows account id ↔ r ∈ rows ∧ ¬(r.1 = account ∧ r.2.1 = id) := Finset.mem_filter

theorem mem_joinLinks {links : Finset (AccountId × MessageId × String)} {r : AccountId × ThreadId × String} :
    r ∈ joinLinks mail account thread links ↔ r.1 = account ∧ r.2.1 = thread ∧
      ∃ m ∈ messagesOf mail account thread, (m.1.1, m.1.2, r.2.2) ∈ links := by
  obtain ⟨a, t, x⟩ := r
  rw [joinLinks, Finset.mem_image]
  constructor
  · rintro ⟨⟨a', id, x'⟩, hl, heq⟩
    cases heq
    obtain ⟨hmem, hany⟩ := Finset.mem_filter.mp hl
    obtain ⟨m, hm, hkey⟩ := any_eq_true.mp hany
    have hkey : m.1 = (a', id) := of_decide_eq_true hkey
    exact ⟨rfl, rfl, m, hm, by rw [hkey]; exact hmem⟩
  · rintro ⟨rfl, rfl, m, hm, hmem⟩
    refine ⟨(m.1.1, m.1.2, x), Finset.mem_filter.mpr ⟨hmem, ?_⟩, rfl⟩
    exact any_eq_true.mpr ⟨m, hm, decide_eq_true rfl⟩

theorem mem_joinImapFolders {r : AccountId × ThreadId × FolderId} :
    r ∈ joinImapFolders mail account thread ↔ r.1 = account ∧ r.2.1 = thread ∧
      ∃ m ∈ messagesOf mail account thread, ∃ path, m.2.imapFolder = some path ∧
        (m.1.1, r.2.2) ∈ mail.folders ∧ (mail.imapFolderPath (m.1.1, r.2.2) = some path ∨ r.2.2 = path) := by
  obtain ⟨a, t, x⟩ := r
  rw [joinImapFolders, Finset.mem_image]
  constructor
  · rintro ⟨⟨a', x'⟩, hf, heq⟩
    cases heq
    obtain ⟨hmem, haccount, hany⟩ := Finset.mem_filter.mp hf
    obtain ⟨m, hm, hnamed⟩ := any_eq_true.mp hany
    obtain ⟨path, hpath, hnames⟩ := (Option.any_eq_true _ _).mp hnamed
    have hsame : m.1.1 = a' := (mem_messagesOf.mp hm).2.2.trans haccount.symm
    refine ⟨rfl, rfl, m, hm, path, hpath, ?_⟩
    rw [hsame]
    exact ⟨hmem, of_decide_eq_true hnames⟩
  · rintro ⟨rfl, rfl, m, hm, path, hpath, hmem, hnames⟩
    have hsame : m.1.1 = a := (mem_messagesOf.mp hm).2.2
    rw [hsame] at hmem hnames
    refine ⟨(a, x), Finset.mem_filter.mpr ⟨hmem, rfl, any_eq_true.mpr ⟨m, hm, ?_⟩⟩, rfl⟩
    exact (Option.any_eq_true _ _).mpr ⟨path, hpath, decide_eq_true hnames⟩

theorem insertLinks_ok {parents : Finset (AccountId × String)}
    {new : Finset (AccountId × String × String)} (h : ∀ r ∈ new, (r.1, r.2.2) ∈ parents) :
    insertLinks parents rows new = .ok (rows ∪ new) := if_pos h

theorem recomputeFolders_ok (mail : MessageTables) (threads : ThreadTables) (account : AccountId)
    (thread : ThreadId) :
    recomputeThreadFoldersFromMessages mail threads account thread = .ok { threads with
      threadFolders := withoutLinks threads.threadFolders account thread ∪
        joinLinks mail account thread mail.messageFolders ∪ joinImapFolders mail account thread } := by
  have hfolders : ∀ r ∈ joinLinks mail account thread mail.messageFolders, (r.1, r.2.2) ∈ mail.folders := by
    intro r hr
    obtain ⟨haccount, -, m, hm, hmem⟩ := mem_joinLinks.mp hr
    have hfolder := mail.folders_there _ hmem
    rwa [haccount, ← (mem_messagesOf.mp hm).2.2]
  have himap : ∀ r ∈ joinImapFolders mail account thread, (r.1, r.2.2) ∈ mail.folders := by
    intro r hr
    obtain ⟨haccount, -, m, hm, path, -, hmem, -⟩ := mem_joinImapFolders.mp hr
    rwa [haccount, ← (mem_messagesOf.mp hm).2.2]
  rw [recomputeThreadFoldersFromMessages, insertLinks_ok hfolders]
  show (insertLinks _ _ _ >>= _) = _
  rw [insertLinks_ok himap]
  rfl

def KeywordsThere (mail : MessageTables) (messages : List ((AccountId × MessageId) × MessageRow)) : Prop :=
  ∀ m ∈ messages, ∀ label, (m.1.1, m.1.2, label) ∈ mail.messageKeywords → (m.1.1, label) ∈ mail.labels

theorem keywords_parents_iff (mail : MessageTables) (account : AccountId) (thread : ThreadId) :
    (∀ r ∈ joinLinks mail account thread mail.messageKeywords, (r.1, r.2.2) ∈ mail.labels) ↔
      KeywordsThere mail (messagesOf mail account thread) := by
  constructor
  · intro h m hm label hlabel
    rw [(mem_messagesOf.mp hm).2.2]
    exact h (account, thread, label) (mem_joinLinks.mpr ⟨rfl, rfl, m, hm, hlabel⟩)
  · intro h r hr
    obtain ⟨haccount, -, m, hm, hmem⟩ := mem_joinLinks.mp hr
    have hlabel := h m hm _ hmem
    rwa [haccount, ← (mem_messagesOf.mp hm).2.2]

/-- A keyword can lack its label row: `message_keywords` does not refer to `labels`. -/
theorem recomputeLabels_cases (mail : MessageTables) (threads : ThreadTables) (account : AccountId)
    (thread : ThreadId) :
    (KeywordsThere mail (messagesOf mail account thread) ∧
      recomputeThreadLabelsFromMessages mail threads account thread = .ok { threads with
        threadLabels := withoutLinks threads.threadLabels account thread ∪
          joinLinks mail account thread mail.messageLabels ∪
          joinLinks mail account thread mail.messageKeywords }) ∨
      (¬KeywordsThere mail (messagesOf mail account thread) ∧
        ∃ e, recomputeThreadLabelsFromMessages mail threads account thread = .error e) := by
  have hlabels : ∀ r ∈ joinLinks mail account thread mail.messageLabels, (r.1, r.2.2) ∈ mail.labels := by
    intro r hr
    obtain ⟨haccount, -, m, hm, hmem⟩ := mem_joinLinks.mp hr
    have hlabel := mail.labels_there _ hmem
    rwa [haccount, ← (mem_messagesOf.mp hm).2.2]
  rw [recomputeThreadLabelsFromMessages, insertLinks_ok hlabels]
  by_cases h : KeywordsThere mail (messagesOf mail account thread)
  · refine .inl ⟨h, ?_⟩
    have hkeywords := (keywords_parents_iff mail account thread).mpr h
    show (insertLinks _ _ _ >>= _) = _
    rw [insertLinks_ok hkeywords]
    rfl
  · refine .inr ⟨h, "FOREIGN KEY constraint failed", ?_⟩
    have hmissing := mt (keywords_parents_iff mail account thread).mp h
    show (insertLinks _ _ _ >>= _) = _
    rw [insertLinks, if_neg hmissing]
    rfl

/-! ## One thread -/

section Cleanup

variable {emails : String → Finset String} {mail : MessageTables} {account : AccountId}
variable {threads threads' : ThreadTables} {thread : ThreadId}
  {rows : Finset (AccountId × String × String)}

theorem mem_rebuilt {r : AccountId × ThreadId × String} :
    r ∈ (rebuildThreadParticipants emails mail threads account thread).threadParticipants ↔
      r ∈ withoutLinks threads.threadParticipants account thread ∨ r.1 = account ∧ r.2.1 = thread ∧
          ∃ m ∈ messagesOf mail account thread, r.2.2 ∈ addressesOf emails m.2 := by
  rw [rebuildThreadParticipants]
  generalize messagesOf mail account thread = messages
  generalize withoutLinks threads.threadParticipants account thread = rows
  induction messages generalizing rows with
  | nil => simp
  | cons m messages ih =>
    rw [foldl_cons, ih, Finset.mem_union, Finset.mem_image, exists_mem_cons_iff, or_assoc]
    refine or_congr_right ?_
    obtain ⟨a, t, email⟩ := r
    constructor
    · rintro (⟨email', hmem, heq⟩ | ⟨rfl, rfl, hrest⟩)
      · cases heq
        exact ⟨rfl, rfl, .inl hmem⟩
      · exact ⟨rfl, rfl, .inr hrest⟩
    · rintro ⟨rfl, rfl, hmem | hrest⟩
      · exact .inl ⟨email, hmem, rfl⟩
      · exact .inr ⟨rfl, rfl, hrest⟩

theorem lookup_upsertThreadAggregate (threads : ThreadTables) (thread : ThreadId) (a : ThreadAggregate)
    (key : AccountId × ThreadId) :
    (key = (account, thread) → ∃ row,
        (upsertThreadAggregate threads account thread a none none none).threads.lookup key = some row ∧
          row.aggregate = some a) ∧ (key ≠ (account, thread) →
        (upsertThreadAggregate threads account thread a none none none).threads.lookup key =
          threads.threads.lookup key) := by
  unfold upsertThreadAggregate
  split
  · constructor
    · rintro rfl
      exact ⟨_, AList.lookup_insert _, rfl⟩
    · exact fun hne => AList.lookup_insert_ne hne
  · constructor
    · rintro rfl
      exact ⟨_, AList.lookup_insert _, rfl⟩
    · exact fun hne => AList.lookup_insert_ne hne

theorem upsertThreadAggregate_links (threads : ThreadTables) (thread : ThreadId) (a : ThreadAggregate) :
    (upsertThreadAggregate threads account thread a none none none).threadFolders = threads.threadFolders ∧
      (upsertThreadAggregate threads account thread a none none none).threadLabels = threads.threadLabels ∧
      (upsertThreadAggregate threads account thread a none none none).threadParticipants =
        threads.threadParticipants := by
  unfold upsertThreadAggregate
  split <;> exact ⟨rfl, rfl, rfl⟩

structure Apart (threads threads' : ThreadTables) (key : AccountId × ThreadId) : Prop where
  thread : threads'.threads.lookup key = threads.threads.lookup key
  folders : ∀ x, (key.1, key.2, x) ∈ threads'.threadFolders ↔ (key.1, key.2, x) ∈ threads.threadFolders
  labels : ∀ x, (key.1, key.2, x) ∈ threads'.threadLabels ↔ (key.1, key.2, x) ∈ threads.threadLabels
  participants : ∀ x, (key.1, key.2, x) ∈ threads'.threadParticipants ↔
    (key.1, key.2, x) ∈ threads.threadParticipants

theorem Apart.trans {threads'' : ThreadTables} {key : AccountId × ThreadId}
    (h : Apart threads threads' key) (h' : Apart threads' threads'' key) : Apart threads threads'' key where
  thread := h'.thread.trans h.thread
  folders x := (h'.folders x).trans (h.folders x)
  labels x := (h'.labels x).trans (h.labels x)
  participants x := (h'.participants x).trans (h.participants x)

structure Recomputed (emails : String → Finset String) (mail : MessageTables) (threads : ThreadTables)
    (account : AccountId) (thread : ThreadId) : Prop where
  linked : Linked emails mail threads account thread
  gone : messagesOf mail account thread = [] → threads.threads.lookup (account, thread) = none
  row : messagesOf mail account thread ≠ [] → ∃ row a, threads.threads.lookup (account, thread) = some row ∧
    row.aggregate = some a ∧ computeThreadAggregate mail account thread = .ok a

theorem Recomputed.apart (h : Recomputed emails mail threads account thread)
    (hapart : Apart threads threads' (account, thread)) : Recomputed emails mail threads' account thread where
  linked :=
    ⟨fun x => (hapart.folders x).trans (h.linked.folders x),
      fun x => (hapart.labels x).trans (h.linked.labels x),
      fun x => (hapart.participants x).trans (h.linked.participants x)⟩
  gone hnil := hapart.thread.trans (h.gone hnil)
  row hne := by
    rw [hapart.thread]
    exact h.row hne

/-- A thread that still has messages has one that is no reaction, and label rows for its keywords. -/
def Cleanable (mail : MessageTables) (account : AccountId) (thread : ThreadId) : Prop :=
  messagesOf mail account thread ≠ [] →
    plainOf mail account thread ≠ [] ∧ KeywordsThere mail (messagesOf mail account thread)

theorem not_mem_own {x : String} : (account, thread, x) ∉ withoutLinks rows account thread :=
    fun h => (mem_withoutLinks.mp h).2 ⟨rfl, rfl⟩

theorem mem_other {other : ThreadId} (h : other ≠ thread) {x : String} :
    (account, other, x) ∈ withoutLinks rows account thread ↔ (account, other, x) ∈ rows := by
  rw [mem_withoutLinks]
  exact ⟨And.left, fun hmem => ⟨hmem, fun heq => h heq.2⟩⟩

theorem deleteThread_recomputed (h : messagesOf mail account thread = []) :
    Recomputed emails mail (deleteThread threads account thread) account thread ∧
      ∀ other, other ≠ thread → Apart threads (deleteThread threads account thread) (account, other) := by
  refine ⟨⟨⟨?_, ?_, ?_⟩, fun _ => AList.lookup_erase _ _, fun hne => absurd h hne⟩, fun other hother => ?_⟩
  · intro x
    rw [h]
    simp [deleteThread, not_mem_own]
  · intro x
    rw [h]
    simp [deleteThread, not_mem_own]
  · intro x
    rw [h]
    simp [deleteThread, not_mem_own]
  · refine ⟨AList.lookup_erase_ne ?_, fun x => mem_other hother, fun x => mem_other hother,
      fun x => mem_other hother⟩
    exact fun heq => hother (congrArg Prod.snd heq)

theorem recomputed_cases (threads : ThreadTables) (thread : ThreadId) (a : ThreadAggregate) :
    let run := do
      let threads ← recomputeThreadFoldersFromMessages mail
        (upsertThreadAggregate threads account thread a none none none) account thread
      let threads ← recomputeThreadLabelsFromMessages mail threads account thread
      .ok (rebuildThreadParticipants emails mail threads account thread)
    (KeywordsThere mail (messagesOf mail account thread) ∧ ∃ threads', run = .ok threads' ∧
        Linked emails mail threads' account thread ∧
        (∃ row, threads'.threads.lookup (account, thread) = some row ∧ row.aggregate = some a) ∧
        ∀ other, other ≠ thread → Apart threads threads' (account, other)) ∨
      (¬KeywordsThere mail (messagesOf mail account thread) ∧ ∃ e, run = .error e) := by
  intro run
  have hlookup := @lookup_upsertThreadAggregate account threads thread a
  obtain ⟨hfolders, hlabels, hparticipants⟩ :=
    @upsertThreadAggregate_links account threads thread a
  have hrun : run = (recomputeThreadLabelsFromMessages mail _ account thread >>= fun threads =>
      .ok (rebuildThreadParticipants emails mail threads account thread)) :=
    congrArg (· >>= _) (recomputeFolders_ok mail _ account thread)
  rw [hrun]
  rcases recomputeLabels_cases mail _ account thread with ⟨hkeywords, hok⟩ | ⟨hmissing, e, herr⟩
  · rw [hok]
    refine .inl ⟨hkeywords, _, rfl, ⟨?_, ?_, ?_⟩, (hlookup (account, thread)).1 rfl, fun other hother => ?_⟩
    · intro x
      show (_, _, _) ∈ _ ∪ _ ∪ _ ↔ _
      rw [Finset.mem_union, Finset.mem_union, mem_joinLinks, mem_joinImapFolders]
      simp only [not_mem_own, false_or, true_and, InFolder, and_or_left, exists_or]
    · intro x
      show (_, _, _) ∈ _ ∪ _ ∪ _ ↔ _
      rw [Finset.mem_union, Finset.mem_union, mem_joinLinks, mem_joinLinks]
      simp only [not_mem_own, false_or, true_and, HasLabel, and_or_left, exists_or]
    · intro x
      rw [mem_rebuilt]
      simp [not_mem_own]
    · have hne : (account, other) ≠ (account, thread) := fun heq => hother (congrArg Prod.snd heq)
      refine ⟨(hlookup (account, other)).2 hne, fun x => ?_, fun x => ?_, fun x => ?_⟩
      · show (_, _, _) ∈ _ ∪ _ ∪ _ ↔ _
        rw [Finset.mem_union, Finset.mem_union, mem_joinLinks, mem_joinImapFolders, hfolders,
          mem_other hother]
        simp [hother]
      · show (_, _, _) ∈ _ ∪ _ ∪ _ ↔ _
        rw [Finset.mem_union, Finset.mem_union, mem_joinLinks, mem_joinLinks]
        rw [show withoutLinks _ account thread = withoutLinks threads.threadLabels account thread from
          congrArg (withoutLinks · account thread) hlabels, mem_other hother]
        simp [hother]
      · rw [mem_rebuilt]
        rw [show withoutLinks _ account thread = withoutLinks threads.threadParticipants account thread from
          congrArg (withoutLinks · account thread) hparticipants, mem_other hother]
        simp [hother]
  · rw [herr]
    exact .inr ⟨hmissing, e, rfl⟩

theorem cleanupThread_cases (threads : ThreadTables) (thread : ThreadId) :
    (Cleanable mail account thread ∧
        ∃ threads', cleanupThread emails mail account threads thread = .ok threads' ∧
        Recomputed emails mail threads' account thread ∧
        ∀ other, other ≠ thread → Apart threads threads' (account, other)) ∨
      (¬Cleanable mail account thread ∧ ∃ e, cleanupThread emails mail account threads thread = .error e) := by
  unfold cleanupThread
  by_cases hnil : messagesOf mail account thread = []
  · rw [if_pos hnil]
    exact .inl ⟨fun hne => absurd hnil hne, _, rfl, deleteThread_recomputed hnil⟩
  rw [if_neg hnil]
  by_cases hplain : plainOf mail account thread = []
  · rw [computeThreadAggregate_none hplain]
    exact .inr ⟨fun h => (h hnil).1 hplain, _, rfl⟩
  obtain ⟨a, ha, -⟩ := computeThreadAggregate_summarizes_iff hplain
  rw [ha]
  rcases recomputed_cases threads thread a with ⟨hkeywords, threads', hok, hrest⟩ | ⟨hmissing, e, herr⟩
  · refine .inl ⟨fun _ => ⟨hplain, hkeywords⟩, threads', hok, ?_⟩
    exact ⟨⟨hrest.1, fun h => absurd h hnil, fun _ => hrest.2.1.imp fun row h => ⟨a, h.1, h.2, ha⟩⟩, hrest.2.2⟩
  · exact .inr ⟨fun h => hmissing (h hnil).2, e, herr⟩

/-! ## All affected threads -/

theorem cleanups_ok_iff (affected : List ThreadId) (threads : ThreadTables) :
    (∃ threads', affected.foldlM (cleanupThread emails mail account) threads = .ok threads') ↔
      ∀ thread ∈ affected, Cleanable mail account thread := by
  refine @Lib.foldlM_isOk_iff _ _ _ _ (fun _ thread => Cleanable mail account thread)
    (fun threads thread => ?_) (fun _ _ _ _ _ => Iff.rfl) affected threads
  rcases @cleanupThread_cases emails mail account threads thread with
    ⟨hclean, threads', hok, -⟩ | ⟨hnot, e, herr⟩
  · exact ⟨fun _ => hclean, fun _ => ⟨threads', hok⟩⟩
  · rw [herr]
    exact ⟨fun ⟨_, h⟩ => (nomatch h), fun h => absurd h hnot⟩

/-- Every affected thread comes out as its cleanup leaves it, and no other one is touched. -/
theorem cleanups_recomputed {affected : List ThreadId} (hnodup : affected.Nodup)
    (h : affected.foldlM (cleanupThread emails mail account) threads = .ok threads') :
    (∀ thread ∈ affected, Recomputed emails mail threads' account thread) ∧
      ∀ thread ∉ affected, Apart threads threads' (account, thread) := by
  induction affected generalizing threads with
  | nil =>
    cases h
    exact ⟨fun _ h => absurd h not_mem_nil,
      fun _ _ => ⟨rfl, fun _ => Iff.rfl, fun _ => Iff.rfl, fun _ => Iff.rfl⟩⟩
  | cons thread affected ih =>
    obtain ⟨hnot, hnodup⟩ := nodup_cons.mp hnodup
    obtain ⟨threads₁, hstep, hrest⟩ := Lib.foldlM_cons_eq_ok.mp h
    obtain ⟨hall, hothers⟩ := ih hnodup hrest
    rcases @cleanupThread_cases emails mail account threads thread with
      ⟨-, threads₂, hok, hrecomputed, hapart⟩ | ⟨-, e, herr⟩
    · obtain rfl := Except.ok.inj (hstep.symm.trans hok)
      refine ⟨forall_mem_cons.mpr ⟨hrecomputed.apart (hothers thread hnot), hall⟩, fun other hother => ?_⟩
      rw [mem_cons, not_or] at hother
      exact (hapart other hother.1).trans (hothers other hother.2)
    · rw [herr] at hstep
      cases hstep

/-- What a cleanup leaves is what the messages give, unless the only attachments are another account's. -/
theorem Recomputed.consistent_iff (h : Recomputed emails mail threads account thread) :
    Consistent emails mail threads account thread ↔
      (plainOf mail account thread ≠ [] → OwnAttachments mail (plainOf mail account thread)) := by
  constructor
  · intro hconsistent hplain
    have hne : messagesOf mail account thread ≠ [] := by
      intro hnil
      rw [plainOf, hnil] at hplain
      exact hplain rfl
    obtain ⟨row, a, hrow, hagg, ha⟩ := h.row hne
    obtain ⟨row', hrow', hsummary⟩ := hconsistent.row hne
    obtain ⟨a', hagg', hsummary⟩ := hsummary hplain
    obtain rfl := Option.some.inj (hrow.symm.trans hrow')
    obtain rfl := Option.some.inj (hagg.symm.trans hagg')
    obtain ⟨a', ha', hiff⟩ := computeThreadAggregate_summarizes_iff hplain
    obtain rfl := Except.ok.inj (ha.symm.trans ha')
    exact hiff.mp hsummary
  · intro hattachments
    refine ⟨h.linked, h.gone, fun hne => ?_⟩
    obtain ⟨row, a, hrow, hagg, ha⟩ := h.row hne
    refine ⟨row, hrow, fun hplain => ⟨a, hagg, ?_⟩⟩
    obtain ⟨a', ha', hiff⟩ := computeThreadAggregate_summarizes_iff hplain
    obtain rfl := Except.ok.inj (ha.symm.trans ha')
    exact hiff.mpr (hattachments hplain)

end Cleanup

section Remaining

variable (mail : MessageTables) (account : AccountId) (ids : List MessageId)
variable {thread : ThreadId} {m : (AccountId × MessageId) × MessageRow}

/-- What a deletion of ids takes from the tables of messages. -/
structure Deleted (mail' : MessageTables) : Prop where
  messages : mail'.messages.rows = mail.messages.rows.filter fun m => ¬(m.1.1 = account ∧ m.1.2 ∈ ids)
  attachments : mail'.attachments.rows =
    mail.attachments.rows.filter fun a => ¬(a.2.accountId = account ∧ a.2.messageId ∈ ids)
  keywords : ∀ r, r ∈ mail'.messageKeywords ↔ r ∈ mail.messageKeywords ∧ ¬(r.1 = account ∧ r.2.1 ∈ ids)
  labels : mail'.labels = mail.labels

theorem deleteMessages_deleted : Deleted mail account ids (ids.foldl (deleteMessage account) mail) := by
  induction ids generalizing mail with
  | nil => exact ⟨by simp, by simp, by simp, rfl⟩
  | cons id ids ih =>
    obtain ⟨hmessages, hattachments, hkeywords, hlabels⟩ := ih (deleteMessage account mail id)
    refine ⟨hmessages.trans ?_, hattachments.trans ?_, fun r => (hkeywords r).trans ?_, hlabels⟩
    · rw [show (deleteMessage account mail id).messages.rows =
        mail.messages.rows.filter fun m => decide (m.1 ≠ (account, id)) from Table.rows_erase ..,
        filter_filter]
      refine filter_congr fun m _ => ?_
      obtain ⟨⟨a, i⟩, row⟩ := m
      rw [Bool.eq_iff_iff]
      simp only [Bool.and_eq_true, decide_eq_true_iff, mem_cons, Ne, Prod.mk.injEq]
      tauto
    · rw [show (deleteMessage account mail id).attachments.rows =
        mail.attachments.rows.filter fun a => decide ¬(a.2.accountId = account ∧ a.2.messageId = id) from
          Table.rows_restrict .., filter_filter]
      refine filter_congr fun a _ => ?_
      rw [Bool.eq_iff_iff]
      simp only [Bool.and_eq_true, decide_eq_true_iff, mem_cons]
      tauto
    · rw [show (deleteMessage account mail id).messageKeywords =
        withoutLinks mail.messageKeywords account id from rfl, mem_withoutLinks, mem_cons]
      tauto

def remaining (thread : ThreadId) : List ((AccountId × MessageId) × MessageRow) :=
  (messagesOf mail account thread).filter fun m => m.1.2 ∉ ids

def remainingPlain (thread : ThreadId) : List ((AccountId × MessageId) × MessageRow) :=
  (remaining mail account ids thread).filter fun m => m.2.isReaction = 0

variable {mail account ids} {mail' : MessageTables}

theorem Deleted.messagesOf_eq (h : Deleted mail account ids mail') (thread : ThreadId) :
    messagesOf mail' account thread = remaining mail account ids thread := by
  rw [remaining, messagesOf, messagesOf, h.messages, filter_filter, filter_filter]
  refine filter_congr fun m _ => ?_
  rw [Bool.eq_iff_iff]
  simp only [Bool.and_eq_true, decide_eq_true_iff]
  tauto

theorem Deleted.plainOf_eq (h : Deleted mail account ids mail') (thread : ThreadId) :
    plainOf mail' account thread = remainingPlain mail account ids thread := by
  rw [plainOf, h.messagesOf_eq, remainingPlain]

theorem mem_remaining :
    m ∈ remaining mail account ids thread ↔ m ∈ messagesOf mail account thread ∧ m.1.2 ∉ ids := by
  rw [remaining, mem_filter, decide_eq_true_iff]

theorem mem_remainingPlain : m ∈ remainingPlain mail account ids thread ↔
      m ∈ remaining mail account ids thread ∧ m.2.isReaction = 0 := by
  rw [remainingPlain, mem_filter, decide_eq_true_iff]

theorem Deleted.keywordsThere_iff (h : Deleted mail account ids mail') (thread : ThreadId) :
    KeywordsThere mail' (remaining mail account ids thread) ↔
      KeywordsThere mail (remaining mail account ids thread) := by
  unfold KeywordsThere
  rw [h.labels]
  refine forall₂_congr fun m hm => forall_congr' fun label => imp_congr_left ?_
  rw [h.keywords]
  exact ⟨And.left, fun hmem => ⟨hmem, fun hin => (mem_remaining.mp hm).2 hin.2⟩⟩

theorem Deleted.attachments_iff (h : Deleted mail account ids mail') {id : MessageId} (hid : id ∉ ids)
    (p : AttachmentId × AttachmentRow → Prop) : (∃ a ∈ mail'.attachments.rows, a.2.messageId = id ∧ p a) ↔
      ∃ a ∈ mail.attachments.rows, a.2.messageId = id ∧ p a := by
  rw [h.attachments]
  constructor
  · rintro ⟨a, ha, hrest⟩
    exact ⟨a, (mem_filter.mp ha).1, hrest⟩
  · rintro ⟨a, ha, hrest⟩
    refine ⟨a, mem_filter.mpr ⟨ha, decide_eq_true ?_⟩, hrest⟩
    rintro ⟨-, hin⟩
    exact hid (hrest.1 ▸ hin)

theorem Deleted.ownAttachments_iff (h : Deleted mail account ids mail') (thread : ThreadId) :
    OwnAttachments mail' (remainingPlain mail account ids thread) ↔
      OwnAttachments mail (remainingPlain mail account ids thread) := by
  have hleft : ∀ m ∈ remainingPlain mail account ids thread, m.1.2 ∉ ids :=
    fun m hm => (mem_remaining.mp (mem_remainingPlain.mp hm).1).2
  have hjoin : ∀ m ∈ remainingPlain mail account ids thread,
      (∃ a ∈ mail'.attachments.rows, a.2.messageId = m.1.2) ↔
        ∃ a ∈ mail.attachments.rows, a.2.messageId = m.1.2 := by
    intro m hm
    simpa using h.attachments_iff (hleft m hm) fun _ => True
  have hown : ∀ m ∈ remainingPlain mail account ids thread, attachedTo mail' m.1 = attachedTo mail m.1 := by
    intro m hm
    rw [Bool.eq_iff_iff, attachedTo, attachedTo]
    simpa [Prod.ext_iff, and_comm] using h.attachments_iff (hleft m hm) fun a => a.2.accountId = m.1.1
  refine imp_congr ?_ (exists_congr fun m => and_congr_right fun hm => by rw [hown m hm])
  constructor
  · rintro ⟨a, ha, m, hm, hid⟩
    obtain ⟨a', ha', hid'⟩ := (hjoin m hm).mp ⟨a, ha, hid⟩
    exact ⟨a', ha', m, hm, hid'⟩
  · rintro ⟨a, ha, m, hm, hid⟩
    obtain ⟨a', ha', hid'⟩ := (hjoin m hm).mpr ⟨a, ha, hid⟩
    exact ⟨a', ha', m, hm, hid'⟩

end Remaining

/-! ## The deletion -/

def Affected (mail : MessageTables) (account : AccountId) (ids : List MessageId) (thread : ThreadId) : Prop :=
  ∃ id ∈ ids, getThreadIdForMessage mail account id = some thread

/-- The deletion succeeds, takes these messages of the account away and no other, and leaves the affected
threads consistent. -/
def Completes (emails : String → Finset String) (o : SetOrder) (db : Database) (account : AccountId)
    (ids : List MessageId) : Prop :=
  ∃ db' affected, deleteMessagesAndCleanupThreads emails o db account ids = .ok (db', affected) ∧
    (∀ key, db'.mail.messages.lookup key =
      if key.1 = account ∧ key.2 ∈ ids then none else db.mail.messages.lookup key) ∧
    ∀ thread, Affected db.mail account ids thread →
      Consistent emails db'.mail db'.threads account thread

/-- A thread from which messages can be deleted: what remains is not only reactions, its keywords have
label rows, and it has attachments of its own if another account has some for the same ids. -/
structure Deletable (mail : MessageTables) (account : AccountId) (ids : List MessageId) (thread : ThreadId) :
    Prop where
  plain : ∃ m ∈ remaining mail account ids thread, m.2.isReaction = 0
  keywords : KeywordsThere mail (remaining mail account ids thread)
  attachments : OwnAttachments mail (remainingPlain mail account ids thread)

section Delete

variable {emails : String → Finset String} {mail mail' : MessageTables} {account : AccountId}
  {ids : List MessageId}
variable {thread : ThreadId}

theorem mem_affectedThreads (o : SetOrder) {thread : ThreadId} :
    thread ∈ affectedThreads o mail account ids ↔ Affected mail account ids thread := by
  rw [affectedThreads, (o.perm _).mem_iff, mem_dedup, mem_filterMap]
  rfl

theorem affectedThreads_nodup (o : SetOrder) : (affectedThreads o mail account ids).Nodup :=
  (o.perm _).nodup_iff.mpr (nodup_dedup _)

theorem Deleted.lookup (h : Deleted mail account ids mail') (key : AccountId × MessageId) :
    mail'.messages.lookup key =
      if key.1 = account ∧ key.2 ∈ ids then none else mail.messages.lookup key := by
  refine Option.ext fun row => ?_
  rw [← Table.mem_rows, h.messages, mem_filter, Table.mem_rows]
  split
  · next hin => simp [hin]
  · next hout => simp [hout]

theorem remainingPlain_ne_nil_iff : remainingPlain mail account ids thread ≠ [] ↔
      ∃ m ∈ remaining mail account ids thread, m.2.isReaction = 0 := by
  rw [← length_pos_iff, length_pos_iff_exists_mem]
  simp [mem_remainingPlain]

theorem Deleted.cleanable_iff (h : Deleted mail account ids mail') (thread : ThreadId) :
    Cleanable mail' account thread ↔ (remaining mail account ids thread ≠ [] →
      (∃ m ∈ remaining mail account ids thread, m.2.isReaction = 0) ∧
        KeywordsThere mail (remaining mail account ids thread)) := by
  rw [Cleanable, h.messagesOf_eq, h.plainOf_eq, h.keywordsThere_iff, remainingPlain_ne_nil_iff]

theorem Deleted.consistent_iff (h : Deleted mail account ids mail') {threads : ThreadTables}
    (hrecomputed : Recomputed emails mail' threads account thread) :
    Consistent emails mail' threads account thread ↔
      ((∃ m ∈ remaining mail account ids thread, m.2.isReaction = 0) →
        OwnAttachments mail (remainingPlain mail account ids thread)) := by
  rw [hrecomputed.consistent_iff, h.plainOf_eq, h.ownAttachments_iff, remainingPlain_ne_nil_iff]

/-- The deletion completes exactly when every affected thread is left without messages or deletable. -/
theorem delete_completes_iff (emails : String → Finset String) (o : SetOrder) (db : Database)
    (account : AccountId) (ids : List MessageId) : Completes emails o db account ids ↔
      ∀ thread, Affected db.mail account ids thread → remaining db.mail account ids thread ≠ [] →
        Deletable db.mail account ids thread := by
  unfold Completes deleteMessagesAndCleanupThreads
  by_cases hnil : ids = []
  · rw [if_pos hnil, hnil]
    have hnone : ∀ thread, ¬Affected db.mail account [] thread :=
      fun thread ⟨_, hid, _⟩ => absurd hid not_mem_nil
    exact ⟨fun _ thread h => absurd h (hnone thread),
      fun _ => ⟨db, [], rfl, by simp, fun thread h => absurd h (hnone thread)⟩⟩
  rw [if_neg hnil]
  dsimp only
  have hdeleted := deleteMessages_deleted db.mail account ids
  generalize ids.foldl (deleteMessage account) db.mail = mail' at *
  have haffected := @mem_affectedThreads db.mail account ids o
  have hnodup := @affectedThreads_nodup db.mail account ids o
  have hok := @cleanups_ok_iff emails mail' account (affectedThreads o db.mail account ids) db.threads
  constructor
  · rintro ⟨db', affected, hrun, -, hconsistent⟩ thread hthread hne
    obtain ⟨threads, hthreads, hrun⟩ := Lib.bind_ok hrun
    cases hrun
    have hclean := hok.mp ⟨threads, hthreads⟩ thread (haffected.mpr hthread)
    obtain ⟨hplain, hkeywords⟩ := (hdeleted.cleanable_iff thread).mp hclean hne
    have hrecomputed := (cleanups_recomputed hnodup hthreads).1 thread (haffected.mpr hthread)
    exact ⟨hplain, hkeywords, (hdeleted.consistent_iff hrecomputed).mp (hconsistent thread hthread) hplain⟩
  · intro hdeletable
    obtain ⟨threads, hthreads⟩ := hok.mpr fun thread hthread => (hdeleted.cleanable_iff thread).mpr
      fun hne => ⟨(hdeletable thread (haffected.mp hthread) hne).plain,
        (hdeletable thread (haffected.mp hthread) hne).keywords⟩
    refine ⟨⟨mail', threads⟩, _, by rw [hthreads]; rfl, hdeleted.lookup, fun thread hthread => ?_⟩
    have hrecomputed := (cleanups_recomputed hnodup hthreads).1 thread (haffected.mpr hthread)
    refine (hdeleted.consistent_iff hrecomputed).mpr fun hplain => ?_
    obtain ⟨m, hm, -⟩ := hplain
    exact (hdeletable thread hthread (ne_nil_of_mem hm)).attachments

end Delete

def reactedThread : Database where
  mail := {
    messages :=
      ⟨[⟨("a", "m2"), ⟨"t", none, none, none, none, none, none, 2, some 1, some 0, 1, none⟩⟩,
        ⟨("a", "m1"), ⟨"t", none, none, none, none, none, none, 1, some 1, some 0, 0, none⟩⟩],
        by simp [List.NodupKeys]⟩
    attachments := ∅
    messageFolders := ∅
    messageLabels := ∅
    messageKeywords := ∅
    folders := ∅
    imapFolderPath := fun _ => none
    labels := ∅
    folders_there := no_folders_there
    labels_there := no_labels_there }
  threads := {
    threads := .singleton ("a", "t") ⟨some ⟨none, "", 1, 1, true, false, false⟩, false, none, none⟩
    threadFolders := ∅
    threadLabels := ∅
    threadParticipants := ∅ }

def Aggregated (db : Database) : Prop :=
  ∀ key row, db.threads.threads.lookup key = some row →
    ∃ a, row.aggregate = some a ∧ computeThreadAggregate db.mail key.1 key.2 = .ok a

theorem reaction_left_fails :
    ¬∀ (emails : String → Finset String) (o : SetOrder) (db : Database) (account : AccountId)
      (ids : List MessageId), Aggregated db → Completes emails o db account ids := by
  intro hall
  have haggregated : Aggregated reactedThread := by
    intro key row hrow
    cases mem_singleton.mp (Table.mem_rows.mpr hrow)
    exact ⟨_, rfl, by decide +kernel⟩
  obtain ⟨db', affected, hrun, -⟩ :=
    hall (fun _ => ∅) ⟨id, fun _ => .refl _⟩ reactedThread "a" ["m1"] haggregated
  have herror : (deleteMessagesAndCleanupThreads (fun _ => ∅) ⟨id, fun _ => .refl _⟩ reactedThread "a"
      ["m1"]).isOk = false := by
    decide +kernel
  rw [hrun] at herror
  cases herror

end Ratatoskr.Mail.Accounts
