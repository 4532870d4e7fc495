import Ratatoskr.Lib.Best
import Ratatoskr.Mail.Accounts
import Ratatoskr.Mail.Counts

/-!
# Mail.Agreement

The two ways to the aggregate of a thread: the queries over the rows of all accounts and the loop over the
messages of a drive. `Summarizes` says what an aggregate is of some messages; it determines the aggregate
where no two dates are equal. The loop always gives it (`computeFromMessages_summarizes`); the queries do
unless the only attachments are those of another account (`computeThreadAggregate_summarizes_iff`): the join
of the attachments compares message ids alone.
-/

namespace Ratatoskr.Mail.Accounts

open List
open Lib (Table)

variable {ms : List MessageMeta} {a : ThreadAggregate} {st : Int × ThreadAggregate}
  {messages : List ((AccountId × MessageId) × MessageRow)} {mail : MessageTables}
  {account : AccountId} {thread : ThreadId} {m : (AccountId × MessageId) × MessageRow}

structure Summarizes (ms : List MessageMeta) (a : ThreadAggregate) : Prop where
  messageCount : a.messageCount = ms.length
  isRead : a.isRead = ms.all MessageMeta.isRead
  isStarred : a.isStarred = ms.any MessageMeta.isStarred
  hasAttachments : a.hasAttachments = ms.any MessageMeta.hasAttachments
  latest : ∃ m ∈ ms, (∀ m' ∈ ms, m'.date ≤ m.date) ∧ a.lastDate = m.date ∧ a.snippet = m.snippet
  earliest : ∃ m ∈ ms, (∀ m' ∈ ms, m.date ≤ m'.date) ∧ a.subject = m.subject

theorem Summarizes.perm {ms' : List MessageMeta} (h : Summarizes ms a) (hperm : ms.Perm ms') :
    Summarizes ms' a where
  messageCount := h.messageCount.trans hperm.length_eq
  isRead := h.isRead.trans hperm.all_eq
  isStarred := h.isStarred.trans hperm.any_eq
  hasAttachments := h.hasAttachments.trans hperm.any_eq
  latest := by
    obtain ⟨m, hm, hmax, heq⟩ := h.latest
    exact ⟨m, hperm.mem_iff.mp hm, fun m' hm' => hmax m' (hperm.mem_iff.mpr hm'), heq⟩
  earliest := by
    obtain ⟨m, hm, hmin, heq⟩ := h.earliest
    exact ⟨m, hperm.mem_iff.mp hm, fun m' hm' => hmin m' (hperm.mem_iff.mpr hm'), heq⟩

theorem Summarizes.unique {b : ThreadAggregate} (hdates : (ms.map MessageMeta.date).Nodup)
    (ha : Summarizes ms a) (hb : Summarizes ms b) : a = b := by
  have hsame : ∀ m ∈ ms, ∀ m' ∈ ms, m.date = m'.date → m = m' :=
    fun m hm m' hm' => inj_on_of_nodup_map hdates hm hm'
  obtain ⟨m, hm, hmax, hdate, hsnippet⟩ := ha.latest
  obtain ⟨m', hm', hmax', hdate', hsnippet'⟩ := hb.latest
  obtain rfl := hsame m hm m' hm' (le_antisymm (hmax' m hm) (hmax m' hm'))
  obtain ⟨f, hf, hmin, hsubject⟩ := ha.earliest
  obtain ⟨f', hf', hmin', hsubject'⟩ := hb.earliest
  obtain rfl := hsame f hf f' hf' (le_antisymm (hmin f' hf') (hmin' f hf))
  obtain ⟨subject, snippet, lastDate, count, isRead, isStarred, hasAttachments⟩ := a
  obtain ⟨subject', snippet', lastDate', count', isRead', isStarred', hasAttachments'⟩ := b
  obtain ⟨hcount, hread, hstarred, hattached, -, -⟩ := ha
  obtain ⟨hcount', hread', hstarred', hattached', -, -⟩ := hb
  subst_vars
  rfl

structure Folded (ms : List MessageMeta) (st : Int × ThreadAggregate) : Prop where
  latest : ∃ m ∈ ms, (∀ m' ∈ ms, m'.date ≤ m.date) ∧ st.2.lastDate = m.date ∧ st.2.snippet = m.snippet
  earliest : ∃ m ∈ ms, (∀ m' ∈ ms, m.date ≤ m'.date) ∧ st.1 = m.date ∧ st.2.subject = m.subject

theorem Folded.add (h : Folded ms st) (m : MessageMeta) : Folded (ms ++ [m]) (addMessage st m) := by
  have hlast : m ∈ ms ++ [m] := mem_append_right _ (mem_singleton.mpr rfl)
  obtain ⟨l, hl, hmax, hdate, hsnippet⟩ := h.latest
  obtain ⟨f, hf, hmin, hdate', hsubject⟩ := h.earliest
  constructor
  · by_cases hlt : st.2.lastDate < m.date
    · refine ⟨m, hlast, forall_mem_append.mpr ⟨fun m' hm' => ?_, by simp⟩, if_pos hlt, if_pos hlt⟩
      have := hmax m' hm'
      omega
    · refine ⟨l, mem_append_left _ hl, forall_mem_append.mpr ⟨hmax, ?_⟩,
        (if_neg hlt).trans hdate, (if_neg hlt).trans hsnippet⟩
      rw [forall_mem_singleton]
      omega
  · by_cases hlt : m.date < st.1
    · refine ⟨m, hlast, forall_mem_append.mpr ⟨fun m' hm' => ?_, by simp⟩, if_pos hlt, if_pos hlt⟩
      have := hmin m' hm'
      omega
    · refine ⟨f, mem_append_left _ hf, forall_mem_append.mpr ⟨hmin, ?_⟩,
        (if_neg hlt).trans hdate', (if_neg hlt).trans hsubject⟩
      rw [forall_mem_singleton]
      omega

theorem Folded.addAll (h : Folded ms st) (rest : List MessageMeta) :
    Folded (ms ++ rest) (rest.foldl addMessage st) := by
  induction rest generalizing ms st with
  | nil => rwa [append_nil]
  | cons m rest ih =>
    rw [← singleton_append, ← append_assoc]
    exact ih (h.add m)

theorem computeFromMessages_summarizes (first : MessageMeta) (rest : List MessageMeta) :
    Summarizes (first :: rest) (computeFromMessages first rest) := by
  have hcounts := addMessages_spec rest (first.date, ⟨first.subject, first.snippet, first.date,
    rest.length + 1, first.isRead, first.isStarred, first.hasAttachments⟩)
  have hfolded : Folded [first] (first.date, ⟨first.subject, first.snippet, first.date, rest.length + 1,
      first.isRead, first.isStarred, first.hasAttachments⟩) := by
    constructor
    · exact ⟨first, by simp, by simp, rfl, rfl⟩
    · exact ⟨first, by simp, by simp, rfl, rfl⟩
  obtain ⟨hlatest, m, hm, hmin, -, hsubject⟩ := hfolded.addAll rest
  injection hcounts with hcount hread hstarred hattached
  exact ⟨hcount, hread, hstarred, hattached, hlatest, m, hm, hmin, hsubject⟩

/-- Whether a message has an attachment of its own account. -/
def attachedTo (mail : MessageTables) (key : AccountId × MessageId) : Bool :=
  mail.attachments.rows.any fun a => (a.2.accountId, a.2.messageId) = key

/-- What a row says of its message: `NULL` is no snippet, a read message and one that is not starred. -/
def storedMeta (mail : MessageTables) (m : (AccountId × MessageId) × MessageRow) : MessageMeta where
  id := m.1.2
  subject := m.2.subject
  snippet := m.2.snippet.getD ""
  date := m.2.date
  isRead := m.2.isRead ≠ some 0
  isStarred := m.2.isStarred = some 1
  hasAttachments := attachedTo mail m.1

/-- If an attachment of any account names one of these messages, one of them has an attachment itself. -/
def OwnAttachments (mail : MessageTables) (messages : List ((AccountId × MessageId) × MessageRow)) : Prop :=
  (∃ a ∈ mail.attachments.rows, ∃ m ∈ messages, a.2.messageId = m.1.2) →
    ∃ m ∈ messages, attachedTo mail m.1 = true

theorem latestRow_cases (h : messages ≠ []) :
    ∃ m ∈ messages, latestRow messages = some m.2 ∧ ∀ m' ∈ messages, m'.2.date ≤ m.2.date := by
  have hne : messages.map Prod.snd ≠ [] := fun hnil => h (map_eq_nil_iff.mp hnil)
  obtain ⟨row, hrow, hlast, hmax⟩ := @Lib.head_insertionSort _ (fun a b => b.date ≤ a.date) _ _ _ _ hne
  obtain ⟨m, hm, rfl⟩ := mem_map.mp hrow
  exact ⟨m, hm, hlast, fun m' hm' => hmax m'.2 (mem_map_of_mem hm')⟩

theorem earliestRow_cases (h : messages ≠ []) :
    ∃ m ∈ messages, earliestRow messages = some m.2 ∧ ∀ m' ∈ messages, m.2.date ≤ m'.2.date := by
  have hne : (messages.map Prod.snd).reverse ≠ [] := by simpa using h
  obtain ⟨row, hrow, hfirst, hmin⟩ := @Lib.head_insertionSort _ (fun a b => a.date ≤ b.date) _ _ _ _ hne
  obtain ⟨m, hm, rfl⟩ := mem_map.mp (mem_reverse.mp hrow)
  exact ⟨m, hm, hfirst, fun m' hm' => hmin m'.2 (mem_reverse.mpr (mem_map_of_mem hm'))⟩

theorem joinAttachments_pos_iff (mail : MessageTables)
    (messages : List ((AccountId × MessageId) × MessageRow)) : 0 < (joinAttachments mail messages).length ↔
      ∃ a ∈ mail.attachments.rows, ∃ m ∈ messages, a.2.messageId = m.1.2 := by
  rw [length_pos_iff_exists_mem]
  constructor
  · rintro ⟨pair, hpair⟩
    obtain ⟨a, ha, hin⟩ := mem_flatMap.mp hpair
    obtain ⟨m, hm, -⟩ := mem_map.mp hin
    obtain ⟨hm, hid⟩ := mem_filter.mp hm
    exact ⟨a, ha, m, hm, of_decide_eq_true hid⟩
  · rintro ⟨a, ha, m, hm, hid⟩
    exact ⟨(a, m), mem_flatMap.mpr ⟨a, ha, mem_map_of_mem (mem_filter.mpr ⟨hm, decide_eq_true hid⟩)⟩⟩

theorem joined_of_attachedTo (h : ∃ m ∈ messages, attachedTo mail m.1 = true) :
    ∃ a ∈ mail.attachments.rows, ∃ m ∈ messages, a.2.messageId = m.1.2 := by
  obtain ⟨m, hm, hattached⟩ := h
  obtain ⟨a, ha, hkey⟩ := any_eq_true.mp hattached
  exact ⟨a, ha, m, hm, congrArg Prod.snd (of_decide_eq_true hkey)⟩

theorem computeThreadAggregate_none (h : plainOf mail account thread = []) :
    computeThreadAggregate mail account thread = .error "get latest message: Query returned no rows" := by
  rw [computeThreadAggregate, h]
  rfl

/-- The queries summarize the stored messages, unless the only attachments are those of another account. -/
theorem computeThreadAggregate_summarizes_iff (h : plainOf mail account thread ≠ []) :
    ∃ a, computeThreadAggregate mail account thread = .ok a ∧
      (Summarizes ((plainOf mail account thread).map (storedMeta mail)) a ↔
        OwnAttachments mail (plainOf mail account thread)) := by
  obtain ⟨l, hl, hlatest, hmax⟩ := latestRow_cases h
  obtain ⟨f, hf, hearliest, hmin⟩ := earliestRow_cases h
  generalize hmessages : plainOf mail account thread = messages at *
  have hread : decide (messages.countP (fun m => m.2.isRead = some 0) = 0) =
      (messages.map (storedMeta mail)).all MessageMeta.isRead := by
    rw [Bool.eq_iff_iff, decide_eq_true_iff, all_map]
    simp [storedMeta]
  have hstarred : decide (0 < messages.countP fun m => m.2.isStarred = some 1) =
      (messages.map (storedMeta mail)).any MessageMeta.isStarred := by
    rw [Bool.eq_iff_iff, decide_eq_true_iff, any_map]
    simp [storedMeta]
  have hown : (messages.map (storedMeta mail)).any MessageMeta.hasAttachments = true ↔
      ∃ m ∈ messages, attachedTo mail m.1 = true := by
    rw [any_map, any_eq_true]
    rfl
  refine ⟨_, by rw [computeThreadAggregate, hmessages, hlatest, hearliest], ?_⟩
  constructor
  · intro hsummary hjoined
    have hattached := hsummary.hasAttachments
    rw [decide_eq_true ((joinAttachments_pos_iff mail messages).mpr hjoined)] at hattached
    exact hown.mp hattached.symm
  · intro hattachments
    refine ⟨(length_map ..).symm, hread, hstarred, ?_, ?_, ?_⟩
    · rw [Bool.eq_iff_iff, hown, decide_eq_true_iff, joinAttachments_pos_iff]
      exact ⟨hattachments, joined_of_attachedTo⟩
    · refine ⟨storedMeta mail l, mem_map_of_mem hl, ?_, rfl, rfl⟩
      rintro m' hm'
      obtain ⟨m, hm, rfl⟩ := mem_map.mp hm'
      exact hmax m hm
    · refine ⟨storedMeta mail f, mem_map_of_mem hf, ?_, rfl⟩
      rintro m' hm'
      obtain ⟨m, hm, rfl⟩ := mem_map.mp hm'
      exact hmin m hm

/-! ## Agreement -/

/-- The columns that a message of a thread is stored with. -/
structure Stores (thread : ThreadId) (row : MessageRow) (m : MessageMeta) : Prop where
  threadId : row.threadId = thread
  subject : row.subject = m.subject
  snippet : row.snippet.getD "" = m.snippet
  date : row.date = m.date
  isRead : row.isRead = some (if m.isRead then 1 else 0)
  isStarred : row.isStarred = some (if m.isStarred then 1 else 0)
  isReaction : row.isReaction = 0

/-- The messages of a thread, reactions left out, and which of them have attachments. Of any other row, it
says nothing. -/
structure StoredAs (mail : MessageTables) (account : AccountId) (thread : ThreadId) (ms : List MessageMeta) :
    Prop where
  nodup : (ms.map MessageMeta.id).Nodup
  rows : ∀ m ∈ ms, ∃ row, mail.messages.lookup (account, m.id) = some row ∧ Stores thread row m
  all : ∀ id row, mail.messages.lookup (account, id) = some row → row.threadId = thread →
    row.isReaction = 0 → ∃ m ∈ ms, m.id = id
  attachments : ∀ m ∈ ms, m.hasAttachments = attachedTo mail (account, m.id)

theorem mem_messagesOf : m ∈ messagesOf mail account thread ↔
      mail.messages.lookup m.1 = some m.2 ∧ m.2.threadId = thread ∧ m.1.1 = account := by
  rw [messagesOf, mem_filter, decide_eq_true_iff, ← Table.mem_rows]

theorem mem_plainOf :
    m ∈ plainOf mail account thread ↔ m ∈ messagesOf mail account thread ∧ m.2.isReaction = 0 := by
  rw [plainOf, mem_filter, decide_eq_true_iff]

theorem plainOf_nodup (mail : MessageTables) (account : AccountId) (thread : ThreadId) :
    ((plainOf mail account thread).map fun m => m.1.2).Nodup := by
  have hkeys : ((plainOf mail account thread).map Prod.fst).Nodup :=
    (Table.rows_keys_nodup mail.messages).sublist
      ((List.filter_sublist.trans filter_sublist).map Prod.fst)
  rw [show (fun m : (AccountId × MessageId) × MessageRow => m.1.2) = Prod.snd ∘ Prod.fst from rfl,
    ← map_map]
  refine hkeys.map_on fun k hk k' hk' heq => ?_
  obtain ⟨m, hm, rfl⟩ := mem_map.mp hk
  obtain ⟨m', hm', rfl⟩ := mem_map.mp hk'
  have haccount := (mem_messagesOf.mp (mem_plainOf.mp hm).1).2.2
  have haccount' := (mem_messagesOf.mp (mem_plainOf.mp hm').1).2.2
  exact Prod.ext (haccount.trans haccount'.symm) heq

section Stored

variable {mail : MessageTables} {account : AccountId} {thread : ThreadId} {ms : List MessageMeta}

theorem StoredAs.meta_eq (h : StoredAs mail account thread ms) {m : MessageMeta} (hm : m ∈ ms)
    {row : MessageRow} (hrow : mail.messages.lookup (account, m.id) = some row) :
    storedMeta mail ((account, m.id), row) = m := by
  obtain ⟨row', hrow', hstores⟩ := h.rows m hm
  obtain rfl := Option.some.inj (hrow.symm.trans hrow')
  have hattached := h.attachments m hm
  obtain ⟨id, subject, snippet, date, isRead, isStarred, hasAttachments⟩ := m
  obtain ⟨-, hsubject, hsnippet, hdate, hread, hstarred, -⟩ := hstores
  dsimp only at *
  rw [storedMeta]
  rw [hsubject, hsnippet, hdate, hread, hstarred, hattached]
  cases isRead <;> cases isStarred <;> rfl

theorem StoredAs.perm (h : StoredAs mail account thread ms) :
    ((plainOf mail account thread).map (storedMeta mail)).Perm ms := by
  have hplain : ((plainOf mail account thread).map (storedMeta mail)).Nodup := by
    refine List.Nodup.of_map MessageMeta.id ?_
    rw [map_map]
    exact plainOf_nodup mail account thread
  refine (perm_ext_iff_of_nodup hplain (.of_map MessageMeta.id h.nodup)).mpr fun m => ?_
  rw [mem_map]
  constructor
  · rintro ⟨⟨⟨account', id⟩, row⟩, hrow, rfl⟩
    obtain ⟨hmem, hreaction⟩ := mem_plainOf.mp hrow
    obtain ⟨hlookup, hthread, rfl⟩ := mem_messagesOf.mp hmem
    obtain ⟨m, hm, rfl⟩ := h.all id row hlookup hthread hreaction
    rw [h.meta_eq hm hlookup]
    exact hm
  · intro hm
    obtain ⟨row, hrow, hstores⟩ := h.rows m hm
    refine ⟨((account, m.id), row), ?_, h.meta_eq hm hrow⟩
    exact mem_plainOf.mpr ⟨mem_messagesOf.mpr ⟨hrow, hstores.threadId, rfl⟩, hstores.isReaction⟩

theorem StoredAs.ownAttachments_iff (h : StoredAs mail account thread ms) :
    OwnAttachments mail (plainOf mail account thread) ↔
      ((∃ a ∈ mail.attachments.rows, ∃ m ∈ ms, a.2.messageId = m.id) →
        ∃ m ∈ ms, m.hasAttachments = true) := by
  have hsome : ∀ p : MessageMeta → Prop,
      (∃ m ∈ ms, p m) ↔ ∃ m ∈ plainOf mail account thread, p (storedMeta mail m) := by
    intro p
    simp [← h.perm.mem_iff]
  simp only [hsome]
  rfl

/-- The two ways to an aggregate agree unless an attachment of another account names one of the messages
and none of them has an attachment itself. -/
theorem aggregates_agree_iff {first : MessageMeta} {rest : List MessageMeta}
    (hstored : StoredAs mail account thread (first :: rest))
    (hdates : ((first :: rest).map MessageMeta.date).Nodup) :
    computeThreadAggregate mail account thread = .ok (computeFromMessages first rest) ↔
      ((∃ a ∈ mail.attachments.rows, ∃ m ∈ first :: rest, a.2.messageId = m.id) →
        ∃ m ∈ first :: rest, m.hasAttachments = true) := by
  have hne : plainOf mail account thread ≠ [] := by
    intro hnil
    have hperm := hstored.perm
    rw [hnil] at hperm
    exact absurd (nil_perm.mp hperm) (cons_ne_nil _ _)
  obtain ⟨a, ha, hsummary⟩ := computeThreadAggregate_summarizes_iff hne
  rw [← hstored.ownAttachments_iff, ← hsummary, ha, Except.ok.injEq]
  constructor
  · rintro rfl
    exact (computeFromMessages_summarizes first rest).perm hstored.perm.symm
  · intro h
    exact (h.perm hstored.perm).unique hdates (computeFromMessages_summarizes first rest)

end Stored

/-- A message that two accounts have; its attachment is stored for the second one. -/
def twoAccounts : MessageTables where
  messages :=
    ⟨[⟨("a", "m"), ⟨"t", none, none, none, none, none, none, 1, some 1, some 0, 0, none⟩⟩,
      ⟨("b", "m"), ⟨"t", none, none, none, none, none, none, 1, some 1, some 0, 0, none⟩⟩],
      by simp [List.NodupKeys]⟩
  attachments := ⟨[⟨"b_m_1", ⟨"b", "m"⟩⟩], by simp [List.NodupKeys]⟩
  messageFolders := ∅
  messageLabels := ∅
  messageKeywords := ∅
  folders := ∅
  imapFolderPath _ := none
  labels := ∅
  folders_there := by simp
  labels_there := by simp

theorem twoAccounts_stored (h : account = "a" ∨ account = "b") :
    StoredAs twoAccounts account "t" [⟨"m", none, "", 1, true, false, attachedTo twoAccounts (account, "m")⟩]
    where
  nodup := by simp
  rows m hm := by
    obtain rfl := mem_singleton.mp hm
    rcases h with rfl | rfl
    · exact ⟨_, rfl, rfl, rfl, rfl, rfl, rfl, rfl, rfl⟩
    · exact ⟨_, rfl, rfl, rfl, rfl, rfl, rfl, rfl, rfl⟩
  all id row hrow _ _ := by
    have hmem := Table.mem_rows.mpr hrow
    refine ⟨_, mem_singleton.mpr rfl, ?_⟩
    rcases mem_cons.mp hmem with heq | hrest
    · cases heq
      rfl
    · cases mem_singleton.mp hrest
      rfl
  attachments m hm := by
    obtain rfl := mem_singleton.mp hm
    rfl

theorem aggregates_agree_attached : computeThreadAggregate twoAccounts "b" "t" =
      .ok (computeFromMessages ⟨"m", none, "", 1, true, false, true⟩ []) :=
  (aggregates_agree_iff (twoAccounts_stored (.inr rfl)) (by simp)).mpr fun _ =>
    ⟨_, mem_singleton.mpr rfl, rfl⟩

theorem foreign_attachment_leaks :
    ¬∀ (mail : MessageTables) (account : AccountId) (thread : ThreadId) (first : MessageMeta)
      (rest : List MessageMeta), StoredAs mail account thread (first :: rest) →
      ((first :: rest).map MessageMeta.date).Nodup →
      computeThreadAggregate mail account thread = .ok (computeFromMessages first rest) := by
  intro hall
  have h := hall twoAccounts "a" "t" _ [] (twoAccounts_stored (.inl rfl)) (by simp)
  exact absurd h (by decide +kernel)

end Ratatoskr.Mail.Accounts
