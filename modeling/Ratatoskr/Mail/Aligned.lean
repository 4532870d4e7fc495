import Ratatoskr.Mail.Drives

/-!
# Mail.Aligned

The rows that an IMAP batch hands to the threading and the ids it hands them under
(`push_rows_with_ids` after `persist_in_namespace`). The ids are those of the rows that were written,
the rows are all of the batch.

* `persist_columns` : what a batch leaves under an id.
* `aligned_iff` : when every row goes under the id it is stored with, and every stored row goes in.
-/

namespace Ratatoskr.Mail

open List
open Actions (NamespaceAttribution)

variable {db db' : Tables} {ns : NamespaceAttribution} {rows : List ConsumerMessageRow}
  {deleted : List DeletedId} {id : MessageId}

/-- The last row of an id decides; without one the table does. -/
theorem lookup_insertMessages (db : Tables) (rows : List ConsumerMessageRow) (id : MessageId) :
    (id ∉ rows.map ConsumerMessageRow.id ∧
      (insertMessages db rows).messages.lookup id = db.messages.lookup id) ∨ ∃ row ∈ rows, row.id = id ∧
      (insertMessages db rows).messages.lookup id = some ⟨row.message, false, ∅, ∅, ∅⟩ := by
  induction rows generalizing db with
  | nil => exact .inl ⟨not_mem_nil, rfl⟩
  | cons first rest ih =>
    have hfirst := Lib.Table.lookup_insert_if db.messages id first.id ⟨first.message, false, ∅, ∅, ∅⟩
    rcases ih (insertMessage db first.id first.message) with ⟨hrest, hlookup⟩ | ⟨row, hrow, hid, hlookup⟩
    · by_cases h : id = first.id
      · refine .inr ⟨first, mem_cons_self, h.symm, ?_⟩
        exact hlookup.trans (hfirst.trans (if_pos h))
      · refine .inl ⟨?_, hlookup.trans ?_⟩
        · rw [map_cons, mem_cons, not_or]
          exact ⟨h, hrest⟩
        · exact hfirst.trans (if_neg h)
    · exact .inr ⟨row, mem_cons_of_mem _ hrow, hid, hlookup⟩

theorem lookup_incoming (db : Tables) (ns : NamespaceAttribution) (rows : List ConsumerMessageRow)
    (id : MessageId) :
    (id ∉ (writtenRows db .imap ns rows).map ConsumerMessageRow.id ∧
      (incoming db .imap ns rows).messages.lookup id = db.messages.lookup id) ∨
    ∃ row ∈ writtenRows db .imap ns rows, row.id = id ∧
      (incoming db .imap ns rows).messages.lookup id = some ⟨row.message, false, ∅, ∅, ∅⟩ := by
  rw [incoming, ← (insertPlaceholders_rest db (writtenRows db .imap ns rows)).1]
  exact lookup_insertMessages _ _ id

theorem persist_columns (h : persistInNamespace db .imap ns rows deleted = .ok db') (id : MessageId) :
    (db'.messages.lookup id).map Message.columns =
      if id ∈ resolveDeletedIds db .imap deleted then none
      else ((incoming db .imap ns rows).messages.lookup id).map Message.columns := by
  obtain ⟨db₂, db₃, h₂, h₃, h₄⟩ := persistInNamespace_stages.mp h
  cases h₃
  have hskeleton : skeleton db' = remaining db .imap ns rows deleted :=
    (cleanupThreads_cleaned h₄).same.skeleton.trans (skeleton_remaining (writeRows_untouched h₂).1)
  refine Option.ext fun c => ?_
  rw [← mem_skeleton, hskeleton, remaining, mem_filter, mem_skeleton, decide_eq_true_eq]
  split
  · rename_i hin
    exact ⟨fun hc => absurd hin hc.2, nofun⟩
  · rename_i hout
    exact ⟨And.left, fun hc => ⟨hc, hout⟩⟩

/-- `affected.message_ids`. -/
def messageIds (db : Tables) (ns : NamespaceAttribution) (rows : List ConsumerMessageRow) : List MessageId :=
  (writtenRows db .imap ns rows).map ConsumerMessageRow.id

def accumulated (db : Tables) (b : MailBatch) : List (MessageId × ConsumerMessageRow) :=
  (messageIds db b.ns b.rows).zip b.rows

theorem takeBatch_ok {acc acc' : List ImapThreadPartition} {b : MailBatch}
    (h : takeBatch (db, acc) b = .ok (db', acc')) :
    persistInNamespace db .imap b.ns b.rows b.deleted = .ok db' ∧
      acc' = pushRowsWithIds acc b.rows (messageIds db b.ns b.rows) b.ns := by
  rw [takeBatch] at h
  split at h
  · cases h
  · rename_i hpersist
    cases h
    exact ⟨hpersist, rfl⟩

def isKept (db : Tables) (ns : NamespaceAttribution) (row : ConsumerMessageRow) : Bool :=
  inNamespace db ns (adoptExistingImapIdentity db row)

/-- The message under `id` is the one that the row at `i` wrote. -/
structure StoredFrom (db db' : Tables) (ns : NamespaceAttribution) (rows : List ConsumerMessageRow)
    (i : Nat) (id : MessageId) : Prop where
  row : ∃ row, rows[i]? = some row ∧ isKept db ns row = true ∧
    (adoptExistingImapIdentity db row).id = id ∧
    (db'.messages.lookup id).map Message.columns = some (adoptExistingImapIdentity db row).message
  last : ∀ j row, i < j → rows[j]? = some row → isKept db ns row = true →
    (adoptExistingImapIdentity db row).id ≠ id

structure Aligned (db db' : Tables) (b : MailBatch) : Prop where
  stored : ∀ i id row, (accumulated db b)[i]? = some (id, row) → StoredFrom db db' b.ns b.rows i id
  complete : ∀ i id, StoredFrom db db' b.ns b.rows i id →
    ∃ row, b.rows[i]? = some row ∧ (accumulated db b)[i]? = some (id, row)

/-- The batch drops no row before one it keeps, keeps no two rows of one id, and deletes none that it
keeps. -/
structure Undisturbed (db : Tables) (b : MailBatch) : Prop where
  front : ∀ row ∈ b.rows.dropWhile (isKept db b.ns), isKept db b.ns row = false
  once : (messageIds db b.ns b.rows).Nodup
  stays : ∀ id ∈ messageIds db b.ns b.rows, id ∉ resolveDeletedIds db .imap b.deleted

theorem messageIds_eq (db : Tables) (ns : NamespaceAttribution) (rows : List ConsumerMessageRow) :
    messageIds db ns rows =
      (rows.filter (isKept db ns)).map (fun row => (adoptExistingImapIdentity db row).id) := by
  rw [messageIds, writtenRows, if_pos rfl, filter_map, map_map]
  rfl

section Front

variable {b : MailBatch}

theorem accumulated_getElem? {i : Nat} {row : ConsumerMessageRow} : (accumulated db b)[i]? = some (id, row) ↔
      (messageIds db b.ns b.rows)[i]? = some id ∧ b.rows[i]? = some row := by
  rw [accumulated, getElem?_zip_eq_some]

/-- Behind a dropped row the ids are those of later rows. -/
theorem Aligned.front (h : Aligned db db' b) :
    ∀ row ∈ b.rows.dropWhile (isKept db b.ns), isKept db b.ns row = false := by
  intro row hrow
  by_contra hkept
  rw [Bool.not_eq_false] at hkept
  obtain ⟨dropped, rest, hrest⟩ : ∃ dropped rest, b.rows.dropWhile (isKept db b.ns) = dropped :: rest := by
    cases hd : b.rows.dropWhile (isKept db b.ns) with
    | nil =>
      rw [hd] at hrow
      cases hrow
    | cons dropped rest => exact ⟨dropped, rest, rfl⟩
  have hdropped : isKept db b.ns dropped = false := by
    have hhead := head?_dropWhile_not (isKept db b.ns) b.rows
    rw [hrest] at hhead
    exact hhead
  have hsplit := takeWhile_append_dropWhile (p := isKept db b.ns) (l := b.rows)
  rw [hrest] at hsplit hrow
  obtain ⟨x, xs, hlater⟩ : ∃ x xs, rest.filter (isKept db b.ns) = x :: xs := by
    have hmem : row ∈ rest.filter (isKept db b.ns) := by
      refine mem_filter.mpr ⟨?_, hkept⟩
      rcases mem_cons.mp hrow with rfl | hin
      · rw [hdropped] at hkept
        cases hkept
      · exact hin
    exact exists_cons_of_ne_nil (ne_nil_of_mem hmem)
  have hfilter : b.rows.filter (isKept db b.ns) = b.rows.takeWhile (isKept db b.ns) ++ x :: xs := by
    conv_lhs => rw [← hsplit]
    rw [filter_append, filter_cons_of_neg (by rw [hdropped]; decide), hlater,
      filter_eq_self.mpr (fun r hr => mem_takeWhile_imp hr)]
  have hid : (messageIds db b.ns b.rows)[(b.rows.takeWhile (isKept db b.ns)).length]? =
      some (adoptExistingImapIdentity db x).id := by
    rw [messageIds_eq, hfilter, getElem?_map, getElem?_append_right (Nat.le_refl _), Nat.sub_self]
    rfl
  have hat : b.rows[(b.rows.takeWhile (isKept db b.ns)).length]? = some dropped := by
    have hfront := @List.getElem?_append_right _ (b.rows.takeWhile (isKept db b.ns)) (dropped :: rest)
      _ (Nat.le_refl _)
    rw [hsplit, Nat.sub_self] at hfront
    exact hfront
  obtain ⟨r, hr, hk, -, -⟩ := (h.stored _ _ _ (accumulated_getElem?.mpr ⟨hid, hat⟩)).row
  rw [hat] at hr
  cases hr
  rw [hdropped] at hk
  cases hk

/-- The rows that are kept stand in front, each beside its own id. -/
theorem messageIds_getElem? (hfront : ∀ row ∈ b.rows.dropWhile (isKept db b.ns), isKept db b.ns row = false)
    (i : Nat) : (messageIds db b.ns b.rows)[i]? = some id ↔ ∃ row, b.rows[i]? = some row ∧
      isKept db b.ns row = true ∧ (adoptExistingImapIdentity db row).id = id := by
  have hsplit := takeWhile_append_dropWhile (p := isKept db b.ns) (l := b.rows)
  have hfilter : b.rows.filter (isKept db b.ns) = b.rows.takeWhile (isKept db b.ns) := by
    conv_lhs => rw [← hsplit]
    rw [filter_append, filter_eq_self.mpr (fun r hr => mem_takeWhile_imp hr),
      filter_eq_nil_iff.mpr (fun r hr => by rw [hfront r hr]; decide), append_nil]
  rw [messageIds_eq, hfilter, getElem?_map, Option.map_eq_some_iff]
  constructor
  · rintro ⟨row, hrow, rfl⟩
    have hlt := (List.getElem?_eq_some_iff.mp hrow).1
    refine ⟨row, ?_, mem_takeWhile_imp (mem_of_getElem? hrow), rfl⟩
    conv_lhs => rw [← hsplit]
    rw [getElem?_append_left hlt]
    exact hrow
  · rintro ⟨row, hrow, hkept, rfl⟩
    refine ⟨row, ?_, rfl⟩
    rw [← hsplit, getElem?_append] at hrow
    split at hrow
    · exact hrow
    · rw [hfront row (mem_of_getElem? hrow)] at hkept
      cases hkept

theorem lookup_kept (hpersist : persistInNamespace db .imap b.ns b.rows b.deleted = .ok db')
    (h : Undisturbed db b) {row : ConsumerMessageRow} (hrow : row ∈ b.rows)
    (hkept : isKept db b.ns row = true) :
    (db'.messages.lookup (adoptExistingImapIdentity db row).id).map Message.columns =
      some (adoptExistingImapIdentity db row).message := by
  have hwritten : adoptExistingImapIdentity db row ∈ writtenRows db .imap b.ns b.rows := by
    exact mem_filter.mpr ⟨mem_map_of_mem hrow, hkept⟩
  have hid := mem_map_of_mem (f := ConsumerMessageRow.id) hwritten
  rw [persist_columns hpersist, if_neg (h.stays _ hid)]
  rcases lookup_incoming db b.ns b.rows (adoptExistingImapIdentity db row).id with
    ⟨hout, -⟩ | ⟨other, hother, heq, hlookup⟩
  · exact absurd hid hout
  · rw [hlookup, inj_on_of_nodup_map h.once hother hwritten heq]
    rfl

/-- The ids of an IMAP batch fall to their rows exactly when nothing disturbs them. -/
theorem aligned_iff {acc acc' : List ImapThreadPartition} (h : takeBatch (db, acc) b = .ok (db', acc')) :
    Aligned db db' b ↔ Undisturbed db b := by
  obtain ⟨hpersist, -⟩ := takeBatch_ok h
  constructor
  · intro ha
    have hstored : ∀ i id, (messageIds db b.ns b.rows)[i]? = some id → StoredFrom db db' b.ns b.rows i id := by
      intro i id hi
      obtain ⟨row, hrow, -, -⟩ := (messageIds_getElem? ha.front i).mp hi
      exact ha.stored i id row (accumulated_getElem?.mpr ⟨hi, hrow⟩)
    refine ⟨ha.front, ?_, ?_⟩
    · rw [nodup_iff_getElem?_ne_getElem?]
      intro i j hij hj heq
      have hi := heq.trans (getElem?_eq_getElem hj)
      obtain ⟨row, hrow, hkept, hid⟩ :=
        (messageIds_getElem? ha.front j).mp (getElem?_eq_getElem hj)
      exact (hstored i _ hi).last j row hij hrow hkept hid
    · intro id hid hdeleted
      obtain ⟨i, hi⟩ := mem_iff_getElem?.mp hid
      obtain ⟨row, -, -, -, hlookup⟩ := (hstored i id hi).row
      rw [persist_columns hpersist, if_pos hdeleted] at hlookup
      cases hlookup
  · intro hu
    refine ⟨?_, ?_⟩
    · intro i id row hp
      obtain ⟨hi, -⟩ := accumulated_getElem?.mp hp
      obtain ⟨row, hrow, hkept, rfl⟩ := (messageIds_getElem? hu.front i).mp hi
      refine ⟨⟨row, hrow, hkept, rfl, lookup_kept hpersist hu (mem_of_getElem? hrow) hkept⟩, ?_⟩
      intro j other hij hother hkept' heq
      have hj := (messageIds_getElem? hu.front j).mpr ⟨other, hother, hkept', heq⟩
      have hlt := (List.getElem?_eq_some_iff.mp hj).1
      exact nodup_iff_getElem?_ne_getElem?.mp hu.once i j hij hlt (hi.trans hj.symm)
    · intro i id hs
      obtain ⟨row, hrow, hkept, hid, -⟩ := hs.row
      exact ⟨row, hrow, accumulated_getElem?.mpr
        ⟨(messageIds_getElem? hu.front i).mpr ⟨row, hrow, hkept, hid⟩, hrow⟩⟩

end Front

/-! ## One mailbox in two namespaces -/

theorem inbox_aligned : ∃ db' acc', takeBatch (inbox, []) ⟨.personal, [topic, reply], []⟩ = .ok (db', acc') ∧
    (Aligned inbox db' ⟨.personal, [topic, reply], []⟩ ↔
      Undisturbed inbox ⟨.personal, [topic, reply], []⟩) := by
  have h : ∃ r, takeBatch (inbox, []) ⟨.personal, [topic, reply], []⟩ = .ok r := ⟨_, rfl⟩
  obtain ⟨⟨db', acc'⟩, h⟩ := h
  exact ⟨db', acc', h, aligned_iff h⟩

def teamRow (id : String) (uid : Int) : ConsumerMessageRow :=
  { topicRow id "c@x" none uid 30 with
    message := { (topicRow id "c@x" none uid 30).message with threadId := "shared:team:t" } }

def teamBatch : MailBatch :=
  ⟨.shared "team", [teamRow "shared:team:a" 1, teamRow "shared:team:b" 3], []⟩

/-- The dropped row goes in under the id of the row behind it, which is left out. -/
theorem dropped_row_shifts : ¬∀ (db db' : Tables) (acc acc' : List ImapThreadPartition) (b : MailBatch),
      takeBatch (db, acc) b = .ok (db', acc') → Aligned db db' b := by
  intro hall
  have hrun : ∃ r, takeBatch (topicStored, []) teamBatch = .ok r := ⟨_, rfl⟩
  obtain ⟨⟨db', acc'⟩, h⟩ := hrun
  obtain ⟨row, hrow, hkept, -, -⟩ :=
    ((hall topicStored db' [] acc' teamBatch h).stored 0 "shared:team:b" _ rfl).row
  cases hrow
  exact absurd hkept (by decide)

end Ratatoskr.Mail
