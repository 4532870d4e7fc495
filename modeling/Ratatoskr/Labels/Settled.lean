import Ratatoskr.Labels.Tables

/-!
# Labels.Settled

A thread is settled when its rows of `thread_labels` are the union of what its messages carry.
`recompute_thread_labels_from_messages` and the two repairs built on it settle one thread and leave the
rest of the tables alone.

* `Resettles.foldl` : several threads in a row.
* `recompute_settled`, `cleanup_settled`, `repair_settled` : the three functions.
-/

namespace Ratatoskr.Labels

open Lib (Table)

/-- `kw:` and the keyword. -/
def keywordText (keyword : String) : LabelId := String.ofList (keywordPrefix ++ keyword.toList)

/-- The message has a row for this label in one of the two tables. -/
def Carries (db : Tables) (message : MessageId) (label : LabelId) : Prop :=
  (message, label) ∈ db.messageLabels ∨ ∃ keyword, db.messageKeywords.lookup (message, label) = some keyword

def Settled (db : Tables) (thread : ThreadId) : Prop :=
  ∀ label, (thread, label) ∈ db.threadLabels ↔
    ∃ message, db.messages.lookup message = some thread ∧ Carries db message label

def HasMessages (db : Tables) (thread : ThreadId) : Prop :=
  ∃ message, db.messages.lookup message = some thread

/-- The label id of a keyword row is that of its keyword. -/
def Encoded (db : Tables) : Prop :=
  ∀ message label keyword, db.messageKeywords.lookup (message, label) = some keyword →
    label = keywordText keyword

structure Derived (db : Tables) : Prop where
  encoded : Encoded db
  settled : ∀ thread, HasMessages db thread → Settled db thread

section Reading

variable {db db' : Tables} {thread : ThreadId}

theorem mem_messagesOf {message : MessageId} :
    message ∈ messagesOf db thread ↔ db.messages.lookup message = some thread := by
  rw [messagesOf, List.mem_map]
  constructor
  · rintro ⟨⟨m, t⟩, hm, rfl⟩
    obtain ⟨hrow, ht⟩ := List.mem_filter.mp hm
    have ht' : t = thread := by simpa using ht
    subst ht'
    exact Table.mem_rows.mp hrow
  · intro h
    exact ⟨(message, thread), List.mem_filter.mpr ⟨Table.mem_rows.mpr h, by simp⟩, rfl⟩

theorem hasMessages_iff : HasMessages db thread ↔ messagesOf db thread ≠ [] := by
  rw [Ne, List.eq_nil_iff_forall_not_mem, not_forall_not]
  exact exists_congr fun _ => mem_messagesOf.symm

theorem mem_keywordLabelsOf {label : LabelId} : label ∈ keywordLabelsOf db thread ↔
      ∃ m, db.messages.lookup m = some thread ∧ ∃ k, db.messageKeywords.lookup (m, label) = some k := by
  rw [keywordLabelsOf, List.mem_flatMap]
  refine exists_congr fun m => ?_
  rw [mem_messagesOf, List.mem_map]
  refine and_congr_right fun _ => ?_
  constructor
  · rintro ⟨⟨⟨m', l⟩, k⟩, hrow, rfl⟩
    obtain ⟨hmem, hm⟩ := List.mem_filter.mp hrow
    have hm' : m' = m := by simpa using hm
    subst hm'
    exact ⟨k, Table.mem_rows.mp hmem⟩
  · rintro ⟨k, hk⟩
    exact ⟨((m, label), k), List.mem_filter.mpr ⟨Table.mem_rows.mpr hk, by simp⟩, rfl⟩

theorem Settled.congr (h : Settled db thread)
    (hrows : ∀ label, (thread, label) ∈ db'.threadLabels ↔ (thread, label) ∈ db.threadLabels)
    (hmsg : ∀ m, db'.messages.lookup m = some thread ↔ db.messages.lookup m = some thread)
    (hcarry : ∀ m label, db.messages.lookup m = some thread → (Carries db' m label ↔ Carries db m label)) :
    Settled db' thread := by
  intro label
  rw [hrows, h label]
  refine exists_congr fun m => ?_
  rw [hmsg]
  exact and_congr_right fun hm => (hcarry m label hm).symm

@[simp] theorem finalize_threadLabels (db : Tables) (thread : ThreadId) :
    (finalizeProviderTruthLabelMembership db thread).threadLabels = db.threadLabels := rfl

end Reading

section Resettle

/-- `f` changes only rows of its thread at thread level, and settles it if it has messages. -/
structure Resettles (f : Tables → ThreadId → Tables) : Prop where
  messages : ∀ db thread, (f db thread).messages = db.messages
  messageLabels : ∀ db thread, (f db thread).messageLabels = db.messageLabels
  messageKeywords : ∀ db thread, (f db thread).messageKeywords = db.messageKeywords
  others : ∀ db thread other label, other ≠ thread →
    ((other, label) ∈ (f db thread).threadLabels ↔ (other, label) ∈ db.threadLabels)
  settled : ∀ db thread, HasMessages db thread → Settled (f db thread) thread

variable {f : Tables → ThreadId → Tables}

theorem Resettles.carries (hf : Resettles f) (db : Tables) (thread : ThreadId) (m : MessageId)
    (label : LabelId) : Carries (f db thread) m label ↔ Carries db m label := by
  rw [Carries, Carries, hf.messageLabels, hf.messageKeywords]

theorem Resettles.keeps (hf : Resettles f) {db : Tables} {thread other : ThreadId}
    (hne : other ≠ thread) (h : Settled db other) : Settled (f db thread) other := by
  refine h.congr (fun label => hf.others db thread other label hne) (fun m => ?_)
    (fun m label _ => hf.carries db thread m label)
  rw [hf.messages]

theorem Resettles.foldl (hf : Resettles f) (threads : List ThreadId) (db : Tables) :
    (threads.foldl f db).messages = db.messages ∧ (threads.foldl f db).messageLabels = db.messageLabels ∧
    (threads.foldl f db).messageKeywords = db.messageKeywords ∧
    ∀ thread, HasMessages db thread → (thread ∈ threads ∨ Settled db thread) →
      Settled (threads.foldl f db) thread := by
  induction threads generalizing db with
  | nil =>
    refine ⟨rfl, rfl, rfl, fun thread _ h => ?_⟩
    rcases h with hin | hset
    · cases hin
    · exact hset
  | cons t threads ih =>
    obtain ⟨hmsg, hlab, hkw, hset⟩ := ih (f db t)
    refine ⟨hmsg.trans (hf.messages db t), hlab.trans (hf.messageLabels db t),
      hkw.trans (hf.messageKeywords db t), fun thread hhas h => ?_⟩
    have hhas' : HasMessages (f db t) thread := by
      rw [HasMessages, hf.messages]
      exact hhas
    refine hset thread hhas' ?_
    by_cases heq : thread = t
    · exact .inr (heq ▸ hf.settled db t (heq ▸ hhas))
    rcases h with hin | hset'
    · rcases List.mem_cons.mp hin with rfl | hin
      · exact absurd rfl heq
      · exact .inl hin
    · exact .inr (hf.keeps heq hset')

theorem mem_recompute (db : Tables) (thread other : ThreadId) (label : LabelId) :
    (other, label) ∈ (recomputeThreadLabelsFromMessages db thread).threadLabels ↔
      if other = thread then ∃ m, db.messages.lookup m = some thread ∧ Carries db m label
      else (other, label) ∈ db.threadLabels := by
  rw [recomputeThreadLabelsFromMessages, finalize_threadLabels]
  simp only [Finset.mem_union, Finset.mem_filter, Finset.mem_image, List.mem_toFinset, List.mem_map,
    Prod.mk.injEq, mem_messagesOf, mem_keywordLabelsOf]
  by_cases heq : other = thread
  · subst heq
    simp only [ne_eq, not_true_eq_false, and_false, false_or, true_and]
    constructor
    · rintro (⟨⟨m, l⟩, ⟨hrow, hm⟩, rfl⟩ | ⟨l, ⟨m, hm, hk⟩, rfl⟩)
      · exact ⟨m, hm, .inl hrow⟩
      · exact ⟨m, hm, .inr hk⟩
    · rintro ⟨m, hm, hrow | hk⟩
      · exact .inl ⟨(m, label), ⟨hrow, hm⟩, rfl⟩
      · exact .inr ⟨label, ⟨m, hm, hk⟩, rfl⟩
  · rw [if_neg heq]
    constructor
    · rintro ((⟨hrow, -⟩ | ⟨r, -, hthread, -⟩) | ⟨l, -, hthread, -⟩)
      · exact hrow
      · exact absurd hthread.symm heq
      · exact absurd hthread.symm heq
    · intro hrow
      exact .inl (.inl ⟨hrow, heq⟩)

theorem recompute_settled : Resettles recomputeThreadLabelsFromMessages := by
  refine ⟨fun _ _ => rfl, fun _ _ => rfl, fun _ _ => rfl, ?_, ?_⟩
  · intro db thread other label hne
    rw [mem_recompute, if_neg hne]
  · intro db thread _ label
    rw [mem_recompute, if_pos rfl]
    rfl

theorem mem_deleteThread {db : Tables} {thread other : ThreadId} {label : LabelId} (hne : other ≠ thread) :
    (other, label) ∈ (deleteThread db thread).threadLabels ↔ (other, label) ∈ db.threadLabels := by
  simp [deleteThread, hne]

theorem cleanup_settled : Resettles cleanupThread := by
  refine ⟨?_, ?_, ?_, ?_, ?_⟩
  · intro db thread
    rw [cleanupThread]
    split <;> rfl
  · intro db thread
    rw [cleanupThread]
    split <;> rfl
  · intro db thread
    rw [cleanupThread]
    split <;> rfl
  · intro db thread other label hne
    rw [cleanupThread]
    split
    · exact mem_deleteThread hne
    · exact recompute_settled.others db thread other label hne
  · intro db thread hhas
    rw [cleanupThread, if_neg (hasMessages_iff.mp hhas)]
    exact recompute_settled.settled db thread hhas

theorem repair_settled : Resettles repairThread := by
  refine ⟨?_, ?_, ?_, ?_, ?_⟩
  · intro db thread
    rw [repairThread]
    split <;> rfl
  · intro db thread
    rw [repairThread]
    split <;> rfl
  · intro db thread
    rw [repairThread]
    split <;> rfl
  · intro db thread other label hne
    rw [repairThread, recompute_settled.others _ _ _ _ hne]
    split
    · exact mem_deleteThread hne
    · exact Iff.rfl
  · intro db thread hhas
    rw [repairThread, if_neg (hasMessages_iff.mp hhas)]
    exact recompute_settled.settled db thread hhas

end Resettle

end Ratatoskr.Labels
