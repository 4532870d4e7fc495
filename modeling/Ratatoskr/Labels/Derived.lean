import Ratatoskr.Lib.Run
import Ratatoskr.Labels.Settled

/-!
# Labels.Derived

`thread_labels` is derived state. Everything that ends in a recompute restores it by construction;
`confirmed_provider_label_intents` writes both levels, and keeps them alike because a keyword's label id
is `kw:` and the keyword.

* `confirm_settled` : a confirmed intent, which no recompute follows.
* `thread_labels_derived` : what holds after every run.
-/

namespace Ratatoskr.Labels

open List
open Lib (Table Reaches)

section Operations

variable {db db' : Tables}
variable {thread : ThreadId} {label : LabelId} {message m : MessageId} {keywords : List String}

/-- A thread that a change at message level does not reach. -/
structure Untouched (db db' : Tables) (thread : ThreadId) : Prop where
  rows : ∀ label, (thread, label) ∈ db'.threadLabels ↔ (thread, label) ∈ db.threadLabels
  messages : ∀ m, db'.messages.lookup m = some thread ↔ db.messages.lookup m = some thread
  carries : ∀ m label, db.messages.lookup m = some thread → (Carries db' m label ↔ Carries db m label)

theorem Untouched.settled (h : Untouched db db' thread) (hd : Derived db)
    (hhas : HasMessages db' thread) : Settled db' thread := by
  obtain ⟨m, hm⟩ := hhas
  exact (hd.settled thread ⟨m, (h.messages m).mp hm⟩).congr h.rows h.messages h.carries

/-- A change at message level, then the threads it reaches one after the other. -/
theorem Resettles.derived {f : Tables → ThreadId → Tables} (hf : Resettles f) (hd : Derived db)
    (henc : Encoded db') (threads : List ThreadId)
    (hrest : ∀ thread, thread ∉ threads → Untouched db db' thread) : Derived (threads.foldl f db') := by
  obtain ⟨hmsg, -, hkw, hset⟩ := hf.foldl threads db'
  refine ⟨fun m l k hk => henc m l k (by rwa [hkw] at hk), fun thread hhas => ?_⟩
  rw [HasMessages, hmsg] at hhas
  refine hset thread hhas ?_
  by_cases hin : thread ∈ threads
  · exact .inl hin
  · exact .inr ((hrest thread hin).settled hd hhas)

theorem Derived.of_eq (hd : Derived db) (hmsg : db'.messages = db.messages)
    (hlab : db'.messageLabels = db.messageLabels) (hkw : db'.messageKeywords = db.messageKeywords)
    (hthr : db'.threadLabels = db.threadLabels) : Derived db' := by
  obtain ⟨henc, hset⟩ := hd
  refine ⟨by rwa [Encoded, hkw], fun thread hhas => ?_⟩
  rw [HasMessages, hmsg] at hhas
  refine (hset thread hhas).congr (fun l => by rw [hthr]) (fun m => by rw [hmsg]) (fun m l _ => ?_)
  rw [Carries, Carries, hlab, hkw]

theorem keywordOf_keywordText (keyword : String) : keywordOf (keywordText keyword) = some keyword := by
  simp [keywordOf, keywordText, keywordPrefix]

theorem eq_keywordText_of_keywordOf {keyword : String} (h : keywordOf label = some keyword) :
    label = keywordText keyword := by
  rw [keywordOf] at h
  split at h
  · rename_i hpre
    obtain ⟨rest, hrest⟩ := isPrefixOf_iff_prefix.mp hpre
    have hdrop : label.toList.drop 3 = rest := by
      rw [← hrest]
      rfl
    rw [hdrop] at h
    cases h
    rw [keywordText, String.toList_ofList, hrest, String.ofList_toList]
  · cases h

theorem confirmIntent_messages (db : Tables) (thread : ThreadId) (intent : PendingLabelIntent) :
    (confirmIntent db thread intent).messages = db.messages := by
  rw [confirmIntent]
  split <;> rfl

theorem carries_confirm_add (m : MessageId) (l : LabelId) :
    Carries (confirmIntent db thread (label, .add)) m l ↔
      Carries db m l ∨ (l = label ∧ db.messages.lookup m = some thread) := by
  simp only [Carries, confirmIntent, Finset.mem_union, mem_toFinset, mem_map, mem_messagesOf, Prod.mk.injEq]
  constructor
  · rintro ((hrow | ⟨m', hm, rfl, rfl⟩) | hk)
    · exact .inl (.inl hrow)
    · exact .inr ⟨rfl, hm⟩
    · exact .inl (.inr hk)
  · rintro ((hrow | hk) | ⟨rfl, hm⟩)
    · exact .inl (.inl hrow)
    · exact .inr hk
    · exact .inl (.inr ⟨m, hm, rfl, rfl⟩)

/-- A confirmed `remove` takes it off all of them, out of both tables: the keyword it looks for is the
one whose row has this label. -/
theorem carries_confirm_remove (henc : Encoded db) (m : MessageId) (l : LabelId) :
    Carries (confirmIntent db thread (label, .remove)) m l ↔
      Carries db m l ∧ ¬ (l = label ∧ db.messages.lookup m = some thread) := by
  have hkw : (∃ k, (confirmIntent db thread (label, .remove)).messageKeywords.lookup (m, l) = some k) ↔
      (∃ k, db.messageKeywords.lookup (m, l) = some k) ∧
        ¬ (l = label ∧ db.messages.lookup m = some thread) := by
    simp only [confirmIntent]
    cases hof : keywordOf label with
    | none =>
      refine ⟨fun ⟨k, hk⟩ => ⟨⟨k, hk⟩, fun ⟨heq, _⟩ => ?_⟩, fun h => h.1⟩
      rw [← heq, henc m l k hk, keywordOf_keywordText] at hof
      cases hof
    | some keyword =>
      have hlabel := eq_keywordText_of_keywordOf hof
      simp only [Table.lookup_restrict, Option.filter_eq_some_iff, mem_messagesOf,
        Bool.not_eq_true', decide_eq_false_iff_not]
      constructor
      · rintro ⟨k, hk, hne⟩
        refine ⟨⟨k, hk⟩, fun ⟨heq, hm⟩ => hne ⟨?_, hm⟩⟩
        have h1 : keywordOf l = some k := by rw [henc m l k hk, keywordOf_keywordText]
        rw [heq, hof] at h1
        cases h1
        rfl
      · rintro ⟨⟨k, hk⟩, hne⟩
        refine ⟨k, hk, fun ⟨heq, hm⟩ => hne ⟨?_, hm⟩⟩
        rw [henc m l k hk, hlabel, heq]
  simp only [Carries, hkw]
  simp only [confirmIntent, Finset.mem_filter, mem_messagesOf]
  rw [or_and_right]

theorem confirm_encoded (henc : Encoded db) (thread : ThreadId) (intent : PendingLabelIntent) :
    Encoded (confirmIntent db thread intent) := by
  intro m l k hk
  obtain ⟨label, op⟩ := intent
  cases op with
  | add => exact henc m l k hk
  | remove =>
    simp only [confirmIntent] at hk
    cases hof : keywordOf label with
    | none =>
      rw [hof] at hk
      exact henc m l k hk
    | some keyword =>
      rw [hof] at hk
      rw [Table.lookup_restrict, Option.filter_eq_some_iff] at hk
      exact henc m l k hk.1

theorem confirm_settled (hd : Derived db) (thread : ThreadId) (intent : PendingLabelIntent) :
    Derived (confirmIntent db thread intent) := by
  refine ⟨confirm_encoded hd.encoded thread intent, fun other hhas label' => ?_⟩
  obtain ⟨label, op⟩ := intent
  cases op with
  | add =>
    have hrow : (other, label') ∈ (confirmIntent db thread (label, .add)).threadLabels ↔
        (other, label') = (thread, label) ∨ (other, label') ∈ db.threadLabels := Finset.mem_insert
    rw [hrow, hd.settled other hhas label', Prod.mk.injEq]
    constructor
    · rintro (⟨rfl, rfl⟩ | ⟨m, hm, hc⟩)
      · obtain ⟨m, hm⟩ := hhas
        exact ⟨m, hm, (carries_confirm_add m label').mpr (.inr ⟨rfl, hm⟩)⟩
      · exact ⟨m, hm, (carries_confirm_add m label').mpr (.inl hc)⟩
    · rintro ⟨m, hm, hc⟩
      rcases (carries_confirm_add m label').mp hc with hc | ⟨rfl, hm'⟩
      · exact .inr ⟨m, hm, hc⟩
      · exact .inl ⟨Option.some.inj (hm.symm.trans hm'), rfl⟩
  | remove =>
    have hrow : (other, label') ∈ (confirmIntent db thread (label, .remove)).threadLabels ↔
        (other, label') ≠ (thread, label) ∧ (other, label') ∈ db.threadLabels := Finset.mem_erase
    rw [hrow, hd.settled other hhas label', Ne, Prod.mk.injEq]
    constructor
    · rintro ⟨hne, m, hm, hc⟩
      refine ⟨m, hm, (carries_confirm_remove hd.encoded m label').mpr ⟨hc, fun ⟨hl, hm'⟩ => ?_⟩⟩
      exact hne ⟨Option.some.inj (hm.symm.trans hm'), hl⟩
    · rintro ⟨m, hm, hc⟩
      obtain ⟨hc, hne⟩ := (carries_confirm_remove hd.encoded m label').mp hc
      exact ⟨fun ⟨ht, hl⟩ => hne ⟨hl, ht ▸ hm⟩, m, hm, hc⟩

theorem confirmed_derived (hd : Derived db) (thread : ThreadId) (intents : List PendingLabelIntent) :
    Derived (confirmedProviderLabelIntents db thread intents) := by
  have hall : Derived (intents.foldl (fun db intent => confirmIntent db thread intent) db) := by
    induction intents generalizing db with
    | nil => exact hd
    | cons intent intents ih => exact ih (confirm_settled hd thread intent)
  exact hall.of_eq rfl rfl rfl rfl

theorem carries_replaceLabels (labels : List LabelId) (hne : m ≠ message) (l : LabelId) :
    Carries (replaceMessageLabelRows db message labels) m l ↔ Carries db m l := by
  simp only [Carries, replaceMessageLabelRows, Finset.mem_union, Finset.mem_filter, mem_toFinset,
    mem_map, Prod.mk.injEq]
  constructor
  · rintro ((⟨hrow, -⟩ | ⟨l', -, hm, -⟩) | hk)
    · exact .inl hrow
    · exact absurd hm.symm hne
    · exact .inr hk
  · rintro (hrow | hk)
    · exact .inl (.inl ⟨hrow, hne⟩)
    · exact .inr hk

theorem keywordLabel_eq {raw : String} (h : keywordLabel raw = .ok label) : label = keywordText raw := by
  simp only [keywordLabel] at h
  split at h
  · cases h
  split at h
  · cases h
  split at h
  · cases h
  split at h
  · cases h
  · cases h
    rfl

theorem keywordPairs_encoded {seen : List String} {pairs : List (String × LabelId)}
    (h : keywordPairs keywords seen = .ok pairs) : ∀ pair ∈ pairs, pair.2 = keywordText pair.1 := by
  induction keywords generalizing seen pairs with
  | nil =>
    cases h
    exact fun pair hp => absurd hp not_mem_nil
  | cons keyword keywords ih =>
    simp only [keywordPairs] at h
    split at h
    · exact ih h
    split at h
    · exact ih h
    cases hl : keywordLabel keyword with
    | error e =>
      simp only [hl] at h
      cases h
    | ok label =>
      simp only [hl] at h
      cases hrest : keywordPairs keywords (keyword :: seen) with
      | error e =>
        simp only [hrest] at h
        cases h
      | ok rest =>
        simp only [hrest] at h
        cases h
        intro pair hp
        rcases mem_cons.mp hp with rfl | hp
        · exact keywordLabel_eq hl
        · exact ih hrest pair hp

theorem lookup_insertKeyword (message : MessageId) (t : Table (MessageId × LabelId) String)
    (pair : String × LabelId) (m : MessageId) (l : LabelId) (k : String)
    (h : (insertKeyword message t pair).lookup (m, l) = some k) :
    t.lookup (m, l) = some k ∨ (m = message ∧ (k, l) = pair) := by
  rw [insertKeyword] at h
  split at h
  · exact .inl h
  rw [Table.lookup_insert_if] at h
  split at h
  · rename_i heq
    cases h
    cases heq
    exact .inr ⟨rfl, rfl⟩
  · exact .inl h

theorem lookup_insertKeyword_ne (hne : m ≠ message) (t : Table (MessageId × LabelId) String)
    (pair : String × LabelId) (l : LabelId) :
    (insertKeyword message t pair).lookup (m, l) = t.lookup (m, l) := by
  rw [insertKeyword]
  split
  · rfl
  · rw [Table.lookup_insert_if, if_neg (fun h => hne (congrArg Prod.fst h))]

theorem insertKeywords_spec (message : MessageId) (pairs : List (String × LabelId))
    (hpairs : ∀ pair ∈ pairs, pair.2 = keywordText pair.1) (t : Table (MessageId × LabelId) String)
    (ht : ∀ m l k, t.lookup (m, l) = some k → l = keywordText k) :
    (∀ m l k, (pairs.foldl (insertKeyword message) t).lookup (m, l) = some k → l = keywordText k) ∧
    ∀ m l, m ≠ message → (pairs.foldl (insertKeyword message) t).lookup (m, l) = t.lookup (m, l) := by
  induction pairs generalizing t with
  | nil => exact ⟨ht, fun _ _ _ => rfl⟩
  | cons pair pairs ih =>
    have hstep : ∀ m l k, (insertKeyword message t pair).lookup (m, l) = some k → l = keywordText k := by
      intro m l k hk
      rcases lookup_insertKeyword message t pair m l k hk with hold | ⟨-, rfl⟩
      · exact ht m l k hold
      · exact hpairs (k, l) (mem_cons_self ..)
    obtain ⟨henc, hsame⟩ := ih (fun p hp => hpairs p (mem_cons_of_mem _ hp))
      (insertKeyword message t pair) hstep
    refine ⟨henc, fun m l hne => ?_⟩
    rw [foldl_cons, hsame m l hne, lookup_insertKeyword_ne hne]

/-- Replacing a message's keywords keeps the encoding and reaches no other message. -/
theorem replaceKeywords_spec (henc : Encoded db) (h : replaceMessageKeywords db message keywords = .ok db') :
    Encoded db' ∧ db'.messages = db.messages ∧ db'.messageLabels = db.messageLabels ∧
      db'.threadLabels = db.threadLabels ∧ ∀ m l, m ≠ message → (Carries db' m l ↔ Carries db m l) := by
  rw [replaceMessageKeywords] at h
  cases hp : keywordPairs keywords [] with
  | error e =>
    simp only [hp] at h
    cases h
  | ok pairs =>
    simp only [hp] at h
    cases h
    have hcleared : ∀ m l k, (db.messageKeywords.restrict (fun key _ => key.1 ≠ message)).lookup (m, l) =
        some k → l = keywordText k := by
      intro m l k hk
      rw [Table.lookup_restrict, Option.filter_eq_some_iff] at hk
      exact henc m l k hk.1
    obtain ⟨henc', hsame⟩ := insertKeywords_spec message pairs (keywordPairs_encoded hp) _ hcleared
    refine ⟨henc', rfl, rfl, rfl, fun m l hne => ?_⟩
    simp only [Carries, hsame m l hne]
    simp [hne]

theorem untouched_of_message {other : ThreadId} (hmsg : db'.messages = db.messages)
    (hthr : db'.threadLabels = db.threadLabels)
    (hcarry : ∀ m l, m ≠ message → (Carries db' m l ↔ Carries db m l))
    (hm : db.messages.lookup message = some thread) (hne : other ≠ thread) : Untouched db db' other := by
  refine ⟨fun l => by rw [hthr], fun m => by rw [hmsg], fun m l hlook => hcarry m l ?_⟩
  rintro rfl
  exact hne (Option.some.inj (hlook.symm.trans hm))

theorem replaceLabels_derived (hd : Derived db) (hm : db.messages.lookup message = some thread)
    (labels : List LabelId) :
    Derived (recomputeThreadLabelsFromMessages (replaceMessageLabelRows db message labels) thread) := by
  have henc : Encoded (replaceMessageLabelRows db message labels) := hd.encoded
  refine recompute_settled.derived hd henc [thread] fun other hother => ?_
  exact untouched_of_message rfl rfl (fun m l hne => carries_replaceLabels labels hne l) hm
    (by simpa using hother)

theorem replaceKeywords_derived (hd : Derived db) (hm : db.messages.lookup message = some thread)
    (h : replaceMessageKeywords db message keywords = .ok db') :
    Derived (recomputeThreadLabelsFromMessages db' thread) := by
  obtain ⟨henc, hmsg, -, hthr, hcarry⟩ := replaceKeywords_spec hd.encoded h
  refine recompute_settled.derived hd henc [thread] fun other hother => ?_
  exact untouched_of_message hmsg hthr hcarry hm (by simpa using hother)

theorem persist_derived (hd : Derived db) {labels : List LabelId}
    (hold : ∀ t, db.messages.lookup message = some t → t = thread)
    (h : persistMessage db message thread labels keywords = .ok db') : Derived db' := by
  simp only [persistMessage] at h
  split at h
  · cases h
  rename_i db2 hkw
  cases h
  obtain ⟨henc, hmsg, -, hthr, hcarry⟩ := replaceKeywords_spec (by exact hd.encoded) hkw
  refine recompute_settled.derived hd henc [thread] fun other hother => ?_
  have hne : other ≠ thread := by simpa using hother
  have hlook : ∀ m, db2.messages.lookup m =
      if m = message then some thread else db.messages.lookup m := by
    intro m
    rw [hmsg]
    exact Table.lookup_insert_if db.messages m message thread
  refine ⟨fun l => by rw [hthr]; rfl, fun m => ?_, fun m l hm => ?_⟩
  · rw [hlook]
    split
    · rename_i heq
      subst heq
      constructor
      · intro hsome
        exact absurd (Option.some.inj hsome).symm hne
      · intro hsome
        exact absurd (hold other hsome) hne
    · exact Iff.rfl
  · have hmm : m ≠ message := by
      rintro rfl
      exact hne (hold other hm)
    exact (hcarry m l hmm).trans (carries_replaceLabels labels hmm l)

theorem deleteMessages_spec (messages : List MessageId) (db : Tables) :
    (messages.foldl deleteMessage db).threadLabels = db.threadLabels ∧
    (∀ m, (messages.foldl deleteMessage db).messages.lookup m =
      if m ∈ messages then none else db.messages.lookup m) ∧
    (∀ m l, m ∉ messages → (Carries (messages.foldl deleteMessage db) m l ↔ Carries db m l)) ∧
    (Encoded db → Encoded (messages.foldl deleteMessage db)) := by
  induction messages generalizing db with
  | nil => exact ⟨rfl, fun _ => rfl, fun _ _ _ => Iff.rfl, id⟩
  | cons message messages ih =>
    obtain ⟨hthr, hlook, hcarry, henc⟩ := ih (deleteMessage db message)
    refine ⟨hthr, fun m => ?_, fun m l hm => ?_, fun h => henc fun m l k hk => ?_⟩
    · rw [foldl_cons, hlook, deleteMessage, Table.lookup_erase_if]
      by_cases h1 : m = message <;> by_cases h2 : m ∈ messages <;> simp [h2]
    · obtain ⟨h1, h2⟩ := not_or.mp (fun h => hm (mem_cons.mpr h))
      rw [foldl_cons, hcarry m l h2]
      simp [Carries, deleteMessage, h1]
    · rw [deleteMessage, Table.lookup_restrict, Option.filter_eq_some_iff] at hk
      exact h m l k hk.1

theorem mem_threadsOf {messages : List MessageId} (hm : m ∈ messages)
    (hlook : db.messages.lookup m = some thread) : thread ∈ threadsOf db messages := by
  rw [threadsOf, mem_dedup, mem_filterMap]
  exact ⟨m, hm, hlook⟩

theorem deleteMessages_derived (hd : Derived db) (messages : List MessageId) :
    Derived (deleteMessagesAndCleanupThreads db messages) := by
  obtain ⟨hthr, hlook, hcarry, henc⟩ := deleteMessages_spec messages db
  refine cleanup_settled.derived hd (henc hd.encoded) (threadsOf db messages) fun thread hthread => ?_
  have hkeep : ∀ m, db.messages.lookup m = some thread → m ∉ messages :=
    fun m hm hin => hthread (mem_threadsOf hin hm)
  refine ⟨fun l => by rw [hthr], fun m => ?_, fun m l hm => hcarry m l (hkeep m hm)⟩
  rw [hlook]
  split
  · rename_i hin
    exact ⟨(nomatch ·), fun hm => absurd hin (hkeep m hm)⟩
  · exact Iff.rfl

theorem lookup_updateMessageThreadIds (db : Tables) (newThread : ThreadId) (messages : List MessageId)
    (m : MessageId) : (updateMessageThreadIds db newThread messages).messages.lookup m =
      (db.messages.lookup m).map (fun t => if m ∈ messages then newThread else t) := by
  rw [updateMessageThreadIds, Table.lookup_update]

theorem reassign_derived (hd : Derived db) (newThread : ThreadId) (messages : List MessageId) :
    Derived (reassignMessagesAndRepairThreads db newThread messages) := by
  rw [reassignMessagesAndRepairThreads]
  split
  · exact hd
  have hrest : ∀ thread, thread ∉ threadsOf db messages → thread ≠ newThread →
      Untouched db (updateMessageThreadIds db newThread messages) thread := by
    intro thread hthread hne
    refine ⟨fun _ => Iff.rfl, fun m => ?_, fun _ _ _ => Iff.rfl⟩
    rw [lookup_updateMessageThreadIds, Option.map_eq_some_iff]
    constructor
    · rintro ⟨t, ht, heq⟩
      split at heq
      · exact absurd heq.symm hne
      · rw [ht, heq]
    · intro hm
      exact ⟨thread, hm, if_neg (fun hin => hthread (mem_threadsOf hin hm))⟩
  obtain ⟨hmsg, -, hkw, hset⟩ := repair_settled.foldl ((threadsOf db messages).filter (· ≠ newThread))
    (updateMessageThreadIds db newThread messages)
  refine ⟨fun m l k hk => ?_, fun thread hhas => ?_⟩
  · rw [recompute_settled.messageKeywords, hkw] at hk
    exact hd.encoded m l k hk
  · rw [HasMessages, recompute_settled.messages, hmsg] at hhas
    by_cases heq : thread = newThread
    · subst heq
      exact recompute_settled.settled _ thread (by rwa [HasMessages, hmsg])
    · refine recompute_settled.keeps heq (hset thread hhas ?_)
      by_cases hin : thread ∈ threadsOf db messages
      · exact .inl (mem_filter.mpr ⟨hin, by simpa using heq⟩)
      · exact .inr ((hrest thread hin heq).settled hd hhas)

theorem upsert_derived (hd : Derived db) {intents : List PendingLabelIntent}
    {actionId : Option String} {generation : Nat}
    (h : upsertPendingThreadLabelIntents db thread intents actionId = some (db', generation)) :
    Derived db' := by
  rw [upsertPendingThreadLabelIntents] at h
  split at h
  · cases h
  · cases h
    exact hd.of_eq rfl rfl rfl rfl

end Operations

/-! ## Runs -/

/-- The operations on the label tables, each one transaction. -/
inductive LabelAct where
  | confirm (thread : ThreadId) (intents : List PendingLabelIntent)
  | replaceLabels (message : MessageId) (labels : List LabelId)
  | replaceKeywords (message : MessageId) (keywords : List String)
  | recompute (thread : ThreadId)
  | persist (message : MessageId) (thread : ThreadId) (labels : List LabelId) (keywords : List String)
  | deleteMessages (messages : List MessageId)
  | reassign (newThread : ThreadId) (messages : List MessageId)
  | upsertIntents (thread : ThreadId) (intents : List PendingLabelIntent) (actionId : Option String)
  | attachActionId (thread : ThreadId) (intents : List PendingLabelIntent) (generationSeen : Nat)
      (actionId : String)
  | deleteIntents (thread : ThreadId) (intents : List PendingLabelIntent) (generationSeen : Nat)
  | clearSatisfied (thread : ThreadId)

/-- A replacement is followed by the recompute of the message's thread. -/
def labelStep (db : Tables) : LabelAct → Except String Tables
  | .confirm thread intents => .ok (confirmedProviderLabelIntents db thread intents)
  | .replaceLabels message labels =>
    match db.messages.lookup message with
    | none => .error "replace message labels: foreign key"
    | some thread =>
      .ok (recomputeThreadLabelsFromMessages (replaceMessageLabelRows db message labels) thread)
  | .replaceKeywords message keywords =>
    match db.messages.lookup message with
    | none => .error "replace message keywords: foreign key"
    | some thread =>
      match replaceMessageKeywords db message keywords with
      | .error e => .error e
      | .ok db' => .ok (recomputeThreadLabelsFromMessages db' thread)
  | .recompute thread => .ok (recomputeThreadLabelsFromMessages db thread)
  | .persist message thread labels keywords =>
    match db.messages.lookup message with
    | none => persistMessage db message thread labels keywords
    | some old =>
      if old = thread then persistMessage db message thread labels keywords
      else .error "message moved: reassign it"
  | .deleteMessages messages => .ok (deleteMessagesAndCleanupThreads db messages)
  | .reassign newThread messages => .ok (reassignMessagesAndRepairThreads db newThread messages)
  | .upsertIntents thread intents actionId =>
    match upsertPendingThreadLabelIntents db thread intents actionId with
    | none => .error "read label membership generation"
    | some (db', _) => .ok db'
  | .attachActionId thread intents generationSeen actionId =>
    .ok (attachActionIdToPendingThreadLabelIntents db thread intents generationSeen actionId)
  | .deleteIntents thread intents generationSeen =>
    .ok (deletePendingThreadLabelIntentsForLabels db thread intents generationSeen)
  | .clearSatisfied thread => .ok (clearSatisfiedPendingThreadLabelIntents db thread)

theorem derived_step {db db' : Tables} {act : LabelAct} (hd : Derived db)
    (h : labelStep db act = .ok db') : Derived db' := by
  cases act with
  | confirm thread intents =>
    cases h
    exact confirmed_derived hd thread intents
  | replaceLabels message labels =>
    simp only [labelStep] at h
    split at h
    · cases h
    · rename_i thread hm
      cases h
      exact replaceLabels_derived hd hm labels
  | replaceKeywords message keywords =>
    simp only [labelStep] at h
    split at h
    · cases h
    rename_i thread hm
    split at h
    · cases h
    · rename_i db2 hkw
      cases h
      exact replaceKeywords_derived hd hm hkw
  | recompute thread =>
    cases h
    exact recompute_settled.derived hd hd.encoded [thread]
      (fun _ _ => ⟨fun _ => Iff.rfl, fun _ => Iff.rfl, fun _ _ _ => Iff.rfl⟩)
  | persist message thread labels keywords =>
    simp only [labelStep] at h
    split at h
    · rename_i hm
      exact persist_derived hd (fun t ht => nomatch hm.symm.trans ht) h
    · rename_i old hm
      split at h
      · rename_i heq
        exact persist_derived hd (fun t ht => (Option.some.inj (ht.symm.trans hm)).trans heq) h
      · cases h
  | deleteMessages messages =>
    cases h
    exact deleteMessages_derived hd messages
  | reassign newThread messages =>
    cases h
    exact reassign_derived hd newThread messages
  | upsertIntents thread intents actionId =>
    simp only [labelStep] at h
    split at h
    · cases h
    · rename_i db2 generation hup
      cases h
      exact upsert_derived hd hup
  | attachActionId thread intents generationSeen actionId =>
    cases h
    exact hd.of_eq rfl rfl rfl rfl
  | deleteIntents thread intents generationSeen =>
    cases h
    exact hd.of_eq rfl rfl rfl rfl
  | clearSatisfied thread =>
    cases h
    exact hd.of_eq rfl rfl rfl rfl

theorem derived_empty : Derived Tables.empty := by
  refine ⟨fun m l k hk => ?_, fun thread hhas => ?_⟩
  · cases hk
  · obtain ⟨m, hm⟩ := hhas
    cases hm

/-- An intent is only cleared where the thread level already shows what it asks for. -/
theorem userVisible_clearSatisfied (db : Tables) (thread other : ThreadId) (label : LabelId) :
    userVisible (clearSatisfiedPendingThreadLabelIntents db thread) other label ↔
      userVisible db other label := by
  have hlook : (clearSatisfiedPendingThreadLabelIntents db thread).intents.lookup (other, label) =
      (db.intents.lookup (other, label)).filter
        (fun row => !(other = thread ∧ satisfied db thread label row)) :=
    Table.lookup_restrict _ _ _
  have hthr : (clearSatisfiedPendingThreadLabelIntents db thread).threadLabels = db.threadLabels := rfl
  rw [userVisible, userVisible, hlook, hthr]
  cases hrow : db.intents.lookup (other, label) with
  | none => rfl
  | some row =>
    rw [Option.filter_some]
    split
    · rfl
    -- the row goes: the two sides agree on what it asked for
    · rename_i hgone
      simp only [Bool.not_eq_true', decide_eq_false_iff_not, not_not] at hgone
      obtain ⟨rfl, hsat⟩ := hgone
      rw [satisfied] at hsat
      split at hsat
      · cases hsat
      rw [Bool.and_eq_true] at hsat
      cases hop : row.op with
      | add =>
        have hin : (other, label) ∈ db.threadLabels := by simpa [hop] using hsat.2
        simp [hin, hop]
      | remove =>
        have hout : (other, label) ∉ db.threadLabels := by simpa [hop] using hsat.2
        simp [hout, hop]

/-- What a message carries, in the words of its two tables: a label of `message_labels`, or `kw:` and a
keyword of `message_keywords`. -/
def LabelOf (db : Tables) (message : MessageId) (label : LabelId) : Prop :=
  (message, label) ∈ db.messageLabels ∨
    ∃ stored keyword, db.messageKeywords.lookup (message, stored) = some keyword ∧
      label = keywordText keyword

theorem Derived.labelOf {db : Tables} (hd : Derived db) (message : MessageId) (label : LabelId) :
    Carries db message label ↔ LabelOf db message label := by
  refine or_congr_right ⟨fun ⟨k, hk⟩ => ⟨label, k, hk, hd.encoded _ _ _ hk⟩, ?_⟩
  rintro ⟨stored, k, hk, rfl⟩
  have hstored := hd.encoded _ _ _ hk
  exact ⟨k, hstored ▸ hk⟩

/-- In every state that a sequence of operations leads to, the labels of a thread with messages are
those of its messages, a recompute changes nothing, and clearing satisfied intents changes nothing that
the user sees. -/
theorem thread_labels_derived {db : Tables} (h : Reaches labelStep (fun _ _ => True) Tables.empty db) :
    (∀ thread, HasMessages db thread →
      (∀ label, (thread, label) ∈ db.threadLabels ↔
        ∃ message, db.messages.lookup message = some thread ∧ LabelOf db message label) ∧
      (recomputeThreadLabelsFromMessages db thread).threadLabels = db.threadLabels) ∧ ∀ thread other label,
      userVisible (clearSatisfiedPendingThreadLabelIntents db thread) other label ↔
        userVisible db other label := by
  have hd : Derived db := h.invariant derived_empty fun u a v hu _ hv => derived_step hu hv
  refine ⟨fun thread hhas => ⟨fun label => ?_, ?_⟩, userVisible_clearSatisfied db⟩
  · rw [hd.settled thread hhas label]
    exact exists_congr fun m => and_congr_right fun _ => hd.labelOf m label
  · ext ⟨other, label⟩
    rw [mem_recompute]
    split
    · rename_i heq
      rw [heq]
      exact (hd.settled thread hhas label).symm
    · exact Iff.rfl

/-- A keyword message, a label confirmed on its thread, and the keyword's label confirmed away. -/
def keywordRun : List LabelAct :=
  [.persist "m1" "t1" ["work"] ["todo"], .confirm "t1" [("home", .add)], .persist "m2" "t1" [] ["todo"],
    .confirm "t1" [("kw:todo", .remove)], .deleteMessages ["m1"]]

theorem thread_labels_derived_keywordRun : ∃ db, keywordRun.foldlM labelStep Tables.empty = .ok db ∧
      ((recomputeThreadLabelsFromMessages db "t1").threadLabels = db.threadLabels) := by
  have hok : (keywordRun.foldlM labelStep Tables.empty).map (fun db => db.messages.lookup "m2") =
      .ok (some "t1") := by decide
  cases hrun : keywordRun.foldlM labelStep Tables.empty with
  | error e =>
    rw [hrun] at hok
    cases hok
  | ok db =>
    rw [hrun] at hok
    have hm : db.messages.lookup "m2" = some "t1" := by
      simpa [Except.map] using hok
    exact ⟨db, rfl, ((thread_labels_derived (Lib.reaches_foldlM hrun)).1 "t1" ⟨"m2", hm⟩).2⟩

end Ratatoskr.Labels
