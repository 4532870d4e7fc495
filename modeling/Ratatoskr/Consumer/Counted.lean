import Ratatoskr.Lib.Run
import Ratatoskr.Consumer.Seen

/-!
# Consumer.Counted

How often a message is counted, over runs with crashes. The engine delivers the batches of each scope in
order; after a crash it starts again behind the last acknowledged checkpoint. A batch is counted and
marked in one transaction, then acknowledged, and the markers of its scope are pruned; for IMAP the
acknowledgements wait for a flush.

The marker is all that keeps a batch from being counted again, and it stands for the batch: a batch
without a checkpoint is counted at every delivery, one that comes back with more rows is not counted for
them, a message in a second batch is counted again, and a marker that was pruned before its batch was
acknowledged protects nothing. Where none of this happens every message is counted once.
-/

namespace Ratatoskr.Consumer

open List
open Lib (Reaches)

variable {messages rows : List SeenMessage}

structure SeenBatch where
  rows : List SeenMessage
  checkpoint : Option Checkpoint
  blocked : Bool
  deriving DecidableEq

/-- A scope: the batches it has delivered, as they were at their last delivery, how many of them are
acknowledged, and which one is next. -/
structure ScopeLog where
  log : List SeenBatch
  acked : Nat
  next : Nat

/-- `messages` holds every message of a batch that was handled, once, in the order they came. -/
structure Ingest where
  imap : Bool
  store : SeenStore
  scopes : CursorScope → ScopeLog
  deferred : List (CursorScope × Nat)
  messages : List SeenMessage

def Ingest.start (imap : Bool) : Ingest := ⟨imap, .empty, fun _ => ⟨[], 0, 0⟩, [], []⟩

inductive DiesAt where
  | beforeAck | beforePrune

inductive IngestEvent where
  | handle (scope : CursorScope) (batch : SeenBatch) (dies : Option DiesAt)
  | done (scope : CursorScope) (dies : Option DiesAt)
  | flush
  | flushDies (acks : Nat) (dies : DiesAt)
  | crash

/-- What is delivered again is what was delivered; only a blocked batch may have more rows then. -/
def SeenBatch.Redelivers (batch recorded : SeenBatch) : Prop :=
  batch.checkpoint = recorded.checkpoint ∧ recorded.rows.Sublist batch.rows ∧
    (recorded.blocked = true ∨ batch = recorded)

instance (batch recorded : SeenBatch) : Decidable (batch.Redelivers recorded) :=
  inferInstanceAs (Decidable (_ ∧ _ ∧ _))

def remember (messages rows : List SeenMessage) : List SeenMessage :=
  rows.foldl (fun messages row =>
    if row.id ∈ messages.map SeenMessage.id then messages else messages ++ [row]) messages

namespace Ingest

def setScope (s : Ingest) (scope : CursorScope) (st : ScopeLog) : Ingest :=
  { s with scopes := Function.update s.scopes scope st }

/-- The checkpoint is stored: the first `n` batches of the scope do not come again. -/
def ack (s : Ingest) (scope : CursorScope) (n : Nat) : Ingest :=
  s.setScope scope { s.scopes scope with acked := n }

def prune (s : Ingest) (scope : CursorScope) : Ingest :=
  { s with store := s.store.pruneMarkerWindow scope }

def ackAndPrune (s : Ingest) (entry : CursorScope × Nat) : Ingest :=
  (s.ack entry.1 entry.2).prune entry.1

/-- What was in memory is gone, and every scope starts behind its last acknowledgement. -/
def crashed (s : Ingest) : Ingest :=
  { s with
    scopes := fun scope => { s.scopes scope with next := (s.scopes scope).acked }
    deferred := [] }

def publish (s : Ingest) (scope : CursorScope) (n : Nat) (dies : Option DiesAt) : Ingest :=
  if s.imap then
    let s := { s with deferred := s.deferred ++ [(scope, n)] }
    if dies.isSome then s.crashed else s
  else
    match dies with
    | none => s.ackAndPrune (scope, n)
    | some .beforeAck => s.crashed
    | some .beforePrune => (s.ack scope n).crashed

/-- The transaction of `post_persist::run`. -/
def ingest (headers : Headers) (selfEmails : List String) (s : Ingest) (scope : CursorScope)
    (batch : SeenBatch) : Ingest :=
  let st := s.scopes scope
  { s with
    store := s.store.ingestSeenWithMarker headers selfEmails scope batch.rows batch.checkpoint
    messages := remember s.messages batch.rows
  }.setScope scope
    { st with log := st.log.take st.next ++ batch :: st.log.drop (st.next + 1), next := st.next + 1 }

def handle (headers : Headers) (selfEmails : List String) (s : Ingest) (scope : CursorScope)
    (batch : SeenBatch) (dies : Option DiesAt) : Ingest :=
  let n := (s.scopes scope).next + 1
  let s := s.ingest headers selfEmails scope batch
  if batch.checkpoint.isSome && !batch.blocked then s.publish scope n dies
  else if dies.isSome then s.crashed
  else s

/-- `flush_imap_drive_end`. -/
def flush (s : Ingest) : Ingest := s.deferred.foldl ackAndPrune { s with deferred := [] }

/-- The process dies in the flush, after so many acknowledgements with their prunes. -/
def flushDies (s : Ingest) (acks : Nat) (dies : DiesAt) : Ingest :=
  let t := (s.deferred.take acks).foldl ackAndPrune { s with deferred := [] }
  match dies, s.deferred[acks]? with
  | .beforePrune, some (scope, n) => (t.ack scope n).crashed
  | _, _ => t.crashed

def step (headers : Headers) (selfEmails : List String) (s : Ingest) : IngestEvent → Except String Ingest
  | .handle scope batch dies =>
    match (s.scopes scope).log[(s.scopes scope).next]? with
    | none => .ok (s.handle headers selfEmails scope batch dies)
    | some recorded =>
      if batch.Redelivers recorded then .ok (s.handle headers selfEmails scope batch dies)
      else .error "not what was delivered here"
  | .done scope dies => .ok (s.publish scope (s.scopes scope).next dies)
  | .flush => .ok s.flush
  | .flushDies acks dies => .ok (s.flushDies acks dies)
  | .crash => .ok s.crashed

/-- The table of a run without a crash that ingests each message once. -/
def ingestOnce (headers : Headers) (selfEmails : List String) (messages : List SeenMessage) : SeenAddresses :=
  upsertSeenObservations ∅ (resolveObservations headers selfEmails messages)

def CountedOnce (headers : Headers) (selfEmails : List String) (s : Ingest) : Prop :=
  ∀ email, countersOf s.store.seen email = countersOf (ingestOnce headers selfEmails s.messages) email

def checkpoints (batches : List SeenBatch) : List Checkpoint :=
  batches.filterMap SeenBatch.checkpoint

/-- The markers of the batches that are left after the acknowledgement fit the window. -/
def Fits (s : Ingest) (scope : CursorScope) (n : Nat) : Prop :=
  (checkpoints ((s.scopes scope).log.drop n)).length ≤ MARKER_WINDOW

instance (s : Ingest) (scope : CursorScope) (n : Nat) : Decidable (s.Fits scope n) :=
  inferInstanceAs (Decidable (_ ≤ _))

/-- A batch that comes for the first time has a checkpoint of its own, if it has one, and messages that
no batch had; one that comes again has a checkpoint and the rows it had. -/
def Distinct (s : Ingest) (scope : CursorScope) (batch : SeenBatch) : Option SeenBatch → Prop
  | none =>
    (∀ c ∈ batch.checkpoint, c ∉ checkpoints (s.scopes scope).log) ∧
      (batch.rows.map SeenMessage.id).Nodup ∧
      ∀ row ∈ batch.rows, row.id ∉ s.messages.map SeenMessage.id
  | some recorded => batch.checkpoint.isSome = true ∧ batch.rows = recorded.rows

instance (s : Ingest) (scope : CursorScope) (batch : SeenBatch) (recorded : Option SeenBatch) :
    Decidable (s.Distinct scope batch recorded) :=
  match recorded with
  | none => inferInstanceAs (Decidable (_ ∧ _ ∧ _))
  | some _ => inferInstanceAs (Decidable (_ ∧ _))

def recorded (s : Ingest) (scope : CursorScope) : Option SeenBatch :=
  (s.scopes scope).log[(s.scopes scope).next]?

def Meets (s : Ingest) : IngestEvent → Prop
  | .handle scope batch _ =>
    s.Distinct scope batch (s.recorded scope) ∧ s.Fits scope ((s.scopes scope).next + 1)
  | .done scope _ => s.Fits scope (s.scopes scope).next
  | .flush => ∀ entry ∈ s.deferred, s.Fits entry.1 entry.2
  | .flushDies _ _ => ∀ entry ∈ s.deferred, s.Fits entry.1 entry.2
  | .crash => True

instance (s : Ingest) (event : IngestEvent) : Decidable (s.Meets event) :=
  match event with
  | .handle _ _ _ => inferInstanceAs (Decidable (_ ∧ _))
  | .done scope _ => inferInstanceAs (Decidable (s.Fits scope _))
  | .flush => inferInstanceAs (Decidable (∀ entry ∈ s.deferred, s.Fits entry.1 entry.2))
  | .flushDies _ _ => inferInstanceAs (Decidable (∀ entry ∈ s.deferred, s.Fits entry.1 entry.2))
  | .crash => inferInstanceAs (Decidable True)

end Ingest

/-! ## The log of a scope and its markers -/

/-- Every batch behind the acknowledged ones is marked, and only batches of the log are. -/
structure ScopeLog.Kept (st : ScopeLog) (markers : List Checkpoint) : Prop where
  acked_le : st.acked ≤ st.next
  next_le : st.next ≤ st.log.length
  marked : Ingest.checkpoints (st.log.drop st.acked) <:+ markers
  known : ∀ c ∈ markers, c ∈ Ingest.checkpoints st.log

theorem checkpoints_append (xs ys : List SeenBatch) :
    Ingest.checkpoints (xs ++ ys) = Ingest.checkpoints xs ++ Ingest.checkpoints ys :=
  filterMap_append

theorem checkpoints_singleton (batch : SeenBatch) : Ingest.checkpoints [batch] = batch.checkpoint.toList := by
  cases h : batch.checkpoint with
  | none => simp [Ingest.checkpoints, h]
  | some c => simp [Ingest.checkpoints, h]

theorem checkpoints_cons (batch : SeenBatch) (xs : List SeenBatch) :
    Ingest.checkpoints (batch :: xs) = batch.checkpoint.toList ++ Ingest.checkpoints xs := by
  rw [← singleton_append, checkpoints_append, checkpoints_singleton]

variable {recorded : SeenBatch}

theorem split_at {log : List SeenBatch} {n : Nat}
    (h : log[n]? = some recorded) : log = log.take n ++ recorded :: log.drop (n + 1) := by
  obtain ⟨hlt, hget⟩ := List.getElem?_eq_some_iff.mp h
  rw [← hget, ← drop_eq_getElem_cons hlt, take_append_drop]

namespace ScopeLog.Kept

variable {st : ScopeLog} {markers : List Checkpoint}

theorem ack (h : st.Kept markers) {n : Nat} (hle : st.acked ≤ n) (hn : n ≤ st.next) :
    ScopeLog.Kept { st with acked := n } markers where
  acked_le := hn
  next_le := h.next_le
  marked := by
    have hdrop : st.log.drop n <:+ st.log.drop st.acked := drop_suffix_drop_left _ hle
    exact (hdrop.filterMap _).trans h.marked
  known := h.known

theorem prune (h : st.Kept markers) {window : Nat}
    (hfits : (Ingest.checkpoints (st.log.drop st.acked)).length ≤ window) :
    st.Kept (markers.drop (markers.length - window)) where
  acked_le := h.acked_le
  next_le := h.next_le
  marked := by
    obtain ⟨older, hold⟩ := h.marked
    have hlen : markers.length - window ≤ older.length := by
      rw [← hold, length_append]
      omega
    rw [← hold, drop_append_of_le_length (by rw [hold]; exact hlen)]
    exact suffix_append _ _
  known := fun c hc => h.known c (mem_of_mem_drop hc)

theorem crashed (h : st.Kept markers) : ScopeLog.Kept { st with next := st.acked } markers where
  acked_le := Nat.le_refl _
  next_le := Nat.le_trans h.acked_le h.next_le
  marked := h.marked
  known := h.known

theorem first (h : st.Kept markers) (batch : SeenBatch) :
    ScopeLog.Kept { st with log := st.log ++ [batch], next := st.next + 1 }
      (markers ++ batch.checkpoint.toList) where
  acked_le := Nat.le_succ_of_le h.acked_le
  next_le := by
    rw [length_append]
    exact Nat.succ_le_succ h.next_le
  marked := by
    have hle : st.acked ≤ st.log.length := Nat.le_trans h.acked_le h.next_le
    rw [drop_append_of_le_length hle, checkpoints_append, checkpoints_singleton]
    obtain ⟨older, hold⟩ := h.marked
    exact ⟨older, by rw [← append_assoc, hold]⟩
  known := by
    intro c hc
    rw [checkpoints_append]
    rcases mem_append.mp hc with hold | hnew
    · exact mem_append_left _ (h.known c hold)
    · exact mem_append_right _ hnew

theorem again (h : st.Kept markers) {batch : SeenBatch}
    (hrec : st.log[st.next]? = some recorded) (hc : batch.checkpoint = recorded.checkpoint) : ScopeLog.Kept
      { st with log := st.log.take st.next ++ batch :: st.log.drop (st.next + 1), next := st.next + 1 }
      markers where
  acked_le := Nat.le_succ_of_le h.acked_le
  next_le := by
    have hlt := (List.getElem?_eq_some_iff.mp hrec).1
    rw [length_append, length_cons, length_take]
    dsimp only
    omega
  marked := by
    have hsame : Ingest.checkpoints
        ((st.log.take st.next ++ batch :: st.log.drop (st.next + 1)).drop st.acked) =
        Ingest.checkpoints (st.log.drop st.acked) := by
      have hlen : st.acked ≤ (st.log.take st.next).length := by
        rw [length_take]
        exact Nat.le_min.mpr ⟨h.acked_le, Nat.le_trans h.acked_le h.next_le⟩
      nth_rewrite 3 [split_at hrec]
      rw [drop_append_of_le_length hlen, drop_append_of_le_length hlen, checkpoints_append,
        checkpoints_append, checkpoints_cons, checkpoints_cons, hc]
    exact hsame ▸ h.marked
  known := by
    have hsame : Ingest.checkpoints (st.log.take st.next ++ batch :: st.log.drop (st.next + 1)) =
        Ingest.checkpoints st.log := by
      nth_rewrite 3 [split_at hrec]
      rw [checkpoints_append, checkpoints_append, checkpoints_cons, checkpoints_cons, hc]
    exact hsame ▸ h.known

theorem mem_markers (h : st.Kept markers) {c : Checkpoint}
    (hrec : st.log[st.next]? = some recorded) (hc : recorded.checkpoint = some c) : c ∈ markers := by
  have hget : (st.log.drop st.acked)[st.next - st.acked]? = some recorded := by
    rw [getElem?_drop, Nat.add_sub_cancel' h.acked_le]
    exact hrec
  exact h.marked.subset (mem_filterMap.mpr ⟨recorded, mem_of_getElem? hget, hc⟩)

end ScopeLog.Kept

theorem remember_old (h : ∀ row ∈ rows, row.id ∈ messages.map SeenMessage.id) :
    remember messages rows = messages := by
  induction rows with
  | nil => rfl
  | cons row rows ih =>
    have hrow := h row mem_cons_self
    have hcons : remember messages (row :: rows) = remember messages rows := by
      simp only [remember, foldl_cons, if_pos hrow]
    rw [hcons, ih (fun r hr => h r (mem_cons_of_mem _ hr))]

theorem remember_new (hnodup : (rows.map SeenMessage.id).Nodup)
    (h : ∀ row ∈ rows, row.id ∉ messages.map SeenMessage.id) : remember messages rows = messages ++ rows := by
  induction rows generalizing messages with
  | nil => simp [remember]
  | cons row rows ih =>
    have hrow := h row mem_cons_self
    have hcons : remember messages (row :: rows) = remember (messages ++ [row]) rows := by
      simp only [remember, foldl_cons, if_neg hrow]
    rw [map_cons, nodup_cons] at hnodup
    have hrest : ∀ r ∈ rows, r.id ∉ (messages ++ [row]).map SeenMessage.id := by
      intro r hr hmem
      rw [map_append, mem_append] at hmem
      rcases hmem with hmem | hmem
      · exact h r (mem_cons_of_mem _ hr) hmem
      · rw [map_singleton, mem_singleton] at hmem
        exact hnodup.1 (hmem ▸ mem_map_of_mem hr)
    rw [hcons, ih hnodup.2 hrest, append_assoc, singleton_append]

namespace Ingest

variable {scope : CursorScope} {entry : CursorScope × Nat} {batch : SeenBatch}

/-! ## The invariant -/

/-- The acknowledgement lies between what is acknowledged and what was delivered. -/
def Waits (s : Ingest) (entry : CursorScope × Nat) : Prop :=
  (s.scopes entry.1).acked ≤ entry.2 ∧ entry.2 ≤ (s.scopes entry.1).next

structure Inv (headers : Headers) (selfEmails : List String) (s : Ingest) : Prop where
  kept : ∀ scope, (s.scopes scope).Kept (s.store.markers scope)
  waiting : ∀ entry ∈ s.deferred, s.Waits entry
  ordered : s.deferred.Pairwise (fun a b => a.1 = b.1 → a.2 ≤ b.2)
  direct : s.imap = false → s.deferred = []
  remembered : ∀ scope, ∀ batch ∈ (s.scopes scope).log, ∀ row ∈ batch.rows,
    row.id ∈ s.messages.map SeenMessage.id
  counted : s.CountedOnce headers selfEmails

variable {headers : Headers} {selfEmails : List String} {s : Ingest}

theorem inv_start (imap : Bool) : Inv headers selfEmails (start imap) where
  kept := fun _ => ⟨Nat.le_refl _, Nat.le_refl _, suffix_refl _, fun _ h => h⟩
  waiting := fun _ h => by cases h
  ordered := List.Pairwise.nil
  direct := fun _ => rfl
  remembered := fun _ _ h => by cases h
  counted := fun _ => rfl

theorem Inv.forget (h : Inv headers selfEmails s) : Inv headers selfEmails { s with deferred := [] } where
  kept := h.kept
  waiting := fun _ hmem => by cases hmem
  ordered := List.Pairwise.nil
  direct := fun _ => rfl
  remembered := h.remembered
  counted := h.counted

theorem Inv.crashed (h : Inv headers selfEmails s) : Inv headers selfEmails s.crashed where
  kept := fun scope => (h.kept scope).crashed
  waiting := fun _ hmem => by cases hmem
  ordered := List.Pairwise.nil
  direct := fun _ => rfl
  remembered := h.remembered
  counted := h.counted

@[simp] theorem setScope_self (s : Ingest) (scope : CursorScope) (st : ScopeLog) :
    (s.setScope scope st).scopes scope = st := Function.update_self ..

theorem setScope_ne (s : Ingest) {scope' : CursorScope} (h : scope' ≠ scope) (st : ScopeLog) :
    (s.setScope scope st).scopes scope' = s.scopes scope' := Function.update_of_ne h ..

theorem ack_log (s : Ingest) (scope scope' : CursorScope) (n : Nat) :
    ((s.ack scope n).scopes scope').log = (s.scopes scope').log := by
  by_cases h : scope' = scope
  · subst h
    rw [ack, setScope_self]
  · rw [ack, setScope_ne _ h]

theorem ack_next (s : Ingest) (scope scope' : CursorScope) (n : Nat) :
    ((s.ack scope n).scopes scope').next = (s.scopes scope').next := by
  by_cases h : scope' = scope
  · subst h
    rw [ack, setScope_self]
  · rw [ack, setScope_ne _ h]

theorem Inv.ack (h : Inv headers selfEmails s) (hd : s.deferred = []) {n : Nat}
    (hle : (s.scopes scope).acked ≤ n) (hn : n ≤ (s.scopes scope).next) :
    Inv headers selfEmails (s.ack scope n) where
  kept := by
    intro scope'
    by_cases hs : scope' = scope
    · subst hs
      rw [Ingest.ack, setScope_self]
      exact (h.kept scope').ack hle hn
    · rw [Ingest.ack, setScope_ne _ hs]
      exact h.kept scope'
  waiting := fun entry hmem => by
    have : entry ∈ s.deferred := hmem
    rw [hd] at this
    cases this
  ordered := h.ordered
  direct := h.direct
  remembered := by
    intro scope' batch hb
    rw [ack_log] at hb
    exact h.remembered scope' batch hb
  counted := h.counted

theorem Inv.ackAndPrune (h : Inv headers selfEmails s) (hd : s.deferred = [])
    (hle : (s.scopes entry.1).acked ≤ entry.2) (hn : entry.2 ≤ (s.scopes entry.1).next)
    (hfits : s.Fits entry.1 entry.2) : Inv headers selfEmails (s.ackAndPrune entry) := by
  have hack := h.ack hd hle hn
  exact {
    kept := by
      intro scope
      by_cases hs : scope = entry.1
      · subst hs
        have hmarkers : (s.ackAndPrune entry).store.markers entry.1 =
            (s.store.markers entry.1).drop ((s.store.markers entry.1).length - MARKER_WINDOW) :=
          Function.update_self ..
        rw [hmarkers]
        apply (hack.kept entry.1).prune
        rw [Ingest.ack, setScope_self]
        exact hfits
      · have hmarkers : (s.ackAndPrune entry).store.markers scope = s.store.markers scope :=
          Function.update_of_ne hs ..
        rw [hmarkers]
        exact hack.kept scope
    waiting := hack.waiting
    ordered := hack.ordered
    direct := hack.direct
    remembered := hack.remembered
    counted := hack.counted }

theorem Waits.ackAndPrune {later : CursorScope × Nat} (h : s.Waits later)
    (hord : entry.1 = later.1 → entry.2 ≤ later.2) : (s.ackAndPrune entry).Waits later := by
  have hnext : ((s.ackAndPrune entry).scopes later.1).next = (s.scopes later.1).next :=
    ack_next s entry.1 later.1 entry.2
  rw [Waits, hnext]
  refine ⟨?_, h.2⟩
  by_cases hs : later.1 = entry.1
  · have hacked : ((s.ackAndPrune entry).scopes later.1).acked = entry.2 := by
      rw [hs]
      exact congrArg ScopeLog.acked (setScope_self s entry.1 _)
    rw [hacked]
    exact hord hs.symm
  · have hacked : ((s.ackAndPrune entry).scopes later.1).acked = (s.scopes later.1).acked :=
      congrArg ScopeLog.acked (setScope_ne s hs _)
    rw [hacked]
    exact h.1

/-- The first acknowledgements of a flush, in their order; those that are left still wait. -/
theorem Inv.ackAll {entries rest : List (CursorScope × Nat)} (h : Inv headers selfEmails s)
    (hd : s.deferred = []) (hwait : ∀ entry ∈ entries ++ rest, s.Waits entry)
    (hord : (entries ++ rest).Pairwise (fun a b => a.1 = b.1 → a.2 ≤ b.2))
    (hfits : ∀ entry ∈ entries ++ rest, s.Fits entry.1 entry.2) :
    Inv headers selfEmails (entries.foldl Ingest.ackAndPrune s) ∧
      (entries.foldl Ingest.ackAndPrune s).deferred = [] ∧
      ∀ entry ∈ rest, (entries.foldl Ingest.ackAndPrune s).Waits entry := by
  induction entries generalizing s with
  | nil => exact ⟨h, hd, hwait⟩
  | cons entry entries ih =>
    rw [cons_append] at hwait hord hfits
    obtain ⟨hle, hn⟩ := hwait entry mem_cons_self
    rw [pairwise_cons] at hord
    apply ih (h.ackAndPrune hd hle hn (hfits entry mem_cons_self)) hd _ hord.2
    · intro e he
      rw [Fits, show ((s.ackAndPrune entry).scopes e.1).log = _ from ack_log s entry.1 e.1 entry.2]
      exact hfits e (mem_cons_of_mem _ he)
    · intro e he
      exact (hwait e (mem_cons_of_mem _ he)).ackAndPrune (hord.1 e he)

theorem Inv.publish (h : Inv headers selfEmails s) {n : Nat} (hn : n = (s.scopes scope).next)
    (hfits : s.Fits scope n) (dies : Option DiesAt) : Inv headers selfEmails (s.publish scope n dies) := by
  subst hn
  have hle := (h.kept scope).acked_le
  unfold Ingest.publish
  by_cases himap : s.imap = true
  · have hpush : Inv headers selfEmails
        { s with deferred := s.deferred ++ [(scope, (s.scopes scope).next)] } := {
      kept := h.kept
      waiting := by
        intro entry hmem
        rcases mem_append.mp hmem with hold | hnew
        · exact h.waiting entry hold
        · rw [mem_singleton.mp hnew]
          exact ⟨hle, Nat.le_refl _⟩
      ordered := by
        rw [pairwise_append]
        refine ⟨h.ordered, pairwise_singleton _ _, ?_⟩
        intro a ha b hb hs
        rw [mem_singleton.mp hb] at hs ⊢
        have hwait := (h.waiting a ha).2
        rw [show a.1 = scope from hs] at hwait
        exact hwait
      direct := by
        intro hfalse
        rw [show s.imap = false from hfalse] at himap
        cases himap
      remembered := h.remembered
      counted := h.counted }
    rw [if_pos himap]
    split
    · exact hpush.crashed
    · exact hpush
  · have hd := h.direct (Bool.eq_false_of_not_eq_true himap)
    rw [if_neg himap]
    cases dies with
    | none => exact h.ackAndPrune hd hle (Nat.le_refl _) hfits
    | some point =>
      cases point with
      | beforeAck => exact h.crashed
      | beforePrune => exact (h.ack hd hle (Nat.le_refl _)).crashed

/-! ## Batches -/

theorem countersOf_ingestOnce_append (messages rows : List SeenMessage) (email : String) :
    countersOf (ingestOnce headers selfEmails (messages ++ rows)) email =
      countersOf (ingestOnce headers selfEmails messages) email +
        observedTimes (resolveObservations headers selfEmails rows) email := by
  have happend : ingestOnce headers selfEmails (messages ++ rows) =
      upsertSeenObservations (ingestOnce headers selfEmails messages)
        (resolveObservations headers selfEmails rows) := by
    rw [ingestOnce, resolveObservations, flatMap_append, upsertSeenObservations, foldl_append]
    rfl
  rw [happend, countersOf_upsertSeenObservations]

theorem Inv.ingest_of (h : Inv headers selfEmails s) {st : ScopeLog}
    (hst : st = (s.ingest headers selfEmails scope batch).scopes scope)
    (hkept : st.Kept ((s.ingest headers selfEmails scope batch).store.markers scope))
    (hmarkers : ∀ other, other ≠ scope →
      (s.ingest headers selfEmails scope batch).store.markers other = s.store.markers other)
    (hrows : ∀ row ∈ batch.rows,
      row.id ∈ (s.ingest headers selfEmails scope batch).messages.map SeenMessage.id)
    (hold : ∀ id ∈ s.messages.map SeenMessage.id,
      id ∈ (s.ingest headers selfEmails scope batch).messages.map SeenMessage.id)
    (hcounted : (s.ingest headers selfEmails scope batch).CountedOnce headers selfEmails) :
    Inv headers selfEmails (s.ingest headers selfEmails scope batch) where
  kept := by
    intro other
    by_cases hs : other = scope
    · subst hs
      rw [← hst]
      exact hkept
    · rw [hmarkers other hs, Ingest.ingest, setScope_ne _ hs]
      exact h.kept other
  waiting := by
    intro entry hmem
    obtain ⟨hle, hn⟩ := h.waiting entry hmem
    by_cases hs : entry.1 = scope
    · subst hs
      rw [Waits, Ingest.ingest, setScope_self]
      exact ⟨hle, Nat.le_succ_of_le hn⟩
    · rw [Waits, Ingest.ingest, setScope_ne _ hs]
      exact ⟨hle, hn⟩
  ordered := h.ordered
  direct := h.direct
  remembered := by
    intro other b hb row hrow
    by_cases hs : other = scope
    · subst hs
      rw [Ingest.ingest, setScope_self] at hb
      rcases mem_append.mp hb with hb | hb
      · exact hold _ (h.remembered other b (mem_of_mem_take hb) row hrow)
      · rcases mem_cons.mp hb with rfl | hb
        · exact hrows row hrow
        · exact hold _ (h.remembered other b (mem_of_mem_drop hb) row hrow)
    · rw [Ingest.ingest, setScope_ne _ hs] at hb
      exact hold _ (h.remembered other b hb row hrow)
  counted := hcounted

theorem next_eq_length (h : Inv headers selfEmails s) (hrec : s.recorded scope = none) :
    (s.scopes scope).next = (s.scopes scope).log.length :=
  Nat.le_antisymm (h.kept scope).next_le (List.getElem?_eq_none_iff.mp hrec)

theorem Inv.ingest_first (h : Inv headers selfEmails s) (hrec : s.recorded scope = none)
    (hd : s.Distinct scope batch none) :
    Inv headers selfEmails (s.ingest headers selfEmails scope batch) := by
  obtain ⟨hfresh, hnodup, hnew⟩ := hd
  have hnext := next_eq_length h hrec
  have hunmarked : ∀ c, batch.checkpoint = some c → c ∉ s.store.markers scope :=
    fun c hc hmem => hfresh c hc ((h.kept scope).known c hmem)
  have hmarkers : (s.ingest headers selfEmails scope batch).store.markers =
      Function.update s.store.markers scope (s.store.markers scope ++ batch.checkpoint.toList) :=
    SeenStore.ingest_markers headers selfEmails hunmarked batch.rows
  have hmessages : (s.ingest headers selfEmails scope batch).messages = s.messages ++ batch.rows :=
    remember_new hnodup hnew
  have hst : ({ s.scopes scope with
      log := (s.scopes scope).log ++ [batch], next := (s.scopes scope).next + 1 } : ScopeLog) =
      (s.ingest headers selfEmails scope batch).scopes scope := by
    rw [Ingest.ingest, setScope_self, hnext, take_length, drop_eq_nil_of_le (Nat.le_succ _)]
  apply h.ingest_of hst
  · rw [hmarkers, Function.update_self]
    exact (h.kept scope).first batch
  · intro other hs
    rw [hmarkers, Function.update_of_ne hs]
  · intro row hrow
    rw [hmessages, map_append]
    exact mem_append_right _ (mem_map_of_mem hrow)
  · intro id hid
    rw [hmessages, map_append]
    exact mem_append_left _ hid
  · intro email
    have hseen : (s.ingest headers selfEmails scope batch).store.seen =
        upsertSeenObservations s.store.seen (resolveObservations headers selfEmails batch.rows) :=
      SeenStore.ingest_seen headers selfEmails hunmarked batch.rows
    rw [hseen, hmessages, countersOf_upsertSeenObservations, countersOf_ingestOnce_append, h.counted email]

theorem Inv.ingest_again (h : Inv headers selfEmails s)
    (hrec : s.recorded scope = some recorded) (hsame : batch.checkpoint = recorded.checkpoint)
    (hd : s.Distinct scope batch (some recorded)) :
    Inv headers selfEmails (s.ingest headers selfEmails scope batch) := by
  obtain ⟨hsome, hrows⟩ := hd
  obtain ⟨c, hc⟩ := Option.isSome_iff_exists.mp hsome
  have hmarked : c ∈ s.store.markers scope :=
    (h.kept scope).mem_markers hrec (hsame.symm.trans hc)
  have hstore : (s.ingest headers selfEmails scope batch).store = s.store := by
    rw [Ingest.ingest, hc]
    exact SeenStore.ingest_marked headers selfEmails hmarked batch.rows
  have hknown : ∀ row ∈ batch.rows, row.id ∈ s.messages.map SeenMessage.id := by
    rw [hrows]
    exact h.remembered scope recorded (mem_of_getElem? hrec)
  have hmessages : (s.ingest headers selfEmails scope batch).messages = s.messages :=
    remember_old hknown
  have hst : ({ s.scopes scope with
      log := (s.scopes scope).log.take (s.scopes scope).next ++
        batch :: (s.scopes scope).log.drop ((s.scopes scope).next + 1),
      next := (s.scopes scope).next + 1 } : ScopeLog) =
      (s.ingest headers selfEmails scope batch).scopes scope := by
    rw [Ingest.ingest, setScope_self]
  apply h.ingest_of hst
  · rw [hstore]
    exact (h.kept scope).again hrec hsame
  · intro other _
    rw [hstore]
  · rw [hmessages]
    exact hknown
  · intro id hid
    rw [hmessages]
    exact hid
  · intro email
    rw [hstore, hmessages]
    exact h.counted email

theorem fits_ingest (h : Inv headers selfEmails s) (batch : SeenBatch)
    (hfits : s.Fits scope ((s.scopes scope).next + 1)) :
    (s.ingest headers selfEmails scope batch).Fits scope ((s.scopes scope).next + 1) := by
  have hle := (h.kept scope).next_le
  have hdrop : ((s.ingest headers selfEmails scope batch).scopes scope).log.drop
      ((s.scopes scope).next + 1) = (s.scopes scope).log.drop ((s.scopes scope).next + 1) := by
    have hlen : ((s.scopes scope).log.take (s.scopes scope).next).length = (s.scopes scope).next := by
      rw [length_take]
      exact Nat.min_eq_left hle
    rw [Ingest.ingest, setScope_self]
    rw [drop_append, hlen, Nat.add_sub_cancel_left, drop_one, tail_cons,
      drop_eq_nil_of_le (by rw [hlen]; exact Nat.le_succ _), nil_append]
  rw [Fits, hdrop]
  exact hfits

theorem Inv.handle (h : Inv headers selfEmails s)
    (hingest : Inv headers selfEmails (s.ingest headers selfEmails scope batch))
    (hfits : s.Fits scope ((s.scopes scope).next + 1)) (dies : Option DiesAt) :
    Inv headers selfEmails (s.handle headers selfEmails scope batch dies) := by
  unfold Ingest.handle
  split
  · apply hingest.publish
    · rw [Ingest.ingest, setScope_self]
    · exact fits_ingest h batch hfits
  · split
    · exact hingest.crashed
    · exact hingest

/-! ## Runs -/

theorem Inv.flush (h : Inv headers selfEmails s)
    (hfits : ∀ entry ∈ s.deferred, s.Fits entry.1 entry.2) : Inv headers selfEmails s.flush := by
  have hsplit : s.deferred ++ [] = s.deferred := append_nil _
  obtain ⟨hinv, -, -⟩ := h.forget.ackAll rfl
    (by rw [hsplit]; exact h.waiting) (by rw [hsplit]; exact h.ordered) (by rw [hsplit]; exact hfits)
  exact hinv

theorem Inv.flushDies (h : Inv headers selfEmails s)
    (hfits : ∀ entry ∈ s.deferred, s.Fits entry.1 entry.2) (acks : Nat) (dies : DiesAt) :
    Inv headers selfEmails (s.flushDies acks dies) := by
  have hsplit : s.deferred.take acks ++ s.deferred.drop acks = s.deferred := take_append_drop ..
  obtain ⟨hinv, hd, hwait⟩ := h.forget.ackAll rfl
    (by rw [hsplit]; exact h.waiting) (by rw [hsplit]; exact h.ordered) (by rw [hsplit]; exact hfits)
  unfold Ingest.flushDies
  split
  · rename_i scope n hget
    have hmem : (scope, n) ∈ s.deferred.drop acks := by
      apply mem_of_getElem? (i := 0)
      rw [getElem?_drop]
      exact hget
    obtain ⟨hle, hn⟩ := hwait (scope, n) hmem
    exact (hinv.ack hd hle hn).crashed
  · exact hinv.crashed

theorem Inv.step (h : Inv headers selfEmails s) {event : IngestEvent} {t : Ingest}
    (hok : s.Meets event) (hstep : s.step headers selfEmails event = .ok t) : Inv headers selfEmails t := by
  cases event with
  | handle scope batch dies =>
    obtain ⟨hd, hfits⟩ := hok
    simp only [Ingest.step] at hstep
    cases hrec : s.recorded scope with
    | none =>
      rw [show (s.scopes scope).log[(s.scopes scope).next]? = none from hrec] at hstep
      cases hstep
      rw [hrec] at hd
      exact h.handle (h.ingest_first hrec hd) hfits dies
    | some recorded =>
      rw [show (s.scopes scope).log[(s.scopes scope).next]? = some recorded from hrec] at hstep
      rw [hrec] at hd
      dsimp only at hstep
      split at hstep
      · rename_i hre
        cases hstep
        exact h.handle (h.ingest_again hrec hre.1 hd) hfits dies
      · cases hstep
  | done scope dies =>
    cases hstep
    exact h.publish rfl hok dies
  | flush =>
    cases hstep
    exact h.flush hok
  | flushDies acks dies =>
    cases hstep
    exact h.flushDies hok acks dies
  | crash =>
    cases hstep
    exact h.crashed

def bareAddresses : Headers where
  parseAddressList := fun raw => [(none, raw)]
  toLowercase := fun s => s

def fromPeer (id : MessageId) : SeenMessage :=
  ⟨id, some "peer@example.com", none, some "me@example.com", none, none, 1⟩

/-- A crash between the transaction and the acknowledgement, then the batch again and one more. -/
def crashBeforeAck : List IngestEvent :=
  [.handle .account ⟨[fromPeer "m1"], some (.change "c1"), false⟩ (some .beforeAck),
    .handle .account ⟨[fromPeer "m1"], some (.change "c1"), false⟩ none,
    .handle .account ⟨[fromPeer "m2"], some (.change "c2"), false⟩ none]

/-- A batch without a checkpoint comes again after a crash. -/
def crashWithoutCheckpoint : List IngestEvent :=
  [.handle .account ⟨[fromPeer "m1"], none, false⟩ none, .crash,
    .handle .account ⟨[fromPeer "m1"], none, false⟩ none]

end Ingest

end Ratatoskr.Consumer
