import Ratatoskr.Lib.Run
import Ratatoskr.Consumer.Stream

/-!
# Consumer.Acks

What an acknowledgement covers. Acknowledging a checkpoint of a scope means that no batch of the scope
that was published up to it is delivered again, so a batch that is kept back for redelivery is lost when
a later checkpoint of its scope gets out. The consumer remembers nothing of the batches it kept back:
the next batch of the scope, or its `Done`, acknowledges past them. Where no checkpoint follows a batch
kept back, nothing is lost.
-/

namespace Ratatoskr.Consumer

open Lib (Reaches)
open Actions (NamespaceAttribution)

/-- The batch, at its place in the stream, is not delivered again once this is acknowledged. -/
def Ack.Covers (ack : Ack) (i : Nat) (batch : Delivered) : Prop :=
  batch.scope = ack.scope ∧ i < ack.published

/-- All that it covers was hydrated unblocked and persisted. -/
def Ack.Safe (ack : Ack) (delivered : List Delivered) : Prop :=
  ∀ i batch, delivered[i]? = some batch → ack.Covers i batch → batch.stored = true

namespace ChangeStreamConsumer

/-- No checkpoint is acknowledged past a batch that is not stored. -/
def NonePast (s : ChangeStreamConsumer) : Prop := ∀ ack ∈ s.acked, ack.Safe s.delivered

def LeftRedelivered (s : ChangeStreamConsumer) : Prop :=
  ∀ (i : Nat) (batch : Delivered), s.delivered[i]? = some batch → batch.stored = false →
    ∀ ack ∈ s.acked, ¬ ack.Covers i batch

/-- The stream has no batch of the scope that is not stored. -/
def Clean (s : ChangeStreamConsumer) (scope : CursorScope) : Prop :=
  ∀ batch ∈ s.delivered, batch.scope = scope → batch.stored = true

instance (s : ChangeStreamConsumer) (scope : CursorScope) : Decidable (s.Clean scope) :=
  inferInstanceAs (Decidable (∀ batch ∈ s.delivered, batch.scope = scope → batch.stored = true))

end ChangeStreamConsumer

def StreamChange.isUnknownKind : StreamChange → Bool
  | .known _ => false
  | .unknownKind _ => true

namespace ChangeStreamConsumer

/-- The checkpoint of the batch does not get out: its scope has no namespace, its refresh fails, one of
its changes is of an unknown kind, or a stage before the acknowledgement fails. -/
def keepsBack (s : ChangeStreamConsumer) (scope : CursorScope) (items : List StreamChange)
    (answers : Answers) : Bool :=
  match s.resolveAttribution scope answers with
  | (none, _) => true
  | (some _, s) =>
    !answers.persisted || !answers.postPersisted ||
      if s.isMailScope scope then items.any StreamChange.isUnknownKind || !answers.hydrated
      else isContainerChangeBatch scope items.length && answers.containers.isNone

/-- A checkpoint gets out only in a scope without a batch that was kept back. -/
def Meets (s : ChangeStreamConsumer) : StreamEvent → Prop
  | .batch scope items (some _) answers => s.keepsBack scope items answers = false → s.Clean scope
  | .done scope (some _) _ => s.Clean scope
  | _ => True

instance (s : ChangeStreamConsumer) (event : StreamEvent) : Decidable (s.Meets event) :=
  match event with
  | .batch _ _ (some _) _ => inferInstanceAs (Decidable (_ → _))
  | .batch _ _ none _ => inferInstanceAs (Decidable True)
  | .done scope (some _) _ => inferInstanceAs (Decidable (s.Clean scope))
  | .done _ none _ => inferInstanceAs (Decidable True)
  | .progress _ => inferInstanceAs (Decidable True)
  | .terminated _ => inferInstanceAs (Decidable True)
  | .lagged _ => inferInstanceAs (Decidable True)
  | .closed _ => inferInstanceAs (Decidable True)
  | .idle _ _ => inferInstanceAs (Decidable True)

end ChangeStreamConsumer

theorem blocked_foldl (provider : BifrostProviderKind) (changes : List StreamChange) (h : Hydration) :
    (changes.foldl (Hydration.addChange provider) h).blocked =
      (h.blocked || changes.any StreamChange.isUnknownKind) := by
  induction changes generalizing h with
  | nil => simp
  | cons change changes ih =>
    rw [List.foldl_cons, ih]
    cases change with
    | known change => simp [Hydration.addChange, StreamChange.isUnknownKind]
    | unknownKind id => simp [Hydration.addChange, StreamChange.isUnknownKind]

theorem fromChanges_blocked (provider : BifrostProviderKind) (changes : List StreamChange) :
    (Hydration.fromChanges provider changes).blocked = changes.any StreamChange.isUnknownKind := by
  rw [Hydration.fromChanges, blocked_foldl]
  rfl

/-- What is acknowledged or waits for it covers stored batches of the stream only. -/
structure Settled (delivered : List Delivered) (ack : Ack) : Prop where
  safe : ack.Safe delivered
  out : ack.published ≤ delivered.length

theorem Settled.deliver {delivered : List Delivered} {ack : Ack} (h : Settled delivered ack)
    (batch : Delivered) : Settled (delivered ++ [batch]) ack where
  safe := by
    intro i b hb hc
    have hlt : i < delivered.length := Nat.lt_of_lt_of_le hc.2 h.out
    rw [List.getElem?_append_left hlt] at hb
    exact h.safe i b hb hc
  out := by
    rw [List.length_append]
    exact Nat.le_trans h.out (Nat.le_add_right _ _)

namespace ChangeStreamConsumer

variable {s : ChangeStreamConsumer} {scope : CursorScope} {acks : List Ack}
  {checkpoint : Option Checkpoint} {answers : Answers}

def Inv (s : ChangeStreamConsumer) : Prop :=
  ∀ ack, ack ∈ s.acked ∨ ack ∈ s.deferredImapAcks → Settled s.delivered ack

theorem settled_of_clean (h : s.Clean scope) (checkpoint : Checkpoint) :
    Settled s.delivered ⟨scope, checkpoint, s.delivered.length⟩ where
  safe := fun _ batch hb hc => h batch (List.mem_of_getElem? hb) hc.1
  out := Nat.le_refl _

theorem inv_new (provider : BifrostProviderKind) (loop : Loop) (containers : Option ContainerIndex) :
    (new provider loop containers).Inv := by
  intro ack h
  rcases h with h | h <;> cases h

theorem Inv.congr {t : ChangeStreamConsumer} (h : s.Inv) (ha : t.acked = s.acked)
    (hd : t.deferredImapAcks = s.deferredImapAcks) (hl : t.delivered = s.delivered) : t.Inv := by
  intro ack hack
  rw [ha, hd] at hack
  rw [hl]
  exact h ack hack

theorem Inv.stop (h : s.Inv) : s.stop.Inv := h

theorem Inv.deliver (h : s.Inv) (scope : CursorScope) (stored : Bool) : (s.deliver scope stored).Inv :=
  fun ack hack => (h ack hack).deliver _

theorem Inv.ackCheckpoints (h : s.Inv) (hacks : ∀ ack ∈ acks, Settled s.delivered ack)
    (fails : Option Nat) : (s.ackCheckpoints acks fails).Inv := by
  cases fails with
  | none =>
    rintro ack (hack | hack)
    · rcases List.mem_append.mp hack with hold | hnew
      · exact h ack (.inl hold)
      · exact hacks ack hnew
    · exact h ack (.inr hack)
  | some n =>
    rintro ack (hack | hack)
    · rcases List.mem_append.mp hack with hold | hnew
      · exact h ack (.inl hold)
      · exact hacks ack (List.mem_of_mem_take hnew)
    · exact h ack (.inr hack)

theorem Inv.publish (h : s.Inv) (hacks : ∀ ack ∈ acks, Settled s.delivered ack)
    (fails : Option Nat) : (s.publish acks fails).Inv := by
  rw [ChangeStreamConsumer.publish]
  split
  · rintro ack (hack | hack)
    · exact h ack (.inl hack)
    · rcases List.mem_append.mp hack with hold | hnew
      · exact h ack (.inr hold)
      · exact hacks ack hnew
  · exact h.ackCheckpoints hacks fails

/-! ## Batches -/

theorem resolveAttribution_frame (s : ChangeStreamConsumer) (scope : CursorScope) (answers : Answers) :
    (s.resolveAttribution scope answers).2.acked = s.acked ∧
      (s.resolveAttribution scope answers).2.deferredImapAcks = s.deferredImapAcks ∧
      (s.resolveAttribution scope answers).2.delivered = s.delivered := by
  rw [resolveAttribution]
  split
  · exact ⟨rfl, rfl, rfl⟩
  split
  · exact ⟨rfl, rfl, rfl⟩
  · cases answers.containers with
    | some containers => exact ⟨rfl, rfl, rfl⟩
    | none => exact ⟨rfl, rfl, rfl⟩

theorem Clean.deliver (h : s.Clean scope) : (s.deliver scope true).Clean scope := by
  intro batch hb hs
  rcases List.mem_append.mp hb with hold | hnew
  · exact h batch hold hs
  · rw [List.mem_singleton] at hnew
    rw [hnew]

theorem Inv.storeBatch (h : s.Inv) {blocked : Bool}
    (hclean : checkpoint.isSome = true → answers.persisted = true → answers.postPersisted = true →
      blocked = false → s.Clean scope) : (s.storeBatch scope checkpoint blocked answers).Inv := by
  rw [ChangeStreamConsumer.storeBatch]
  cases hp : answers.persisted with
  | false => exact (h.deliver scope false).stop
  | true =>
    cases hq : answers.postPersisted with
    | false => exact (h.deliver scope _).stop
    | true =>
      cases checkpoint with
      | none => exact h.deliver scope _
      | some checkpoint =>
        cases blocked with
        | true => exact h.deliver scope _
        | false =>
          have hs : (s.deliver scope true).Clean scope := Clean.deliver (hclean rfl hp hq rfl)
          apply (h.deliver scope true).publish
          intro ack hack
          rw [List.mem_singleton.mp hack]
          exact settled_of_clean hs checkpoint

theorem Inv.persistBatch (h : s.Inv) {hydrated : Hydration}
    (hclean : checkpoint.isSome = true → answers.persisted = true → answers.postPersisted = true →
      hydrated.blocked = false → s.Clean scope) (itemCount : Nat) (attribution : NamespaceAttribution) :
    (s.persistBatch scope itemCount checkpoint attribution hydrated answers).Inv := by
  have hacc : (s.accumulate scope itemCount (hydrated.batch.qualifyNamespace attribution)).Inv :=
    h.congr rfl rfl rfl
  exact hacc.storeBatch hclean

theorem Inv.handleBatch (h : s.Inv) {items : List StreamChange}
    (hmeets : s.Meets (.batch scope items checkpoint answers)) :
    (s.handleBatch scope items checkpoint answers).Inv := by
  obtain ⟨ha, hd, hl⟩ := resolveAttribution_frame s scope answers
  have hclean : checkpoint.isSome = true → s.keepsBack scope items answers = false → s.Clean scope := by
    intro hsome
    cases checkpoint with
    | none => cases hsome
    | some checkpoint => exact hmeets
  rw [ChangeStreamConsumer.handleBatch]
  rw [keepsBack] at hclean
  cases hr : s.resolveAttribution scope answers with
  | mk resolved t =>
    rw [hr] at ha hd hl hclean
    have ht : t.Inv := h.congr ha hd hl
    have hcleant : s.Clean scope → t.Clean scope := by
      intro hc
      rw [Clean, hl]
      exact hc
    cases resolved with
    | none => exact ht.deliver scope false
    | some attribution =>
      dsimp only at hclean ⊢
      cases hm : t.isMailScope scope with
      | true =>
        rw [hm] at hclean
        cases hh : answers.hydrated with
        | false => exact (ht.deliver scope false).stop
        | true =>
          apply ht.persistBatch
          intro hsome hp hq hb
          rw [fromChanges_blocked] at hb
          exact hcleant (hclean hsome (by simp [hp, hq, hb, hh]))
      | false =>
        rw [hm] at hclean
        cases hk : isContainerChangeBatch scope items.length with
        | false =>
          apply ht.persistBatch
          intro hsome hp hq _
          exact hcleant (hclean hsome (by simp [hp, hq, hk]))
        | true =>
          cases hcont : answers.containers with
          | none => exact ht.deliver scope false
          | some containers =>
            have hu : ({ t with containers := some containers } : ChangeStreamConsumer).Inv := ht
            apply hu.persistBatch
            intro hsome hp hq _
            exact hcleant (hclean hsome (by simp [hp, hq, hcont]))

theorem Inv.handleDone (h : s.Inv) (hmeets : s.Meets (.done scope checkpoint answers)) :
    (s.handleDone scope checkpoint answers).Inv := by
  cases checkpoint with
  | none => exact h
  | some checkpoint =>
    apply h.publish
    intro ack hack
    have hscope : ∃ c, ack = ⟨scope, c, s.delivered.length⟩ := by
      unfold doneAcks at hack
      split at hack
      · rcases List.mem_cons.mp hack with rfl | hack
        · exact ⟨_, rfl⟩
        · exact ⟨_, List.mem_singleton.mp hack⟩
      · exact ⟨_, List.mem_singleton.mp hack⟩
    obtain ⟨c, rfl⟩ := hscope
    exact settled_of_clean hmeets c

theorem Inv.flushDriveEnd (h : s.Inv) (flushImap : Bool) (answers : Answers) :
    (s.flushDriveEnd flushImap answers).Inv := by
  rw [ChangeStreamConsumer.flushDriveEnd]
  split
  · have hempty : ({ s with deferredImapAcks := [] } : ChangeStreamConsumer).Inv := by
      rintro ack (hack | hack)
      · exact h ack (.inl hack)
      · cases hack
    have hacked := hempty.ackCheckpoints (fun ack hack => h ack (.inr hack)) answers.flushFails
    exact hacked.congr rfl rfl rfl
  · split
    · exact h.stop
    · exact h

theorem Inv.flushAndClear (h : s.Inv) (answers : Answers) : (s.flushAndClear answers).Inv :=
  (h.flushDriveEnd true answers).congr rfl rfl rfl

theorem Inv.afterEvent (h : s.Inv) (answers : Answers) : (s.afterEvent answers).Inv := by
  rw [ChangeStreamConsumer.afterEvent]
  split
  · exact h
  · split
    · exact h.flushAndClear answers
    · exact h

theorem Inv.leave (h : s.Inv) (lagged : Bool) (answers : Answers) : (s.leave lagged answers).Inv :=
  (h.flushDriveEnd _ answers).stop

theorem Inv.idle (h : s.Inv) (backfillCompleted : Bool) (answers : Answers) :
    (s.idle backfillCompleted answers).Inv := by
  rw [ChangeStreamConsumer.idle]
  split
  · cases s.loop with
    | resident => exact h.flushAndClear answers
    | oneShot => exact h.leave false answers
  · exact h

theorem Inv.handleEvent (h : s.Inv) {event : StreamEvent} (hmeets : s.Meets event) :
    (s.handleEvent event).Inv := by
  cases event with
  | batch scope items checkpoint answers => exact (h.handleBatch hmeets).afterEvent answers
  | done scope checkpoint answers => exact (h.handleDone hmeets).afterEvent answers
  | progress answers => exact h.afterEvent answers
  | terminated answers => exact h.leave false answers
  | lagged answers => exact h.leave true answers
  | closed answers => exact h.leave false answers
  | idle backfillCompleted answers => exact h.idle backfillCompleted answers

/-! ## Runs -/

theorem Inv.nonePast (h : s.Inv) : s.NonePast :=
  fun ack hack => (h ack (.inl hack)).safe

theorem NonePast.leftRedelivered (h : s.NonePast) : s.LeftRedelivered := by
  intro i batch hb hleft ack hack hc
  have hstored := h ack hack i batch hb hc
  rw [hleft] at hstored
  cases hstored

theorem acks_cover_stored {provider : BifrostProviderKind} {loop : Loop}
    {containers : Option ContainerIndex} {s : ChangeStreamConsumer}
    (h : Reaches step Meets (new provider loop containers) s) : s.NonePast ∧ s.LeftRedelivered := by
  have hinv : s.Inv := by
    apply h.invariant (inv_new provider loop containers)
    intro u event v hu hok hv
    rw [step] at hv
    split at hv
    · cases hv
    · cases hv
      exact hu.handleEvent hok
  exact ⟨hinv.nonePast, hinv.nonePast.leftRedelivered⟩

/-- Two mailbox batches, the second while the containers cannot be listed, then mail of another scope. -/
def refreshFailsLast : List StreamEvent :=
  [.batch (.type .mailbox) [.known (.objectChange "inbox" .updated)] (some (.change "m1"))
      { Answers.good with containers := some ⟨∅, ∅⟩ },
    .batch (.type .mailbox) [.known (.objectChange "work" .created)] (some (.change "m2")) .good,
    .batch (.type .email) [.known (.objectChange "mail" .created)] (some (.change "e1")) .good, .closed .good]

theorem refreshFailsLast_acks : ∃ s, Reaches step Meets (new .jmap .resident none) s ∧ s.acked.length = 2 ∧
      s.delivered.length = 3 ∧ s.NonePast ∧ s.LeftRedelivered := by
  have hrun : ∃ s, refreshFailsLast.foldlM
      (fun s event => if s.Meets event then s.step event else .error "") (new .jmap .resident none) = .ok s ∧
      s.acked.length = 2 ∧ s.delivered.length = 3 := ⟨_, rfl, by decide, by decide⟩
  obtain ⟨s, hok, hacked, hdelivered⟩ := hrun
  have hs := Lib.reaches_of_checked "" hok
  exact ⟨s, hs, hacked, hdelivered, acks_cover_stored hs⟩

/-- The refresh for a new mailbox fails, and the `Done` of the same page acknowledges past it. -/
def refreshFailsThenDone : List StreamEvent :=
  [.batch (.type .mailbox) [.known (.objectChange "work" .created)] (some (.change "m1")) .good,
    .done (.type .mailbox) (some (.change "m2")) .good]

theorem refreshFailsThenDone_loses :
    ¬ ∀ (provider : BifrostProviderKind) (loop : Loop) (containers : Option ContainerIndex)
      (s : ChangeStreamConsumer),
      Reaches step (fun _ _ => True) (new provider loop containers) s → s.NonePast ∧ s.LeftRedelivered := by
  intro hall
  have hrun : ∃ s, refreshFailsThenDone.foldlM step (new .jmap .resident none) = .ok s ∧
      s.acked = [⟨.type .mailbox, .change "m2", 1⟩] ∧ s.delivered = [⟨.type .mailbox, false⟩] :=
    ⟨_, rfl, rfl, rfl⟩
  obtain ⟨s, hok, hacked, hdelivered⟩ := hrun
  have hpast := (hall .jmap .resident none s (Lib.reaches_foldlM hok)).1
    ⟨.type .mailbox, .change "m2", 1⟩ (by rw [hacked]; exact List.mem_cons_self)
  have hstored := hpast 0 ⟨.type .mailbox, false⟩ (by rw [hdelivered]; rfl) ⟨rfl, by decide⟩
  cases hstored

end ChangeStreamConsumer

end Ratatoskr.Consumer
