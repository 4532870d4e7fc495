import Ratatoskr.Lib.Latch
import Ratatoskr.Consumer.Drive

/-!
# Consumer.Converge

When the local store ends with the messages of the server. A drive sets a message's row if it carries an
object change of it, and takes it away if it carries a `Removed` of it and nothing live; the order inside
the drive is lost. So a purge that shares its drive with a live change of the message leaves the row, and
a move whose source half falls into a drive of its own takes it away.

* `drive_eq` : a loop over events is a loop over the drives it cuts them into.
* `mem_runDrive` : what one drive does to one message.
* `graph_converges_iff` : the store is right iff every drive that looks like a purge of a message still
  on the server is followed by an object change of it, and every object change of a message no longer
  there by a drive that looks like its purge.
-/

namespace Ratatoskr.Consumer

open List
open Lib (Table Latched Followed)

def Change.rowOf : Change → Option MessageId
  | .objectChange id .created => some id
  | .objectChange id .updated => some id
  | _ => none

def Change.destroyedOf : Change → Option MessageId
  | .objectChange id .destroyed => some id
  | _ => none

def Change.removedOf : Change → Option MessageId
  | .scopeChange id _ .removed => some id
  | _ => none

def Change.liveOf : Change → Option MessageId
  | .objectChange id .created => some id
  | .objectChange id .updated => some id
  | .scopeChange id _ .added => some id
  | _ => none

variable {x : MessageId}

theorem Change.liveOf_of_rowOf {c : Change} (h : c.rowOf = some x) : c.liveOf = some x := by
  cases c with
  | objectChange id kind => cases kind <;> exact h
  | scopeChange id folder kind => cases h

theorem addChange_eq (batch : HydrateBatch) (c : Change) : HydrateBatch.addChange .graph batch c =
      ⟨batch.rows ++ c.rowOf.toList, batch.deletedIds ++ c.destroyedOf.toList,
        batch.removedIds ++ c.removedOf.toList, batch.liveIds ++ c.liveOf.toList⟩ := by
  cases c with
  | objectChange id kind =>
    cases kind <;> simp [HydrateBatch.addChange, recordChangeMembership,
      hydrateChangeToMessageInsertRow, Change.rowOf, Change.destroyedOf, Change.removedOf, Change.liveOf]
  | scopeChange id folder kind =>
    cases kind <;> simp [HydrateBatch.addChange, recordChangeMembership,
      hydrateChangeToMessageInsertRow, Change.rowOf, Change.destroyedOf, Change.removedOf, Change.liveOf]

theorem foldl_addChange (changes : List Change) (batch : HydrateBatch) :
    changes.foldl (HydrateBatch.addChange .graph) batch =
      ⟨batch.rows ++ changes.filterMap Change.rowOf, batch.deletedIds ++ changes.filterMap Change.destroyedOf,
        batch.removedIds ++ changes.filterMap Change.removedOf,
        batch.liveIds ++ changes.filterMap Change.liveOf⟩ := by
  induction changes generalizing batch with
  | nil => simp
  | cons c changes ih =>
    rw [foldl_cons, ih, addChange_eq]
    simp only [append_assoc, filterMap_cons]
    cases c.rowOf <;> cases c.destroyedOf <;> cases c.removedOf <;> cases c.liveOf <;> rfl

theorem fromChanges_eq (changes : List Change) : HydrateBatch.fromChanges .graph changes =
      ⟨changes.filterMap Change.rowOf, changes.filterMap Change.destroyedOf,
        changes.filterMap Change.removedOf, changes.filterMap Change.liveOf⟩ := by
  rw [HydrateBatch.fromChanges, foldl_addChange]
  rfl

abbrev Drive := List (List Change)

def runDrive (messages : Finset MessageId) (d : Drive) : Finset MessageId :=
  (flushDriveEnd (d.foldl handleBatch ⟨messages, .default⟩)).messages

/-- The messages that `f` finds in a drive. -/
def Drive.ids (f : Change → Option MessageId) (d : Drive) : List MessageId := d.flatten.filterMap f

def Hydrated (x : MessageId) (d : Drive) : Prop := x ∈ Drive.ids Change.rowOf d

/-- The drive carries a `Removed` of the message and nothing live of it. -/
def LooksPurged (x : MessageId) (d : Drive) : Prop :=
  x ∈ Drive.ids Change.removedOf d ∧ x ∉ Drive.ids Change.liveOf d

theorem Hydrated.live {d : Drive} (h : Hydrated x d) : x ∈ Drive.ids Change.liveOf d := by
  obtain ⟨c, hc, hrow⟩ := mem_filterMap.mp h
  exact mem_filterMap.mpr ⟨c, hc, Change.liveOf_of_rowOf hrow⟩

theorem not_looksPurged_of_hydrated {d : Drive} (h : Hydrated x d) : ¬ LooksPurged x d :=
  fun hp => hp.2 h.live

theorem mem_handleBatches (x : MessageId) (d : Drive) (hno : x ∉ Drive.ids Change.destroyedOf d) (s : State) :
    (x ∈ (d.foldl handleBatch s).messages ↔ x ∈ s.messages ∨ Hydrated x d) ∧
    (x ∈ (d.foldl handleBatch s).pending.removed ↔ x ∈ s.pending.removed ∨ x ∈ Drive.ids Change.removedOf d) ∧
    (x ∈ (d.foldl handleBatch s).pending.live ↔ x ∈ s.pending.live ∨ x ∈ Drive.ids Change.liveOf d) := by
  induction d generalizing s with
  | nil => simp [Hydrated, Drive.ids]
  | cons changes d ih =>
    have hsplit : ∀ f, Drive.ids f (changes :: d) = changes.filterMap f ++ Drive.ids f d := by
      intro f
      rw [Drive.ids, flatten_cons, filterMap_append, Drive.ids]
    rw [hsplit, mem_append, not_or] at hno
    obtain ⟨hmsg, hrem, hlive⟩ := ih hno.2 (handleBatch s changes)
    rw [foldl_cons, hmsg, hrem, hlive, Hydrated, Hydrated, hsplit, hsplit, hsplit]
    simp only [handleBatch, fromChanges_eq, Finset.mem_sdiff, Finset.mem_union, mem_toFinset,
      mem_append, hno.1, not_false_eq_true, and_true, or_assoc]

theorem mem_runDrive {d : Drive} (hno : x ∉ Drive.ids Change.destroyedOf d) (messages : Finset MessageId) :
    x ∈ runDrive messages d ↔ Hydrated x d ∨ (x ∈ messages ∧ ¬ LooksPurged x d) := by
  obtain ⟨hmsg, hrem, hlive⟩ := mem_handleBatches x d hno ⟨messages, .default⟩
  have hempty : x ∉ PendingDeletions.default.removed ∧ x ∉ PendingDeletions.default.live :=
    ⟨Finset.notMem_empty x, Finset.notMem_empty x⟩
  rw [runDrive, flushDriveEnd, flushPendingDeletions]
  simp only [Finset.mem_sdiff, hmsg, hrem, hlive, hempty.1, hempty.2, false_or]
  constructor
  · rintro ⟨hm | hh, hnot⟩
    · exact .inr ⟨hm, hnot⟩
    · exact .inl hh
  · rintro (hh | ⟨hm, hnot⟩)
    · exact ⟨.inr hh, not_looksPurged_of_hydrated hh⟩
    · exact ⟨.inl hm, hnot⟩

def pendingOf (current : Drive) : PendingDeletions :=
  (current.foldl handleBatch ⟨∅, .default⟩).pending

/-- The drives of the resident loop; `current` is the one it is in. -/
def residentDrives (current : Drive) : List Event → List Drive
  | [] => [current]
  | .batch _ changes elapsed :: events =>
    if residentFlushDue (pendingOf (current ++ [changes])) elapsed then
      (current ++ [changes]) :: residentDrives [] events
    else residentDrives (current ++ [changes]) events
  | .idle backfillCompleted :: events =>
    if backfillCompleted then current :: residentDrives [] events else residentDrives current events

/-- The batches that the one-shot loop handles, with their folders. -/
def receivedBatches : List Event → List (FolderId × List Change)
  | [] => []
  | .batch scope changes _ :: events => (scope, changes) :: receivedBatches events
  | .idle backfillCompleted :: events => if backfillCompleted then [] else receivedBatches events

def allBatches : List Event → List (FolderId × List Change)
  | [] => []
  | .batch scope changes _ :: events => (scope, changes) :: allBatches events
  | .idle _ :: events => allBatches events

def Attach.drives : Attach → List Drive
  | .resident events => residentDrives [] events
  | .oneShot events => [(receivedBatches events).map Prod.snd]

def Attach.handled : Attach → List (FolderId × List Change)
  | .resident events => allBatches events
  | .oneShot events => receivedBatches events

theorem pending_foldl_handleBatch (d : Drive) (messages messages' : Finset MessageId)
    (pending : PendingDeletions) :
    (d.foldl handleBatch ⟨messages, pending⟩).pending = (d.foldl handleBatch ⟨messages', pending⟩).pending := by
  induction d generalizing messages messages' pending with
  | nil => rfl
  | cons changes d ih => exact ih _ _ _

theorem resident_eq (events : List Event) (current : Drive) (messages : Finset MessageId) :
    (flushDriveEnd (events.foldl residentEvent (current.foldl handleBatch ⟨messages, .default⟩))).messages =
      (residentDrives current events).foldl runDrive messages := by
  induction events generalizing current messages with
  | nil => rfl
  | cons event events ih =>
    cases event with
    | batch scope changes elapsed =>
      have hstep : handleBatch (current.foldl handleBatch ⟨messages, .default⟩) changes =
          (current ++ [changes]).foldl handleBatch ⟨messages, .default⟩ := by
        rw [foldl_append, foldl_cons, foldl_nil]
      have hpending : ((current ++ [changes]).foldl handleBatch ⟨messages, .default⟩).pending =
          pendingOf (current ++ [changes]) := pending_foldl_handleBatch _ _ _ _
      rw [foldl_cons, residentEvent, residentDrives, hstep]
      simp only [hpending]
      split
      · exact ih [] _
      · exact ih (current ++ [changes]) messages
    | idle backfillCompleted =>
      rw [foldl_cons, residentEvent, residentDrives]
      split
      · exact ih [] _
      · exact ih current messages

theorem recvLoop_eq (events : List Event) (s : State) :
    recvLoop s events = ((receivedBatches events).map Prod.snd).foldl handleBatch s := by
  induction events generalizing s with
  | nil => rfl
  | cons event events ih =>
    cases event with
    | batch scope changes elapsed => exact ih _
    | idle backfillCompleted =>
      rw [recvLoop, receivedBatches]
      split
      · rfl
      · exact ih s

theorem drive_eq (messages : Finset MessageId) (attach : Attach) :
    drive messages attach = attach.drives.foldl runDrive messages := by
  cases attach with
  | resident events => exact resident_eq events [] messages
  | oneShot events =>
    rw [drive, driveReceiver, recvLoop_eq]
    rfl

theorem consume_eq (attaches : List Attach) :
    consume attaches = (attaches.flatMap Attach.drives).foldl runDrive ∅ := by
  rw [consume]
  generalize (∅ : Finset MessageId) = messages
  induction attaches generalizing messages with
  | nil => rfl
  | cons attach attaches ih =>
    rw [foldl_cons, flatMap_cons, foldl_append, ih, drive_eq]

theorem flatten_residentDrives (events : List Event) (current : Drive) :
    (residentDrives current events).flatten = current ++ (allBatches events).map Prod.snd := by
  induction events generalizing current with
  | nil => simp [residentDrives, allBatches]
  | cons event events ih =>
    cases event with
    | batch scope changes elapsed =>
      rw [residentDrives]
      split
      · rw [flatten_cons, ih, allBatches]
        simp
      · rw [ih, allBatches]
        simp
    | idle backfillCompleted =>
      rw [residentDrives]
      split
      · rw [flatten_cons, ih, allBatches]
        simp
      · rw [ih, allBatches]

theorem flatten_drives (attach : Attach) : attach.drives.flatten = attach.handled.map Prod.snd := by
  cases attach with
  | resident events => exact flatten_residentDrives events []
  | oneShot events => simp [Attach.drives, Attach.handled]

/-! ## Delivery -/

/-- The batches handled are the folders' streams, cut into batches and interleaved in any way that keeps
each folder's order. -/
def Delivers (attaches : List Attach) (emitted : List (FolderId × Change)) : Prop :=
  ∀ folder, ((attaches.flatMap Attach.handled).filter (fun b => b.1 = folder)).flatMap Prod.snd =
    streamOf emitted folder

variable {emitted : List (FolderId × Change)}

theorem mem_streamOf {folder : FolderId} {c : Change} :
    c ∈ streamOf emitted folder ↔ (folder, c) ∈ emitted := by
  rw [streamOf, mem_map]
  constructor
  · rintro ⟨⟨f, c'⟩, hmem, rfl⟩
    obtain ⟨hin, hf⟩ := mem_filter.mp hmem
    have hf' : f = folder := by simpa using hf
    exact hf' ▸ hin
  · intro h
    exact ⟨(folder, c), mem_filter.mpr ⟨h, by simp⟩, rfl⟩

theorem mem_drives_iff {attaches : List Attach} (hdel : Delivers attaches emitted) (c : Change) :
    (∃ d ∈ attaches.flatMap Attach.drives, c ∈ d.flatten) ↔ ∃ folder, (folder, c) ∈ emitted := by
  have hbatch : (∃ d ∈ attaches.flatMap Attach.drives, c ∈ d.flatten) ↔
      ∃ b ∈ attaches.flatMap Attach.handled, c ∈ b.2 := by
    constructor
    · rintro ⟨d, hd, hc⟩
      obtain ⟨attach, ha, hd⟩ := mem_flatMap.mp hd
      obtain ⟨changes, hch, hc⟩ := mem_flatten.mp hc
      have hin : changes ∈ attach.handled.map Prod.snd := by
        rw [← flatten_drives]
        exact mem_flatten.mpr ⟨d, hd, hch⟩
      obtain ⟨b, hb, rfl⟩ := mem_map.mp hin
      exact ⟨b, mem_flatMap.mpr ⟨attach, ha, hb⟩, hc⟩
    · rintro ⟨b, hb, hc⟩
      obtain ⟨attach, ha, hb⟩ := mem_flatMap.mp hb
      have hin : b.2 ∈ attach.drives.flatten := by
        rw [flatten_drives]
        exact mem_map_of_mem hb
      obtain ⟨d, hd, hbd⟩ := mem_flatten.mp hin
      exact ⟨d, mem_flatMap.mpr ⟨attach, ha, hd⟩, mem_flatten.mpr ⟨b.2, hbd, hc⟩⟩
  rw [hbatch]
  constructor
  · rintro ⟨b, hb, hc⟩
    refine ⟨b.1, mem_streamOf.mp ?_⟩
    rw [← hdel b.1]
    exact mem_flatMap.mpr ⟨b, mem_filter.mpr ⟨hb, by simp⟩, hc⟩
  · rintro ⟨folder, hc⟩
    have hin := mem_streamOf.mpr hc
    rw [← hdel folder] at hin
    obtain ⟨b, hb, hc⟩ := mem_flatMap.mp hin
    exact ⟨b, (mem_filter.mp hb).1, hc⟩

/-- What a history leaves: no change destroys, and every message on the server was created. -/
structure Emitted (server : Table MessageId FolderId) (emitted : List (FolderId × Change)) : Prop where
  kept : ∀ c ∈ emitted, c.2.destroyedOf = none
  created : ∀ x, (server.lookup x).isSome → ∃ folder, (folder, Change.objectChange x .created) ∈ emitted

theorem Emitted.step {server server' : Table MessageId FolderId} {changes : List (FolderId × Change)}
    {step : MailboxStep} (h : Emitted server emitted)
    (hstep : mailboxStep server step = .ok (server', changes)) : Emitted server' (emitted ++ changes) := by
  have hold : ∀ x, (server.lookup x).isSome →
      ∃ folder, (folder, Change.objectChange x .created) ∈ emitted ++ changes := by
    intro x hx
    obtain ⟨folder, hin⟩ := h.created x hx
    exact ⟨folder, mem_append_left _ hin⟩
  have hkept : (∀ c ∈ changes, c.2.destroyedOf = none) → ∀ c ∈ emitted ++ changes, c.2.destroyedOf = none := by
    intro hch c hc
    rcases mem_append.mp hc with hc | hc
    · exact h.kept c hc
    · exact hch c hc
  cases step with
  | create id folder =>
    simp only [mailboxStep] at hstep
    split at hstep
    · cases hstep
    cases hstep
    refine ⟨hkept (by simp [Change.destroyedOf]), fun x hx => ?_⟩
    rw [Table.lookup_insert_if] at hx
    split at hx
    · rename_i heq
      exact ⟨folder, mem_append_right _ (by simp [heq])⟩
    · exact hold x hx
  | update id =>
    simp only [mailboxStep] at hstep
    split at hstep
    · cases hstep
    · cases hstep
      exact ⟨hkept (by simp [Change.destroyedOf]), hold⟩
  | move id folder =>
    simp only [mailboxStep] at hstep
    split at hstep
    · cases hstep
    rename_i source hsource
    split at hstep
    · cases hstep
    cases hstep
    refine ⟨hkept (by simp [Change.destroyedOf]), fun x hx => hold x ?_⟩
    rw [Table.lookup_insert_if] at hx
    split at hx
    · rename_i heq
      rw [heq, hsource]
      rfl
    · exact hx
  | purge id =>
    simp only [mailboxStep] at hstep
    split at hstep
    · cases hstep
    cases hstep
    refine ⟨hkept (by simp [Change.destroyedOf]), fun x hx => hold x ?_⟩
    rw [Table.lookup_erase_if] at hx
    split at hx
    · cases hx
    · exact hx

theorem emitted_of_history {steps : List MailboxStep} {server : Table MessageId FolderId}
    (h : runHistory steps = .ok (server, emitted)) :
    Emitted server emitted := by
  rw [runHistory] at h
  have hstart : Emitted (∅ : Table MessageId FolderId) [] := by
    refine ⟨fun c hc => absurd hc not_mem_nil, fun x hx => ?_⟩
    cases hx
  generalize hs : ((∅, []) : Table MessageId FolderId × List (FolderId × Change)) = start at h
  replace hstart : Emitted start.1 start.2 := hs ▸ hstart
  clear hs
  induction steps generalizing start with
  | nil =>
    cases h
    exact hstart
  | cons step steps ih =>
    rw [foldlM_cons] at h
    cases hs : mailboxStep start.1 step with
    | error e =>
      simp only [hs] at h
      cases h
    | ok next =>
      simp only [hs] at h
      exact ih (next.1, start.2 ++ next.2) h (hstart.step hs)

/-- How the drives must fall for moves and purges to be told apart. -/
structure ToldApart (drives : List Drive) (server : Table MessageId FolderId) : Prop where
  moved : ∀ x, (server.lookup x).isSome → Followed (LooksPurged x) (Hydrated x) drives
  purged : ∀ x, server.lookup x = none → Followed (Hydrated x) (LooksPurged x) drives

/-- For every history, interleaving and way to cut: the store holds the server's messages iff every drive
that looks like a purge of a message still on the server is followed by one with an object change of it,
and every drive with an object change of a message no longer there by one that looks like its purge. -/
theorem graph_converges_iff {steps : List MailboxStep} {server : Table MessageId FolderId}
    {emitted : List (FolderId × Change)} (hhist : runHistory steps = .ok (server, emitted))
    {attaches : List Attach} (hdel : Delivers attaches emitted) :
    (∀ x, x ∈ consume attaches ↔ (server.lookup x).isSome) ↔
      ToldApart (attaches.flatMap Attach.drives) server := by
  have hemit := emitted_of_history hhist
  have hno : ∀ x, ∀ d ∈ attaches.flatMap Attach.drives, x ∉ Drive.ids Change.destroyedOf d := by
    intro x d hd hx
    obtain ⟨c, hc, hcx⟩ := mem_filterMap.mp hx
    obtain ⟨folder, hin⟩ := (mem_drives_iff hdel c).mp ⟨d, hd, hc⟩
    rw [hemit.kept _ hin] at hcx
    cases hcx
  have hmem : ∀ x, x ∈ consume attaches ↔
      Latched (Hydrated x) (LooksPurged x) (attaches.flatMap Attach.drives) := by
    intro x
    rw [consume_eq, Lib.latched_foldl (fun m : Finset MessageId => x ∈ m)
      (fun d hd => mem_runDrive (hno x d hd))]
    exact or_iff_right fun h => Finset.notMem_empty x h.1
  have hsome : ∀ x, (server.lookup x).isSome →
      ∃ d ∈ attaches.flatMap Attach.drives, Hydrated x d := by
    intro x hx
    obtain ⟨folder, hin⟩ := hemit.created x hx
    obtain ⟨d, hd, hc⟩ := (mem_drives_iff hdel _).mpr ⟨folder, hin⟩
    exact ⟨d, hd, mem_filterMap.mpr ⟨_, hc, rfl⟩⟩
  constructor
  · intro hconv
    refine ⟨fun x hx => ?_, fun x hx => ?_⟩
    · rw [← Lib.latched_iff_followed (fun d => not_looksPurged_of_hydrated) (hsome x hx), ← hmem]
      exact (hconv x).mpr hx
    · rw [← Lib.not_latched_iff_followed, ← hmem, hconv, hx]
      exact Bool.false_ne_true
  · intro htold x
    rw [hmem]
    cases hx : server.lookup x with
    | some folder =>
      have hx' : (server.lookup x).isSome := by rw [hx]; rfl
      rw [Lib.latched_iff_followed (fun d => not_looksPurged_of_hydrated) (hsome x hx')]
      exact iff_of_true (htold.moved x hx') rfl
    | none =>
      exact iff_of_false ((Lib.not_latched_iff_followed _).mpr (htold.purged x hx)) Bool.false_ne_true

/-- Message `a` is moved and `b` purged; the halves of the move fall into one drive. -/
def movedAndPurged : List MailboxStep :=
  [.create "a" "inbox", .create "b" "inbox", .move "a" "archive", .purge "b"]

def movedAndPurgedRun : List Attach :=
  [.oneShot [.batch "inbox" [.objectChange "a" .created, .scopeChange "a" "inbox" .added,
      .objectChange "b" .created, .scopeChange "b" "inbox" .added] false, .idle true],
    .resident [.batch "archive" [.objectChange "a" .updated, .scopeChange "a" "archive" .added] false,
      .batch "inbox" [.scopeChange "a" "inbox" .removed, .scopeChange "b" "inbox" .removed] true]]

theorem graph_converges_iff_movedAndPurged :
    ∃ server emitted, runHistory movedAndPurged = .ok (server, emitted) ∧ Delivers movedAndPurgedRun emitted ∧
      (∀ x, x ∈ consume movedAndPurgedRun ↔ (server.lookup x).isSome) := by
  have hdrives : movedAndPurgedRun.flatMap Attach.drives =
      [[[.objectChange "a" .created, .scopeChange "a" "inbox" .added,
          .objectChange "b" .created, .scopeChange "b" "inbox" .added]],
        [[.objectChange "a" .updated, .scopeChange "a" "archive" .added],
          [.scopeChange "a" "inbox" .removed, .scopeChange "b" "inbox" .removed]], []] := by decide
  have hdel : Delivers movedAndPurgedRun
      [("inbox", .objectChange "a" .created), ("inbox", .scopeChange "a" "inbox" .added),
        ("inbox", .objectChange "b" .created), ("inbox", .scopeChange "b" "inbox" .added),
        ("archive", .objectChange "a" .updated), ("archive", .scopeChange "a" "archive" .added),
        ("inbox", .scopeChange "a" "inbox" .removed), ("inbox", .scopeChange "b" "inbox" .removed)] := by
    intro folder
    by_cases h1 : folder = "inbox"
    · subst h1
      decide
    · by_cases h2 : folder = "archive"
      · subst h2
        decide
      · simp [movedAndPurgedRun, Attach.handled, receivedBatches, allBatches, streamOf, Ne.symm h1, Ne.symm h2]
  have hhist : runHistory movedAndPurged = .ok _ := rfl
  refine ⟨_, _, hhist, hdel, (graph_converges_iff hhist hdel).mpr ?_⟩
  rw [hdrives]
  refine ⟨fun x hx => ?_, fun x hx => ?_⟩
  -- only `b` looks purged, in the second drive, and only `a` is left
  · have hb : x ≠ "b" := by
      rintro rfl
      cases hx
    simp only [Followed, LooksPurged, Hydrated, Drive.ids]
    simp [Change.removedOf, Change.liveOf, Change.rowOf, hb, eq_comm]
  · have ha : x ≠ "a" := by
      rintro rfl
      cases hx
    simp only [Followed, LooksPurged, Hydrated, Drive.ids]
    simp [Change.removedOf, Change.liveOf, Change.rowOf, ha, ha.symm]

/-- A message is created, updated and purged, all in one drive. -/
def updatedAndPurgedRun : List Attach :=
  [.oneShot [.batch "inbox" [.objectChange "a" .created, .scopeChange "a" "inbox" .added] false,
    .batch "inbox" [.objectChange "a" .updated, .scopeChange "a" "inbox" .removed] false, .idle true]]

theorem purge_after_update_leaks :
    ∃ server emitted, runHistory [.create "a" "inbox", .update "a", .purge "a"] = .ok (server, emitted) ∧
      Delivers updatedAndPurgedRun emitted ∧ server.lookup "a" = none ∧
      "a" ∈ consume updatedAndPurgedRun := by
  refine ⟨_, _, rfl, fun folder => ?_, rfl, by decide⟩
  by_cases h : folder = "inbox"
  · subst h
    decide
  · simp [updatedAndPurgedRun, Attach.handled, receivedBatches, streamOf, Ne.symm h]

end Ratatoskr.Consumer
