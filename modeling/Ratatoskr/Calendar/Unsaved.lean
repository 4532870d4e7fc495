import Ratatoskr.Calendar.Workflow

/-!
# Calendar.Unsaved

When the calendar's editor keeps unsaved work. A session with changes may leave the workflow by being
saved or by a confirmed discard only. Several arms of the handler enter their own workflow whatever the
one before it holds, so a run keeps every draft exactly where no step handles one of those messages while
a changed draft is open.
-/

namespace Ratatoskr.Calendar

variable {workflow : CalendarWorkflow} {session : EditorSession} {s : CalendarState}
  {msg : CalendarMessage}

def CalendarState.Synced (s : CalendarState) : Prop :=
  s.activePopover = s.workflow.popover ∧ s.activeModal = s.workflow.modal

namespace CalendarMessage

def isEdit : CalendarMessage → Bool
  | .eventFieldChanged _ => true
  | .eventFieldUndo _ => true
  | .eventFieldRedo _ => true
  | _ => false

/-- The two ways a session may leave the workflow: saved from its editor, or discarded where the user is
asked. -/
def mayRemove (msg : CalendarMessage) (workflow : CalendarWorkflow) : Bool :=
  match msg, workflow with
  | .saveEvent, .creatingEvent _ _ => true
  | .saveEvent, .editingEvent _ _ _ => true
  | .discardChanges, .confirmingDiscard _ _ _ _ => true
  | _, _ => false

/-- The messages whose arm enters a workflow of its own without looking at the one before. -/
def overwrites (msg : CalendarMessage) (workflow : CalendarWorkflow) : Bool :=
  match msg, workflow with
  | .doubleClickSlot _ _, _ => true
  | .closePopover, _ => true
  | .openEventEditor _, _ => true
  | .createEvent, _ => true
  | .confirmDeleteEvent _ _ _, _ => true
  | .eventSaved (.ok ()), _ => true
  | .eventLoaded (.ok _), _ => true
  | .discardChanges, .confirmingDiscard _ _ _ _ => false
  | .discardChanges, _ => true
  | _, _ => false

end CalendarMessage

/-- The session is still the one that was open: the same, or the one an edit made of it. -/
def Holds (msg : CalendarMessage) (session : EditorSession) (after : CalendarWorkflow) : Prop :=
  if msg.isEdit then ∃ edited, after.session = some edited ∧ edited.original = session.original
  else after.session = some session

def CalendarWorkflow.hasUnsaved (workflow : CalendarWorkflow) : Bool :=
  workflow.session.any EditorSession.isDirty

/-- One step of the handler that loses no unsaved work, with a cancelled close that changes nothing and
surfaces that follow the workflow. -/
structure KeepsUnsaved (system : TimeZone) (client : Bool) (s : CalendarState)
    (msg : CalendarMessage) : Prop where
  kept : ∀ session, s.workflow.session = some session → session.isDirty = true →
    Holds msg session (handleCalendar system client s msg).1.workflow ∨
      msg.mayRemove s.workflow = true
  cancelled : ∀ session, msg = .closeModal → s.workflow.modal = some .eventEditor →
    s.workflow.session = some session → session.isDirty = true →
      (∃ wasCreating eventId accountId, (handleCalendar system client s msg).1.workflow =
        .confirmingDiscard wasCreating eventId accountId session) ∧
      ∀ client', (handleCalendar system client' (handleCalendar system client s msg).1 .closeModal).1 = s
  synced : (handleCalendar system client s msg).1.Synced

/-- `P` of every step of the run. -/
def EachStep (system : TimeZone) (P : Bool → CalendarState → CalendarMessage → Prop) :
    CalendarState → List (Bool × CalendarMessage) → Prop
  | _, [] => True
  | s, (client, msg) :: run =>
    P client s msg ∧ EachStep system P (handleCalendar system client s msg).1 run

section Surfaces

variable (s : CalendarState)

theorem enter_synced (workflow : CalendarWorkflow) : (s.enter workflow).Synced := ⟨rfl, rfl⟩

@[simp] theorem enter_workflow (workflow : CalendarWorkflow) : (s.enter workflow).workflow = workflow := rfl

theorem openCreator_synced (event : CalendarEventData) : (openCreator s event).Synced :=
  enter_synced s _

theorem openEventEditor_synced (data : Option CalendarEventData) : (openEventEditor s data).Synced := by
  unfold openEventEditor
  simp only
  split
  · exact enter_synced s _
  · exact openCreator_synced s _

theorem handleCloseModal_synced : (handleCloseModal s).Synced := by
  unfold handleCloseModal
  split
  · exact enter_synced s _
  · exact enter_synced s _
  · split <;> exact enter_synced s _
  · split <;> exact enter_synced s _
  · exact enter_synced s _

theorem handleSaveEvent_synced (system : TimeZone) (client : Bool) (hs : s.Synced) :
    (handleSaveEvent system client s).1.Synced := by
  unfold handleSaveEvent
  split
  · split
    · exact hs
    · exact enter_synced s _
  · exact hs

theorem mapEditor_surfaces (f : EditorSession → EditorSession) (workflow : CalendarWorkflow) :
    (workflow.mapEditor f).popover = workflow.popover ∧ (workflow.mapEditor f).modal = workflow.modal := by
  cases workflow <;> exact ⟨rfl, rfl⟩

theorem handleEventFieldChanged_surfaces (workflow : CalendarWorkflow) (field : EventField) :
    (handleEventFieldChanged workflow field).popover = workflow.popover ∧
      (handleEventFieldChanged workflow field).modal = workflow.modal := by
  unfold handleEventFieldChanged
  split
  · exact ⟨rfl, rfl⟩
  · exact mapEditor_surfaces _ _

theorem handleCalendar_synced (system : TimeZone) (client : Bool) (msg : CalendarMessage)
    (hs : s.Synced) : (handleCalendar system client s msg).1.Synced := by
  cases msg with
  | doubleClickSlot date hour => exact openCreator_synced s _
  | closePopover => exact enter_synced s _
  | closeModal => exact handleCloseModal_synced s
  | expandPopoverToModal =>
    simp only [handleCalendar]
    split
    · exact enter_synced s _
    · exact hs
  | openEventEditor data => exact openEventEditor_synced s data
  | eventFieldChanged field =>
    have h := handleEventFieldChanged_surfaces s.workflow field
    exact ⟨hs.1.trans h.1.symm, hs.2.trans h.2.symm⟩
  | eventFieldUndo field =>
    have h := mapEditor_surfaces (fun session => session.moveText UndoableText.undo field) s.workflow
    exact ⟨hs.1.trans h.1.symm, hs.2.trans h.2.symm⟩
  | eventFieldRedo field =>
    have h := mapEditor_surfaces (fun session => session.moveText UndoableText.redo field) s.workflow
    exact ⟨hs.1.trans h.1.symm, hs.2.trans h.2.symm⟩
  | saveEvent => exact handleSaveEvent_synced s system client hs
  | eventSaved result =>
    cases result with
    | ok _ => exact ⟨rfl, rfl⟩
    | error _ => exact hs
  | confirmDeleteEvent eventId title accountId => exact enter_synced s _
  | deleteEvent =>
    simp only [handleCalendar]
    split
    · exact enter_synced s _
    · exact hs
  | discardChanges => exact enter_synced s _
  | eventDeleted result => cases result <;> exact hs
  | rsvpCompleted result => cases result <;> exact hs
  | createEvent => exact openCreator_synced s _
  | eventLoaded result =>
    cases result with
    | ok _ => exact enter_synced s _
    | error _ => exact hs
  | toggleCalendarVisibility calendarId visible =>
    simp only [handleCalendar]
    split <;> exact hs
  | visibilityToggled calendarId requestedValue result => cases result <;> exact hs
  | calendarsLoaded loadGeneration result =>
    simp only [handleCalendar]
    split
    · split <;> exact hs
    · exact hs
  | _ => exact hs

end Surfaces

/-! ## Sessions -/

theorem change_original (session : EditorSession) (field : EventField) :
    (session.change field).original = session.original := by
  cases field <;> rfl

theorem moveText_original (session : EditorSession) (f : UndoableText → Option UndoableText)
    (field : EventTextField) : (session.moveText f field).original = session.original := by
  cases field <;> simp only [EditorSession.moveText] <;> split <;> rfl

theorem mapEditor_session {f : EditorSession → EditorSession}
    (hf : ∀ session, (f session).original = session.original) (h : workflow.session = some session) :
    ∃ edited, (workflow.mapEditor f).session = some edited ∧ edited.original = session.original := by
  cases workflow with
  | creatingEvent accountId held =>
    cases h
    exact ⟨_, rfl, hf _⟩
  | editingEvent eventId accountId held =>
    cases h
    exact ⟨_, rfl, hf _⟩
  | confirmingDiscard wasCreating eventId accountId held => exact ⟨_, h, rfl⟩
  | _ => cases h

theorem handleEventFieldChanged_session (field : EventField) (h : workflow.session = some session) :
    ∃ edited, (handleEventFieldChanged workflow field).session = some edited ∧
      edited.original = session.original := by
  unfold handleEventFieldChanged
  split
  · cases h
    exact ⟨_, rfl, rfl⟩
  · exact mapEditor_session (fun session => change_original session _) h

/-- Closing the modal over a changed draft asks first, and asks nothing where it is asked already. -/
theorem handleCloseModal_session (h : s.workflow.session = some session)
    (hd : session.isDirty = true) : (handleCloseModal s).workflow.session = some session := by
  cases hw : s.workflow with
  | creatingEvent accountId held =>
    rw [hw] at h
    cases h
    simp [handleCloseModal, hw, hd, CalendarWorkflow.session]
  | editingEvent eventId accountId held =>
    rw [hw] at h
    cases h
    simp [handleCloseModal, hw, hd, CalendarWorkflow.session]
  | confirmingDiscard wasCreating eventId accountId held =>
    rw [hw] at h
    cases h
    cases wasCreating <;> simp [handleCloseModal, hw, CalendarWorkflow.session]
  | idle => rw [hw] at h; cases h
  | viewingEvent eventData surface => rw [hw] at h; cases h
  | confirmingDelete eventId accountId title => rw [hw] at h; cases h

/-- A synced state is found again by entering its workflow, whatever was entered in between. -/
theorem enter_back (hs : s.Synced) (workflow : CalendarWorkflow) :
    (s.enter workflow).enter s.workflow = s := by
  obtain ⟨date, hour, current, popover, modal, calendars, generation⟩ := s
  obtain ⟨hp, hm⟩ := hs
  simp only at hp hm
  subst hp hm
  rfl

theorem handleCloseModal_cancelled (hs : s.Synced) (he : s.workflow.modal = some .eventEditor)
    (h : s.workflow.session = some session) (hd : session.isDirty = true) :
    (∃ wasCreating eventId accountId, (handleCloseModal s).workflow =
      .confirmingDiscard wasCreating eventId accountId session) ∧
    handleCloseModal (handleCloseModal s) = s := by
  cases hw : s.workflow with
  | creatingEvent accountId held =>
    rw [hw] at h
    cases h
    have hclose : handleCloseModal s = s.enter (.confirmingDiscard true none accountId session) := by
      simp [handleCloseModal, hw, hd]
    refine ⟨⟨true, none, accountId, by rw [hclose, enter_workflow]⟩, ?_⟩
    rw [hclose]
    have hback := enter_back hs (.confirmingDiscard true none accountId session)
    rw [hw] at hback
    exact hback
  | editingEvent eventId accountId held =>
    rw [hw] at h
    cases h
    have hclose : handleCloseModal s =
        s.enter (.confirmingDiscard false (some eventId) (some accountId) session) := by
      simp [handleCloseModal, hw, hd]
    refine ⟨⟨false, some eventId, some accountId, by rw [hclose, enter_workflow]⟩, ?_⟩
    rw [hclose]
    have hback := enter_back hs (.confirmingDiscard false (some eventId) (some accountId) session)
    rw [hw] at hback
    exact hback
  | confirmingDiscard wasCreating eventId accountId held => rw [hw] at he; cases he
  | idle => rw [hw] at h; cases h
  | viewingEvent eventData surface => rw [hw] at h; cases h
  | confirmingDelete eventId accountId title => rw [hw] at h; cases h

theorem expand_session (system : TimeZone) (client : Bool) (h : s.workflow.session = some session) :
    (handleCalendar system client s .expandPopoverToModal).1.workflow.session = some session := by
  simp only [handleCalendar]
  split
  · rename_i hw
    rw [hw] at h
    cases h
  · exact h

theorem delete_session (system : TimeZone) (client : Bool) (h : s.workflow.session = some session) :
    (handleCalendar system client s .deleteEvent).1.workflow.session = some session := by
  simp only [handleCalendar]
  split
  · rename_i hw
    rw [hw] at h
    cases h
  · exact h

theorem handleSaveEvent_session (system : TimeZone) (client : Bool) (h : s.workflow.session = some session) :
    (handleSaveEvent system client s).1.workflow.session = some session ∨
      CalendarMessage.mayRemove .saveEvent s.workflow = true := by
  cases hw : s.workflow with
  | creatingEvent accountId held => exact .inr rfl
  | editingEvent eventId accountId held => exact .inr rfl
  | confirmingDiscard wasCreating eventId accountId held =>
    rw [hw] at h
    cases h
    cases client <;> simp [handleSaveEvent, saveOperation, hw, CalendarWorkflow.session]
  | idle => rw [hw] at h; cases h
  | viewingEvent eventData surface => rw [hw] at h; cases h
  | confirmingDelete eventId accountId title => rw [hw] at h; cases h

theorem session_kept (system : TimeZone) (client : Bool) (h : s.workflow.session = some session)
    (hd : session.isDirty = true) (hm : msg.overwrites s.workflow = false) :
    Holds msg session (handleCalendar system client s msg).1.workflow ∨ msg.mayRemove s.workflow = true := by
  cases msg with
  | doubleClickSlot date hour => cases hm
  | closePopover => cases hm
  | openEventEditor data => cases hm
  | createEvent => cases hm
  | confirmDeleteEvent eventId title accountId => cases hm
  | closeModal => exact .inl (handleCloseModal_session h hd)
  | expandPopoverToModal => exact .inl (expand_session system client h)
  | eventFieldChanged field => exact .inl (handleEventFieldChanged_session field h)
  | eventFieldUndo field =>
    exact .inl (mapEditor_session (fun session => moveText_original session _ field) h)
  | eventFieldRedo field =>
    exact .inl (mapEditor_session (fun session => moveText_original session _ field) h)
  | saveEvent => exact handleSaveEvent_session system client h
  | eventSaved result =>
    cases result with
    | ok _ => cases hm
    | error _ => exact .inl h
  | deleteEvent => exact .inl (delete_session system client h)
  | discardChanges =>
    cases hw : s.workflow with
    | confirmingDiscard wasCreating eventId accountId held => exact .inr rfl
    | _ => rw [hw] at hm; cases hm
  | eventDeleted result => cases result <;> exact .inl h
  | rsvpCompleted result => cases result <;> exact .inl h
  | eventLoaded result =>
    cases result with
    | ok _ => cases hm
    | error _ => exact .inl h
  | toggleCalendarVisibility calendarId visible =>
    left
    cases client <;> exact h
  | visibilityToggled calendarId requestedValue result => cases result <;> exact .inl h
  | calendarsLoaded loadGeneration result =>
    left
    cases result with
    | ok calendars =>
      simp only [handleCalendar]
      split <;> exact h
    | error _ => exact h
  | _ => exact .inl h

/-! ## Overwriting -/

theorem overwrites_clean (system : TimeZone) (client : Bool) (hm : msg.overwrites s.workflow = true) :
    (handleCalendar system client s msg).1.workflow.hasUnsaved = false := by
  have hcreator : ∀ event, (openCreator s event).workflow.hasUnsaved = false := fun event =>
    EditorSession.isDirty_new _
  cases msg with
  | doubleClickSlot date hour => exact hcreator _
  | closePopover => rfl
  | openEventEditor data =>
    simp only [handleCalendar, openEventEditor]
    split
    · exact EditorSession.isDirty_new _
    · exact hcreator _
  | createEvent => exact hcreator _
  | confirmDeleteEvent eventId title accountId => rfl
  | eventSaved result =>
    cases result with
    | ok _ => rfl
    | error _ => cases hm
  | eventLoaded result =>
    cases result with
    | ok _ => rfl
    | error _ => cases hm
  | discardChanges => rfl
  | _ => cases hm

theorem overwrites_exclusive (hm : msg.overwrites workflow = true) :
    msg.isEdit = false ∧ msg.mayRemove workflow = false := by
  cases msg with
  | discardChanges =>
    cases workflow with
    | confirmingDiscard wasCreating eventId accountId session => cases hm
    | _ => exact ⟨rfl, rfl⟩
  | eventSaved result => exact ⟨rfl, rfl⟩
  | eventLoaded result => exact ⟨rfl, rfl⟩
  | doubleClickSlot date hour => exact ⟨rfl, rfl⟩
  | closePopover => exact ⟨rfl, rfl⟩
  | openEventEditor data => exact ⟨rfl, rfl⟩
  | createEvent => exact ⟨rfl, rfl⟩
  | confirmDeleteEvent eventId title accountId => exact ⟨rfl, rfl⟩
  | _ => cases hm

theorem overwrites_loses (system : TimeZone) (client : Bool) (hd : session.isDirty = true)
    (hm : msg.overwrites s.workflow = true) :
    ¬(Holds msg session (handleCalendar system client s msg).1.workflow ∨
      msg.mayRemove s.workflow = true) := by
  obtain ⟨hedit, hremove⟩ := overwrites_exclusive hm
  have hclean := overwrites_clean system client hm
  rintro (hh | hr)
  · rw [Holds, hedit] at hh
    rw [CalendarWorkflow.hasUnsaved, hh, Option.any_some, hd] at hclean
    cases hclean
  · rw [hremove] at hr
    cases hr

theorem hasUnsaved_iff (workflow : CalendarWorkflow) :
    workflow.hasUnsaved = true ↔ ∃ session, workflow.session = some session ∧ session.isDirty = true := by
  rw [CalendarWorkflow.hasUnsaved, Option.any_eq_true]

theorem keepsUnsaved_iff (system : TimeZone) (client : Bool) (hs : s.Synced) (msg : CalendarMessage) :
    KeepsUnsaved system client s msg ↔
      ¬(s.workflow.hasUnsaved = true ∧ msg.overwrites s.workflow = true) := by
  constructor
  · rintro hk ⟨hu, hm⟩
    obtain ⟨session, h, hd⟩ := (hasUnsaved_iff _).mp hu
    exact overwrites_loses system client hd hm (hk.kept session h hd)
  · intro hno
    refine ⟨?_, ?_, handleCalendar_synced s system client msg hs⟩
    · intro session h hd
      have hm : msg.overwrites s.workflow = false := by
        cases hm : msg.overwrites s.workflow with
        | false => rfl
        | true => exact absurd ⟨(hasUnsaved_iff _).mpr ⟨session, h, hd⟩, hm⟩ hno
      exact session_kept system client h hd hm
    · intro session hmsg he h hd
      subst hmsg
      obtain ⟨hconfirm, hback⟩ := handleCloseModal_cancelled hs he h hd
      exact ⟨hconfirm, fun _ => hback⟩

/-- A run from a state whose surfaces follow its workflow, as the first state's and every other handler's
do, loses no unsaved work exactly where it handles no message that overwrites while a changed draft is
open. -/
theorem run_keeps_unsaved_iff (system : TimeZone) (s : CalendarState) (hs : s.Synced)
    (run : List (Bool × CalendarMessage)) : EachStep system (KeepsUnsaved system) s run ↔
      EachStep system (fun _ s msg =>
        ¬(s.workflow.hasUnsaved = true ∧ msg.overwrites s.workflow = true)) s run := by
  induction run generalizing s with
  | nil => exact Iff.rfl
  | cons head run ih =>
    obtain ⟨client, msg⟩ := head
    simp only [EachStep]
    rw [keepsUnsaved_iff system client hs msg, ih _ (handleCalendar_synced s system client msg hs)]

/-- An event is clicked, and a new one is written before the clicked one is loaded. -/
def clickThenWrite : List (Bool × CalendarMessage) :=
  [(true, .eventClicked "e1"), (true, .createEvent),
   (true, .eventFieldChanged (.title "Standup")),
   (true, .eventLoaded (.ok { CalendarEventData.newAt 20000 9 with id := some "e1" }))]

/-- The loaded event takes the place of the title just written. -/
theorem clickThenWrite_loses :
    ¬∀ (system : TimeZone) (s : CalendarState), s.Synced → ∀ run : List (Bool × CalendarMessage),
      EachStep system (KeepsUnsaved system) s run := by
  intro h
  have hrun := h .utc (.empty 20000) ⟨rfl, rfl⟩ clickThenWrite
  obtain ⟨_, _, _, hloaded, _⟩ := hrun
  have hno := (keepsUnsaved_iff .utc true ⟨by decide, by decide⟩ _).mp hloaded
  exact hno ⟨by decide, rfl⟩

/-- The same with the load before the new event, and a close that is cancelled. -/
theorem loadThenWrite_keeps : (CalendarState.empty 20000).Synced ∧
    EachStep .utc (KeepsUnsaved .utc) (.empty 20000)
      [(true, .eventClicked "e1"),
       (true, .eventLoaded (.ok { CalendarEventData.newAt 20000 9 with id := some "e1" })),
       (true, .createEvent), (true, .eventFieldChanged (.title "Standup")), (true, .closeModal),
       (true, .closeModal), (true, .saveEvent)] :=
  ⟨⟨rfl, rfl⟩, (run_keeps_unsaved_iff .utc (.empty 20000) ⟨rfl, rfl⟩ _).mpr (by
    simp only [EachStep, not_and_or, and_true]
    refine ⟨?_, ?_, ?_, ?_, ?_, ?_, ?_⟩ <;> decide)⟩

end Ratatoskr.Calendar
