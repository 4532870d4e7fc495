import Mathlib.Data.Prod.Lex
import Mathlib.Data.String.Basic
import Ratatoskr.Actions.Operation
import Ratatoskr.Lib.Groups
import Ratatoskr.Sidebar.Navigation

/-!
# App.Resolve

From an intent of the user to a plan of operations, and from a plan and its outcomes to what undo needs
(`app/src/action_resolve.rs`). A toggle looks at the flag of each thread in turn, and turns it over in the
list on the way.

An index into an empty list panics: `buildUndoPayloads` is `none` then.
-/

namespace Ratatoskr.App

open Actions (AccountId ThreadId FolderId LabelId MailOperation ActionOutcome)
open Sidebar (SidebarSelection)

inductive MailActionIntent where
  | archive
  | trash
  | permanentDelete
  | toggleSpam
  | toggleStar
  | toggleRead
  | togglePin
  | toggleMute
  | moveToFolder (folderId : FolderId)
  | addLabel (labelId : LabelId)
  | removeLabel (labelId : LabelId)
  | applyLabelGroup (groupId : Int)
  | removeLabelGroup (groupId : Int)
  | snooze (wakeAt : Int)
  | unsubscribe

structure UiContext where
  selection : SidebarSelection

/-- What undo needs beyond the operation: the folder that a thread was thrown away from. -/
inductive CompensationContext where
  | none
  | sourceFolder (folder : Option FolderId)

structure ResolvedIntent where
  operation : MailOperation
  compensation : CompensationContext

inductive ToggleField where
  | star | read | pin | mute

inductive ResolveOutcome where
  | resolved (intent : ResolvedIntent)
  | perThreadToggle (field : ToggleField) (compensation : CompensationContext)
  | noOp

def sourceFolderForUndo : SidebarSelection → Option FolderId
  | .inbox => some "INBOX"
  | .folder f => some f.asFolderIdStr
  | .providerFolder id => some id
  | _ => none

def isSpam : SidebarSelection → Bool
  | .folder .spam => true
  | _ => false

def resolveIntent (intent : MailActionIntent) (ctx : UiContext) : ResolveOutcome :=
  match intent with
  | .archive => .resolved ⟨.archive, .none⟩
  | .trash => .resolved ⟨.trash, .sourceFolder (sourceFolderForUndo ctx.selection)⟩
  | .permanentDelete => .resolved ⟨.permanentDelete, .none⟩
  | .toggleSpam => .resolved ⟨.setSpam (!isSpam ctx.selection), .none⟩
  | .toggleStar => .perThreadToggle .star .none
  | .toggleRead => .perThreadToggle .read .none
  | .togglePin => .perThreadToggle .pin .none
  | .toggleMute => .perThreadToggle .mute .none
  | .moveToFolder folderId =>
    .resolved ⟨.moveToFolder folderId (sourceFolderForUndo ctx.selection), .none⟩
  | .addLabel labelId => .resolved ⟨.addLabel labelId, .none⟩
  | .removeLabel labelId => .resolved ⟨.removeLabel labelId, .none⟩
  | .applyLabelGroup groupId => .resolved ⟨.applyLabelGroup groupId, .none⟩
  | .removeLabelGroup groupId => .resolved ⟨.removeLabelGroup groupId, .none⟩
  | .snooze wakeAt => .resolved ⟨.snooze wakeAt, .none⟩
  | .unsubscribe => .noOp

inductive ViewEffect where
  | stays | leavesCurrentView

inductive PostSuccessEffect where
  | none | refreshNav

inductive UndoBehavior where
  | irreversible | reversible
  deriving DecidableEq

structure CompletionBehavior where
  viewEffect : ViewEffect
  postSuccess : PostSuccessEffect
  undo : UndoBehavior
  successLabel : String

def completionBehavior : MailOperation → CompletionBehavior
  | .archive => ⟨.leavesCurrentView, .none, .reversible, "Archived"⟩
  | .trash => ⟨.leavesCurrentView, .none, .reversible, "Moved to Trash"⟩
  | .permanentDelete => ⟨.leavesCurrentView, .none, .irreversible, "Permanently deleted"⟩
  | .setSpam _ => ⟨.leavesCurrentView, .none, .reversible, "Spam status toggled"⟩
  | .setStarred _ => ⟨.stays, .none, .reversible, "Star toggled"⟩
  | .setRead _ => ⟨.stays, .refreshNav, .reversible, "Read status toggled"⟩
  | .setPinned _ => ⟨.stays, .none, .reversible, "Pin toggled"⟩
  | .setMuted _ => ⟨.stays, .none, .reversible, "Mute toggled"⟩
  | .moveToFolder _ _ => ⟨.leavesCurrentView, .none, .reversible, "Moved to folder"⟩
  | .addLabel _ => ⟨.stays, .none, .reversible, "Label applied"⟩
  | .removeLabel _ => ⟨.stays, .none, .reversible, "Label removed"⟩
  | .applyLabelGroup _ => ⟨.stays, .none, .reversible, "Label applied"⟩
  | .removeLabelGroup _ => ⟨.stays, .none, .reversible, "Label removed"⟩
  | .snooze _ => ⟨.leavesCurrentView, .none, .reversible, "Snoozed"⟩
  | .unsnooze => ⟨.stays, .refreshNav, .irreversible, "Unsnoozed"⟩

structure Thread where
  accountId : AccountId
  id : ThreadId
  isStarred : Bool
  isRead : Bool
  isPinned : Bool
  isMuted : Bool

def readToggleField : ToggleField → Thread → Bool
  | .star, thread => thread.isStarred
  | .read, thread => thread.isRead
  | .pin, thread => thread.isPinned
  | .mute, thread => thread.isMuted

def writeToggleField (field : ToggleField) (value : Bool) (thread : Thread) : Thread :=
  match field with
  | .star => { thread with isStarred := value }
  | .read => { thread with isRead := value }
  | .pin => { thread with isPinned := value }
  | .mute => { thread with isMuted := value }

def toggleToOperation (field : ToggleField) (value : Bool) : MailOperation :=
  match field with
  | .star => .setStarred value
  | .read => .setRead value
  | .pin => .setPinned value
  | .mute => .setMuted value

/-- `OptimisticMutation`, its variants told apart by the field. -/
structure OptimisticMutation where
  field : ToggleField
  accountId : AccountId
  threadId : ThreadId
  previous : Bool

structure ActionExecutionPlan where
  operations : List (AccountId × ThreadId × MailOperation)
  behavior : CompletionBehavior
  compensation : CompensationContext
  optimistic : List OptimisticMutation

def isTarget (accountId : AccountId) (threadId : ThreadId) (row : Thread) : Bool :=
  row.accountId = accountId ∧ row.id = threadId

/-- The loop over the selected threads. A thread that is not in the list is skipped. -/
def planToggle (field : ToggleField) : List (AccountId × ThreadId) → List Thread →
    (List (AccountId × ThreadId × MailOperation) × List OptimisticMutation) × List Thread
  | [], threadList => (([], []), threadList)
  | (accountId, threadId) :: threads, threadList =>
    match threadList.find? (isTarget accountId threadId) with
    | none => planToggle field threads threadList
    | some row =>
      let previous := readToggleField field row
      let flipped := threadList.modify (threadList.findIdx (isTarget accountId threadId))
        (writeToggleField field (!previous))
      let rest := planToggle field threads flipped
      (((accountId, threadId, toggleToOperation field (!previous)) :: rest.1.1,
        ⟨field, accountId, threadId, previous⟩ :: rest.1.2), rest.2)

/-- The plan, if there is anything to do, and the thread list as it is left. -/
def buildExecutionPlan (outcome : ResolveOutcome) (threads : List (AccountId × ThreadId))
    (threadList : List Thread) : Option ActionExecutionPlan × List Thread :=
  match outcome with
  | .resolved intent =>
    (some
      { operations := threads.map fun thread => (thread.1, thread.2, intent.operation)
        behavior := completionBehavior intent.operation
        compensation := intent.compensation
        optimistic := [] }, threadList)
  | .perThreadToggle field compensation =>
    let planned := planToggle field threads threadList
    (some
      { operations := planned.1.1
        behavior := completionBehavior (toggleToOperation field true)
        compensation := compensation
        optimistic := planned.1.2 }, planned.2)
  | .noOp => (none, threadList)

/-! ## Undo -/

inductive MailUndoPayload where
  | archive (accountId : AccountId) (threadIds : List ThreadId)
  | trash (accountId : AccountId) (threadIds : List ThreadId) (source : Option FolderId)
  | moveToFolder (accountId : AccountId) (threadIds : List ThreadId) (source : FolderId)
  | setSpam (accountId : AccountId) (threadIds : List ThreadId) (wasSpam : Bool)
  | setStarred (accountId : AccountId) (threadIds : List ThreadId) (wasStarred : Bool)
  | setRead (accountId : AccountId) (threadIds : List ThreadId) (wasRead : Bool)
  | setPinned (accountId : AccountId) (threadIds : List ThreadId) (wasPinned : Bool)
  | setMuted (accountId : AccountId) (threadIds : List ThreadId) (wasMuted : Bool)
  | addLabel (accountId : AccountId) (threadIds : List ThreadId) (labelId : LabelId)
  | removeLabel (accountId : AccountId) (threadIds : List ThreadId) (labelId : LabelId)
  | applyLabelGroup (accountId : AccountId) (threadIds : List ThreadId) (groupId : Int)
  | removeLabelGroup (accountId : AccountId) (threadIds : List ThreadId) (groupId : Int)
  | snooze (accountId : AccountId) (threadIds : List ThreadId)

def isFailed : ActionOutcome → Bool
  | .failed _ => true
  | _ => false

/-- `is_success() || is_local_only()`: the thread is not as it was. -/
def changedLocally : ActionOutcome → Bool
  | .success => true
  | .localOnly _ _ => true
  | _ => false

def togglePayload (field : ToggleField) (accountId : AccountId) (previous : Bool)
    (threadIds : List ThreadId) : MailUndoPayload :=
  match field with
  | .star => .setStarred accountId threadIds previous
  | .read => .setRead accountId threadIds previous
  | .pin => .setPinned accountId threadIds previous
  | .mute => .setMuted accountId threadIds previous

def standardPayload (operation : MailOperation) (compensation : CompensationContext)
    (accountId : AccountId) (threadIds : List ThreadId) : Option MailUndoPayload :=
  match operation with
  | .archive => some (.archive accountId threadIds)
  | .trash =>
    match compensation with
    | .sourceFolder (some source) => some (.trash accountId threadIds (some source))
    | _ => none
  | .moveToFolder _ source => source.map (.moveToFolder accountId threadIds)
  | .setSpam value => some (.setSpam accountId threadIds (!value))
  | .addLabel labelId => some (.addLabel accountId threadIds labelId)
  | .removeLabel labelId => some (.removeLabel accountId threadIds labelId)
  | .applyLabelGroup groupId => some (.applyLabelGroup accountId threadIds groupId)
  | .removeLabelGroup groupId => some (.removeLabelGroup accountId threadIds groupId)
  | .snooze _ => some (.snooze accountId threadIds)
  | _ => none

/-- The threads that changed, under account and earlier flag. -/
def toggleEntries (plan : ActionExecutionPlan) (outcomes : List ActionOutcome) :
    List ((AccountId ×ₗ Bool) × ThreadId) :=
  ((plan.optimistic.zip outcomes).filter fun e => changedLocally e.2).map fun e =>
    (toLex (e.1.accountId, e.1.previous), e.1.threadId)

def buildToggleUndoPayloads (plan : ActionExecutionPlan) (outcomes : List ActionOutcome) :
    Option (List MailUndoPayload) :=
  plan.optimistic.head?.map fun first =>
    (Lib.group (toggleEntries plan outcomes)).map fun g =>
      togglePayload first.field (ofLex g.1).1 (ofLex g.1).2 g.2

def standardEntries (plan : ActionExecutionPlan) (outcomes : List ActionOutcome) :
    List (AccountId × ThreadId) :=
  ((plan.operations.zip outcomes).filter fun e => changedLocally e.2).map fun e => (e.1.1, e.1.2.1)

def buildStandardUndoPayloads (plan : ActionExecutionPlan) (outcomes : List ActionOutcome) :
    Option (List MailUndoPayload) :=
  plan.operations.head?.map fun first =>
    (Lib.group (standardEntries plan outcomes)).filterMap fun g =>
      standardPayload first.2.2 plan.compensation g.1 g.2

def buildUndoPayloads (plan : ActionExecutionPlan) (outcomes : List ActionOutcome) :
    Option (List MailUndoPayload) :=
  if plan.behavior.undo = .irreversible then some []
  else if outcomes.all isFailed then some []
  else if plan.optimistic ≠ [] then buildToggleUndoPayloads plan outcomes
  else buildStandardUndoPayloads plan outcomes

end Ratatoskr.App
