import Ratatoskr.Lib.Run
import Ratatoskr.Lib.Table

/-!
# Cmdk.Keybinding

Key bindings (`cmdk/src/keybinding.rs`, `cmdk/src/id.rs`): the texts of chords and sequences, and the
binding table with its defaults, the user's overrides and the two reverse maps that resolve key
presses. A `HashMap` yields its entries in no particular order, so every rebuild of the reverse maps
takes the order as an argument.
-/

namespace Ratatoskr.Cmdk

open Lib (Table)

inductive CommandId where
  | NavNext | NavPrev | NavOpen | NavMsgNext | NavMsgPrev | NavGoInbox | NavGoStarred | NavGoSent
  | NavGoDrafts | NavGoSnoozed | NavGoTrash | NavGoAllMail | NavGoPrimary | NavGoUpdates
  | NavGoPromotions | NavGoSocial | NavGoNewsletters | NavGoTasks | NavGoAttachments | NavEscape
  | NavigateToLabel | EmailArchive | EmailTrash | EmailPermanentDelete | EmailSpam
  | EmailMarkRead | EmailStar | EmailPin | EmailMute | EmailUnsubscribe | EmailMoveToFolder
  | EmailAddLabel | EmailRemoveLabel | EmailSnooze | EmailSelectAll | EmailSelectFromHere
  | ComposeNew | ComposeReply | ComposeReplyAll | ComposeForward | TaskCreate
  | TaskCreateFromEmail | TaskTogglePanel | TaskViewAll | ViewToggleSidebar | ViewSetThemeLight
  | ViewSetThemeDark | ViewSetThemeSystem | ViewToggleTaskPanel | ViewReadingPaneRight
  | ViewReadingPaneBottom | ViewReadingPaneHidden | CalendarToggle | SwitchToCalendar
  | SwitchToMail | CalendarViewDay | CalendarViewWorkWeek | CalendarViewWeek | CalendarViewMonth
  | CalendarToday | CalendarCreateEvent | CalendarPopOut | AppSearch | AppAskAi | AppHelp
  | AppSyncFolder | AppOpenPalette | Undo | SmartFolderSave | PinnedSearchesClearAll
  | AppRebuildSearchIndex
  deriving DecidableEq

/-- The persisted names (`TABLE`). -/
def commandTable : List (CommandId × String) :=
  [(.NavNext, "nav.next"), (.NavPrev, "nav.prev"), (.NavOpen, "nav.open"),
    (.NavMsgNext, "nav.msgNext"), (.NavMsgPrev, "nav.msgPrev"), (.NavGoInbox, "nav.goInbox"),
    (.NavGoStarred, "nav.goStarred"), (.NavGoSent, "nav.goSent"), (.NavGoDrafts, "nav.goDrafts"),
    (.NavGoSnoozed, "nav.goSnoozed"), (.NavGoTrash, "nav.goTrash"),
    (.NavGoAllMail, "nav.goAllMail"), (.NavGoPrimary, "nav.goPrimary"),
    (.NavGoUpdates, "nav.goUpdates"), (.NavGoPromotions, "nav.goPromotions"),
    (.NavGoSocial, "nav.goSocial"), (.NavGoNewsletters, "nav.goNewsletters"),
    (.NavGoTasks, "nav.goTasks"), (.NavGoAttachments, "nav.goAttachments"),
    (.NavEscape, "nav.escape"), (.NavigateToLabel, "nav.goLabel"),
    (.EmailArchive, "email.archive"), (.EmailTrash, "email.trash"),
    (.EmailPermanentDelete, "email.permanentDelete"), (.EmailSpam, "email.spam"),
    (.EmailMarkRead, "email.markRead"), (.EmailStar, "email.star"), (.EmailPin, "email.pin"),
    (.EmailMute, "email.mute"), (.EmailUnsubscribe, "email.unsubscribe"),
    (.EmailMoveToFolder, "email.moveToFolder"), (.EmailAddLabel, "email.addLabel"),
    (.EmailRemoveLabel, "email.removeLabel"), (.EmailSnooze, "email.snooze"),
    (.EmailSelectAll, "email.selectAll"), (.EmailSelectFromHere, "email.selectFromHere"),
    (.ComposeNew, "compose.new"), (.ComposeReply, "compose.reply"),
    (.ComposeReplyAll, "compose.replyAll"), (.ComposeForward, "compose.forward"),
    (.TaskCreate, "task.create"), (.TaskCreateFromEmail, "task.createFromEmail"),
    (.TaskTogglePanel, "task.togglePanel"), (.TaskViewAll, "task.viewAll"),
    (.ViewToggleSidebar, "view.toggleSidebar"), (.ViewSetThemeLight, "view.setThemeLight"),
    (.ViewSetThemeDark, "view.setThemeDark"), (.ViewSetThemeSystem, "view.setThemeSystem"),
    (.ViewToggleTaskPanel, "view.toggleTaskPanel"), (.ViewReadingPaneRight, "view.readingPaneRight"),
    (.ViewReadingPaneBottom, "view.readingPaneBottom"),
    (.ViewReadingPaneHidden, "view.readingPaneHidden"), (.CalendarToggle, "calendar.toggle"),
    (.CalendarViewDay, "calendar.viewDay"), (.CalendarViewWorkWeek, "calendar.viewWorkWeek"),
    (.CalendarViewWeek, "calendar.viewWeek"), (.CalendarViewMonth, "calendar.viewMonth"),
    (.CalendarToday, "calendar.today"), (.CalendarCreateEvent, "calendar.createEvent"),
    (.CalendarPopOut, "calendar.popOut"), (.SwitchToCalendar, "calendar.switchTo"),
    (.SwitchToMail, "app.switchToMail"), (.AppSearch, "app.search"), (.AppAskAi, "app.askAi"),
    (.AppHelp, "app.help"), (.AppSyncFolder, "app.syncFolder"),
    (.AppOpenPalette, "app.openPalette"), (.Undo, "app.undo"),
    (.SmartFolderSave, "smartFolder.save"), (.PinnedSearchesClearAll, "pinnedSearches.clearAll"),
    (.AppRebuildSearchIndex, "app.rebuildSearchIndex")]

def CommandId.parse (value : String) : Option CommandId :=
  (commandTable.find? (fun e => e.2 = value)).map Prod.fst

inductive NamedKey where
  | Escape | ArrowUp | ArrowDown | ArrowLeft | ArrowRight | Enter | Tab | Space | Backspace
  | Delete | Home | End | PageUp | PageDown | F1 | F2 | F3 | F4 | F5 | F6 | F7 | F8 | F9 | F10
  | F11 | F12
  deriving DecidableEq

def namedKeyTable : List (NamedKey × String) :=
  [(.Escape, "Escape"), (.ArrowUp, "ArrowUp"), (.ArrowDown, "ArrowDown"),
    (.ArrowLeft, "ArrowLeft"), (.ArrowRight, "ArrowRight"), (.Enter, "Enter"), (.Tab, "Tab"),
    (.Space, "Space"), (.Backspace, "Backspace"), (.Delete, "Delete"), (.Home, "Home"),
    (.End, "End"), (.PageUp, "PageUp"), (.PageDown, "PageDown"), (.F1, "F1"), (.F2, "F2"),
    (.F3, "F3"), (.F4, "F4"), (.F5, "F5"), (.F6, "F6"), (.F7, "F7"), (.F8, "F8"), (.F9, "F9"),
    (.F10, "F10"), (.F11, "F11"), (.F12, "F12")]

def NamedKey.parse (s : String) : Option NamedKey :=
  (namedKeyTable.find? (fun e => e.2 = s)).map Prod.fst

inductive Key where
  | char (c : Char)
  | named (n : NamedKey)
  deriving DecidableEq

structure Modifiers where
  cmdOrCtrl : Bool
  shift : Bool
  alt : Bool
  deriving DecidableEq

def Modifiers.none : Modifiers := ⟨false, false, false⟩

structure Chord where
  key : Key
  modifiers : Modifiers
  deriving DecidableEq

def parseModifiers : List (List Char) → Modifiers → Except String Modifiers
  | [], modifiers => .ok modifiers
  | m :: rest, modifiers =>
    let m := String.ofList m
    if m = "CmdOrCtrl" ∨ m = "Ctrl" ∨ m = "Cmd" then
      parseModifiers rest { modifiers with cmdOrCtrl := true }
    else if m = "Alt" then parseModifiers rest { modifiers with alt := true }
    else if m = "Shift" then parseModifiers rest { modifiers with shift := true }
    else .error ("unknown modifier: " ++ m)

def parseKey (keyStr : List Char) : Except String Key :=
  match NamedKey.parse (String.ofList keyStr), keyStr with
  | some named, _ => .ok (.named named)
  | none, [c] => .ok (.char c.toLower)
  | none, _ => .error ("unknown key: " ++ String.ofList keyStr)

def Chord.parse (s : List Char) : Except String Chord :=
  let parts := s.splitOn '+'
  match parts.getLast? with
  | none => .error "empty chord"
  | some keyStr =>
    match parseModifiers parts.dropLast .none with
    | .error e => .error e
    | .ok modifiers =>
      match parseKey keyStr with
      | .error e => .error e
      | .ok key => .ok ⟨key, modifiers⟩

inductive KeyBinding where
  | chord (chord : Chord)
  | sequence (first second : Chord)
  deriving DecidableEq

/-- `str::split_once`. -/
def splitOnce (pattern : List Char) : List Char → Option (List Char × List Char)
  | [] => if pattern = [] then some ([], []) else none
  | c :: cs =>
    if pattern.isPrefixOf (c :: cs) then some ([], (c :: cs).drop pattern.length)
    else (splitOnce pattern cs).map (fun r => (c :: r.1, r.2))

def KeyBinding.parse (s : String) : Except String KeyBinding :=
  match splitOnce " then ".toList s.toList with
  | some (first, second) =>
    match Chord.parse first, Chord.parse second with
    | .error e, _ => .error e
    | .ok _, .error e => .error e
    | .ok a, .ok b => .ok (.sequence a b)
  | none =>
    match Chord.parse s.toList with
    | .error e => .error e
    | .ok c => .ok (.chord c)

/-! ## The binding table -/

inductive ResolveResult where
  | noMatch
  | command (id : CommandId)
  | pending

/-- An override of `none` unbinds the command. -/
structure BindingTable where
  defaults : Table CommandId KeyBinding
  overrides : Table CommandId (Option KeyBinding)
  singleReverse : Table Chord CommandId
  sequenceFirstChords : Table Chord (Table Chord CommandId)

structure HashOrder where
  order : List CommandId → List CommandId
  perm : ∀ ids, (order ids).Perm ids

def HashOrder.insertion : HashOrder := ⟨id, fun _ => List.Perm.refl _⟩

namespace BindingTable

def bindingFor (t : BindingTable) (id : CommandId) : Option KeyBinding :=
  match t.overrides.lookup id with
  | some (some binding) => some binding
  | some none => none
  | none => t.defaults.lookup id

def resolveChord (t : BindingTable) (chord : Chord) : ResolveResult :=
  if (t.sequenceFirstChords.lookup chord).isSome then .pending
  else
    match t.singleReverse.lookup chord with
    | some id => .command id
    | none => .noMatch

def resolveSequence (t : BindingTable) (first second : Chord) : Option CommandId :=
  (t.sequenceFirstChords.lookup first).bind (fun seconds => seconds.lookup second)

def checkChordConflict (t : BindingTable) (id : CommandId) (chord : Chord) : Option CommandId :=
  match (t.singleReverse.lookup chord).filter (fun existing => existing ≠ id) with
  | some existing => some existing
  | none =>
    match t.sequenceFirstChords.lookup chord with
    | some sequences => (sequences.rows.map Prod.snd).find? (fun cmd => cmd ≠ id)
    | none => none

def checkSequenceConflict (t : BindingTable) (id : CommandId) (first second : Chord) : Option CommandId :=
  match (t.singleReverse.lookup first).filter (fun existing => existing ≠ id) with
  | some existing => some existing
  | none =>
    match t.sequenceFirstChords.lookup first with
    | some sequences => (sequences.lookup second).filter (fun existing => existing ≠ id)
    | none => none

def checkConflict (t : BindingTable) (id : CommandId) : KeyBinding → Option CommandId
  | .chord chord => t.checkChordConflict id chord
  | .sequence first second => t.checkSequenceConflict id first second

/-- The ids `rebuild_reverse` goes through. -/
def ids (t : BindingTable) : List CommandId := (t.defaults.keys ++ t.overrides.keys).dedup

/-- One binding enters the reverse maps; a later one for the same keys wins. -/
def addReverse (t : BindingTable) (id : CommandId) : KeyBinding → BindingTable
  | .chord chord => { t with singleReverse := t.singleReverse.insert chord id }
  | .sequence first second =>
    let seconds := (t.sequenceFirstChords.lookup first).getD ∅
    { t with sequenceFirstChords := t.sequenceFirstChords.insert first (seconds.insert second id) }

def rebuildReverse (t : BindingTable) (o : HashOrder) : BindingTable :=
  let bindings := (o.order t.ids).filterMap (fun id => (t.bindingFor id).map (fun b => (id, b)))
  bindings.foldl (fun t b => t.addReverse b.1 b.2)
    { t with singleReverse := ∅, sequenceFirstChords := ∅ }

/-- `new`, from the default bindings of the registry. -/
def new (defaults : Table CommandId KeyBinding) (o : HashOrder) : BindingTable :=
  rebuildReverse ⟨defaults, ∅, ∅, ∅⟩ o

def setOverride (t : BindingTable) (id : CommandId) (binding : KeyBinding) (o : HashOrder) :
    Except CommandId BindingTable :=
  match t.checkConflict id binding with
  | some conflict => .error conflict
  | none => .ok (rebuildReverse { t with overrides := t.overrides.insert id (some binding) } o)

def unbind (t : BindingTable) (id : CommandId) (o : HashOrder) : BindingTable :=
  rebuildReverse { t with overrides := t.overrides.insert id none } o

def removeOverride (t : BindingTable) (id : CommandId) (o : HashOrder) : BindingTable :=
  rebuildReverse { t with overrides := t.overrides.erase id } o

def resetAll (t : BindingTable) (o : HashOrder) : BindingTable :=
  rebuildReverse { t with overrides := ∅ } o

end BindingTable

/-- What reading `keybindings.json` gives: the map of an `OverridesFile`, or why there is none. -/
inductive OverridesFile where
  | notFound
  | failed (message : String)
  | overrides (entries : List (String × Option String))

/-- The loop of `load_overrides_from_file`; unknown commands and unparseable bindings are skipped. -/
def readOverrides : List (String × Option String) → Table CommandId (Option KeyBinding) →
    Table CommandId (Option KeyBinding)
  | [], overrides => overrides
  | (key, value) :: entries, overrides =>
    match CommandId.parse key, value with
    | none, _ => readOverrides entries overrides
    | some id, none => readOverrides entries (overrides.insert id none)
    | some id, some bindingStr =>
      match KeyBinding.parse bindingStr with
      | .ok kb => readOverrides entries (overrides.insert id (some kb))
      | .error _ => readOverrides entries overrides

def BindingTable.loadOverridesFromFile (t : BindingTable) (file : OverridesFile) (o : HashOrder) :
    Except String BindingTable :=
  match file with
  | .notFound => .ok t
  | .failed message => .error message
  | .overrides entries => .ok ({ t with overrides := readOverrides entries ∅ }.rebuildReverse o)

inductive Edit where
  | setOverride (id : CommandId) (binding : KeyBinding)
  | unbind (id : CommandId)
  | removeOverride (id : CommandId)
  | resetAll
  | loadOverridesFromFile (file : OverridesFile)

inductive EditError where
  | conflict (id : CommandId)
  | load (message : String)
  deriving DecidableEq

/-- One call on the table, with the order its rebuild meets. -/
def editStep (t : BindingTable) (e : Edit × HashOrder) : Except EditError BindingTable :=
  match e.1 with
  | .setOverride id binding => (t.setOverride id binding e.2).mapError .conflict
  | .unbind id => .ok (t.unbind id e.2)
  | .removeOverride id => .ok (t.removeOverride id e.2)
  | .resetAll => .ok (t.resetAll e.2)
  | .loadOverridesFromFile file => (t.loadOverridesFromFile file e.2).mapError .load

end Ratatoskr.Cmdk
