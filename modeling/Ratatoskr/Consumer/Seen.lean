import Mathlib.Algebra.GroupWithZero.Nat
import Mathlib.Algebra.BigOperators.Group.List.Basic
import Mathlib.Algebra.Group.Pi.Basic
import Ratatoskr.Consumer.Stream

/-!
# Consumer.Seen

The `seen_addresses` counters of one account (`seen/src/{parse,ingest}.rs`,
`service/src/bifrost/consumer/post_persist.rs`). The rows of a batch are turned into observations and
each observation adds one to a counter of its address. A batch with a checkpoint is counted once: a
marker for it goes in with the increments, and a batch whose marker is there is skipped. After an
acknowledgement all but the newest `MARKER_WINDOW` markers of the scope are pruned.

`Headers` is what lies outside: the RFC 5322 parser and Unicode lower case. The addresses of the account
do not change.
-/

namespace Ratatoskr.Consumer

open Lib (Table)

inductive Direction where
  | sentTo | sentCc | receivedFrom | receivedCc
  deriving DecidableEq

structure AddressObservation where
  email : String
  displayName : Option String
  direction : Direction
  dateMs : Int

structure Headers where
  parseAddressList : String → List (Option String × String)
  toLowercase : String → String

structure SeenMessage where
  id : MessageId
  fromAddress : Option String
  fromName : Option String
  toAddresses : Option String
  ccAddresses : Option String
  bccAddresses : Option String
  date : Int
  deriving DecidableEq

def eqIgnoreAsciiCase (a b : String) : Bool := a.toLower = b.toLower

def isSelf (selfEmails : List String) (email : String) : Bool :=
  selfEmails.any (fun s => eqIgnoreAsciiCase s email)

def collectFromField (headers : Headers) (selfEmails : List String) (field : Option String)
    (direction : Direction) (dateMs : Int) : List AddressObservation :=
  match field with
  | none => []
  | some raw =>
    (headers.parseAddressList raw).filterMap (fun (name, email) =>
      let lower := headers.toLowercase email
      if isSelf selfEmails lower then none
      else if '@' ∉ lower.toList then none
      else some ⟨lower, name, direction, dateMs⟩)

def extractObservations (headers : Headers) (selfEmails : List String) (m : SeenMessage) :
    List AddressObservation :=
  let fromEmailLower := (m.fromAddress.map headers.toLowercase).getD ""
  let collect := fun field direction => collectFromField headers selfEmails field direction m.date
  if isSelf selfEmails fromEmailLower then
    collect m.toAddresses .sentTo ++ collect m.ccAddresses .sentCc ++ collect m.bccAddresses .sentCc
  else
    (if fromEmailLower ≠ "" ∧ '@' ∈ fromEmailLower.toList then
        [⟨fromEmailLower, m.fromName, .receivedFrom, m.date⟩]
      else []) ++
      collect m.ccAddresses .receivedCc ++ collect m.toAddresses .receivedCc

def resolveObservations (headers : Headers) (selfEmails : List String) (rows : List SeenMessage) :
    List AddressObservation :=
  rows.flatMap (extractObservations headers selfEmails)

/-- The four counters of a row, by the direction they count. -/
abbrev Counters := Direction → Nat

def directionCounters (d : Direction) : Counters := fun d' => if d' = d then 1 else 0

inductive DisplayNameSource where
  | sent | observed
  deriving DecidableEq

def directionSource : Direction → DisplayNameSource
  | .sentTo => .sent
  | .sentCc => .sent
  | .receivedFrom => .observed
  | .receivedCc => .observed

structure SeenAddress where
  displayName : Option String
  displayNameSource : DisplayNameSource
  times : Counters
  firstSeenAt : Int
  lastSeenAt : Int

def SeenAddress.new (obs : AddressObservation) : SeenAddress where
  displayName := obs.displayName
  displayNameSource := directionSource obs.direction
  times := directionCounters obs.direction
  firstSeenAt := obs.dateMs
  lastSeenAt := obs.dateMs

/-- A name that was written to wins over one that was observed. -/
def SeenAddress.observe (row : SeenAddress) (obs : AddressObservation) : SeenAddress where
  displayName :=
    if directionSource obs.direction = .sent then obs.displayName.or row.displayName
    else if row.displayNameSource = .sent then row.displayName
    else obs.displayName.or row.displayName
  displayNameSource :=
    if directionSource obs.direction = .sent then .sent
    else if row.displayNameSource = .sent then row.displayNameSource
    else directionSource obs.direction
  times := row.times + directionCounters obs.direction
  firstSeenAt := min row.firstSeenAt obs.dateMs
  lastSeenAt := max row.lastSeenAt obs.dateMs

abbrev SeenAddresses := Table String SeenAddress

def upsertSeen (seen : SeenAddresses) (obs : AddressObservation) : SeenAddresses :=
  match seen.lookup obs.email with
  | none => seen.insert obs.email (.new obs)
  | some row => seen.insert obs.email (row.observe obs)

def upsertSeenObservations (seen : SeenAddresses) (observations : List AddressObservation) : SeenAddresses :=
  observations.foldl upsertSeen seen

/-- The counters of an address; without a row they are zero. -/
def countersOf (seen : SeenAddresses) (email : String) : Counters :=
  ((seen.lookup email).map SeenAddress.times).getD 0

/-- What the observations add to the counters of an address. -/
def observedTimes (observations : List AddressObservation) (email : String) : Counters :=
  (observations.map (fun obs => if obs.email = email then directionCounters obs.direction else 0)).sum

theorem countersOf_upsertSeen (seen : SeenAddresses) (obs : AddressObservation) (email : String) :
    countersOf (upsertSeen seen obs) email =
      countersOf seen email + (if obs.email = email then directionCounters obs.direction else 0) := by
  by_cases he : obs.email = email
  · subst he
    cases hrow : seen.lookup obs.email with
    | none => simp [upsertSeen, countersOf, hrow, SeenAddress.new]
    | some row => simp [upsertSeen, countersOf, hrow, SeenAddress.observe]
  · have hne : email ≠ obs.email := fun h => he h.symm
    rw [if_neg he]
    cases hrow : seen.lookup obs.email with
    | none => simp [upsertSeen, countersOf, hrow, hne]
    | some row => simp [upsertSeen, countersOf, hrow, hne]

theorem countersOf_upsertSeenObservations (seen : SeenAddresses)
    (observations : List AddressObservation) (email : String) :
    countersOf (upsertSeenObservations seen observations) email =
      countersOf seen email + observedTimes observations email := by
  induction observations generalizing seen with
  | nil => simp [upsertSeenObservations, observedTimes]
  | cons obs observations ih =>
    have hcons : upsertSeenObservations seen (obs :: observations) =
        upsertSeenObservations (upsertSeen seen obs) observations := rfl
    rw [hcons, ih, countersOf_upsertSeen, observedTimes, observedTimes, List.map_cons, List.sum_cons,
      add_assoc]

/-! ## Markers -/

/-- The tables of the account. The markers of a scope are in the order they were inserted. -/
structure SeenStore where
  seen : SeenAddresses
  markers : CursorScope → List Checkpoint

def SeenStore.empty : SeenStore := ⟨∅, fun _ => []⟩

/-- `INSERT OR IGNORE`. -/
def SeenStore.insertMarker (store : SeenStore) (scope : CursorScope) (checkpoint : Checkpoint) : SeenStore :=
  if checkpoint ∈ store.markers scope then store
  else { store with
    markers := Function.update store.markers scope (store.markers scope ++ [checkpoint]) }

/-- Without a checkpoint there is no marker, and the rows are counted. -/
def SeenStore.ingestSeenWithMarker (headers : Headers) (selfEmails : List String) (store : SeenStore)
    (scope : CursorScope) (rows : List SeenMessage) (marker : Option Checkpoint) : SeenStore :=
  match rows, marker with
  | [], none => store
  | [], some checkpoint => store.insertMarker scope checkpoint
  | rows, none =>
    { store with
      seen := upsertSeenObservations store.seen (resolveObservations headers selfEmails rows) }
  | rows, some checkpoint =>
    if checkpoint ∈ store.markers scope then store
    else
      { store with
        seen := upsertSeenObservations store.seen (resolveObservations headers selfEmails rows)
      }.insertMarker scope checkpoint

def MARKER_WINDOW : Nat := 256

def SeenStore.pruneMarkerWindow (store : SeenStore) (scope : CursorScope) : SeenStore :=
  { store with
    markers := Function.update store.markers scope
      ((store.markers scope).drop ((store.markers scope).length - MARKER_WINDOW)) }

variable {store : SeenStore} {scope : CursorScope}

theorem SeenStore.ingest_marked (headers : Headers) (selfEmails : List String) {checkpoint : Checkpoint}
    (h : checkpoint ∈ store.markers scope) (rows : List SeenMessage) :
    store.ingestSeenWithMarker headers selfEmails scope rows (some checkpoint) = store := by
  cases rows with
  | nil => exact if_pos h
  | cons row rows => exact if_pos h

theorem SeenStore.ingest_seen (headers : Headers) (selfEmails : List String) {marker : Option Checkpoint}
    (h : ∀ checkpoint, marker = some checkpoint → checkpoint ∉ store.markers scope)
    (rows : List SeenMessage) : (store.ingestSeenWithMarker headers selfEmails scope rows marker).seen =
      upsertSeenObservations store.seen (resolveObservations headers selfEmails rows) := by
  cases marker with
  | none =>
    cases rows with
    | nil => rfl
    | cons row rows => rfl
  | some checkpoint =>
    have hnot := h checkpoint rfl
    cases rows with
    | nil => simp only [ingestSeenWithMarker, insertMarker, if_neg hnot]; rfl
    | cons row rows => simp [ingestSeenWithMarker, insertMarker, if_neg hnot]

theorem SeenStore.ingest_markers (headers : Headers) (selfEmails : List String) {marker : Option Checkpoint}
    (h : ∀ checkpoint, marker = some checkpoint → checkpoint ∉ store.markers scope)
    (rows : List SeenMessage) : (store.ingestSeenWithMarker headers selfEmails scope rows marker).markers =
      Function.update store.markers scope (store.markers scope ++ marker.toList) := by
  cases marker with
  | none =>
    have hsame : (store.ingestSeenWithMarker headers selfEmails scope rows none).markers =
        store.markers := by
      cases rows with
      | nil => rfl
      | cons row rows => rfl
    simp [hsame]
  | some checkpoint =>
    have hnot := h checkpoint rfl
    cases rows with
    | nil => simp [ingestSeenWithMarker, insertMarker, if_neg hnot]
    | cons row rows => simp [ingestSeenWithMarker, insertMarker, if_neg hnot]

end Ratatoskr.Consumer
