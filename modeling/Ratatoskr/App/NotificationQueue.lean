import Mathlib.Data.List.Basic
import Ratatoskr.Lib.Run

/-!
# App.NotificationQueue

The notification queue between the service client and the app (`app/src/notification_queue.rs`). Each
function is one lock section; it returns the new state and the way the section ended. The system runs
any number of producers, one consumer and `close` over it, and keeps a log of what happened. Slots are
numbered as they are created; the numbers exist only for the log.
-/

namespace Ratatoskr.App

inductive NotificationClass (κ : Type) where
  | coalesce (key : κ)
  | drop
  | mustDeliver
  deriving DecidableEq

structure QueueState (τ : Type) where
  items : List τ
  closed : Bool

/-- How a lock section of `enqueue` ended. -/
inductive Outcome where
  | closed
  | replaced (index : Nat)
  | noRoom
  | placed
  /-- the front was popped first -/
  | placedEvicting
  /-- the producer waits for space -/
  | full

/-- How a lock section of `recv` ended. -/
inductive Received (τ : Type) where
  | item (item : τ)
  | closed
  | empty

section Queue

variable {τ κ : Type} [DecidableEq κ] (classify : τ → NotificationClass κ) (capacity : Nat)

def enqueueCoalesce (key : κ) (item : τ) (s : QueueState τ) : QueueState τ × Outcome :=
  if s.closed then (s, .closed)
  else
    match s.items.findIdx? (fun slot => classify slot = .coalesce key) with
    | some index => ({ s with items := s.items.set index item }, .replaced index)
    | none =>
      if capacity ≤ s.items.length then (s, .noRoom)
      else ({ s with items := s.items ++ [item] }, .placed)

def enqueueDrop (item : τ) (s : QueueState τ) : QueueState τ × Outcome :=
  if s.closed then (s, .closed)
  else if capacity ≤ s.items.length then
    ({ s with items := s.items.tail ++ [item] }, .placedEvicting)
  else ({ s with items := s.items ++ [item] }, .placed)

/-- One turn of the loop of `enqueue_must_deliver`. -/
def enqueueMustDeliver (item : τ) (s : QueueState τ) : QueueState τ × Outcome :=
  if s.closed then (s, .closed)
  else if s.items.length < capacity then ({ s with items := s.items ++ [item] }, .placed)
  else (s, .full)

def enqueue (item : τ) (s : QueueState τ) : QueueState τ × Outcome :=
  match classify item with
  | .coalesce key => enqueueCoalesce classify capacity key item s
  | .drop => enqueueDrop capacity item s
  | .mustDeliver => enqueueMustDeliver capacity item s

/-- One turn of the loop of `recv`. -/
def recv (s : QueueState τ) : QueueState τ × Received τ :=
  match s.items with
  | item :: items => ({ s with items := items }, .item item)
  | [] => if s.closed then (s, .closed) else (s, .empty)

def close (s : QueueState τ) : QueueState τ := { s with closed := true }

end Queue

inductive Event (τ : Type) where
  | placed (slot : Nat) (item : τ)
  | replaced (slot : Nat) (item : τ)
  | evicted (slot : Nat) (item : τ)
  | noRoom (item : τ)
  /-- a producer returned because the queue is closed -/
  | refused (item : τ)
  | received (slot : Nat) (item : τ)
  /-- `recv` returned `None` -/
  | ended
  | closed

/-- `waiting p` is the `MustDeliver` item of a producer that has not returned yet. -/
structure System (τ : Type) where
  state : QueueState τ
  slots : List Nat
  nextSlot : Nat
  waiting : Nat → Option τ
  log : List (Event τ)

def System.new {τ : Type} : System τ := ⟨⟨[], false⟩, [], 0, fun _ => none, []⟩

inductive Act (τ : Type) where
  | enqueue (producer : Nat) (item : τ)
  /-- a waiting producer takes the lock again -/
  | retry (producer : Nat)
  | recv
  | close

section Step

variable {τ κ : Type} [DecidableEq κ] (classify : τ → NotificationClass κ) (capacity : Nat)

/-- The slots and the log after a lock section that ended with this outcome. -/
def record (s : System τ) (producer : Nat) (item : τ) (r : QueueState τ × Outcome) : System τ :=
  let s' := { s with state := r.1, waiting := Function.update s.waiting producer none }
  match r.2 with
  | .closed => { s' with log := s.log ++ [.refused item] }
  | .replaced index => { s' with log := s.log ++ [.replaced (s.slots.getD index 0) item] }
  | .noRoom => { s' with log := s.log ++ [.noRoom item] }
  | .placed =>
    { s' with
      slots := s.slots ++ [s.nextSlot]
      nextSlot := s.nextSlot + 1
      log := s.log ++ [.placed s.nextSlot item] }
  | .placedEvicting =>
    { s' with
      slots := s.slots.tail ++ [s.nextSlot]
      nextSlot := s.nextSlot + 1
      log := s.log ++ (s.slots.zip s.state.items).head?.toList.map (fun p => .evicted p.1 p.2) ++
        [.placed s.nextSlot item] }
  | .full => { s' with waiting := Function.update s.waiting producer (some item) }

/-- A step of a producer that is still busy, or not waiting, does not exist. -/
def step (s : System τ) : Act τ → Except Unit (System τ)
  | .enqueue producer item =>
    match s.waiting producer with
    | some _ => .error ()
    | none => .ok (record s producer item (enqueue classify capacity item s.state))
  | .retry producer =>
    match s.waiting producer with
    | some item => .ok (record s producer item (enqueueMustDeliver capacity item s.state))
    | none => .error ()
  | .recv =>
    match recv s.state with
    | (state, .item item) =>
      .ok { s with
        state := state
        slots := s.slots.tail
        log := s.log ++ [.received (s.slots.headD 0) item] }
    | (state, .closed) => .ok { s with state := state, log := s.log ++ [.ended] }
    | (state, .empty) => .ok { s with state := state }
  | .close => .ok { s with state := close s.state, log := s.log ++ [.closed] }

end Step

end Ratatoskr.App
