import Mathlib.Data.List.Sort
import Ratatoskr.Threading.Text

/-!
# Threading.Build

`sync/src/threading.rs`: messages are put into containers keyed by Message-ID, containers are linked
to the parents their reference headers name, roots with the same subject are merged, and every tree
that holds a message becomes a thread group. `updateThreads` assigns new groups to known threads.

The arena is a list of containers addressed by index, the hash maps are association lists whose
first entry for a key counts. The two recursions over children get the number of containers as fuel,
which is more than the height of any tree (`getSubject_fuel`, `mem_nodes`).
-/

namespace Ratatoskr.Threading

structure ThreadableMessage where
  id : String
  messageId : String
  inReplyTo : Option String
  references : Option String
  subject : Option String
  date : Int

structure ThreadGroup where
  threadId : String
  messageIds : List String
  deriving DecidableEq

structure Container where
  messageId : String
  message : Option ThreadableMessage
  parent : Option Nat
  children : List Nat

structure Arena where
  containers : List Container
  idTable : List (String × Nat)

namespace Arena

def new : Arena := ⟨[], []⟩

def parent (a : Arena) (i : Nat) : Option Nat := a.containers[i]?.bind (·.parent)

def children (a : Arena) (i : Nat) : List Nat :=
  match a.containers[i]? with
  | some c => c.children
  | none => []

def message (a : Arena) (i : Nat) : Option ThreadableMessage := a.containers[i]?.bind (·.message)

def modify (a : Arena) (i : Nat) (f : Container → Container) : Arena :=
  { a with containers := a.containers.modify i f }

def getOrCreate (a : Arena) (messageId : String) : Arena × Nat :=
  match a.idTable.lookup messageId with
  | some idx => (a, idx)
  | none =>
    let idx := a.containers.length
    (⟨a.containers ++ [⟨messageId, none, none, []⟩], (messageId, idx) :: a.idTable⟩, idx)

/-- The walk of `is_ancestor` with `n` containers left to look at. -/
def ancestorWalk (a : Arena) (ancestor : Nat) : Nat → Option Nat → Bool
  | 0, _ => false
  | _, none => false
  | n + 1, some c => c == ancestor || a.ancestorWalk ancestor n (a.parent c)

def maxDepth : Nat := 100

/-- Whether `ancestor` is `idx` or one of the containers above it, as far as the walk looks. -/
def isAncestor (a : Arena) (idx ancestor : Nat) : Bool := a.ancestorWalk ancestor maxDepth (some idx)

def unlinkFromParent (a : Arena) (child : Nat) : Arena :=
  match a.parent child with
  | some p =>
    (a.modify p (fun c => { c with children := c.children.filter (· ≠ child) })).modify child
      (fun c => { c with parent := none })
  | none => a

def linkParentChild (a : Arena) (p child : Nat) : Arena :=
  if a.isAncestor p child then a
  else if a.parent child = some p then a
  else
    ((a.unlinkFromParent child).modify child (fun c => { c with parent := some p })).modify p
      (fun c => { c with children := c.children ++ [child] })

def roots (a : Arena) : List Nat :=
  (List.range a.containers.length).filter (fun i => (a.parent i).isNone)

def getSubject (a : Arena) : Nat → Nat → Option String
  | 0, _ => none
  | n + 1, i =>
    match (a.message i).bind (·.subject) with
    | some subject => some subject
    | none => (a.children i).findSome? (a.getSubject n)

def getSubjectForContainer (a : Arena) (i : Nat) : Option String :=
  a.getSubject a.containers.length i

/-- The state of `collect_messages`: the messages so far and the containers seen. -/
abbrev Walk := List ThreadableMessage × List Bool

def collect (a : Arena) : Nat → Nat → Walk → Walk
  | 0, _, w => w
  | n + 1, i, (result, visited) =>
    if visited[i]?.getD false then (result, visited)
    else
      (a.children i).foldl (fun w c => a.collect n c w)
        (result ++ (a.message i).toList, visited.set i true)

def collectMessages (a : Arena) (i : Nat) (w : Walk) : Walk := a.collect a.containers.length i w

end Arena

open Arena

/-- References, then the Message-IDs of In-Reply-To that are not among them. -/
def refIds (m : ThreadableMessage) : List String :=
  match m.inReplyTo with
  | none => parseReferences m.references
  | some inReplyTo =>
    (parseReferences (some inReplyTo)).foldl (fun refs id => if id ∈ refs then refs else refs ++ [id])
      (parseReferences m.references)

/-- Walk a reference chain. A container on it gets the one before it as parent if it has none yet. -/
def linkRefs : Arena → Option Nat → List String → Arena × Option Nat
  | a, prev, [] => (a, prev)
  | a, prev, ref :: refs =>
    let (a, idx) := a.getOrCreate ref
    let a := match prev with
      | some p => if (a.parent idx).isNone then a.linkParentChild p idx else a
      | none => a
    linkRefs a (some idx) refs

def addMessage (a : Arena) (m : ThreadableMessage) : Arena :=
  let (a, idx) := a.getOrCreate m.messageId
  let a := a.modify idx (fun c => { c with message := some m })
  let (a, prev) := linkRefs a none (refIds m)
  match prev with
  | some p => if p ≠ idx then a.linkParentChild p idx else a
  | none => a

def linkMessages (messages : List ThreadableMessage) : Arena := messages.foldl addMessage Arena.new

/-! ## Subjects -/

abbrev SubjectMap := List (String × Nat)

def mergeRoot (st : Arena × SubjectMap) (root : Nat) : Arena × SubjectMap :=
  let (a, map) := st
  let normalized := normalizeSubject (a.getSubjectForContainer root)
  if normalized = "" then st
  else
    match map.lookup normalized with
    | none => (a, (normalized, root) :: map)
    | some existing =>
      let existingHasMsg := (a.message existing).isSome
      let rootHasMsg := (a.message root).isSome
      if !existingHasMsg && rootHasMsg then (a.linkParentChild existing root, map)
      else if !rootHasMsg && existingHasMsg then
        (a.linkParentChild root existing, (normalized, root) :: map)
      else
        let existingDate : Int := ((a.message existing).map (·.date)).getD 0
        let rootDate : Int := ((a.message root).map (·.date)).getD 0
        if existingDate ≤ rootDate then (a.linkParentChild existing root, map)
        else (a.linkParentChild root existing, (normalized, root) :: map)

def mergeSubjects (a : Arena) : Arena := (a.roots.foldl mergeRoot (a, [])).1

/-- The messages below one root, oldest first; no entry if there are none. -/
def gatherRoot (a : Arena) (st : List (Nat × List ThreadableMessage) × List Bool) (root : Nat) :
    List (Nat × List ThreadableMessage) × List Bool :=
  let (messages, visited) := a.collectMessages root ([], st.2)
  if messages = [] then (st.1, visited)
  else (st.1 ++ [(root, messages.insertionSort (fun x y => x.date ≤ y.date))], visited)

def gather (a : Arena) : List (Nat × List ThreadableMessage) :=
  (a.roots.foldl (gatherRoot a) ([], List.replicate a.containers.length false)).1

def rootMessageId (a : Arena) (i : Nat) : String := ((a.containers[i]?).map (·.messageId)).getD ""

/-- The trees of the messages: the Message-ID of the root and the messages below it. -/
def threads (messages : List ThreadableMessage) : List (String × List ThreadableMessage) :=
  let a := mergeSubjects (linkMessages messages)
  (gather a).map (fun t => (rootMessageId a t.1, t.2))

def buildThreads (messages : List ThreadableMessage) : List ThreadGroup :=
  (threads messages).map (fun t => ⟨generateThreadId t.1, t.2.map (·.id)⟩)

def mergeIds (existing new : List String) : List String :=
  new.foldl (fun merged id => if id ∈ merged then merged else merged ++ [id]) existing

/-- `thread_to_message_ids`: a later thread replaces an earlier one with the same id. -/
def existingIds (existing : List ThreadGroup) (threadId : String) : Option (List String) :=
  (existing.reverse.find? (fun t => t.threadId = threadId)).map (·.messageIds)

/-- The first known thread whose root is referenced by a message of the group. -/
def referencedThread (existing : List ThreadGroup) (newMessages : List ThreadableMessage)
    (group : ThreadGroup) : Option String :=
  (newMessages.filter (fun m => m.id ∈ group.messageIds)).findSome? (fun m =>
    ((refIds m).map generateThreadId).find? (fun t => t ∈ existing.map (·.threadId)))

def updateThread (existing : List ThreadGroup) (newMessages : List ThreadableMessage)
    (group : ThreadGroup) : ThreadGroup :=
  match existingIds existing group.threadId with
  | some ids => ⟨group.threadId, mergeIds ids group.messageIds⟩
  | none =>
    match referencedThread existing newMessages group with
    | some threadId =>
      ⟨threadId, mergeIds ((existingIds existing threadId).getD []) group.messageIds⟩
    | none => group

def updateThreads (existing : List ThreadGroup) (newMessages : List ThreadableMessage) : List ThreadGroup :=
  (buildThreads newMessages).map (updateThread existing newMessages)

end Ratatoskr.Threading
