import Ratatoskr.Lib.NameScope
import Ratatoskr.Sidebar.Navigation

/-!
# Sidebar.SharedQueries

The thread lists of a shared mailbox (`db/src/db/queries_extra/scoped_queries.rs`). The five statements are
one, with the join of `thread_folders` or without, and with conditions of their own. A statement is prepared
before it runs; what it would select is given too, though it is never reached: the common table expression
`mb_threads` names `t.namespace_id`, and its `FROM` has no `t`.
-/

namespace Ratatoskr.Sidebar

open Lib.Relation
open Lib.NameScope (Schema Scope Select Results Sources Exprs Expr op prepare)

def schema : Schema := fun table =>
  match table with
  | "threads" => some ["id", "account_id", "subject", "snippet", "last_message_at", "message_count", "is_read",
      "is_starred", "is_important", "has_attachments", "is_snoozed", "snooze_until", "is_pinned", "is_muted",
      "namespace_kind", "namespace_id", "is_chat_thread", "label_membership_generation"]
  | "thread_folders" => some ["thread_id", "account_id", "folder_id"]
  | "messages" => some ["id", "account_id", "thread_id", "from_address", "from_name", "date"]
  | "label_groups" => some ["id", "name", "color_bg", "color_fg", "sort_order"]
  | "label_group_members" => some ["group_id", "account_id", "label_id"]
  | "thread_labels" => some ["thread_id", "account_id", "label_id"]
  | "pending_thread_label_intents" => some ["account_id", "thread_id", "label_id", "op", "generation_seen",
      "action_id", "created_at", "updated_at"]
  | _ => none

/-- `source.name` -/
def col (source name : String) : Expr := .column (some source) name

/-- `name` -/
def bare (name : String) : Expr := .column none name

/-- `EXISTS (SELECT 1 FROM .. WHERE ..)` -/
def existsIn (sources : Sources) (clauses : List Expr) : Expr :=
  .subquery (.mk .nil sources (Exprs.ofList clauses))

/-- `SELECT id FROM threads WHERE account_id = ?1 AND namespace_kind = 'shared' AND t.namespace_id = ?2` -/
def mbThreads : Select :=
  .mk (Results.names ["id"]) (.table "threads" "threads" .nil)
    (Exprs.ofList [op [bare "account_id", .constant], op [bare "namespace_kind", .constant],
      op [col "t" "namespace_id", .constant]])

/-- `SELECT id, account_id, .. FROM (SELECT .., ROW_NUMBER() OVER (..) AS rn FROM messages
WHERE account_id = ?1 AND thread_id IN (SELECT id FROM mb_threads)) WHERE rn = 1` -/
def mailboxMessages : Select :=
  .mk (Results.names ["id", "account_id", "thread_id", "from_name", "from_address"])
    (.derived
      (.mk (Results.ofList [(bare "id", "id"), (bare "account_id", "account_id"),
        (bare "thread_id", "thread_id"),
          (bare "from_name", "from_name"), (bare "from_address", "from_address"),
          (op [bare "account_id", bare "thread_id", bare "date", bare "id"], "rn")])
        (.table "messages" "messages" .nil)
        (Exprs.ofList [op [bare "account_id", .constant],
          op [bare "thread_id", .subquery
            (.mk (Results.names ["id"]) (.derived mbThreads "mb_threads" .nil) .nil)]]))
      "" .nil)
    (Exprs.ofList [op [bare "rn", .constant]])

/-- `user_visible_label_exists_fragment` for `lgm.label_id` -/
def visibleLabel : Expr :=
  op [existsIn (.table "thread_labels" "tl" .nil)
      [op [col "tl" "account_id", col "t" "account_id"], op [col "tl" "thread_id", col "t" "id"],
        op [col "tl" "label_id", col "lgm" "label_id"],
        existsIn (.table "pending_thread_label_intents" "pli_rm" .nil)
          [op [col "pli_rm" "account_id", col "tl" "account_id"],
            op [col "pli_rm" "thread_id", col "tl" "thread_id"],
            op [col "pli_rm" "label_id", col "tl" "label_id"], op [col "pli_rm" "op", .constant]]],
    existsIn (.table "pending_thread_label_intents" "pli_add" .nil)
      [op [col "pli_add" "account_id", col "t" "account_id"], op [col "pli_add" "thread_id", col "t" "id"],
        op [col "pli_add" "label_id", col "lgm" "label_id"], op [col "pli_add" "op", .constant]]]

/-- `user_visible_label_group_rendered_fragment` with `lg.id = ?3` -/
def renderedGroup : Expr :=
  existsIn (.table "label_group_members" "lgm" (.table "label_groups" "lg" .nil))
    [op [col "lg" "id", col "lgm" "group_id"], op [col "lgm" "account_id", col "t" "account_id"],
      op [col "lg" "id", .constant], visibleLabel]

/-- `WITH mb_threads AS (..) SELECT t.*, m.from_name, m.from_address FROM threads t ..` -/
def mailboxStatement (joinFolders : Bool) (conditions : List Expr) : Select :=
  .mk (.star "t" (.expr (col "m" "from_name") "from_name" (.expr (col "m" "from_address") "from_address" .nil)))
    (.table "threads" "t"
      (bif joinFolders then .table "thread_folders" "tf" (.derived mailboxMessages "m" .nil)
      else .derived mailboxMessages "m" .nil))
    (Exprs.ofList ([op [col "m" "account_id", col "t" "account_id"], op [col "m" "thread_id", col "t" "id"],
        op [col "t" "account_id", .constant], op [col "t" "namespace_kind", .constant],
        op [col "t" "namespace_id", .constant], op [col "t" "is_chat_thread", .constant]] ++ conditions ++
      [col "t" "is_pinned", col "t" "last_message_at"]))

def folderStatement : Select :=
  mailboxStatement true [op [col "tf" "account_id", col "t" "account_id"],
    op [col "tf" "thread_id", col "t" "id"],
    op [col "tf" "folder_id", .constant], col "t" "account_id", col "t" "id"]

def allStatement : Select := mailboxStatement false []

def flagStatement (flagCol : String) : Select := mailboxStatement false [op [col "t" flagCol, .constant]]

def labelGroupStatement : Select := mailboxStatement false [renderedGroup]

/-- `t.account_id = ?1 AND t.namespace_kind = 'shared' AND t.namespace_id = ?2` -/
def inMailbox (account : AccountId) (mailbox : String) (t : ThreadRow) : Bool :=
  t.accountId = account && t.namespaceKind = some "shared" && t.namespaceId = some mailbox

def notChat (t : ThreadRow) : Bool := t.isChatThread = 0

def latestInMailbox (db : Tables) (account : AccountId) (mailbox : String) : List MessageRow :=
  let ids := (db.threads.filter (inMailbox account mailbox)).map ThreadRow.id
  firstOf (fun m => (m.accountId, m.threadId))
    (fun a b => b.date < a.date || (a.date = b.date && b.id ≤ a.id))
    (db.messages.filter fun m => m.accountId = account && ids.contains m.threadId)

/-- The rows of `mailboxStatement` without folders. -/
def listMailbox (db : Tables) (account : AccountId) (mailbox : String) (limit : Int)
    (condition : ThreadRow → Bool) : Except String (List DbThread) :=
  collectThreads limit 0 ((leftJoin db.threads (latestInMailbox db account mailbox) ofThread).filter
    fun row => inMailbox account mailbox row.1 && notChat row.1 && condition row.1)

def listMailboxFolder (db : Tables) (account : AccountId) (mailbox : String) (limit : Int) (folder : FolderId) :
    Except String (List DbThread) :=
  let rows := (leftJoin (join db.threads db.threadFolders folderOf) (latestInMailbox db account mailbox)
    fun row m => ofThread row.1 m).filter fun row =>
      inMailbox account mailbox row.1.1 && notChat row.1.1 && row.1.2.folderId = folder
  collectThreads limit 0 ((groupBy (fun row => row.1.1.key) rows).map fun row => (row.1.1, row.2))

def getThreadsForSharedMailbox (db : Tables) (account : AccountId) (mailbox : String)
    (labelId : Option FolderId) (limit : Option Int) : Except String (List DbThread) := do
  let lim := limit.getD 200
  match labelId with
  | some folder =>
    prepare schema folderStatement
    listMailboxFolder db account mailbox lim folder
  | none =>
    prepare schema allStatement
    listMailbox db account mailbox lim fun _ => true

def sharedMailboxThreadsByFlag (db : Tables) (account : AccountId) (mailbox : String) (flagCol : String)
    (flag : ThreadRow → Option Int) (limit : Option Int) : Except String (List DbThread) := do
  prepare schema (flagStatement flagCol)
  listMailbox db account mailbox (limit.getD 200) fun t => flag t = some 1

def getThreadsForSharedMailboxStarred (db : Tables) (account : AccountId) (mailbox : String)
    (limit : Option Int) : Except String (List DbThread) :=
  sharedMailboxThreadsByFlag db account mailbox "is_starred" ThreadRow.isStarred limit

def getThreadsForSharedMailboxSnoozed (db : Tables) (account : AccountId) (mailbox : String)
    (limit : Option Int) : Except String (List DbThread) :=
  sharedMailboxThreadsByFlag db account mailbox "is_snoozed" ThreadRow.isSnoozed limit

def getThreadsForSharedMailboxLabelGroup (db : Tables) (account : AccountId) (mailbox : String)
    (groupId : Int) (limit : Option Int) : Except String (List DbThread) := do
  prepare schema labelGroupStatement
  listMailbox db account mailbox (limit.getD 200) fun t =>
    userVisibleLabelGroupRendered db (fun lg => lg.id = groupId) t

/-! ## No statement is prepared -/

def noSuchColumn : String := "no such column: t.namespace_id"

/-- Wherever no source around it is called `t`, the expression does not resolve. -/
theorem resolve_mbThreads {outer : List Scope} (h : ∀ scope ∈ outer, ∀ s ∈ scope, s.1 ≠ "t") :
    mbThreads.resolve schema outer = .error noSuchColumn := by
  have hunbound : Lib.NameScope.resolveColumn (some "t") "namespace_id" outer = .error noSuchColumn :=
    Lib.NameScope.resolveColumn_unbound h "namespace_id"
  simp [mbThreads, Select.resolve, Sources.resolve, schema, Results.names, Results.ofList, Results.resolve,
    Exprs.ofList, Exprs.resolve, Expr.resolve, op, bare, col, Except.map, hunbound,
    Lib.NameScope.resolveColumn, Lib.NameScope.candidates]

/-- The message query stands in `FROM`, beside `threads t`, and does not see it. -/
theorem resolve_mailboxMessages : mailboxMessages.resolve schema [] = .error noSuchColumn := by
  have hmessages : ∀ columns, mbThreads.resolve schema [[("messages", columns)]] = .error noSuchColumn := by
    intro columns
    refine resolve_mbThreads fun scope hscope s hs heq => ?_
    rw [List.mem_singleton.mp hscope] at hs
    rw [List.mem_singleton.mp hs] at heq
    have hname : "messages" = "t" := heq
    exact absurd hname (by decide)
  simp [mailboxMessages, Select.resolve, Sources.resolve, schema, Results.ofList,
    Results.resolve, Exprs.ofList, Exprs.resolve, Expr.resolve, op, bare, Except.map, hmessages,
    Lib.NameScope.resolveColumn, Lib.NameScope.candidates]

theorem prepare_mailboxStatement (joinFolders : Bool) (conditions : List Expr) :
    prepare schema (mailboxStatement joinFolders conditions) = .error noSuchColumn := by
  cases joinFolders <;>
    simp [prepare, mailboxStatement, Select.resolve, Sources.resolve, schema, resolve_mailboxMessages,
      Except.map]

theorem getThreadsForSharedMailbox_error (db : Tables) (account : AccountId) (mailbox : String)
    (labelId : Option FolderId) (limit : Option Int) :
    getThreadsForSharedMailbox db account mailbox labelId limit = .error noSuchColumn := by
  cases labelId with
  | none => rw [getThreadsForSharedMailbox, allStatement, prepare_mailboxStatement]; rfl
  | some folder => rw [getThreadsForSharedMailbox, folderStatement, prepare_mailboxStatement]; rfl

theorem sharedMailboxThreadsByFlag_error (db : Tables) (account : AccountId) (mailbox flagCol : String)
    (flag : ThreadRow → Option Int) (limit : Option Int) :
    sharedMailboxThreadsByFlag db account mailbox flagCol flag limit = .error noSuchColumn := by
  rw [sharedMailboxThreadsByFlag, flagStatement, prepare_mailboxStatement]
  rfl

theorem getThreadsForSharedMailboxLabelGroup_error (db : Tables) (account : AccountId) (mailbox : String)
    (groupId : Int) (limit : Option Int) :
    getThreadsForSharedMailboxLabelGroup db account mailbox groupId limit = .error noSuchColumn := by
  rw [getThreadsForSharedMailboxLabelGroup, labelGroupStatement, prepare_mailboxStatement]
  rfl

end Ratatoskr.Sidebar
