import Ratatoskr.Lib.Sql

/-!
# SmartFolder.Query

The SQL of a smart folder (`smart-folder/src/sql_builder.rs`). A parsed query and an account scope are
turned into clauses on `messages m` and `threads t`, whose values are pushed onto a list of parameters
and named by numbered placeholders. Three statements are built from the clauses: the thread list, the
thread keys and the count.

A clause is the syntax tree of the text that the source formats; a part that takes a value is a function
of the expression that stands for it.
-/

namespace Ratatoskr.SmartFolder

open Lib.Sql

inductive BoundDirection where
  | before | after

structure DateBound where
  timestamp : Int
  direction : BoundDirection

inductive AccountScope where
  | single (id : String)
  | multiple (ids : List String)
  | all

/-- `fromVals` and `toVals` are the source's `from` and `to`. -/
structure ParsedQuery where
  freeText : String
  fromVals : List String
  toVals : List String
  account : List String
  label : List String
  folder : List String
  inFolder : List String
  hasAttachment : Bool
  attachmentTypes : List String
  hasContact : Bool
  isUnread : Option Bool
  isRead : Option Bool
  isStarred : Option Bool
  isSnoozed : Option Bool
  isPinned : Option Bool
  isMuted : Option Bool
  isTagged : Option Bool
  before : Option DateBound
  after : Option DateBound

def ParsedQuery.default : ParsedQuery :=
  ⟨"", [], [], [], [], [], [], false, [], false, none, none, none, none, none, none, none, none, none⟩

inductive Operator where
  | «from» | «to» | label | account | folder | «in» | type

/-- These cases of `apply_operator`: each pushes the value as it is. -/
def applyOperator (result : ParsedQuery) (operator : Operator) (value : String) : ParsedQuery :=
  match operator with
  | .from => { result with fromVals := result.fromVals ++ [value] }
  | .to => { result with toVals := result.toVals ++ [value] }
  | .label => { result with label := result.label ++ [value] }
  | .account => { result with account := result.account ++ [value] }
  | .folder => { result with folder := result.folder ++ [value] }
  | .in => { result with inFolder := result.inFolder ++ [value] }
  | .type => { result with attachmentTypes := result.attachmentTypes ++ [value] }

structure QueryContext where
  msgClauses : List Pred
  threadFlagClauses : List Pred
  params : List Value
  nextIdx : Nat

namespace QueryContext

def new : QueryContext := ⟨[], [], [], 1⟩

def pushParam (ctx : QueryContext) (val : Value) : Nat × QueryContext :=
  (ctx.nextIdx, { ctx with params := ctx.params ++ [val], nextIdx := ctx.nextIdx + 1 })

def pushMsg (ctx : QueryContext) (clause : Pred) : QueryContext :=
  { ctx with msgClauses := ctx.msgClauses ++ [clause] }

def pushFlag (ctx : QueryContext) (clause : Pred) : QueryContext :=
  { ctx with threadFlagClauses := ctx.threadFlagClauses ++ [clause] }

/-- `.iter().map(|v| { let idx = ctx.push_param(..); format!(..) })`: one value and one text each. -/
def pushMap {α β : Type} (ctx : QueryContext) (value : α → Value) (format : α → Expr → β) :
    List α → List β × QueryContext
  | [] => ([], ctx)
  | v :: vs =>
    let (idx, ctx) := ctx.pushParam (value v)
    let (rest, ctx) := ctx.pushMap value format vs
    (format v (.param idx) :: rest, ctx)

def pushParts (ctx : QueryContext) (parts : List (Value × (Expr → Pred))) : List Pred × QueryContext :=
  ctx.pushMap Prod.fst Prod.snd parts

end QueryContext

def m (column : String) : Expr := .col "m" column

/-- `'%' || v || '%'` -/
def contains (v : Expr) : Expr := .concat (.concat (.lit (.text "%")) v) (.lit (.text "%"))

def freeTextPart (v : Expr) : Pred :=
  joinOr [.like (m "subject") (contains v), .like (m "from_name") (contains v),
    .like (m "from_address") (contains v), .like (m "snippet") (contains v)]

def fromPart (v : Expr) : Pred :=
  joinOr [.like (m "from_address") (contains v), .like (m "from_name") (contains v),
    .exists [("contacts", "c")] (.and (.like (.col "c" "display_name") (contains v))
      (.or (.eq (m "from_address") (.col "c" "email")) (.eq (m "from_address") (.col "c" "email2"))))]

def recipientsLike (v : Expr) : List Pred :=
  [.like (m "to_addresses") (contains v), .like (m "cc_addresses") (contains v),
    .like (m "bcc_addresses") (contains v)]

def toPart (v : Expr) : Pred :=
  joinOr (recipientsLike v ++
    [.exists [("contacts", "c")] (.and (.like (.col "c" "display_name") (contains v))
      (joinOr (recipientsLike (.col "c" "email") ++
        [.and (.isNotNull (.col "c" "email2")) (joinOr (recipientsLike (.col "c" "email2")))])))])

def accountPart (v : Expr) : Pred :=
  .inSelect (m "account_id") (.col "a" "id") [("accounts", "a")]
    (.or (.like (.col "a" "display_name") (contains v)) (.like (.col "a" "email") (contains v)))

def folderPart (v : Expr) : Pred :=
  .exists [("thread_folders", "tf"), ("folders", "f")]
    (.and (.eq (.col "f" "account_id") (.col "tf" "account_id"))
    (.and (.eq (.col "f" "id") (.col "tf" "folder_id"))
    (.and (.eq (.col "tf" "account_id") (m "account_id"))
    (.and (.eq (.col "tf" "thread_id") (m "thread_id"))
      (.or (.like (.col "f" "name") (contains v)) (.like (.col "f" "imap_folder_path") (contains v)))))))

def inFolderPart (v : Expr) : Pred :=
  .exists [("thread_folders", "tf")]
    (.and (.eq (.col "tf" "account_id") (m "account_id"))
    (.and (.eq (.col "tf" "thread_id") (m "thread_id")) (.eq (.col "tf" "folder_id") v)))

/-- `user_visible_label_exists_fragment` -/
def userVisibleLabelExistsFragment (account thread label : Expr) : Pred :=
  .or
    (.exists [("thread_labels", "tl")]
      (.and (.eq (.col "tl" "account_id") account)
      (.and (.eq (.col "tl" "thread_id") thread)
      (.and (.eq (.col "tl" "label_id") label)
        (.notExists [("pending_thread_label_intents", "pli_rm")]
          (.and (.eq (.col "pli_rm" "account_id") (.col "tl" "account_id"))
          (.and (.eq (.col "pli_rm" "thread_id") (.col "tl" "thread_id"))
          (.and (.eq (.col "pli_rm" "label_id") (.col "tl" "label_id"))
            (.eq (.col "pli_rm" "op") (.lit (.text "Remove")))))))))))
    (.exists [("pending_thread_label_intents", "pli_add")]
      (.and (.eq (.col "pli_add" "account_id") account)
      (.and (.eq (.col "pli_add" "thread_id") thread)
      (.and (.eq (.col "pli_add" "label_id") label)
        (.eq (.col "pli_add" "op") (.lit (.text "Add")))))))

/-- The columns of the outer row: those of a thread or those of a message. -/
inductive LabelGroupRenderGrain where
  | thread | message

def LabelGroupRenderGrain.accountColumn : LabelGroupRenderGrain → Expr
  | .thread => .col "t" "account_id"
  | .message => .col "m" "account_id"

def LabelGroupRenderGrain.threadColumn : LabelGroupRenderGrain → Expr
  | .thread => .col "t" "id"
  | .message => .col "m" "thread_id"

def labelGroupRenderedFragment (grain : LabelGroupRenderGrain) (groupPredicate : Pred) : Pred :=
  .exists [("label_group_members", "lgm"), ("label_groups", "lg")]
    (.and (.eq (.col "lg" "id") (.col "lgm" "group_id"))
    (.and (.eq (.col "lgm" "account_id") grain.accountColumn)
    (.and groupPredicate
      (userVisibleLabelExistsFragment grain.accountColumn grain.threadColumn (.col "lgm" "label_id")))))

def labelPart (v : Expr) : Pred :=
  labelGroupRenderedFragment .message (.eq (.lower (.col "lg" "name")) (.lower v))

/-! ## Clause builders -/

def buildFreeTextClause (ctx : QueryContext) (parsed : ParsedQuery) : QueryContext :=
  if parsed.freeText = "" then ctx
  else
    let (idx, ctx) := ctx.pushParam (.text parsed.freeText)
    ctx.pushMsg (freeTextPart (.param idx))

/-- `parts.join(" OR ")` over the values of one operator, for an operator that is used. -/
def buildOrClause (ctx : QueryContext) (parts : List (Value × (Expr → Pred))) : QueryContext :=
  if parts = [] then ctx
  else
    let (clauses, ctx) := ctx.pushParts parts
    ctx.pushMsg (joinOr clauses)

def texts (part : Expr → Pred) (values : List String) : List (Value × (Expr → Pred)) :=
  values.map (fun v => (.text v, part))

def buildFromClause (ctx : QueryContext) (parsed : ParsedQuery) : QueryContext :=
  buildOrClause ctx (texts fromPart parsed.fromVals)

def buildToClause (ctx : QueryContext) (parsed : ParsedQuery) : QueryContext :=
  buildOrClause ctx (texts toPart parsed.toVals)

/-- `EXISTS (SELECT 1 FROM attachments a WHERE a belongs to m AND ..)` -/
def attachmentExists (conditions : List Pred) : Pred :=
  .exists [("attachments", "a")]
    (conditions.foldl Pred.and
      (.and (.eq (.col "a" "account_id") (m "account_id")) (.eq (.col "a" "message_id") (m "id"))))

def buildAttachmentClause (ctx : QueryContext) (parsed : ParsedQuery) : QueryContext :=
  if parsed.hasAttachment then ctx.pushMsg (attachmentExists []) else ctx

def DateBound.toSqlClause (bound : DateBound) (column : Expr) (paramIdx : Nat) : Pred × Value :=
  match bound.direction with
  | .before => (.lt column (.param paramIdx), .int bound.timestamp)
  | .after => (.gt column (.param paramIdx), .int bound.timestamp)

/-- The index is read off the context before the value is pushed. -/
def buildDateClause (ctx : QueryContext) (bound : Option DateBound) : QueryContext :=
  match bound with
  | none => ctx
  | some bound =>
    let (clause, value) := bound.toSqlClause (m "date") ctx.nextIdx
    (ctx.pushParam value).2.pushMsg clause

def buildDateClauses (ctx : QueryContext) (parsed : ParsedQuery) : QueryContext :=
  buildDateClause (buildDateClause ctx parsed.before) parsed.after

def buildFolderClause (ctx : QueryContext) (parsed : ParsedQuery) : QueryContext :=
  buildOrClause ctx (texts folderPart parsed.folder)

def toAsciiLowercase (s : String) : String := String.ofList (s.toList.map Char.toLower)

/-- `SystemFolderId::parse_shorthand` and `as_str`. -/
def parseShorthand (raw : String) : Option String :=
  match toAsciiLowercase raw with
  | "inbox" => some "INBOX"
  | "sent" => some "SENT"
  | "drafts" => some "DRAFT"
  | "draft" => some "DRAFT"
  | "trash" => some "TRASH"
  | "spam" => some "SPAM"
  | "archive" => some "archive"
  | _ => none

def buildInFolderClauses (ctx : QueryContext) (parsed : ParsedQuery) : QueryContext :=
  buildOrClause ctx (texts inFolderPart (parsed.inFolder.filterMap parseShorthand))

/-- A glob `video/*` becomes the pattern `video/%`, any other type is compared as it is. -/
def buildSingleMimeCondition (mime : String) : Value × (Expr → Pred) :=
  if ['/', '*'].isSuffixOf mime.toList then
    (.text (String.ofList (mime.toList.dropLast ++ ['%'])), fun v => .like (.col "a" "mime_type") v)
  else (.text mime, fun v => .eq (.col "a" "mime_type") v)

def buildAttachmentTypeClause (ctx : QueryContext) (parsed : ParsedQuery) : QueryContext :=
  if parsed.attachmentTypes = [] then ctx
  else
    let (conditions, ctx) := ctx.pushParts (parsed.attachmentTypes.map buildSingleMimeCondition)
    ctx.pushMsg (attachmentExists [joinOr conditions])

def hasContactClause : Pred :=
  .exists [("contacts", "c")]
    (joinOr ([.eq (.col "c" "email") (m "from_address")] ++ recipientsLike (.col "c" "email") ++
      [.and (.isNotNull (.col "c" "email2"))
        (joinOr ([.eq (.col "c" "email2") (m "from_address")] ++ recipientsLike (.col "c" "email2")))]))

def buildHasContactClause (ctx : QueryContext) (parsed : ParsedQuery) : QueryContext :=
  if parsed.hasContact then ctx.pushMsg hasContactClause else ctx

def buildMessageClauses (ctx : QueryContext) (parsed : ParsedQuery) : QueryContext :=
  let ctx := buildFreeTextClause ctx parsed
  let ctx := buildFromClause ctx parsed
  let ctx := buildToClause ctx parsed
  let ctx := buildAttachmentClause ctx parsed
  let ctx := buildDateClauses ctx parsed
  let ctx := buildFolderClause ctx parsed
  let ctx := buildInFolderClauses ctx parsed
  let ctx := buildAttachmentTypeClause ctx parsed
  buildHasContactClause ctx parsed

def buildScopeClause (ctx : QueryContext) : AccountScope → QueryContext
  | .single id =>
    let (idx, ctx) := ctx.pushParam (.text id)
    ctx.pushMsg (.eq (m "account_id") (.param idx))
  | .multiple ids =>
    if ids = [] then ctx.pushMsg (.eq (.lit (.int 0)) (.lit (.int 1)))
    else
      let (placeholders, ctx) := ctx.pushMap Value.text (fun _ idx => idx) ids
      ctx.pushMsg (.inList (m "account_id") placeholders)
  | .all => ctx

def buildAccountClause (ctx : QueryContext) (parsed : ParsedQuery) : QueryContext :=
  let (parts, ctx) := ctx.pushParts (texts accountPart parsed.account)
  ctx.pushMsg (joinOr parts)

/-- `account:` operators take the place of the scope. -/
def buildEffectiveScope (ctx : QueryContext) (parsed : ParsedQuery) (scope : AccountScope) : QueryContext :=
  if parsed.account = [] then buildScopeClause ctx scope else buildAccountClause ctx parsed

def flagClause (column : String) (value : Int) : Pred := .eq (.col "t" column) (.lit (.int value))

def pushFlagIf (ctx : QueryContext) (condition : Bool) (clause : Pred) : QueryContext :=
  if condition then ctx.pushFlag clause else ctx

def buildThreadStateClauses (ctx : QueryContext) (parsed : ParsedQuery) : QueryContext :=
  let ctx := pushFlagIf ctx (parsed.isUnread = some true) (flagClause "is_read" 0)
  let ctx := pushFlagIf ctx (parsed.isRead = some true) (flagClause "is_read" 1)
  pushFlagIf ctx (parsed.isStarred = some true) (flagClause "is_starred" 1)

/-- `1=1`: any group. -/
def isTaggedClause : Pred :=
  labelGroupRenderedFragment .thread (.eq (.lit (.int 1)) (.lit (.int 1)))

/-- `IN_FLAG_SHORTHANDS` -/
def inFlagShorthand (value : String) : Option Pred :=
  match toAsciiLowercase value with
  | "starred" => some (flagClause "is_starred" 1)
  | "snoozed" => some (flagClause "is_snoozed" 1)
  | _ => none

def buildInFolderFlagClauses (ctx : QueryContext) (parsed : ParsedQuery) : QueryContext :=
  (parsed.inFolder.filterMap inFlagShorthand).foldl QueryContext.pushFlag ctx

def buildThreadFlagClauses (ctx : QueryContext) (parsed : ParsedQuery) : QueryContext :=
  let ctx := buildThreadStateClauses ctx parsed
  let ctx := pushFlagIf ctx (parsed.isSnoozed = some true) (flagClause "is_snoozed" 1)
  let ctx := pushFlagIf ctx (parsed.isPinned = some true) (flagClause "is_pinned" 1)
  let ctx := pushFlagIf ctx (parsed.isMuted = some true) (flagClause "is_muted" 1)
  let ctx := pushFlagIf ctx (parsed.isTagged = some true) isTaggedClause
  buildInFolderFlagClauses ctx parsed

def buildLabelClause (ctx : QueryContext) (parsed : ParsedQuery) : QueryContext :=
  buildOrClause ctx (texts labelPart parsed.label)

/-- The four calls that each of the three statements makes. -/
def buildContext (parsed : ParsedQuery) (scope : AccountScope) : QueryContext :=
  let ctx := buildMessageClauses QueryContext.new parsed
  let ctx := buildEffectiveScope ctx parsed scope
  let ctx := buildThreadFlagClauses ctx parsed
  buildLabelClause ctx parsed

/-! ## Statements -/

def env (name : String) (row : Row) : Env := Function.update (fun _ _ => .null) name row

/-- `SELECT DISTINCT m.account_id, m.thread_id FROM messages m WHERE 1=1 AND ..` -/
def matched (db : Db) (params : List Value) (msgClauses : List Pred) : List (Value × Value) :=
  (((db "messages").filter (fun row => msgClauses.all (fun p => eval db params p (env "m" row)))).map
    (fun row => (row "account_id", row "thread_id"))).dedup

/-- `FROM threads t INNER JOIN (..) matched ON .. WHERE 1=1 AND ..` -/
def matchedThreads (db : Db) (params : List Value) (msgClauses threadFlagClauses : List Pred) : List Row :=
  ((db "threads").flatMap (fun t =>
    ((matched db params msgClauses).filter (fun key =>
      key.1.eqTrue (t "account_id") && key.2.eqTrue (t "id"))).map (fun _ => t))).filter
    (fun t => threadFlagClauses.all (fun p => eval db params p (env "t" t)))

/-- `LATEST_MESSAGE_SUBQUERY`: the first message of each thread by date and id, both descending. -/
def latestMessages (db : Db) : List Row :=
  (((db "messages").map (fun row => (row "account_id", row "thread_id"))).dedup).filterMap (fun key =>
    (((db "messages").filter (fun row => (row "account_id", row "thread_id") = key)).mergeSort
      (fun a b => if a "date" = b "date" then (b "id").le (a "id") else (b "date").le (a "date"))).head?)

/-- The columns of the thread, and the sender of its latest message. -/
structure DbThread where
  thread : Row
  fromName : Value
  fromAddress : Value

/-- `LEFT JOIN (..) latest_m ON ..` -/
def joinLatest (db : Db) (t : Row) : List DbThread :=
  match (latestMessages db).filter (fun l =>
    (l "account_id").eqTrue (t "account_id") && (l "thread_id").eqTrue (t "id")) with
  | [] => [⟨t, .null, .null⟩]
  | latest => latest.map (fun l => ⟨t, l "from_name", l "from_address"⟩)

/-- `ORDER BY t.is_pinned DESC, t.last_message_at DESC` -/
def listOrder (a b : DbThread) : Bool :=
  if a.thread "is_pinned" = b.thread "is_pinned" then
    (b.thread "last_message_at").le (a.thread "last_message_at")
  else (b.thread "is_pinned").le (a.thread "is_pinned")

/-- `LIMIT` and `OFFSET`; a negative limit is none, a negative offset is zero. -/
def page {α : Type} (limit offset : Value) (rows : List α) : List α :=
  let rows := match offset with
    | .int o => rows.drop o.toNat
    | _ => rows
  match limit with
  | .int l => if l < 0 then rows else rows.take l.toNat
  | _ => rows

/-- The text of `build_thread_select_sql`, run. -/
def runThreadSelect (db : Db) (params : List Value) (msgClauses threadFlagClauses : List Pred)
    (nextIdx : Nat) : List DbThread :=
  let start := fun (_ _ : String) => Value.null
  page (evalExpr params start (.param nextIdx)) (evalExpr params start (.param (nextIdx + 1)))
    (((matchedThreads db params msgClauses threadFlagClauses).flatMap (joinLatest db)).mergeSort listOrder)

/-- The text of `build_count_sql`, run. -/
def runCount (db : Db) (params : List Value) (msgClauses threadFlagClauses : List Pred) : Nat :=
  (matchedThreads db params msgClauses threadFlagClauses).length

def runKeys (db : Db) (params : List Value) (msgClauses threadFlagClauses : List Pred) :
    List (Value × Value) :=
  (matchedThreads db params msgClauses threadFlagClauses).map (fun t => (t "account_id", t "id"))

def queryThreadsRead (db : Db) (parsed : ParsedQuery) (scope : AccountScope) (limit offset : Option Int) :
    List DbThread :=
  let ctx := buildContext parsed scope
  let params := ctx.params ++ [.int (limit.getD 50)] ++ [.int (offset.getD 0)]
  runThreadSelect db params ctx.msgClauses ctx.threadFlagClauses ctx.nextIdx

def queryThreadKeysRead (db : Db) (parsed : ParsedQuery) (scope : AccountScope) : List (Value × Value) :=
  let ctx := buildContext parsed scope
  runKeys db ctx.params ctx.msgClauses ctx.threadFlagClauses

def countMatchingRead (db : Db) (parsed : ParsedQuery) (scope : AccountScope) : Nat :=
  let ctx := buildContext parsed scope
  runCount db ctx.params ctx.msgClauses ctx.threadFlagClauses

end Ratatoskr.SmartFolder
