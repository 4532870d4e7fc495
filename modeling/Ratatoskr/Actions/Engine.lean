import Ratatoskr.Actions.Rows

/-!
# Actions.Engine

How an operation becomes calls of the sync engine (`service/src/actions/dispatch_target.rs`), and the
label kinds (`types/src/folder_label.rs`). A dispatch returns its result and the calls it issued, each
with whether the provider accepted it; the first call that is rejected ends the dispatch.
-/

namespace Ratatoskr.Actions

abbrev Issued := EngineCall × Bool

/-- A provider dispatch: its result and the calls it issued. -/
structure Remote where
  result : Except ActionError Unit
  issued : List Issued

def Remote.error (e : ActionError) : Remote := ⟨.error e, []⟩

/-- The calls one after the other, up to the first that is rejected. -/
def issueAll (ctx : Ctx) (account : AccountId) : List EngineCall → Remote
  | [] => ⟨.ok (), []⟩
  | call :: calls =>
    match ctx.answer account call with
    | .error e => ⟨.error e, [(call, false)]⟩
    | .ok () =>
      let rest := issueAll ctx account calls
      ⟨rest.result, (call, true) :: rest.issued⟩

def seenFlag : BifrostProviderKind → String
  | .jmap => "$seen"
  | _ => "\\Seen"

def starredFlag : BifrostProviderKind → String
  | .jmap => "$flagged"
  | _ => "\\Flagged"

def dispatchFlags (ctx : Ctx) (account : AccountId) (ids : List ObjectId) (flag : String)
    (value : Bool) : Remote :=
  issueAll ctx account [.bulkSetFlags ids flag value]

def dispatchPermanentDelete (ctx : Ctx) (account : AccountId) (ids : List ObjectId) : Remote :=
  issueAll ctx account [.bulkDestroy ids]

inductive ContainerMoveOp where
  | archive
  | trash
  | spam (value : Bool)
  | moveToFolder (dest : FolderId) (source : Option FolderId)

def ContainerMoveOp.destinationDescription : ContainerMoveOp → String
  | .archive => "archive destination"
  | .trash => "trash destination"
  | .spam true => "spam destination"
  | .spam false => "un-spam destination"
  | .moveToFolder dest _ => "container " ++ dest

def destinationRole : ContainerMoveOp → Option FolderRole
  | .archive => some .archive
  | .trash => some .trash
  | .spam true => some .spam
  | .spam false => some .inbox
  | .moveToFolder _ _ => none

def sourceRole : ContainerMoveOp → Option FolderRole
  | .spam false => some .spam
  | _ => none

inductive ContainerMovePlan where
  | moveTo (destination : String) (source : Option String)
  | detachInbox (inbox : String)
  | noOp

/-- `eq_ignore_ascii_case` -/
def eqIgnoreAsciiCase (a b : String) : Bool :=
  a.toList.map Char.toLower = b.toList.map Char.toLower

def isSynthetic (dest : String) : Bool := eqIgnoreAsciiCase dest "archive"

def isGmailArchiveShape (op : ContainerMoveOp) (nativeDestination : Option String) : Bool :=
  match op with
  | .archive => nativeDestination.all isSynthetic
  | .moveToFolder _ _ => nativeDestination.any isSynthetic
  | .trash => false
  | .spam _ => false

def containerMovePlan (provider : BifrostProviderKind) (op : ContainerMoveOp)
    (nativeDestination nativeInbox nativeSource : Option String) : Option ContainerMovePlan :=
  if provider = .gmail && isGmailArchiveShape op nativeDestination then
    some (match nativeInbox with
      | some inbox => .detachInbox inbox
      | none => .noOp)
  else nativeDestination.map (fun destination => .moveTo destination nativeSource)

def nativeFolderForStorageIdOpt (folderMap : List (String × FolderId)) (storageId : FolderId) :
    Option String :=
  (folderMap.find? (fun e => e.2 = storageId)).map Prod.fst

/-- The outer `none` is the `unreachable!` of an operation without a destination role. -/
def planForContainerOp (provider : BifrostProviderKind) (op : ContainerMoveOp)
    (containers : ContainerIndex) (ns : NamespaceAttribution) : Option (Option ContainerMovePlan) :=
  let inbox := containers.roles ns .inbox
  let source := match op with
    | .moveToFolder _ source => source.bind (nativeFolderForStorageIdOpt containers.folderMap)
    | _ => (sourceRole op).bind (containers.roles ns)
  match destinationRole op with
  | some role => some (containerMovePlan provider op (containers.roles ns role) inbox source)
  | none =>
    match op with
    | .moveToFolder dest _ =>
      match nativeFolderForStorageIdOpt containers.folderMap dest with
      | none => some none
      | some destination => some (containerMovePlan provider op (some destination) inbox source)
    | _ => none

theorem planForContainerOp_isSome (provider : BifrostProviderKind) (op : ContainerMoveOp)
    (containers : ContainerIndex) (ns : NamespaceAttribution) :
    (planForContainerOp provider op containers ns).isSome := by
  cases op with
  | moveToFolder dest source =>
    simp only [planForContainerOp, destinationRole]
    split <;> rfl
  | spam value => cases value <;> rfl
  | _ => rfl

def planCalls (ids : List ObjectId) : ContainerMovePlan → List EngineCall
  | .moveTo destination source => [.bulkMoveFrom ids destination source]
  | .detachInbox inbox => ids.map (fun id => .removeFromContainer id inbox)
  | .noOp => []

/-- The plan against the snapshot, or against a refreshed one where the snapshot misses. -/
def resolvePlan (acct : ResidentActionAccount) (op : ContainerMoveOp) (ns : NamespaceAttribution) :
    Option (Except ActionError ContainerMovePlan) :=
  match planForContainerOp acct.provider op acct.containers ns with
  | none => none
  | some (some plan) => some (.ok plan)
  | some none =>
    match acct.refreshed with
    | .error error => some (.error (.remote .transient ("refresh container map: " ++ error)))
    | .ok fresh =>
      (planForContainerOp acct.provider op fresh ns).map (fun plan =>
        match plan with
        | some plan => .ok plan
        | none => .error (.notFound (op.destinationDescription ++ " not found")))

theorem resolvePlan_isSome (acct : ResidentActionAccount) (op : ContainerMoveOp)
    (ns : NamespaceAttribution) : (resolvePlan acct op ns).isSome := by
  unfold resolvePlan
  split
  · rename_i h
    have hsome := planForContainerOp_isSome acct.provider op acct.containers ns
    rw [h] at hsome
    cases hsome
  · rfl
  · split
    · rfl
    · rw [Option.isSome_map]
      exact planForContainerOp_isSome _ _ _ _

def dispatchContainerOp (ctx : Ctx) (acct : ResidentActionAccount) (account : AccountId)
    (op : ContainerMoveOp) (ids : List ObjectId) (ns : NamespaceAttribution) : Option Remote :=
  (resolvePlan acct op ns).map (fun plan =>
    match plan with
    | .error e => .error e
    | .ok plan => issueAll ctx account (planCalls ids plan))

/-- The label arms are `unreachable!`. -/
def dispatchMutation (ctx : Ctx) (acct : ResidentActionAccount) (account : AccountId)
    (op : MailOperation) (ids : List ObjectId) (ns : NamespaceAttribution) : Option Remote :=
  match op with
  | .setStarred value => some (dispatchFlags ctx account ids (starredFlag acct.provider) value)
  | .setRead value => some (dispatchFlags ctx account ids (seenFlag acct.provider) value)
  | .archive => dispatchContainerOp ctx acct account .archive ids ns
  | .trash => dispatchContainerOp ctx acct account .trash ids ns
  | .setSpam value => dispatchContainerOp ctx acct account (.spam value) ids ns
  | .moveToFolder dest source =>
    dispatchContainerOp ctx acct account (.moveToFolder dest source) ids ns
  | .permanentDelete => some (dispatchPermanentDelete ctx account ids)
  | .addLabel _ => none
  | .removeLabel _ => none
  | .applyLabelGroup _ => none
  | .removeLabelGroup _ => none
  | .setPinned _ => some ⟨.ok (), []⟩
  | .setMuted _ => some ⟨.ok (), []⟩
  | .snooze _ => some ⟨.ok (), []⟩
  | .unsnooze => some ⟨.ok (), []⟩

def dispatchBulkMutation (ctx : Ctx) (acct : ResidentActionAccount) (account : AccountId)
    (key : RemoteBatchKey) (ids : List ObjectId) (ns : NamespaceAttribution) : Option Remote :=
  match key with
  | .star value => some (dispatchFlags ctx account ids (starredFlag acct.provider) value)
  | .read value => some (dispatchFlags ctx account ids (seenFlag acct.provider) value)
  | .archive => dispatchContainerOp ctx acct account .archive ids ns
  | .trash => dispatchContainerOp ctx acct account .trash ids ns
  | .spam value => dispatchContainerOp ctx acct account (.spam value) ids ns
  | .moveToFolder dest source =>
    dispatchContainerOp ctx acct account (.moveToFolder dest source) ids ns
  | .permanentDelete => some (dispatchPermanentDelete ctx account ids)

theorem dispatchMutation_eq_bulk {ctx : Ctx} {acct : ResidentActionAccount} {account : AccountId}
    {op : MailOperation} {key : RemoteBatchKey} {ids : List ObjectId} {ns : NamespaceAttribution}
    (hkey : RemoteBatchKey.fromOperation op = some key) :
    dispatchMutation ctx acct account op ids ns = dispatchBulkMutation ctx acct account key ids ns := by
  cases op <;> cases hkey <;> rfl

theorem dispatchBulkMutation_isSome (ctx : Ctx) (acct : ResidentActionAccount) (account : AccountId)
    (key : RemoteBatchKey) (ids : List ObjectId) (ns : NamespaceAttribution) :
    (dispatchBulkMutation ctx acct account key ids ns).isSome := by
  have hplan : ∀ op, (dispatchContainerOp ctx acct account op ids ns).isSome := by
    intro op
    rw [dispatchContainerOp, Option.isSome_map]
    exact resolvePlan_isSome _ _ _
  cases key <;> first | rfl | exact hplan _

/-! ## Labels -/

inductive ImportanceLevel where
  | high | low
  deriving DecidableEq

def ImportanceLevel.opposite : ImportanceLevel → ImportanceLevel
  | .high => .low
  | .low => .high

def ImportanceLevel.labelId : ImportanceLevel → LabelId
  | .high => "importance:high"
  | .low => "importance:low"

def ImportanceLevel.parseLabelId (raw : String) : Option ImportanceLevel :=
  if raw = "importance:high" then some .high
  else if raw = "importance:low" then some .low
  else none

inductive LabelKind where
  | gmailUser (id : String)
  | graphCategory (category : String)
  | graphImportance (level : ImportanceLevel)
  | jmapKeyword (keyword : String)
  | imapKeyword (keyword : String)
  deriving DecidableEq

def stripStart (start raw : String) : Option String :=
  if startsWith raw start then some (String.ofList (raw.toList.drop start.length)) else none

def validateComponent (kind raw : String) : Except String Unit :=
  if raw = "" then .error (kind ++ " cannot be empty")
  else if raw.toList.any Labels.isControl then .error (kind ++ " cannot contain control characters")
  else .ok ()

def systemFolderIds : List String := ["INBOX", "SENT", "DRAFT", "TRASH", "SPAM", "archive", "IMPORTANT"]

def parseGmailLabelId (raw : String) : Except String LabelKind :=
  match validateComponent "gmail label id" raw with
  | .error e => .error e
  | .ok () =>
    if raw ∈ systemFolderIds || raw = "CHAT" || startsWith raw "CATEGORY_" || startsWith raw "kw:" ||
        startsWith raw "cat:" || startsWith raw "importance:" then
      .error ("Gmail label id `" ++ raw ++ "` is reserved for another kind")
    else .ok (.gmailUser raw)

def parseCategoryName (raw : String) : Except String LabelKind :=
  match validateComponent "category" raw with
  | .error e => .error e
  | .ok () =>
    if startsWith raw "cat:" then
      .error ("category body `" ++ raw ++ "` already carries the `cat:` storage prefix")
    else .ok (.graphCategory raw)

/-- `KeywordName::parse`, which the label tables share. -/
def parseKeywordName (kind : String → LabelKind) (raw : String) : Except String LabelKind :=
  (Labels.keywordLabel raw).map (fun _ => kind raw)

def LabelKind.parse (raw : LabelId) : BifrostProviderKind → Except String LabelKind
  | .gmail => parseGmailLabelId raw
  | .graph =>
    match ImportanceLevel.parseLabelId raw with
    | some level => .ok (.graphImportance level)
    | none =>
      match stripStart "cat:" raw with
      | none => .error ("Graph label id `" ++ raw ++ "` is not a category or importance label")
      | some category => parseCategoryName category
  | .jmap =>
    match stripStart "kw:" raw with
    | none => .error ("JMAP label id `" ++ raw ++ "` is not a keyword label")
    | some keyword => parseKeywordName .jmapKeyword keyword
  | .imap =>
    match stripStart "kw:" raw with
    | none => .error ("IMAP label id `" ++ raw ++ "` is not a keyword label")
    | some keyword => parseKeywordName .imapKeyword keyword

/-- `MailProviderKind::parse` -/
def parseProvider (raw : String) : Except String BifrostProviderKind :=
  if raw = "gmail_api" then .ok .gmail
  else if raw = "graph" then .ok .graph
  else if raw = "jmap" then .ok .jmap
  else if raw = "imap" then .ok .imap
  else .error ("Unknown provider: " ++ raw)

def labelKindForAccount (ctx : Ctx) (account : AccountId) (label : LabelId) : Except String LabelKind :=
  match ctx.accountProvider account with
  | none => .error "get account provider: Query returned no rows"
  | some raw =>
    match parseProvider raw with
    | .error e => .error e
    | .ok provider => LabelKind.parse label provider

/-- `GraphImportance` goes through `set_importance`; every other kind names its native label. -/
def labelCalls (kind : LabelKind) (add : Bool) (ids : List ObjectId) : List EngineCall :=
  let plain (native : String) : List EngineCall :=
    ids.map (fun id => if add then .applyLabel id native else .removeLabel id native)
  match kind with
  | .graphImportance level =>
    let importance : Importance :=
      if add then (match level with | .high => .high | .low => .low) else .normal
    ids.map (fun id => .setImportance id importance)
  | .gmailUser id => plain id
  | .graphCategory category => plain category
  | .jmapKeyword keyword => plain keyword
  | .imapKeyword keyword => plain keyword

def dispatchLabelEngine (ctx : Ctx) (account : AccountId) (kind : LabelKind) (add : Bool)
    (ids : List ObjectId) : Remote :=
  issueAll ctx account (labelCalls kind add ids)

end Ratatoskr.Actions
