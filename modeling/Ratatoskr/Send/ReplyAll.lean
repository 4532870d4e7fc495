import Mathlib.Data.List.TakeWhile
import Ratatoskr.Threading.Text

/-!
# Send.ReplyAll

From a received message to the request that answers all of it: the address columns are written by
`format_address_list` (`common/src/email_parsing.rs`), a reply-all window is opened from them
(`app/src/pop_out/compose/state.rs`, `app/src/handlers/pop_out/window_lifecycle.rs`) and sent as it is
(`app/src/handlers/pop_out/compose_send.rs`).

The window takes the sender and the Cc column, as pieces between commas. `CcOnly` is when that is everyone.
The quoted body, the draft id and the attachments are left out.
-/

namespace Ratatoskr.Send

open List
open Rte (isWhitespace)
open Threading (trim)

variable {sep l : List Char} {ls : List (List Char)} {c : Char}

def Bare (address : String) : Prop :=
  address ≠ "" ∧ ∀ c ∈ address.toList, c ≠ ',' ∧ c ≠ '<' ∧ c ≠ '>' ∧ isWhitespace c = false

instance (address : String) : Decidable (Bare address) :=
  @instDecidableAnd _ _ inferInstance (List.decidableBAll _ _)

structure Address where
  text : String
  bare : Bare text

structure Mailbox where
  name : Option String
  address : Address

def formatNameAddr (name : Option String) (email : String) : String :=
  match name with
  | some name => if name ≠ "" then name ++ " <" ++ email ++ ">" else email
  | none => email

def formatAddressList (entries : List Mailbox) : Option String :=
  let parts := entries.map (fun e => formatNameAddr e.name e.address.text)
  if parts = [] then none else some (", ".intercalate parts)

structure Original where
  id : String
  threadId : String
  messageIdHeader : Option String
  subject : Option String
  sender : Option Mailbox
  toMailboxes : List Mailbox
  ccMailboxes : List Mailbox

structure ThreadMessage where
  id : String
  threadId : String
  messageIdHeader : Option String
  subject : Option String
  fromAddress : Option String
  fromName : Option String
  toAddresses : Option String
  ccAddresses : Option String

def received (o : Original) : ThreadMessage where
  id := o.id
  threadId := o.threadId
  messageIdHeader := o.messageIdHeader
  subject := o.subject
  fromAddress := o.sender.map (fun m => m.address.text)
  fromName := o.sender.bind Mailbox.name
  toAddresses := formatAddressList o.toMailboxes
  ccAddresses := formatAddressList o.ccMailboxes

structure AccountInfo where
  id : String
  email : String
  displayName : Option String
  accountName : Option String

structure Token where
  id : Nat
  email : String
  label : String

structure TokenInputValue where
  tokens : List Token
  nextId : Nat

def TokenInputValue.new : TokenInputValue := ⟨[], 0⟩

def TokenInputValue.push (value : TokenInputValue) (email label : String) : TokenInputValue :=
  ⟨value.tokens ++ [⟨value.nextId, email, label⟩], value.nextId + 1⟩

def TokenInputValue.emails (value : TokenInputValue) : List String := value.tokens.map Token.email

inductive ComposeMode where
  | new
  | reply (originalSubject : String)
  | replyAll (originalSubject : String)
  | forward (originalSubject : String)

def ComposeMode.prefixedSubject : ComposeMode → String
  | .new => ""
  | .reply subject => if "Re: ".toList.isPrefixOf subject.toList then subject else "Re: " ++ subject
  | .replyAll subject => if "Re: ".toList.isPrefixOf subject.toList then subject else "Re: " ++ subject
  | .forward subject => if "Fwd: ".toList.isPrefixOf subject.toList then subject else "Fwd: " ++ subject

structure ComposeState where
  toInput : TokenInputValue
  ccInput : TokenInputValue
  bccInput : TokenInputValue
  showCc : Bool
  fromAccount : Option AccountInfo
  fromAccounts : List AccountInfo
  subject : String
  mode : ComposeMode
  replyThreadId : Option String
  replyMessageId : Option String
  replySourceMessageId : Option String
  status : Option String
  sending : Bool

def ComposeState.new (accounts : List AccountInfo) : ComposeState where
  toInput := .new
  ccInput := .new
  bccInput := .new
  showCc := false
  fromAccount := accounts.head?
  fromAccounts := accounts
  subject := ""
  mode := .new
  replyThreadId := none
  replyMessageId := none
  replySourceMessageId := none
  status := none
  sending := false

/-- `split(',')`, each piece trimmed, without the empty ones. -/
def ccPieces (ccEmails : String) : List String :=
  (((ccEmails.toList.splitOn ',').map trim).filter (fun piece => piece ≠ [])).map String.ofList

/-- The Cc tokens of a reply-all, with what they are made from as their label. -/
def ccTokens (ccEmails : Option String) : TokenInputValue :=
  match ccEmails with
  | some cc => (ccPieces cc).foldl (fun value addr => value.push addr addr) .new
  | none => .new

def ComposeState.newReply (accounts : List AccountInfo) (mode : ComposeMode)
    (toEmail toName ccEmails threadId messageId messageIdHeader : Option String) : ComposeState :=
  let state := ComposeState.new accounts
  let toInput :=
    match mode, toEmail with
    | .forward _, _ => state.toInput
    | _, none => state.toInput
    | _, some email => state.toInput.push email ((toName.filter (fun name => name ≠ "")).getD email)
  let ccInput :=
    match mode with
    | .replyAll _ => ccTokens ccEmails
    | _ => state.ccInput
  { state with
    mode := mode
    subject := mode.prefixedSubject
    toInput := toInput
    ccInput := ccInput
    showCc := ccInput.tokens ≠ []
    replyThreadId := threadId
    replySourceMessageId := messageId
    replyMessageId := messageIdHeader.or messageId }

/-- The shared mailbox's address, sent for by its parent account. -/
def ComposeState.setSharedMailboxFrom (state : ComposeState) (parentAccountId sharedEmail : String) :
    ComposeState :=
  let info : AccountInfo := ⟨parentAccountId, sharedEmail, none, some (sharedEmail ++ " (shared)")⟩
  { state with fromAccounts := info :: state.fromAccounts, fromAccount := some info }

/-- `open_compose_from_message_view` with `ReplyAll`. `shared` is the mailbox of the scope, if the window
is to send as it. -/
def openReplyAll (accounts : List AccountInfo) (shared : Option (String × String)) (mv : ThreadMessage) :
    ComposeState :=
  let mode := ComposeMode.replyAll (mv.subject.getD "")
  let state := ComposeState.newReply accounts mode mv.fromAddress mv.fromName mv.ccAddresses
    (some mv.threadId) (some mv.id) mv.messageIdHeader
  let state :=
    match shared with
    | some (parent, email) => state.setSharedMailboxFrom parent email
    | none => state
  { state with mode := mode, subject := mode.prefixedSubject }

/-! ## The request -/

inductive SendIntent where
  | new
  | reply
  | forward

def sendIntentFromMode : ComposeMode → SendIntent
  | .new => .new
  | .reply _ => .reply
  | .replyAll _ => .reply
  | .forward _ => .forward

structure SendRequest where
  accountId : String
  sender : String
  toEmails : List String
  ccEmails : List String
  bccEmails : List String
  subject : Option String
  inReplyTo : Option String
  references : Option String
  threadId : Option String
  sourceMessageId : Option String
  intent : SendIntent

def handleComposeSend (state : ComposeState) : ComposeState × Option SendRequest :=
  if state.sending then (state, none)
  else if state.toInput.tokens = [] ∧ state.ccInput.tokens = [] ∧ state.bccInput.tokens = [] then
    ({ state with status := some "Add at least one recipient" }, none)
  else
    match state.fromAccount with
    | none => ({ state with status := some "No sending account selected" }, none)
    | some account =>
      let sender :=
        match account.displayName with
        | some name => name ++ " <" ++ account.email ++ ">"
        | none => account.email
      ({ state with sending := true, status := some "Sending…" },
        some {
          accountId := account.id
          sender := sender
          toEmails := state.toInput.emails
          ccEmails := state.ccInput.emails
          bccEmails := state.bccInput.emails
          subject := if state.subject = "" then none else some state.subject
          inReplyTo := state.replyMessageId
          references := state.replyMessageId
          threadId := state.replyThreadId
          sourceMessageId := state.replySourceMessageId
          intent := sendIntentFromMode state.mode })

def replyAllRequest (accounts : List AccountInfo) (shared : Option (String × String)) (o : Original) :
    Option SendRequest :=
  (handleComposeSend (openReplyAll accounts shared (received o))).2

section Everyone

variable (toLowercase : String → String) (accounts : List AccountInfo)

def lowered (addresses : List String) : List String := addresses.map toLowercase

def textsOf (mailboxes : List Mailbox) : List String := mailboxes.map (fun m => m.address.text)

def own : List String := accounts.map AccountInfo.email

/-- The request goes to the sender and all of To and Cc but the user, once each. -/
structure ToEveryone (o : Original) (req : SendRequest) : Prop where
  bare : ∀ a ∈ req.toEmails ++ req.ccEmails, Bare a
  everyone : ∀ a, a ∈ lowered toLowercase (req.toEmails ++ req.ccEmails) ↔
    a ∈ lowered toLowercase (textsOf (o.sender.toList ++ o.toMailboxes ++ o.ccMailboxes)) ∧
      a ∉ lowered toLowercase (own accounts)
  once : (lowered toLowercase (req.toEmails ++ req.ccEmails)).Nodup

/-- The sender and the Cc column are everyone, without names and without the user. -/
structure CcOnly (shared : Option (String × String)) (o : Original) : Prop where
  account : accounts ≠ [] ∨ shared.isSome
  someone : o.sender.toList ++ o.ccMailboxes ≠ []
  unnamed : ∀ m ∈ o.ccMailboxes, m.name.getD "" = ""
  others : ∀ m ∈ o.sender.toList ++ o.ccMailboxes,
    toLowercase m.address.text ∉ lowered toLowercase (own accounts)
  covered : ∀ m ∈ o.toMailboxes, toLowercase m.address.text ∈ lowered toLowercase (own accounts) ∨
    toLowercase m.address.text ∈ lowered toLowercase (textsOf (o.sender.toList ++ o.ccMailboxes))
  once : (lowered toLowercase (textsOf (o.sender.toList ++ o.ccMailboxes))).Nodup

end Everyone

theorem mem_intercalate (hsep : c ∉ sep) : c ∈ sep.intercalate ls ↔ ∃ l ∈ ls, c ∈ l := by
  induction ls with
  | nil => simp
  | cons first rest ih =>
    cases rest with
    | nil => simp
    | cons second rest =>
      rw [intercalate_cons_cons, mem_append, mem_append, or_iff_left hsep, ih]
      simp

theorem intercalate_pair (first : List Char) (rest : List (List Char)) :
    [',', ' '].intercalate (first :: rest) = [','].intercalate (first :: rest.map (fun l => ' ' :: l)) := by
  induction rest generalizing first with
  | nil => rfl
  | cons second rest ih =>
    rw [intercalate_cons_cons, ih, map_cons]
    cases rest with
    | nil => simp
    | cons third rest =>
      simp

theorem mem_trim (hc : c ∈ l) (hw : isWhitespace c = false) : c ∈ trim l := by
  have hdrop : ∀ l : List Char, c ∈ l → c ∈ l.dropWhile isWhitespace := by
    intro l hl
    rw [← takeWhile_append_dropWhile (p := isWhitespace) (l := l), mem_append] at hl
    rcases hl with htake | hdrop
    · rw [mem_takeWhile_imp htake] at hw
      cases hw
    · exact hdrop
  rw [trim, Threading.trimEnd, mem_reverse]
  exact hdrop _ (mem_reverse.mpr (hdrop l hc))

theorem dropWhile_eq_self (h : ∀ c ∈ l, isWhitespace c = false) : l.dropWhile isWhitespace = l := by
  cases l with
  | nil => rfl
  | cons c l => rw [dropWhile_cons_of_neg (by simp [h c (mem_cons_self ..)])]

theorem trim_eq_self (h : ∀ c ∈ l, isWhitespace c = false) : trim l = l := by
  have hreverse : ∀ c ∈ l.reverse, isWhitespace c = false := fun c hc => h c (mem_reverse.mp hc)
  rw [trim, Threading.trimEnd, Threading.trimStart, dropWhile_eq_self h, dropWhile_eq_self hreverse,
    reverse_reverse]

theorem ccPieces_bare {addresses : List String} (h : ∀ a ∈ addresses, Bare a) (hne : addresses ≠ []) :
    ccPieces (", ".intercalate addresses) = addresses := by
  have hpieces : ((", ".intercalate addresses).toList.splitOn ',').map trim =
      addresses.map String.toList := by
    have hcomma : ∀ a ∈ addresses, ',' ∉ a.toList := fun a ha hc => ((h a ha).2 ',' hc).1 rfl
    have htrim : ∀ a ∈ addresses, trim a.toList = a.toList :=
      fun a ha => trim_eq_self (fun c hc => ((h a ha).2 c hc).2.2.2)
    rw [String.toList_intercalate]
    cases addresses with
    | nil => exact absurd rfl hne
    | cons first rest =>
      have hsep : ", ".toList = [',', ' '] := rfl
      rw [forall_mem_cons] at hcomma htrim
      rw [map_cons, hsep, intercalate_pair, splitOn_intercalate]
      · rw [map_cons, map_map, map_map, htrim.1]
        exact congrArg _ (map_congr_left htrim.2)
      · intro l hl
        rcases mem_cons.mp hl with rfl | hrest
        · exact hcomma.1
        obtain ⟨l', hl', rfl⟩ := mem_map.mp hrest
        obtain ⟨a, ha, rfl⟩ := mem_map.mp hl'
        intro hin
        rcases mem_cons.mp hin with heq | hin
        · exact absurd heq (by decide)
        · exact hcomma.2 a ha hin
      · exact cons_ne_nil _ _
  have hkept : (addresses.map String.toList).filter (fun piece => piece ≠ []) =
      addresses.map String.toList := by
    refine filter_eq_self.mpr ?_
    intro l hl
    obtain ⟨a, ha, rfl⟩ := mem_map.mp hl
    simpa using (h a ha).1
  rw [ccPieces, hpieces, hkept]
  simp [Function.comp_def]

theorem exists_mem_ccPieces {column : String} (hc : c ∈ column.toList) (hcomma : c ≠ ',')
    (hw : isWhitespace c = false) : ∃ piece ∈ ccPieces column, c ∈ piece.toList := by
  have hpieces : [','].intercalate (column.toList.splitOn ',') = column.toList := intercalate_splitOn ','
  rw [← hpieces] at hc
  obtain ⟨l, hl, hcl⟩ := (mem_intercalate (by simpa using hcomma)).mp hc
  have hin := mem_trim hcl hw
  refine ⟨String.ofList (trim l), ?_, by rw [String.toList_ofList]; exact hin⟩
  refine mem_map_of_mem (mem_filter.mpr ⟨mem_map_of_mem hl, ?_⟩)
  simpa using ne_nil_of_mem hin

/-! ## The window's recipients -/

theorem emails_foldl_push (addresses : List String) (value : TokenInputValue) :
    (addresses.foldl (fun value addr => value.push addr addr) value).emails = value.emails ++ addresses := by
  induction addresses generalizing value with
  | nil => simp
  | cons a addresses ih =>
    rw [foldl_cons, ih]
    simp [TokenInputValue.push, TokenInputValue.emails]

theorem emails_ccTokens (column : String) : (ccTokens (some column)).emails = ccPieces column :=
  emails_foldl_push (ccPieces column) .new

variable {m : Mailbox}

theorem formatNameAddr_unnamed (h : m.name.getD "" = "") :
    formatNameAddr m.name m.address.text = m.address.text := by
  unfold formatNameAddr
  split
  · rename_i name hname
    rw [hname, Option.getD_some] at h
    rw [if_neg (not_not_intro h)]
  · rfl

theorem formatNameAddr_named (h : m.name.getD "" ≠ "") :
    '<' ∈ (formatNameAddr m.name m.address.text).toList := by
  unfold formatNameAddr
  split
  · rename_i name hname
    rw [hname, Option.getD_some] at h
    rw [if_pos h]
    simp
  · rename_i hname
    rw [hname] at h
    exact absurd rfl h

variable {cc : List Mailbox}

theorem emails_unnamed (h : ∀ m ∈ cc, m.name.getD "" = "") :
    (ccTokens (formatAddressList cc)).emails = textsOf cc := by
  have hparts : cc.map (fun m => formatNameAddr m.name m.address.text) = textsOf cc :=
    map_congr_left (fun m hm => formatNameAddr_unnamed (h m hm))
  have hbare : ∀ a ∈ textsOf cc, Bare a := by
    intro a ha
    obtain ⟨m, -, rfl⟩ := mem_map.mp ha
    exact m.address.bare
  rw [formatAddressList, hparts]
  by_cases hnil : textsOf cc = []
  · rw [hnil]
    rfl
  · rw [if_neg hnil, emails_ccTokens, ccPieces_bare hbare hnil]

theorem emails_named (hm : m ∈ cc) (h : m.name.getD "" ≠ "") :
    ∃ a ∈ (ccTokens (formatAddressList cc)).emails, ¬Bare a := by
  have hpart : formatNameAddr m.name m.address.text ∈
      cc.map (fun m => formatNameAddr m.name m.address.text) := mem_map_of_mem hm
  have hin : '<' ∈ (", ".intercalate
      (cc.map (fun m => formatNameAddr m.name m.address.text))).toList := by
    rw [String.toList_intercalate]
    exact (mem_intercalate (by decide)).mpr ⟨_, mem_map_of_mem hpart, formatNameAddr_named h⟩
  obtain ⟨a, ha, hangle⟩ := exists_mem_ccPieces hin (by decide) (by decide)
  rw [formatAddressList, if_neg (ne_nil_of_mem hpart), emails_ccTokens]
  exact ⟨a, ha, fun hbare => (hbare.2 '<' hangle).2.1 rfl⟩

section Request

variable {accounts : List AccountInfo} {shared : Option (String × String)} {o : Original}
variable {state : ComposeState} {req : SendRequest}

theorem openReplyAll_inputs (accounts : List AccountInfo) (shared : Option (String × String)) (o : Original) :
    (openReplyAll accounts shared (received o)).toInput.emails = textsOf o.sender.toList ∧
      (openReplyAll accounts shared (received o)).ccInput = ccTokens (formatAddressList o.ccMailboxes) ∧
      (openReplyAll accounts shared (received o)).bccInput = .new ∧
      (openReplyAll accounts shared (received o)).sending = false := by
  cases shared with
  | none =>
    cases hs : o.sender with
    | none => simp [openReplyAll, ComposeState.newReply, received, hs, ComposeState.new, textsOf,
        TokenInputValue.emails, TokenInputValue.new]
    | some m => simp [openReplyAll, ComposeState.newReply, received, hs, ComposeState.new, textsOf,
        TokenInputValue.emails, TokenInputValue.new, TokenInputValue.push]
  | some s =>
    cases hs : o.sender with
    | none => simp [openReplyAll, ComposeState.newReply, received, hs, ComposeState.new, textsOf,
        TokenInputValue.emails, TokenInputValue.new, ComposeState.setSharedMailboxFrom]
    | some m => simp [openReplyAll, ComposeState.newReply, received, hs, ComposeState.new, textsOf,
        TokenInputValue.emails, TokenInputValue.new, TokenInputValue.push, ComposeState.setSharedMailboxFrom]

theorem openReplyAll_account (accounts : List AccountInfo) (shared : Option (String × String))
    (o : Original) :
    (openReplyAll accounts shared (received o)).fromAccount.isSome ↔ accounts ≠ [] ∨ shared.isSome := by
  cases shared with
  | none =>
    cases accounts with
    | nil => simp [openReplyAll, ComposeState.newReply, ComposeState.new]
    | cons account accounts => simp [openReplyAll, ComposeState.newReply, ComposeState.new]
  | some s => simp [openReplyAll, ComposeState.setSharedMailboxFrom]

/-- There is a request as soon as there is an account and someone to write to; it carries the tokens. -/
theorem handleComposeSend_eq_some (hsending : state.sending = false)
    (h : (handleComposeSend state).2 = some req) : state.fromAccount.isSome ∧
      (state.toInput.tokens ≠ [] ∨ state.ccInput.tokens ≠ [] ∨ state.bccInput.tokens ≠ []) ∧
      req.toEmails = state.toInput.emails ∧ req.ccEmails = state.ccInput.emails := by
  rw [handleComposeSend, if_neg (by simp [hsending])] at h
  split at h
  · cases h
  rename_i hsome
  cases haccount : state.fromAccount with
  | none =>
    rw [haccount] at h
    cases h
  | some account =>
    rw [haccount] at h
    cases h
    refine ⟨rfl, ?_, rfl, rfl⟩
    rw [not_and_or, not_and_or] at hsome
    exact hsome

theorem handleComposeSend_isSome (hsending : state.sending = false) (haccount : state.fromAccount.isSome)
    (hsome : state.toInput.tokens ≠ [] ∨ state.ccInput.tokens ≠ []) :
    ∃ req, (handleComposeSend state).2 = some req ∧ req.toEmails = state.toInput.emails ∧
      req.ccEmails = state.ccInput.emails := by
  obtain ⟨account, haccount⟩ := Option.isSome_iff_exists.mp haccount
  have hnot : ¬(state.toInput.tokens = [] ∧ state.ccInput.tokens = [] ∧ state.bccInput.tokens = []) := by
    rintro ⟨hto, hcc, -⟩
    rcases hsome with h | h
    · exact h hto
    · exact h hcc
  rw [handleComposeSend, if_neg (by simp [hsending]), if_neg hnot, haccount]
  exact ⟨_, rfl, rfl, rfl⟩

theorem replyAllRequest_emails (h : replyAllRequest accounts shared o = some req) :
    (accounts ≠ [] ∨ shared.isSome) ∧ req.toEmails = textsOf o.sender.toList ∧
      req.ccEmails = (ccTokens (formatAddressList o.ccMailboxes)).emails ∧
      req.toEmails ++ req.ccEmails ≠ [] := by
  obtain ⟨hto, hcc, hbcc, hsending⟩ := openReplyAll_inputs accounts shared o
  obtain ⟨haccount, hsome, hreqTo, hreqCc⟩ := handleComposeSend_eq_some hsending h
  rw [hto] at hreqTo
  rw [hcc] at hreqCc
  refine ⟨(openReplyAll_account accounts shared o).mp haccount, hreqTo, hreqCc, ?_⟩
  rw [hreqTo, hreqCc, ← hto]
  intro hnil
  obtain ⟨hnone, hnone'⟩ := append_eq_nil_iff.mp hnil
  rcases hsome with h | h | h
  · exact h (map_eq_nil_iff.mp hnone)
  · exact h (by rw [hcc]; exact map_eq_nil_iff.mp hnone')
  · exact h (by rw [hbcc]; rfl)

end Request

theorem reply_all_iff (toLowercase : String → String) (accounts : List AccountInfo)
    (shared : Option (String × String)) (o : Original) :
    (∃ req, replyAllRequest accounts shared o = some req ∧ ToEveryone toLowercase accounts o req) ↔
      CcOnly toLowercase accounts shared o := by
  constructor
  · rintro ⟨req, hreq, hall⟩
    obtain ⟨haccount, hto, hcc, hne⟩ := replyAllRequest_emails hreq
    have hunnamed : ∀ m ∈ o.ccMailboxes, m.name.getD "" = "" := by
      intro m hm
      by_contra hname
      obtain ⟨a, ha, hnot⟩ := emails_named hm hname
      exact hnot (hall.bare a (mem_append_right _ (hcc ▸ ha)))
    rw [emails_unnamed hunnamed] at hcc
    have hgot : req.toEmails ++ req.ccEmails = textsOf (o.sender.toList ++ o.ccMailboxes) := by
      rw [hto, hcc, textsOf, textsOf, textsOf, map_append]
    have hone := hall.once
    have heveryone := hall.everyone
    rw [hgot] at hne hone heveryone
    refine ⟨haccount, fun hnil => hne (by rw [hnil]; rfl), hunnamed, ?_, ?_, hone⟩
    · intro m hm
      exact ((heveryone _).mp (mem_map_of_mem (mem_map_of_mem hm))).2
    · intro m hm
      by_cases hown : toLowercase m.address.text ∈ lowered toLowercase (own accounts)
      · exact .inl hown
      · refine .inr ((heveryone _).mpr ⟨mem_map_of_mem (mem_map_of_mem ?_), hown⟩)
        simp [hm]
  · intro h
    obtain ⟨hto, hcc, -, hsending⟩ := openReplyAll_inputs accounts shared o
    have hemails := emails_unnamed h.unnamed
    have hgot : (openReplyAll accounts shared (received o)).toInput.emails ++
        (openReplyAll accounts shared (received o)).ccInput.emails =
          textsOf (o.sender.toList ++ o.ccMailboxes) := by
      rw [hto, hcc, hemails, textsOf, textsOf, textsOf, map_append]
    have hsome : (openReplyAll accounts shared (received o)).toInput.tokens ≠ [] ∨
        (openReplyAll accounts shared (received o)).ccInput.tokens ≠ [] := by
      by_contra hnone
      obtain ⟨hnoTo, hnoCc⟩ := not_or.mp hnone
      rw [TokenInputValue.emails, TokenInputValue.emails, not_not.mp hnoTo, not_not.mp hnoCc] at hgot
      exact h.someone (map_eq_nil_iff.mp hgot.symm)
    obtain ⟨req, hreq, hreqTo, hreqCc⟩ :=
      handleComposeSend_isSome hsending ((openReplyAll_account accounts shared o).mpr h.account) hsome
    rw [← hreqTo, ← hreqCc] at hgot
    refine ⟨req, hreq, ?_, ?_, ?_⟩
    · intro a ha
      rw [hgot] at ha
      obtain ⟨m, -, rfl⟩ := mem_map.mp ha
      exact m.address.bare
    · intro a
      rw [hgot]
      constructor
      · intro ha
        obtain ⟨b, hb, rfl⟩ := mem_map.mp ha
        obtain ⟨m, hm, rfl⟩ := mem_map.mp hb
        refine ⟨mem_map_of_mem (mem_map_of_mem ?_), h.others m hm⟩
        rcases mem_append.mp hm with hsender | hin
        · exact mem_append_left _ (mem_append_left _ hsender)
        · exact mem_append_right _ hin
      · rintro ⟨ha, hown⟩
        obtain ⟨b, hb, rfl⟩ := mem_map.mp ha
        obtain ⟨m, hm, rfl⟩ := mem_map.mp hb
        rcases mem_append.mp hm with hm | hm
        · rcases mem_append.mp hm with hsender | hin
          · exact mem_map_of_mem (mem_map_of_mem (mem_append_left _ hsender))
          · exact (h.covered m hin).resolve_left hown
        · exact mem_map_of_mem (mem_map_of_mem (mem_append_right _ hm))
    · rw [hgot]
      exact h.once

/-! ## A message to two -/

def me : AccountInfo := ⟨"acc", "me@x.org", none, none⟩

def plainMailbox (text : String) (h : Bare text) : Mailbox := ⟨none, text, h⟩

def toTwo : Original where
  id := "m"
  threadId := "t"
  messageIdHeader := none
  subject := some "plan"
  sender := some (plainMailbox "ann@x.org" (by decide))
  toMailboxes := [plainMailbox "me@x.org" (by decide), plainMailbox "bob@x.org" (by decide)]
  ccMailboxes := []

theorem to_column_dropped :
    ¬∀ (toLowercase : String → String) (accounts : List AccountInfo) (shared : Option (String × String))
      (o : Original), accounts ≠ [] → ∃ req, replyAllRequest accounts shared o = some req ∧
        ToEveryone toLowercase accounts o req := by
  intro hall
  obtain ⟨req, hreq, heveryone⟩ := hall (fun s => s) [me] none toTwo (cons_ne_nil _ _)
  have hrequest : replyAllRequest [me] none toTwo = some req →
      req.toEmails ++ req.ccEmails = ["ann@x.org"] := by
    intro h
    cases h
    decide
  have hbob := (heveryone.everyone "bob@x.org").mpr ⟨by decide, by decide⟩
  rw [hrequest hreq] at hbob
  exact absurd hbob (by decide)

end Ratatoskr.Send
