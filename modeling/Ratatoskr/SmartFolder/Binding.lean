import Ratatoskr.SmartFolder.Query

/-!
# SmartFolder.Binding

Every placeholder denotes the value that its clause pushed. `Adds` says what a builder does to a context:
it appends values and clauses, the placeholders of the new clauses number exactly the new values, and with
the values in their place the clauses are the ones meant, whatever is pushed later.

* `buildContext_adds` : the clauses of a whole query, with their values in place.
* `statements_agree` : list, keys and count bind correctly and select the same threads.
-/

namespace Ratatoskr.SmartFolder

open List
open Lib.Sql

def Numbered (ctx : QueryContext) : Prop := ctx.nextIdx = ctx.params.length + 1

/-- These placeholders number the values that `ctx'` has and `ctx` has not. -/
def NumbersNew (ctx ctx' : QueryContext) (clauses : List Pred) : Prop :=
  ∀ i, (∃ c ∈ clauses, i ∈ c.placeholders) ↔ ctx.params.length < i ∧ i ≤ ctx'.params.length

structure Added (ctx ctx' : QueryContext) (msg flag newMsg newFlag : List Pred) : Prop where
  params : ctx.params <+: ctx'.params
  numbered : Numbered ctx'
  msgClauses : ctx'.msgClauses = ctx.msgClauses ++ newMsg
  threadFlagClauses : ctx'.threadFlagClauses = ctx.threadFlagClauses ++ newFlag
  msgBound : ∀ rest, newMsg.map (Pred.bind (ctx'.params ++ rest)) = msg
  flagBound : ∀ rest, newFlag.map (Pred.bind (ctx'.params ++ rest)) = flag
  placeholders : NumbersNew ctx ctx' (newMsg ++ newFlag)

/-- `ctx'` comes from `ctx` by clauses that mean `msg` and `flag`. -/
def Adds (ctx ctx' : QueryContext) (msg flag : List Pred) : Prop :=
  ∃ newMsg newFlag, Added ctx ctx' msg flag newMsg newFlag

section Compose

variable {a b c : QueryContext} {m1 m2 f1 f2 : List Pred}

theorem Adds.numbered (h : Adds a b m1 f1) : Numbered b := by
  obtain ⟨_, _, h⟩ := h
  exact h.numbered

theorem Adds.refl (h : Numbered a) : Adds a a [] [] := by
  refine ⟨[], [], ⟨prefix_rfl, h, ?_, ?_, fun _ => rfl, fun _ => rfl, fun i => ?_⟩⟩
  · rw [append_nil]
  · rw [append_nil]
  · constructor
    · rintro ⟨p, hp, -⟩
      cases hp
    · intro hi
      omega

theorem Adds.trans (h : Adds a b m1 f1) (h' : Adds b c m2 f2) : Adds a c (m1 ++ m2) (f1 ++ f2) := by
  obtain ⟨newMsg, newFlag, h⟩ := h
  obtain ⟨newMsg', newFlag', h'⟩ := h'
  obtain ⟨vals, hvals⟩ := h'.params
  refine ⟨newMsg ++ newMsg', newFlag ++ newFlag', ⟨h.params.trans h'.params, h'.numbered, ?_, ?_, ?_, ?_, ?_⟩⟩
  · rw [h'.msgClauses, h.msgClauses, append_assoc]
  · rw [h'.threadFlagClauses, h.threadFlagClauses, append_assoc]
  · intro rest
    rw [map_append, h'.msgBound, ← hvals, append_assoc, h.msgBound]
  · intro rest
    rw [map_append, h'.flagBound, ← hvals, append_assoc, h.flagBound]
  · intro i
    have hle := h.params.length_le
    have hle' := h'.params.length_le
    have hsplit : (∃ p ∈ newMsg ++ newMsg' ++ (newFlag ++ newFlag'), i ∈ p.placeholders) ↔
        (∃ p ∈ newMsg ++ newFlag, i ∈ p.placeholders) ∨ ∃ p ∈ newMsg' ++ newFlag', i ∈ p.placeholders := by
      simp only [mem_append, or_and_right, exists_or]
      exact or_or_or_comm
    rw [hsplit, h.placeholders i, h'.placeholders i]
    omega

variable {ctx : QueryContext} {clause : Pred}

theorem Adds.msg {ctx' : QueryContext} {p : Pred} (hpre : ctx.params <+: ctx'.params)
    (hnum : Numbered ctx') (hmsg : ctx'.msgClauses = ctx.msgClauses)
    (hflag : ctx'.threadFlagClauses = ctx.threadFlagClauses)
    (hbind : ∀ rest, clause.bind (ctx'.params ++ rest) = p)
    (hplace : ∀ i, i ∈ clause.placeholders ↔ ctx.params.length < i ∧ i ≤ ctx'.params.length) :
    Adds ctx (ctx'.pushMsg clause) [p] [] := by
  refine ⟨[clause], [], ⟨hpre, hnum, ?_, ?_, fun rest => ?_, fun _ => rfl, fun i => ?_⟩⟩
  · rw [QueryContext.pushMsg, hmsg]
  · rw [QueryContext.pushMsg, hflag, append_nil]
  · exact congrArg ([·]) (hbind rest)
  · refine Iff.trans ?_ (hplace i)
    simp

theorem Adds.msgConst (hnum : Numbered ctx)
    (hbind : ∀ params, clause.bind params = clause) (hplace : clause.placeholders = []) :
    Adds ctx (ctx.pushMsg clause) [clause] [] := by
  refine Adds.msg prefix_rfl hnum rfl rfl (fun rest => hbind _) fun i => ?_
  rw [hplace]
  constructor
  · exact fun h => absurd h not_mem_nil
  · intro h
    omega

theorem Adds.flagConst (hnum : Numbered ctx)
    (hbind : ∀ params, clause.bind params = clause) (hplace : clause.placeholders = []) :
    Adds ctx (ctx.pushFlag clause) [] [clause] := by
  refine ⟨[], [clause], ⟨prefix_rfl, hnum, ?_, rfl, fun _ => rfl, fun rest => ?_, fun i => ?_⟩⟩
  · rw [QueryContext.pushFlag, append_nil]
  · rw [map_singleton, hbind]
  · constructor
    · rintro ⟨p, hp, hi⟩
      have hp' : p = clause := by simpa using hp
      rw [hp', hplace] at hi
      cases hi
    · intro h
      exact absurd h.2 (Nat.not_le.mpr h.1)

end Compose

section Parts

def boundParts (parts : List (Value × (Expr → Pred))) : List Pred := parts.map (fun p => p.2 (.lit p.1))

/-- Values pushed in a row. `bind` and `placeholders` are those of the texts made from them. -/
theorem pushMap_spec {α β : Type} (value : α → Value) (format : α → Expr → β)
    (bind : List Value → β → β) (placeholders : β → List Nat) (vs : List α)
    (hbind : ∀ v ∈ vs, ∀ params e, bind params (format v e) = format v (e.bind params))
    (hplace : ∀ v ∈ vs, ∀ e i, i ∈ placeholders (format v e) ↔ i ∈ e.placeholders)
    (ctx : QueryContext) (hnum : Numbered ctx) :
    (ctx.pushMap value format vs).2.params = ctx.params ++ vs.map value ∧
    Numbered (ctx.pushMap value format vs).2 ∧ (ctx.pushMap value format vs).2.msgClauses = ctx.msgClauses ∧
    (ctx.pushMap value format vs).2.threadFlagClauses = ctx.threadFlagClauses ∧
    (∀ rest, (ctx.pushMap value format vs).1.map (bind ((ctx.pushMap value format vs).2.params ++ rest)) =
      vs.map (fun v => format v (.lit (value v)))) ∧
    ∀ i, (∃ c ∈ (ctx.pushMap value format vs).1, i ∈ placeholders c) ↔
      ctx.params.length < i ∧ i ≤ (ctx.pushMap value format vs).2.params.length := by
  induction vs generalizing ctx with
  | nil =>
    refine ⟨by simp [QueryContext.pushMap], hnum, rfl, rfl, fun _ => rfl, fun i => ?_⟩
    constructor
    · rintro ⟨p, hp, -⟩
      cases hp
    · intro h
      exact absurd h.2 (Nat.not_le.mpr h.1)
  | cons v vs ih =>
    have hidx : ctx.nextIdx = ctx.params.length + 1 := hnum
    have hnum' : Numbered (ctx.pushParam (value v)).2 := by
      simp [Numbered, QueryContext.pushParam, hidx]
    obtain ⟨hparams, hn, hmsg, hflag, hbound, hrest⟩ :=
      ih (fun w hw => hbind w (mem_cons_of_mem _ hw)) (fun w hw => hplace w (mem_cons_of_mem _ hw))
        (ctx.pushParam (value v)).2 hnum'
    have hparams' : (ctx.pushMap value format (v :: vs)).2.params =
        ctx.params ++ [value v] ++ vs.map value := hparams
    refine ⟨?_, hn, hmsg, hflag, fun rest => ?_, fun i => ?_⟩
    · rw [hparams']
      simp
    · have hhead : bind ((ctx.pushMap value format (v :: vs)).2.params ++ rest)
          (format v (.param ctx.nextIdx)) = format v (.lit (value v)) := by
        rw [hbind v (mem_cons_self ..), hparams', hidx, append_assoc, bind_param_last]
      exact congrArg₂ List.cons hhead (hbound rest)
    · have hlen : (ctx.pushParam (value v)).2.params.length = ctx.params.length + 1 := by
        simp [QueryContext.pushParam]
      have hle : ctx.params.length + 1 ≤ (ctx.pushMap value format (v :: vs)).2.params.length := by
        rw [hparams']
        simp
      have hcons : (∃ c ∈ (ctx.pushMap value format (v :: vs)).1, i ∈ placeholders c) ↔
          i ∈ placeholders (format v (.param ctx.nextIdx)) ∨
            ∃ c ∈ ((ctx.pushParam (value v)).2.pushMap value format vs).1, i ∈ placeholders c :=
        exists_mem_cons_iff ..
      rw [hcons, hplace v (mem_cons_self ..), hrest i, Expr.placeholders, mem_singleton]
      change i = ctx.nextIdx ∨ _ ∧ i ≤ (ctx.pushMap value format (v :: vs)).2.params.length ↔ _
      omega

theorem pushParts_adds (wrap : Pred → Pred) (hwrap : ∀ params p, (wrap p).bind params = wrap (p.bind params))
    (hwrapPlace : ∀ p i, i ∈ (wrap p).placeholders ↔ i ∈ p.placeholders)
    (parts : List (Value × (Expr → Pred))) (htemplate : ∀ p ∈ parts, Template p.2) (ctx : QueryContext)
    (hnum : Numbered ctx) : Adds ctx ((ctx.pushParts parts).2.pushMsg (wrap (joinOr (ctx.pushParts parts).1)))
      [wrap (joinOr (boundParts parts))] [] := by
  obtain ⟨hparams, hn, hmsg, hflag, hbound, hplace⟩ := pushMap_spec Prod.fst Prod.snd Pred.bind
    Pred.placeholders parts (fun p hp => (htemplate p hp).bind) (fun p hp => (htemplate p hp).placeholders)
    ctx hnum
  refine Adds.msg ?_ hn hmsg hflag (fun rest => ?_) (fun i => ?_)
  · rw [QueryContext.pushParts, hparams]
    exact prefix_append ..
  · rw [hwrap, bind_joinOr, QueryContext.pushParts, hbound, boundParts]
  · rw [hwrapPlace, placeholders_joinOr, QueryContext.pushParts, hplace i]

def orPreds (parts : List (Value × (Expr → Pred))) : List Pred :=
  if parts = [] then [] else [joinOr (boundParts parts)]

theorem buildOrClause_adds (parts : List (Value × (Expr → Pred))) (htemplate : ∀ p ∈ parts, Template p.2)
    (ctx : QueryContext) (hnum : Numbered ctx) : Adds ctx (buildOrClause ctx parts) (orPreds parts) [] := by
  rw [buildOrClause, orPreds]
  split
  · exact Adds.refl hnum
  · exact pushParts_adds id (fun _ _ => rfl) (fun _ _ => Iff.rfl) parts htemplate ctx hnum

theorem texts_template {part : Expr → Pred} (h : Template part) (values : List String) :
    ∀ p ∈ texts part values, Template p.2 := by
  intro p hp
  obtain ⟨v, -, rfl⟩ := mem_map.mp hp
  exact h

end Parts

/-! ## The parts are templates -/

theorem fromPart_template : Template fromPart :=
  ⟨fun _ _ => rfl, fun e i => by
    simp [fromPart, joinOr, contains, m, Pred.placeholders, Expr.placeholders]⟩

theorem toPart_template : Template toPart :=
  ⟨fun _ _ => rfl, fun e i => by
    simp [toPart, recipientsLike, joinOr, contains, m, Pred.placeholders, Expr.placeholders]⟩

theorem freeTextPart_template : Template freeTextPart :=
  ⟨fun _ _ => rfl, fun e i => by
    simp [freeTextPart, joinOr, contains, m, Pred.placeholders, Expr.placeholders]⟩

theorem folderPart_template : Template folderPart :=
  ⟨fun _ _ => rfl, fun e i => by simp [folderPart, contains, m, Pred.placeholders, Expr.placeholders]⟩

theorem inFolderPart_template : Template inFolderPart :=
  ⟨fun _ _ => rfl, fun e i => by simp [inFolderPart, m, Pred.placeholders, Expr.placeholders]⟩

theorem accountPart_template : Template accountPart :=
  ⟨fun _ _ => rfl, fun e i => by simp [accountPart, contains, m, Pred.placeholders, Expr.placeholders]⟩

theorem labelPart_template : Template labelPart :=
  ⟨fun _ _ => rfl, fun e i => by
    simp [labelPart, labelGroupRenderedFragment, userVisibleLabelExistsFragment,
      LabelGroupRenderGrain.accountColumn, LabelGroupRenderGrain.threadColumn, Pred.placeholders,
      Expr.placeholders]⟩

theorem mimeCondition_template (mime : String) : Template (buildSingleMimeCondition mime).2 := by
  rw [buildSingleMimeCondition]
  split
  · exact ⟨fun _ _ => rfl, fun e i => by simp [Pred.placeholders, Expr.placeholders]⟩
  · exact ⟨fun _ _ => rfl, fun e i => by simp [Pred.placeholders, Expr.placeholders]⟩

def freeTextPreds (parsed : ParsedQuery) : List Pred :=
  if parsed.freeText = "" then [] else [freeTextPart (.lit (.text parsed.freeText))]

def attachmentPreds (parsed : ParsedQuery) : List Pred :=
  if parsed.hasAttachment then [attachmentExists []] else []

def datePreds : Option DateBound → List Pred
  | none => []
  | some ⟨timestamp, .before⟩ => [.lt (m "date") (.lit (.int timestamp))]
  | some ⟨timestamp, .after⟩ => [.gt (m "date") (.lit (.int timestamp))]

def typePreds (parsed : ParsedQuery) : List Pred :=
  if parsed.attachmentTypes = [] then []
  else [attachmentExists [joinOr (boundParts (parsed.attachmentTypes.map buildSingleMimeCondition))]]

def contactPreds (parsed : ParsedQuery) : List Pred :=
  if parsed.hasContact then [hasContactClause] else []

def scopePreds : AccountScope → List Pred
  | .single id => [.eq (m "account_id") (.lit (.text id))]
  | .multiple ids =>
    if ids = [] then [.eq (.lit (.int 0)) (.lit (.int 1))]
    else [.inList (m "account_id") (ids.map (fun id => .lit (.text id)))]
  | .all => []

def effectiveScopePreds (parsed : ParsedQuery) (scope : AccountScope) : List Pred :=
  if parsed.account = [] then scopePreds scope else [joinOr (boundParts (texts accountPart parsed.account))]

/-- On `messages m`. -/
def msgPreds (parsed : ParsedQuery) (scope : AccountScope) : List Pred :=
  freeTextPreds parsed ++ orPreds (texts fromPart parsed.fromVals) ++
  orPreds (texts toPart parsed.toVals) ++ attachmentPreds parsed ++
  (datePreds parsed.before ++ datePreds parsed.after) ++ orPreds (texts folderPart parsed.folder) ++
  orPreds (texts inFolderPart (parsed.inFolder.filterMap parseShorthand)) ++ typePreds parsed ++
  contactPreds parsed ++ effectiveScopePreds parsed scope ++ orPreds (texts labelPart parsed.label)

def flagIf (condition : Bool) (clause : Pred) : List Pred := if condition then [clause] else []

/-- On `threads t`. -/
def flagPreds (parsed : ParsedQuery) : List Pred :=
  flagIf (parsed.isUnread = some true) (flagClause "is_read" 0) ++
  flagIf (parsed.isRead = some true) (flagClause "is_read" 1) ++
  flagIf (parsed.isStarred = some true) (flagClause "is_starred" 1) ++
  flagIf (parsed.isSnoozed = some true) (flagClause "is_snoozed" 1) ++
  flagIf (parsed.isPinned = some true) (flagClause "is_pinned" 1) ++
  flagIf (parsed.isMuted = some true) (flagClause "is_muted" 1) ++
  flagIf (parsed.isTagged = some true) isTaggedClause ++
  parsed.inFolder.filterMap inFlagShorthand

section Builders

variable {ctx : QueryContext}

theorem pushParam_spec (hnum : Numbered ctx) (val : Value) (part : Expr → Pred) (hpart : Template part) :
    Adds ctx ((ctx.pushParam val).2.pushMsg (part (.param ctx.nextIdx))) [part (.lit val)] [] := by
  have h := pushParts_adds id (fun _ _ => rfl) (fun _ _ => Iff.rfl) [(val, part)]
    (fun p hp => by
      have hp' : p = (val, part) := by simpa using hp
      exact hp' ▸ hpart) ctx hnum
  exact h

theorem buildFreeTextClause_adds (hnum : Numbered ctx) (parsed : ParsedQuery) :
    Adds ctx (buildFreeTextClause ctx parsed) (freeTextPreds parsed) [] := by
  rw [buildFreeTextClause, freeTextPreds]
  split
  · exact Adds.refl hnum
  · exact pushParam_spec hnum _ _ freeTextPart_template

theorem buildAttachmentClause_adds (hnum : Numbered ctx) (parsed : ParsedQuery) :
    Adds ctx (buildAttachmentClause ctx parsed) (attachmentPreds parsed) [] := by
  rw [buildAttachmentClause, attachmentPreds]
  split
  · exact Adds.msgConst hnum (fun _ => rfl) rfl
  · exact Adds.refl hnum

theorem buildDateClause_adds (hnum : Numbered ctx) (bound : Option DateBound) :
    Adds ctx (buildDateClause ctx bound) (datePreds bound) [] := by
  cases bound with
  | none => exact Adds.refl hnum
  | some bound =>
    obtain ⟨timestamp, direction⟩ := bound
    cases direction with
    | before =>
      exact pushParam_spec hnum (.int timestamp) (fun v => .lt (m "date") v)
        ⟨fun _ _ => rfl, fun e i => by simp [m, Pred.placeholders, Expr.placeholders]⟩
    | after =>
      exact pushParam_spec hnum (.int timestamp) (fun v => .gt (m "date") v)
        ⟨fun _ _ => rfl, fun e i => by simp [m, Pred.placeholders, Expr.placeholders]⟩

theorem buildDateClauses_adds (hnum : Numbered ctx) (parsed : ParsedQuery) :
    Adds ctx (buildDateClauses ctx parsed) (datePreds parsed.before ++ datePreds parsed.after) [] := by
  have h1 := buildDateClause_adds hnum parsed.before
  exact h1.trans (buildDateClause_adds h1.numbered parsed.after)

theorem buildAttachmentTypeClause_adds (hnum : Numbered ctx) (parsed : ParsedQuery) :
    Adds ctx (buildAttachmentTypeClause ctx parsed) (typePreds parsed) [] := by
  rw [buildAttachmentTypeClause, typePreds]
  split
  · exact Adds.refl hnum
  refine pushParts_adds (fun p => attachmentExists [p]) (fun _ _ => rfl) (fun p i => ?_) _ ?_ ctx hnum
  · simp [attachmentExists, m, Pred.placeholders, Expr.placeholders]
  · intro p hp
    obtain ⟨mime, -, rfl⟩ := mem_map.mp hp
    exact mimeCondition_template mime

theorem buildHasContactClause_adds (hnum : Numbered ctx) (parsed : ParsedQuery) :
    Adds ctx (buildHasContactClause ctx parsed) (contactPreds parsed) [] := by
  rw [buildHasContactClause, contactPreds]
  split
  · exact Adds.msgConst hnum (fun _ => rfl) rfl
  · exact Adds.refl hnum

theorem buildMessageClauses_adds (hnum : Numbered ctx) (parsed : ParsedQuery) :
    Adds ctx (buildMessageClauses ctx parsed)
      (freeTextPreds parsed ++ orPreds (texts fromPart parsed.fromVals) ++
        orPreds (texts toPart parsed.toVals) ++ attachmentPreds parsed ++
        (datePreds parsed.before ++ datePreds parsed.after) ++ orPreds (texts folderPart parsed.folder) ++
        orPreds (texts inFolderPart (parsed.inFolder.filterMap parseShorthand)) ++ typePreds parsed ++
        contactPreds parsed) [] := by
  have h1 := buildFreeTextClause_adds hnum parsed
  have h2 := h1.trans (buildOrClause_adds _ (texts_template fromPart_template parsed.fromVals) _ h1.numbered)
  have h3 := h2.trans (buildOrClause_adds _ (texts_template toPart_template parsed.toVals) _ h2.numbered)
  have h4 := h3.trans (buildAttachmentClause_adds h3.numbered parsed)
  have h5 := h4.trans (buildDateClauses_adds h4.numbered parsed)
  have h6 := h5.trans (buildOrClause_adds _ (texts_template folderPart_template parsed.folder) _ h5.numbered)
  have h7 := h6.trans (buildOrClause_adds _ (texts_template inFolderPart_template
    (parsed.inFolder.filterMap parseShorthand)) _ h6.numbered)
  have h8 := h7.trans (buildAttachmentTypeClause_adds h7.numbered parsed)
  exact h8.trans (buildHasContactClause_adds h8.numbered parsed)

theorem buildScopeClause_adds (hnum : Numbered ctx) (scope : AccountScope) :
    Adds ctx (buildScopeClause ctx scope) (scopePreds scope) [] := by
  cases scope with
  | single id =>
    exact pushParam_spec hnum (.text id) (fun v => .eq (m "account_id") v)
      ⟨fun _ _ => rfl, fun e i => by simp [m, Pred.placeholders, Expr.placeholders]⟩
  | multiple ids =>
    rw [buildScopeClause, scopePreds]
    split
    · exact Adds.msgConst hnum (fun _ => rfl) rfl
    obtain ⟨hparams, hn, hmsg, hflag, hbound, hplace⟩ := pushMap_spec Value.text (fun _ idx => idx)
      Expr.bind Expr.placeholders ids (fun _ _ _ _ => rfl) (fun _ _ _ _ => Iff.rfl) ctx hnum
    refine Adds.msg ?_ hn hmsg hflag (fun rest => ?_) (fun i => ?_)
    · rw [hparams]
      exact prefix_append ..
    · rw [Pred.bind, hbound]
      rfl
    · rw [← hplace i, Pred.placeholders, mem_append, mem_flatMap]
      exact or_iff_right not_mem_nil
  | all => exact Adds.refl hnum

theorem buildEffectiveScope_adds (hnum : Numbered ctx) (parsed : ParsedQuery) (scope : AccountScope) :
    Adds ctx (buildEffectiveScope ctx parsed scope) (effectiveScopePreds parsed scope) [] := by
  rw [buildEffectiveScope, effectiveScopePreds]
  split
  · exact buildScopeClause_adds hnum scope
  · exact pushParts_adds id (fun _ _ => rfl) (fun _ _ => Iff.rfl) _
      (texts_template accountPart_template parsed.account) ctx hnum

theorem pushFlagIf_adds (hnum : Numbered ctx) (condition : Bool) (clause : Pred)
    (hbind : ∀ params, clause.bind params = clause) (hplace : clause.placeholders = []) :
    Adds ctx (pushFlagIf ctx condition clause) [] (flagIf condition clause) := by
  rw [pushFlagIf, flagIf]
  split
  · exact Adds.flagConst hnum hbind hplace
  · exact Adds.refl hnum

theorem inFlagShorthand_const {value : String} {clause : Pred} (h : inFlagShorthand value = some clause) :
    (∀ params, clause.bind params = clause) ∧ clause.placeholders = [] := by
  rw [inFlagShorthand] at h
  split at h
  · cases h
    exact ⟨fun _ => rfl, rfl⟩
  · cases h
    exact ⟨fun _ => rfl, rfl⟩
  · cases h

theorem buildInFolderFlagClauses_adds (hnum : Numbered ctx) (parsed : ParsedQuery) :
    Adds ctx (buildInFolderFlagClauses ctx parsed) [] (parsed.inFolder.filterMap inFlagShorthand) := by
  rw [buildInFolderFlagClauses]
  have hconst : ∀ clause ∈ parsed.inFolder.filterMap inFlagShorthand,
      (∀ params, clause.bind params = clause) ∧ clause.placeholders = [] := by
    intro clause hc
    obtain ⟨value, -, hv⟩ := mem_filterMap.mp hc
    exact inFlagShorthand_const hv
  generalize parsed.inFolder.filterMap inFlagShorthand = clauses at hconst
  induction clauses generalizing ctx with
  | nil => exact Adds.refl hnum
  | cons clause clauses ih =>
    obtain ⟨hbind, hplace⟩ := hconst clause (mem_cons_self ..)
    have h1 := Adds.flagConst hnum hbind hplace
    exact h1.trans (ih h1.numbered fun c hc => hconst c (mem_cons_of_mem _ hc))

theorem buildThreadFlagClauses_adds (hnum : Numbered ctx) (parsed : ParsedQuery) :
    Adds ctx (buildThreadFlagClauses ctx parsed) [] (flagPreds parsed) := by
  have h1 := pushFlagIf_adds hnum (parsed.isUnread = some true) (flagClause "is_read" 0) (fun _ => rfl) rfl
  have h2 := h1.trans (pushFlagIf_adds h1.numbered (parsed.isRead = some true) (flagClause "is_read" 1)
    (fun _ => rfl) rfl)
  have h3 := h2.trans (pushFlagIf_adds h2.numbered (parsed.isStarred = some true)
    (flagClause "is_starred" 1) (fun _ => rfl) rfl)
  have h4 := h3.trans (pushFlagIf_adds h3.numbered (parsed.isSnoozed = some true)
    (flagClause "is_snoozed" 1) (fun _ => rfl) rfl)
  have h5 := h4.trans (pushFlagIf_adds h4.numbered (parsed.isPinned = some true)
    (flagClause "is_pinned" 1) (fun _ => rfl) rfl)
  have h6 := h5.trans (pushFlagIf_adds h5.numbered (parsed.isMuted = some true)
    (flagClause "is_muted" 1) (fun _ => rfl) rfl)
  have h7 := h6.trans (pushFlagIf_adds h6.numbered (parsed.isTagged = some true) isTaggedClause
    (fun _ => rfl) rfl)
  exact h7.trans (buildInFolderFlagClauses_adds h7.numbered parsed)

theorem buildContext_adds (parsed : ParsedQuery) (scope : AccountScope) :
    Adds QueryContext.new (buildContext parsed scope) (msgPreds parsed scope) (flagPreds parsed) := by
  have hnew : Numbered QueryContext.new := rfl
  have h1 := buildMessageClauses_adds hnew parsed
  have h2 := h1.trans (buildEffectiveScope_adds h1.numbered parsed scope)
  have h3 := h2.trans (buildThreadFlagClauses_adds h2.numbered parsed)
  have h4 := h3.trans (buildOrClause_adds _ (texts_template labelPart_template parsed.label) _ h3.numbered)
  simp only [append_nil] at h4
  exact h4

end Builders

/-! ## The three statements -/

section Statements

/-- A clause evaluated with values appended later, in terms of the clause meant. -/
theorem all_eval_eq (db : Db) {params : List Value} {clauses preds : List Pred}
    (hbound : clauses.map (Pred.bind params) = preds) (env : Env) :
    clauses.all (fun p => eval db params p env) = preds.all (fun p => eval db [] p env) := by
  rw [← hbound, all_map]
  congr 1
  funext p
  exact (eval_bind params db p env).symm

theorem matchedThreads_eq (db : Db) {params : List Value} {msg flag msgMeant flagMeant : List Pred}
    (hmsg : msg.map (Pred.bind params) = msgMeant) (hflag : flag.map (Pred.bind params) = flagMeant) :
    matchedThreads db params msg flag = matchedThreads db [] msgMeant flagMeant := by
  simp [matchedThreads, matched, all_eval_eq db hmsg, all_eval_eq db hflag]

def latestKey (row : Row) : Value × Value := (row "account_id", row "thread_id")

/-- At most one latest message for each key: the keys are those of the partitions, each once. -/
theorem latestMessages_nodup (db : Db) : ((latestMessages db).map latestKey).Nodup := by
  refine List.Nodup.sublist ?_ (nodup_dedup ((db "messages").map latestKey))
  have hfirst : ∀ key row, (((db "messages").filter
      (fun row => (row "account_id", row "thread_id") = key)).mergeSort (fun a b =>
        if a "date" = b "date" then (b "id").le (a "id") else (b "date").le (a "date"))).head? =
      some row → latestKey row = key := by
    intro key row hrow
    have hin := mem_of_head? hrow
    rw [mem_mergeSort] at hin
    simpa [latestKey] using (mem_filter.mp hin).2
  change (List.map latestKey (List.filterMap _ ((db "messages").map latestKey).dedup)).Sublist _
  generalize ((db "messages").map latestKey).dedup = keys
  induction keys with
  | nil => exact List.Sublist.slnil
  | cons key keys ih =>
    rw [filterMap_cons]
    split
    · exact ih.cons _
    · rename_i row hrow
      rw [map_cons, hfirst key row hrow]
      exact ih.cons_cons _

theorem Value.eq_of_eqTrue {a b : Value} (h : a.eqTrue b = true) : a = b := by
  rw [Value.eqTrue, Bool.and_eq_true] at h
  exact of_decide_eq_true h.2

theorem length_le_one {α κ : Type} {key : α → κ} {rows : List α} {k : κ} (hnodup : (rows.map key).Nodup)
    (hkey : ∀ r ∈ rows, key r = k) : rows.length ≤ 1 := by
  have hrep : rows.map key = List.replicate rows.length k :=
    eq_replicate_iff.mpr ⟨length_map .., fun b hb => by
      obtain ⟨r, hr, rfl⟩ := mem_map.mp hb
      exact hkey r hr⟩
  rw [hrep, nodup_replicate] at hnodup
  exact hnodup

theorem joinLatest_thread (db : Db) (t : Row) : (joinLatest db t).map DbThread.thread = [t] := by
  rw [joinLatest]
  have hone : ((latestMessages db).filter (fun l =>
      (l "account_id").eqTrue (t "account_id") && (l "thread_id").eqTrue (t "id"))).length ≤ 1 := by
    refine length_le_one ((latestMessages_nodup db).sublist (List.filter_sublist.map _))
      (k := (t "account_id", t "id")) fun l hl => ?_
    have h := (mem_filter.mp hl).2
    rw [Bool.and_eq_true] at h
    exact Prod.ext (Value.eq_of_eqTrue h.1) (Value.eq_of_eqTrue h.2)
  generalize (latestMessages db).filter (fun l =>
    (l "account_id").eqTrue (t "account_id") && (l "thread_id").eqTrue (t "id")) = latest at hone ⊢
  match latest, hone with
  | [], _ => rfl
  | [_], _ => rfl
  | _ :: _ :: _, hone => exact absurd hone (by simp)

theorem flatMap_joinLatest (db : Db) (rows : List Row) :
    (rows.flatMap (joinLatest db)).map DbThread.thread = rows := by
  induction rows with
  | nil => rfl
  | cons t rows ih => rw [flatMap_cons, map_append, joinLatest_thread, ih, singleton_append]

def threadKey (t : Row) : Value × Value := (t "account_id", t "id")

def unpaged (db : Db) (parsed : ParsedQuery) (scope : AccountScope) : List DbThread :=
  queryThreadsRead db parsed scope (some (-1)) (some 0)

section Rows

variable (parsed : ParsedQuery) (scope : AccountScope)

theorem buildContext_bound (rest : List Value) :
    (buildContext parsed scope).msgClauses.map (Pred.bind ((buildContext parsed scope).params ++ rest)) =
      msgPreds parsed scope ∧ (buildContext parsed scope).threadFlagClauses.map
      (Pred.bind ((buildContext parsed scope).params ++ rest)) = flagPreds parsed := by
  obtain ⟨newMsg, newFlag, h⟩ := buildContext_adds parsed scope
  have hm : (buildContext parsed scope).msgClauses = newMsg := h.msgClauses
  have hf : (buildContext parsed scope).threadFlagClauses = newFlag := h.threadFlagClauses
  exact ⟨hm ▸ h.msgBound rest, hf ▸ h.flagBound rest⟩

theorem page_bound (limit offset : Value) : (Expr.param (buildContext parsed scope).nextIdx).bind
      ((buildContext parsed scope).params ++ [limit] ++ [offset]) = .lit limit ∧
    (Expr.param ((buildContext parsed scope).nextIdx + 1)).bind
      ((buildContext parsed scope).params ++ [limit] ++ [offset]) = .lit offset := by
  have hnum : Numbered (buildContext parsed scope) := (buildContext_adds parsed scope).numbered
  constructor
  · rw [hnum, bind_param_last]
  · have hlen : (buildContext parsed scope).nextIdx + 1 =
        ((buildContext parsed scope).params ++ [limit]).length + 1 := by
      rw [hnum, length_append, length_singleton]
    have hlast := bind_param_last ((buildContext parsed scope).params ++ [limit]) offset []
    rw [append_nil] at hlast
    rw [hlen, hlast]

def selected (db : Db) : List Row := matchedThreads db [] (msgPreds parsed scope) (flagPreds parsed)

theorem matchedThreads_buildContext (db : Db) (rest : List Value) :
    matchedThreads db ((buildContext parsed scope).params ++ rest) (buildContext parsed scope).msgClauses
      (buildContext parsed scope).threadFlagClauses = selected parsed scope db :=
  matchedThreads_eq db (buildContext_bound parsed scope rest).1 (buildContext_bound parsed scope rest).2

theorem matchedThreads_params (db : Db) :
    matchedThreads db (buildContext parsed scope).params (buildContext parsed scope).msgClauses
      (buildContext parsed scope).threadFlagClauses = selected parsed scope db := by
  have h := matchedThreads_buildContext parsed scope db []
  rwa [append_nil] at h

theorem queryThreadKeysRead_eq (db : Db) :
    queryThreadKeysRead db parsed scope = (selected parsed scope db).map threadKey := by
  rw [queryThreadKeysRead, runKeys, matchedThreads_params]
  rfl

theorem queryThreadsRead_eq (db : Db) (limit offset : Option Int) :
    queryThreadsRead db parsed scope limit offset = page (.int (limit.getD 50)) (.int (offset.getD 0))
        (((selected parsed scope db).flatMap (joinLatest db)).mergeSort listOrder) := by
  obtain ⟨hlimit, hoffset⟩ := page_bound parsed scope (.int (limit.getD 50)) (.int (offset.getD 0))
  have hl : evalExpr ((buildContext parsed scope).params ++ [.int (limit.getD 50)] ++
      [.int (offset.getD 0)]) (fun _ _ => .null) (.param (buildContext parsed scope).nextIdx) =
      .int (limit.getD 50) := by
    rw [← evalExpr_bind, hlimit, evalExpr]
  have ho : evalExpr ((buildContext parsed scope).params ++ [.int (limit.getD 50)] ++
      [.int (offset.getD 0)]) (fun _ _ => .null) (.param ((buildContext parsed scope).nextIdx + 1)) =
      .int (offset.getD 0) := by
    rw [← evalExpr_bind, hoffset, evalExpr]
  simp only [queryThreadsRead, runThreadSelect]
  rw [hl, ho, append_assoc, matchedThreads_buildContext]

end Rows

/-- For every query and scope: the placeholders are exactly `1..params.len()`, with the values in their
place the clauses are the ones meant, also when `LIMIT` and `OFFSET` have been appended, and the next two
indices are theirs; on every database the count is the number of the keys, the unpaged list has exactly
the threads with those keys, and any other list is a page of it. -/
theorem statements_agree (parsed : ParsedQuery) (scope : AccountScope) :
    (∀ i, (∃ c ∈ (buildContext parsed scope).msgClauses ++ (buildContext parsed scope).threadFlagClauses,
      i ∈ c.placeholders) ↔ 1 ≤ i ∧ i ≤ (buildContext parsed scope).params.length) ∧
    (∀ rest, (buildContext parsed scope).msgClauses.map
        (Pred.bind ((buildContext parsed scope).params ++ rest)) = msgPreds parsed scope ∧
      (buildContext parsed scope).threadFlagClauses.map
        (Pred.bind ((buildContext parsed scope).params ++ rest)) = flagPreds parsed) ∧
    (∀ limit offset, (Expr.param (buildContext parsed scope).nextIdx).bind
        ((buildContext parsed scope).params ++ [limit] ++ [offset]) = .lit limit ∧
      (Expr.param ((buildContext parsed scope).nextIdx + 1)).bind
        ((buildContext parsed scope).params ++ [limit] ++ [offset]) = .lit offset) ∧
    ∀ db, countMatchingRead db parsed scope = (queryThreadKeysRead db parsed scope).length ∧
      ((unpaged db parsed scope).map (fun r => threadKey r.thread)).Perm
        (queryThreadKeysRead db parsed scope) ∧
      ∀ limit offset, queryThreadsRead db parsed scope limit offset =
        page (.int (limit.getD 50)) (.int (offset.getD 0)) (unpaged db parsed scope) := by
  refine ⟨fun i => ?_, buildContext_bound parsed scope, page_bound parsed scope, fun db => ⟨?_, ?_, ?_⟩⟩
  · obtain ⟨newMsg, newFlag, h⟩ := buildContext_adds parsed scope
    have hm : (buildContext parsed scope).msgClauses = newMsg := h.msgClauses
    have hf : (buildContext parsed scope).threadFlagClauses = newFlag := h.threadFlagClauses
    rw [hm, hf, h.placeholders i]
    exact Iff.rfl
  · rw [queryThreadKeysRead_eq, countMatchingRead, runCount, matchedThreads_params, length_map]
  · rw [queryThreadKeysRead_eq, unpaged, queryThreadsRead_eq]
    have hperm := (mergeSort_perm ((selected parsed scope db).flatMap (joinLatest db)) listOrder).map
      (fun r => threadKey r.thread)
    have hmap : ((selected parsed scope db).flatMap (joinLatest db)).map (fun r => threadKey r.thread) =
        (selected parsed scope db).map threadKey := by
      conv_rhs => rw [← flatMap_joinLatest db (selected parsed scope db), map_map]
      rfl
    rw [hmap] at hperm
    exact hperm
  · intro limit offset
    rw [queryThreadsRead_eq, unpaged, queryThreadsRead_eq]
    rfl

end Statements

end Ratatoskr.SmartFolder
