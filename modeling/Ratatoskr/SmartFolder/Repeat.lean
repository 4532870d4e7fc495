import Ratatoskr.SmartFolder.Binding

/-!
# SmartFolder.Repeat

Repeating an operator means OR. For most operators the values are parts of one clause, joined by `OR`. The
values of `in:` go three ways: folder shorthands into one such clause, `starred` and `snoozed` into a
clause each on the thread, and unknown names nowhere. The clauses are joined by `AND`, so two values that
go different ways are not.

* `mem_queryThreadKeysRead` : when a thread is matched.
* `splits_orClause` : a clause joined by `OR`, of one value more.
* `repeat_is_or_iff` : the pairs of values for which the law holds on every database.
-/

namespace Ratatoskr.SmartFolder

open List
open Lib.Sql

def HoldsAll (db : Db) (preds : List Pred) (env : Env) : Prop := ∀ p ∈ preds, eval db [] p env = true

theorem holdsAll_append (db : Db) (ps qs : List Pred) (env : Env) :
    HoldsAll db (ps ++ qs) env ↔ HoldsAll db ps env ∧ HoldsAll db qs env := forall_mem_append

theorem mem_queryThreadKeysRead {db : Db} {q : ParsedQuery} {scope : AccountScope} {key : Value × Value} :
    key ∈ queryThreadKeysRead db q scope ↔
      ∃ t ∈ db "threads", threadKey t = key ∧ HoldsAll db (flagPreds q) (env "t" t) ∧
        ∃ row ∈ db "messages", ((row "account_id").eqTrue (t "account_id") = true ∧
          (row "thread_id").eqTrue (t "id") = true) ∧ HoldsAll db (msgPreds q scope) (env "m" row) := by
  rw [queryThreadKeysRead_eq]
  simp only [selected, matchedThreads, matched, mem_filter, mem_flatMap, mem_map,
    mem_dedup, all_eq_true, Bool.and_eq_true]
  constructor
  · rintro ⟨t, ⟨⟨t', ht', -, ⟨⟨row, ⟨hrow, hmsg⟩, rfl⟩, hjoin⟩, rfl⟩, hflag⟩, rfl⟩
    exact ⟨t', ht', rfl, hflag, row, hrow, hjoin, hmsg⟩
  · rintro ⟨t, ht, rfl, hflag, row, hrow, hjoin, hmsg⟩
    exact ⟨t, ⟨⟨t, ht, _, ⟨⟨row, ⟨hrow, hmsg⟩, rfl⟩, hjoin⟩, rfl⟩, hflag⟩, rfl⟩

/-- Three lists of clauses, the first of which holds where the second or the third does. -/
def Splits (db : Db) (env : Env) (both one two : List Pred) : Prop :=
  HoldsAll db both env ↔ HoldsAll db one env ∨ HoldsAll db two env

section Splits

variable {db : Db}

theorem Splits.refl (e : Env) (ps : List Pred) : Splits db e ps ps ps := (or_self_iff).symm

variable {both one two : List Pred}

theorem Splits.append_left {e : Env} (h : Splits db e both one two)
    (before : List Pred) : Splits db e (before ++ both) (before ++ one) (before ++ two) := by
  rw [Splits] at h
  rw [Splits, holdsAll_append, holdsAll_append, holdsAll_append, h, and_or_left]

theorem Splits.append_right {e : Env} (h : Splits db e both one two)
    (after : List Pred) : Splits db e (both ++ after) (one ++ after) (two ++ after) := by
  rw [Splits] at h
  rw [Splits, holdsAll_append, holdsAll_append, holdsAll_append, h, or_and_right]

theorem Splits.around {e : Env} (h : Splits db e both one two)
    (before : List Pred) (after : List (List Pred)) :
    Splits db e (after.foldl (· ++ ·) (before ++ both)) (after.foldl (· ++ ·) (before ++ one))
      (after.foldl (· ++ ·) (before ++ two)) := by
  have h' := h.append_left before
  generalize before ++ both = b, before ++ one = o, before ++ two = t at h'
  induction after generalizing b o t with
  | nil => exact h'
  | cons clauses after ih => exact ih _ _ _ (h'.append_right clauses)

theorem keys_of_splits {scope : AccountScope} {both one two : ParsedQuery}
    (hflag : ∀ e, (HoldsAll db (flagPreds both) e ↔ HoldsAll db (flagPreds one) e) ∧
      (HoldsAll db (flagPreds both) e ↔ HoldsAll db (flagPreds two) e))
    (hmsg : ∀ row, Splits db (env "m" row) (msgPreds both scope) (msgPreds one scope) (msgPreds two scope))
    (key : Value × Value) : key ∈ queryThreadKeysRead db both scope ↔
      key ∈ queryThreadKeysRead db one scope ∨ key ∈ queryThreadKeysRead db two scope := by
  rw [mem_queryThreadKeysRead, mem_queryThreadKeysRead, mem_queryThreadKeysRead]
  constructor
  · rintro ⟨t, ht, hkey, hf, row, hrow, hjoin, hm⟩
    rcases (hmsg row).mp hm with hm | hm
    · exact .inl ⟨t, ht, hkey, (hflag _).1.mp hf, row, hrow, hjoin, hm⟩
    · exact .inr ⟨t, ht, hkey, (hflag _).2.mp hf, row, hrow, hjoin, hm⟩
  · rintro (⟨t, ht, hkey, hf, row, hrow, hjoin, hm⟩ | ⟨t, ht, hkey, hf, row, hrow, hjoin, hm⟩)
    · exact ⟨t, ht, hkey, (hflag _).1.mpr hf, row, hrow, hjoin, (hmsg row).mpr (.inl hm)⟩
    · exact ⟨t, ht, hkey, (hflag _).2.mpr hf, row, hrow, hjoin, (hmsg row).mpr (.inr hm)⟩

theorem holdsAll_singleton (p : Pred) (e : Env) : HoldsAll db [p] e ↔ eval db [] p e = true := by
  simp [HoldsAll]

theorem splits_joinOr (e : Env) (wrap : List Pred → Pred)
    (hwrap : ∀ ps, eval db [] (wrap ps) e = true ↔ ∃ p ∈ ps, eval db [] (wrap [p]) e = true)
    (ps : List Pred) (p q : Pred) :
    Splits db e [wrap (ps ++ [p] ++ [q])] [wrap (ps ++ [p])] [wrap (ps ++ [q])] := by
  rw [Splits, holdsAll_singleton, holdsAll_singleton, holdsAll_singleton, hwrap, hwrap (ps ++ [p]),
    hwrap (ps ++ [q])]
  simp only [mem_append, mem_singleton]
  constructor
  · rintro ⟨r, (hr | rfl) | rfl, h⟩
    · exact .inl ⟨r, .inl hr, h⟩
    · exact .inl ⟨r, .inr rfl, h⟩
    · exact .inr ⟨r, .inr rfl, h⟩
  · rintro (⟨r, hr | rfl, h⟩ | ⟨r, hr | rfl, h⟩)
    · exact ⟨r, .inl (.inl hr), h⟩
    · exact ⟨r, .inl (.inr rfl), h⟩
    · exact ⟨r, .inl (.inl hr), h⟩
    · exact ⟨r, .inr rfl, h⟩

theorem eval_joinOr_singletons (e : Env) (ps : List Pred) :
    eval db [] (joinOr ps) e = true ↔ ∃ p ∈ ps, eval db [] (joinOr [p]) e = true := eval_joinOr db [] ps e

theorem orPreds_texts_append (part : Expr → Pred) (vs : List String) (v : String) :
    orPreds (texts part (vs ++ [v])) = [joinOr (boundParts (texts part vs) ++ [part (.lit (.text v))])] := by
  rw [orPreds]
  simp [texts, boundParts]

theorem splits_orClause (e : Env) (part : Expr → Pred) (vs : List String) (v1 v2 : String) :
    Splits db e (orPreds (texts part (vs ++ [v1] ++ [v2]))) (orPreds (texts part (vs ++ [v1])))
      (orPreds (texts part (vs ++ [v2]))) := by
  rw [orPreds_texts_append, orPreds_texts_append, orPreds_texts_append]
  have hparts : boundParts (texts part (vs ++ [v1])) =
      boundParts (texts part vs) ++ [part (.lit (.text v1))] := by simp [texts, boundParts]
  rw [hparts]
  exact splits_joinOr e joinOr (eval_joinOr_singletons e) _ _ _

theorem eval_attachmentExists_joinOr (e : Env) (ps : List Pred) :
    eval db [] (attachmentExists [joinOr ps]) e = true ↔
      ∃ p ∈ ps, eval db [] (attachmentExists [joinOr [p]]) e = true := by
  simp only [attachmentExists, foldl_cons, foldl_nil, eval, anyRow, any_eq_true,
    Bool.and_eq_true, eval_joinOr]
  constructor
  · rintro ⟨row, hrow, hbase, p, hp, h⟩
    exact ⟨p, hp, row, hrow, hbase, p, mem_singleton_self p, h⟩
  · rintro ⟨p, hp, row, hrow, hbase, q, hq, h⟩
    exact ⟨row, hrow, hbase, p, hp, mem_singleton.mp hq ▸ h⟩

theorem typePreds_append (q : ParsedQuery) (mimes : List String) (mime : String)
    (h : q.attachmentTypes = mimes ++ [mime]) :
    typePreds q = [attachmentExists [joinOr (boundParts (mimes.map buildSingleMimeCondition) ++
      [(buildSingleMimeCondition mime).2 (.lit (buildSingleMimeCondition mime).1)])]] := by
  rw [typePreds, h]
  simp [boundParts]

theorem splits_typeClause (e : Env) (q : ParsedQuery) (v1 v2 : String) :
    Splits db e (typePreds (applyOperator (applyOperator q .type v1) .type v2))
      (typePreds (applyOperator q .type v1)) (typePreds (applyOperator q .type v2)) := by
  rw [typePreds_append _ (q.attachmentTypes ++ [v1]) v2 rfl, typePreds_append _ q.attachmentTypes v1 rfl,
    typePreds_append _ q.attachmentTypes v2 rfl]
  have hparts : boundParts ((q.attachmentTypes ++ [v1]).map buildSingleMimeCondition) =
      boundParts (q.attachmentTypes.map buildSingleMimeCondition) ++
        [(buildSingleMimeCondition v1).2 (.lit (buildSingleMimeCondition v1).1)] := by simp [boundParts]
  rw [hparts]
  exact splits_joinOr e (fun ps => attachmentExists [joinOr ps]) (eval_attachmentExists_joinOr e) _ _ _

theorem splits_accountClause (e : Env) (q : ParsedQuery) (scope : AccountScope) (v1 v2 : String) :
    Splits db e (effectiveScopePreds (applyOperator (applyOperator q .account v1) .account v2) scope)
      (effectiveScopePreds (applyOperator q .account v1) scope)
      (effectiveScopePreds (applyOperator q .account v2) scope) := by
  have heff : ∀ q' : ParsedQuery, q'.account ≠ [] →
      effectiveScopePreds q' scope = orPreds (texts accountPart q'.account) := by
    intro q' hne
    rw [effectiveScopePreds, if_neg hne, orPreds, if_neg (by simpa [texts] using hne)]
  rw [heff _ (by simp [applyOperator]), heff _ (by simp [applyOperator]), heff _ (by simp [applyOperator])]
  exact splits_orClause e accountPart q.account v1 v2

end Splits

/-! ## The ways of `in:` -/

/-- Where a value of `in:` goes. -/
inductive InKind where
  | folder
  | flag (clause : Pred)
  | unknown

def inKind (value : String) : InKind :=
  match parseShorthand value, inFlagShorthand value with
  | some _, _ => .folder
  | none, some clause => .flag clause
  | none, none => .unknown

variable {value : String}

theorem inKind_folder (h : inKind value = .folder) :
    ∃ folder, parseShorthand value = some folder ∧ inFlagShorthand value = none := by
  rw [inKind] at h
  split at h
  · rename_i folder hfolder
    refine ⟨folder, hfolder, ?_⟩
    rw [parseShorthand] at hfolder
    rw [inFlagShorthand]
    split at hfolder
    all_goals
      rename_i hlow
      first
        | cases hfolder
          done
        | simp [hlow]
  · cases h
  · cases h

theorem inKind_flag {clause : Pred} (h : inKind value = .flag clause) :
    parseShorthand value = none ∧ inFlagShorthand value = some clause := by
  rw [inKind] at h
  split at h
  · cases h
  · rename_i hfolder hflag
    cases h
    exact ⟨hfolder, hflag⟩
  · cases h

theorem inKind_unknown (h : inKind value = .unknown) :
    parseShorthand value = none ∧ inFlagShorthand value = none := by
  rw [inKind] at h
  split at h
  · cases h
  · cases h
  · rename_i hfolder hflag
    exact ⟨hfolder, hflag⟩

/-- Any values, or two values of `in:` that go the same way. -/
def RepeatsAsOr (operator : Operator) (v1 v2 : String) : Prop :=
  operator = .in → inKind v1 = inKind v2

section Law

variable (db : Db) (scope : AccountScope) (q : ParsedQuery) (v1 v2 : String)

/-- The law for one operator and two values, on one database, scope and query. -/
def RepeatedIsUnion (operator : Operator) : Prop :=
  ∀ key, key ∈ queryThreadKeysRead db (applyOperator (applyOperator q operator v1) operator v2) scope ↔
    key ∈ queryThreadKeysRead db (applyOperator q operator v1) scope ∨
      key ∈ queryThreadKeysRead db (applyOperator q operator v2) scope

theorem flagPreds_in (v : String) :
    flagPreds (applyOperator q .in v) = flagPreds q ++ (inFlagShorthand v).toList := by
  have hlast : (q.inFolder ++ [v]).filterMap inFlagShorthand =
      q.inFolder.filterMap inFlagShorthand ++ (inFlagShorthand v).toList := by
    cases hv : inFlagShorthand v <;> simp [hv]
  exact (congrArg (_ ++ ·) hlast).trans (append_assoc ..).symm

theorem inFolder_in (v : String) : (applyOperator q .in v).inFolder.filterMap parseShorthand =
      q.inFolder.filterMap parseShorthand ++ (parseShorthand v).toList := by
  change (q.inFolder ++ [v]).filterMap parseShorthand = _
  cases hv : parseShorthand v <;> simp [hv]

theorem msgPreds_in {both one two : ParsedQuery} (e : Env)
    (hboth : both = {q with inFolder := both.inFolder }) (hone : one = {q with inFolder := one.inFolder })
    (htwo : two = {q with inFolder := two.inFolder })
    (h : Splits db e (orPreds (texts inFolderPart (both.inFolder.filterMap parseShorthand)))
      (orPreds (texts inFolderPart (one.inFolder.filterMap parseShorthand)))
      (orPreds (texts inFolderPart (two.inFolder.filterMap parseShorthand)))) :
    Splits db e (msgPreds both scope) (msgPreds one scope) (msgPreds two scope) := by
  rw [hboth, hone, htwo]
  exact h.around _ [_, _, _, _]

theorem union_folder (h1 : inKind v1 = .folder) (h2 : inKind v2 = .folder) :
    RepeatedIsUnion db scope q v1 v2 .in := by
  obtain ⟨f1, hf1, hn1⟩ := inKind_folder h1
  obtain ⟨f2, hf2, hn2⟩ := inKind_folder h2
  refine keys_of_splits (fun e => ?_) fun row => ?_
  · rw [flagPreds_in, flagPreds_in, flagPreds_in, hn1, hn2, Option.toList_none, append_nil]
    exact ⟨Iff.rfl, Iff.rfl⟩
  · refine msgPreds_in db scope q _ rfl rfl rfl ?_
    rw [inFolder_in, inFolder_in, inFolder_in, hf1, hf2]
    exact splits_orClause _ _ _ _ _

theorem splits_in_of_none (h1 : parseShorthand v1 = none) (h2 : parseShorthand v2 = none) (e : Env) :
    Splits db e (msgPreds (applyOperator (applyOperator q .in v1) .in v2) scope)
      (msgPreds (applyOperator q .in v1) scope) (msgPreds (applyOperator q .in v2) scope) := by
  refine msgPreds_in db scope q e rfl rfl rfl ?_
  rw [inFolder_in, inFolder_in, inFolder_in, h1, h2, Option.toList_none, append_nil]
  exact Splits.refl e _

theorem union_flag {clause : Pred} (h1 : inKind v1 = .flag clause) (h2 : inKind v2 = .flag clause) :
    RepeatedIsUnion db scope q v1 v2 .in := by
  obtain ⟨hp1, hf1⟩ := inKind_flag h1
  obtain ⟨hp2, hf2⟩ := inKind_flag h2
  refine keys_of_splits (fun e => ?_) fun row => splits_in_of_none db scope q v1 v2 hp1 hp2 _
  rw [flagPreds_in, flagPreds_in, flagPreds_in, hf1, hf2, holdsAll_append, holdsAll_append]
  exact ⟨and_iff_left_of_imp And.right, and_iff_left_of_imp And.right⟩

theorem union_unknown (h1 : inKind v1 = .unknown) (h2 : inKind v2 = .unknown) :
    RepeatedIsUnion db scope q v1 v2 .in := by
  obtain ⟨hp1, hf1⟩ := inKind_unknown h1
  obtain ⟨hp2, hf2⟩ := inKind_unknown h2
  refine keys_of_splits (fun e => ?_) fun row => splits_in_of_none db scope q v1 v2 hp1 hp2 _
  rw [flagPreds_in, flagPreds_in, flagPreds_in, hf1, hf2, Option.toList_none, append_nil]
  exact ⟨Iff.rfl, Iff.rfl⟩

theorem union_of_repeatsAsOr {operator : Operator} (h : RepeatsAsOr operator v1 v2) :
    RepeatedIsUnion db scope q v1 v2 operator := by
  have hsame : ∀ e : Env, ∀ ps : List Pred, (HoldsAll db ps e ↔ HoldsAll db ps e) ∧
      (HoldsAll db ps e ↔ HoldsAll db ps e) := fun _ _ => ⟨Iff.rfl, Iff.rfl⟩
  cases operator with
  | «from» =>
    refine keys_of_splits (fun e => hsame e _) fun row => ?_
    exact (splits_orClause _ fromPart q.fromVals v1 v2).around _ [_, _, _, _, _, _, _, _, _]
  | «to» =>
    refine keys_of_splits (fun e => hsame e _) fun row => ?_
    exact (splits_orClause _ toPart q.toVals v1 v2).around _ [_, _, _, _, _, _, _, _]
  | folder =>
    refine keys_of_splits (fun e => hsame e _) fun row => ?_
    exact (splits_orClause _ folderPart q.folder v1 v2).around _ [_, _, _, _, _]
  | type =>
    refine keys_of_splits (fun e => hsame e _) fun row => ?_
    exact (splits_typeClause _ q v1 v2).around _ [_, _, _]
  | account =>
    refine keys_of_splits (fun e => hsame e _) fun row => ?_
    exact (splits_accountClause _ q scope v1 v2).around _ [_]
  | label =>
    refine keys_of_splits (fun e => hsame e _) fun row => ?_
    exact (splits_orClause _ labelPart q.label v1 v2).around _ []
  | «in» =>
    have hkind := h rfl
    cases h1 : inKind v1 with
    | folder => exact union_folder db scope q v1 v2 h1 (hkind ▸ h1)
    | flag clause => exact union_flag db scope q v1 v2 h1 (hkind ▸ h1)
    | unknown => exact union_unknown db scope q v1 v2 h1 (hkind ▸ h1)

end Law

/-! ## Values that go different ways -/

section Different

/-- One thread with one message and these flags, in no folder. -/
def oneThread (starred snoozed : Int) : Db
  | "threads" => [fun
    | "account_id" => .text "a" | "id" => .text "t" | "is_starred" => .int starred
    | "is_snoozed" => .int snoozed | _ => .null]
  | "messages" => [fun
    | "account_id" => .text "a" | "thread_id" => .text "t" | _ => .null]
  | _ => []

/-- The query that only says `in:`. -/
def inQuery (values : List String) : ParsedQuery := { ParsedQuery.default with inFolder := values }

def threadOf (starred snoozed : Int) : Env := env "t" fun
  | "account_id" => .text "a"
  | "id" => .text "t"
  | "is_starred" => .int starred
  | "is_snoozed" => .int snoozed
  | _ => .null

/-- It matches that thread if it names no folder and the flags it names are set. -/
theorem mem_inQuery (starred snoozed : Int) (values : List String) :
    (.text "a", .text "t") ∈ queryThreadKeysRead (oneThread starred snoozed) (inQuery values) .all ↔
      values.filterMap parseShorthand = [] ∧
        HoldsAll (oneThread starred snoozed) (values.filterMap inFlagShorthand) (threadOf starred snoozed) := by
  have hmsg : msgPreds (inQuery values) .all =
      orPreds (texts inFolderPart (values.filterMap parseShorthand)) := by
    simp [msgPreds, inQuery, ParsedQuery.default, freeTextPreds, attachmentPreds, datePreds, typePreds,
      contactPreds, effectiveScopePreds, scopePreds, texts, orPreds]
  have hflag : flagPreds (inQuery values) = values.filterMap inFlagShorthand := by
    simp [flagPreds, inQuery, ParsedQuery.default, flagIf]
  have hfolder : ∀ e, HoldsAll (oneThread starred snoozed)
      (orPreds (texts inFolderPart (values.filterMap parseShorthand))) e ↔
      values.filterMap parseShorthand = [] := by
    intro e
    rw [orPreds]
    split
    · rename_i hnil
      have hnil' : values.filterMap parseShorthand = [] := by simpa [texts] using hnil
      exact iff_of_true (fun p hp => absurd hp not_mem_nil) hnil'
    · rename_i hne
      refine iff_of_false (fun h => ?_) (fun hnil => hne (by rw [hnil]; rfl))
      rw [holdsAll_singleton, eval_joinOr] at h
      obtain ⟨p, hp, hp'⟩ := h
      obtain ⟨part, hpart, rfl⟩ := mem_map.mp hp
      obtain ⟨v, -, rfl⟩ := mem_map.mp hpart
      cases hp'
  rw [mem_queryThreadKeysRead, hmsg]
  constructor
  · rintro ⟨t, ht, -, hf, row, -, -, hm⟩
    rw [mem_singleton.mp ht] at hf
    exact ⟨(hfolder _).mp hm, hf⟩
  · rintro ⟨hnil, hf⟩
    exact ⟨_, mem_singleton_self _, rfl, hf, _, mem_singleton_self _, ⟨rfl, rfl⟩, (hfolder _).mpr hnil⟩

theorem inFlagShorthand_cases {value : String} {clause : Pred} (h : inFlagShorthand value = some clause) :
    clause = flagClause "is_starred" 1 ∨ clause = flagClause "is_snoozed" 1 := by
  rw [inFlagShorthand] at h
  split at h
  · cases h
    exact .inl rfl
  · cases h
    exact .inr rfl
  · cases h

/-- Whether a value of this kind lets the thread through. -/
def passes (starred snoozed : Int) : InKind → Prop
  | .folder => False
  | .flag clause => eval (oneThread starred snoozed) [] clause (threadOf starred snoozed) = true
  | .unknown => True

theorem passes_values (starred snoozed : Int) (values : List String) :
    (values.filterMap parseShorthand = [] ∧ HoldsAll (oneThread starred snoozed)
      (values.filterMap inFlagShorthand) (threadOf starred snoozed)) ↔
      ∀ v ∈ values, passes starred snoozed (inKind v) := by
  induction values with
  | nil => simp [HoldsAll]
  | cons v values ih =>
    rw [forall_mem_cons, ← ih, filterMap_cons, filterMap_cons]
    cases hk : inKind v with
    | folder =>
      obtain ⟨folder, hfolder, -⟩ := inKind_folder hk
      simp [hfolder, passes]
    | flag clause =>
      obtain ⟨hnone, hflag⟩ := inKind_flag hk
      simp only [hnone, hflag, HoldsAll, forall_mem_cons]
      exact and_left_comm
    | unknown =>
      obtain ⟨hnone, hflag⟩ := inKind_unknown hk
      simp [hnone, hflag, passes]

theorem passes_iff {v1 v2 : String} (h : ∀ db scope q, RepeatedIsUnion db scope q v1 v2 .in)
    (starred snoozed : Int) : passes starred snoozed (inKind v1) ↔ passes starred snoozed (inKind v2) := by
  have hlaw := h (oneThread starred snoozed) .all (inQuery []) (.text "a", .text "t")
  have hone : ∀ values, (.text "a", .text "t") ∈
      queryThreadKeysRead (oneThread starred snoozed) (inQuery values) .all ↔
        ∀ v ∈ values, passes starred snoozed (inKind v) := by
    intro values
    rw [mem_inQuery, passes_values]
  have hboth := (hone [v1, v2]).symm.trans (hlaw.trans (or_congr (hone [v1]) (hone [v2])))
  simp only [mem_cons, not_mem_nil, or_false, forall_eq_or_imp, forall_eq] at hboth
  constructor
  · exact fun h1 => (hboth.mpr (.inl h1)).2
  · exact fun h2 => (hboth.mpr (.inr h2)).1

theorem passes_folder (starred snoozed : Int) : passes starred snoozed .folder ↔ False := Iff.rfl

theorem passes_unknown (starred snoozed : Int) : passes starred snoozed .unknown ↔ True := Iff.rfl

theorem passes_starred (starred snoozed : Int) :
    passes starred snoozed (.flag (flagClause "is_starred" 1)) ↔ starred = 1 := by
  simp [passes, flagClause, eval, evalExpr, threadOf, env, Value.eqTrue]

theorem passes_snoozed (starred snoozed : Int) :
    passes starred snoozed (.flag (flagClause "is_snoozed" 1)) ↔ snoozed = 1 := by
  simp [passes, flagClause, eval, evalExpr, threadOf, env, Value.eqTrue]

theorem inKind_cases (v : String) : inKind v = .folder ∨ inKind v = .flag (flagClause "is_starred" 1) ∨
      inKind v = .flag (flagClause "is_snoozed" 1) ∨ inKind v = .unknown := by
  cases hk : inKind v with
  | folder => exact .inl rfl
  | flag clause =>
    rcases inFlagShorthand_cases (inKind_flag hk).2 with rfl | rfl
    · exact .inr (.inl rfl)
    · exact .inr (.inr (.inl rfl))
  | unknown => exact .inr (.inr (.inr rfl))

/-- Three threads tell the kinds apart: one without flags, one starred, one snoozed. -/
theorem inKind_eq_of_passes {v1 v2 : String}
    (h : ∀ starred snoozed, passes starred snoozed (inKind v1) ↔ passes starred snoozed (inKind v2)) :
    inKind v1 = inKind v2 := by
  have hplain := h 0 0
  have hstarred := h 1 0
  have hsnoozed := h 0 1
  rcases inKind_cases v1 with h1 | h1 | h1 | h1 <;> rcases inKind_cases v2 with h2 | h2 | h2 | h2 <;>
    rw [h1, h2] at hplain hstarred hsnoozed ⊢ <;>
    simp [passes_folder, passes_unknown, passes_starred, passes_snoozed] at hplain hstarred hsnoozed

end Different

/-- For every operator and two values: the query with both matches the union on every database, with every
scope and rest of the query, iff the operator is not `in:` or the two values are of one kind. -/
theorem repeat_is_or_iff (operator : Operator) (v1 v2 : String) :
    (∀ db scope q, RepeatedIsUnion db scope q v1 v2 operator) ↔ RepeatsAsOr operator v1 v2 := by
  refine ⟨fun h hop => ?_, fun h db scope q => union_of_repeatsAsOr db scope q v1 v2 h⟩
  subst hop
  exact inKind_eq_of_passes (passes_iff h)

/-- `in:starred in:snoozed` leaves out a thread that is starred and not snoozed. -/
theorem starred_or_snoozed_missed :
    (.text "a", .text "t") ∈ queryThreadKeysRead (oneThread 1 0) (applyOperator .default .in "starred") .all ∧
    (.text "a", .text "t") ∉ queryThreadKeysRead (oneThread 1 0)
      (applyOperator (applyOperator .default .in "starred") .in "snoozed") .all := by
  decide

end Ratatoskr.SmartFolder
