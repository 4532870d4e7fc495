import Ratatoskr.App.Resolve

/-!
# App.Undo

What the undo payloads of a plan cover (`app/src/action_resolve.rs`).

The operations of a plan, its optimistic mutations and the outcomes are matched by position. `Aligned` says
that operations and mutations name the same threads; on an aligned plan both kinds of payload are the
threads that changed, regrouped (`Lib.ungroup_group`).
-/

namespace Ratatoskr.App

open List
open Actions (AccountId ThreadId FolderId LabelId MailOperation ActionOutcome)

variable {a : AccountId} {t : ThreadId} {plan : ActionExecutionPlan} {outcomes : List ActionOutcome}
  {intent : MailActionIntent} {ctx : UiContext} {resolved : ResolvedIntent}

namespace MailUndoPayload

def accountId : MailUndoPayload → AccountId
  | .archive a _ | .trash a _ _ | .moveToFolder a _ _ | .setSpam a _ _ | .setStarred a _ _
  | .setRead a _ _ | .setPinned a _ _ | .setMuted a _ _ | .addLabel a _ _ | .removeLabel a _ _
  | .applyLabelGroup a _ _ | .removeLabelGroup a _ _ | .snooze a _ => a

def threadIds : MailUndoPayload → List ThreadId
  | .archive _ ts | .trash _ ts _ | .moveToFolder _ ts _ | .setSpam _ ts _ | .setStarred _ ts _
  | .setRead _ ts _ | .setPinned _ ts _ | .setMuted _ ts _ | .addLabel _ ts _ | .removeLabel _ ts _
  | .applyLabelGroup _ ts _ | .removeLabelGroup _ ts _ | .snooze _ ts => ts

/-- The flag that a toggle's payload restores, and its value. -/
def toggled : MailUndoPayload → Option (ToggleField × Bool)
  | .setStarred _ _ previous => some (.star, previous)
  | .setRead _ _ previous => some (.read, previous)
  | .setPinned _ _ previous => some (.pin, previous)
  | .setMuted _ _ previous => some (.mute, previous)
  | _ => none

def targets (p : MailUndoPayload) : List (AccountId × ThreadId) := p.threadIds.map fun t => (p.accountId, t)

def groupKey (p : MailUndoPayload) : AccountId × Option (ToggleField × Bool) := (p.accountId, p.toggled)

end MailUndoPayload

open MailUndoPayload (targets groupKey)

/-- The outcome of the operation on this thread changed local state. -/
def Changed (plan : ActionExecutionPlan) (outcomes : List ActionOutcome) (thread : AccountId × ThreadId) :
    Prop :=
  ∃ e ∈ plan.operations.zip outcomes, (e.1.1, e.1.2.1) = thread ∧ changedLocally e.2 = true

/-- The intents that undo knows a way back from: not a permanent delete, and no move away from a view that
is no folder. -/
def Undoable (intent : MailActionIntent) (ctx : UiContext) : Prop :=
  match intent with
  | .permanentDelete => False
  | .trash => (sourceFolderForUndo ctx.selection).isSome
  | .moveToFolder _ => (sourceFolderForUndo ctx.selection).isSome
  | _ => True

theorem isTarget_iff {row : Thread} : isTarget a t row = true ↔ row.accountId = a ∧ row.id = t :=
    decide_eq_true_iff

theorem isTarget_write (a : AccountId) (t : ThreadId) (field : ToggleField) (value : Bool) (row : Thread) :
    isTarget a t (writeToggleField field value row) = isTarget a t row := by
  cases field <;> rfl

theorem find_flipped {a' : AccountId} {t' : ThreadId} (hne : (a', t') ≠ (a, t))
    (field : ToggleField) (value : Bool) (threadList : List Thread) :
    (threadList.modify (threadList.findIdx (isTarget a t)) (writeToggleField field value)).find?
      (isTarget a' t') = threadList.find? (isTarget a' t') := by
  induction threadList with
  | nil => rfl
  | cons row rows ih =>
    rw [findIdx_cons]
    cases hrow : isTarget a t row with
    | true =>
      have hother : isTarget a' t' row = false := by
        rw [Bool.eq_false_iff]
        intro hsame
        obtain ⟨rfl, rfl⟩ := isTarget_iff.mp hrow
        obtain ⟨haccount, hid⟩ := isTarget_iff.mp hsame
        exact hne (by rw [haccount, hid])
      rw [cond_true, modify_zero_cons, find?_cons, find?_cons, isTarget_write, hother]
    | false =>
      rw [cond_false, modify_succ_cons, find?_cons, find?_cons, ih]

structure Planned (field : ToggleField) (threads : List (AccountId × ThreadId)) (threadList : List Thread)
    (operations : List (AccountId × ThreadId × MailOperation)) (optimistic : List OptimisticMutation) :
    Prop where
  aligned : operations.map (fun o => (o.1, o.2.1)) = optimistic.map fun m => (m.accountId, m.threadId)
  sublist : (operations.map fun o => (o.1, o.2.1)).Sublist threads
  previous : ∀ m ∈ optimistic, m.field = field ∧
    ∃ row, threadList.find? (isTarget m.accountId m.threadId) = some row ∧
      m.previous = readToggleField field row

theorem planned_planToggle (field : ToggleField) {threads : List (AccountId × ThreadId)}
    (hdistinct : threads.Nodup) (threadList : List Thread) :
    Planned field threads threadList (planToggle field threads threadList).1.1
      (planToggle field threads threadList).1.2 := by
  induction threads generalizing threadList with
  | nil => exact ⟨rfl, .slnil, fun m hm => absurd hm not_mem_nil⟩
  | cons thread threads ih =>
    obtain ⟨a, t⟩ := thread
    obtain ⟨hfresh, hdistinct⟩ := nodup_cons.mp hdistinct
    rw [planToggle]
    split
    · have hrest := ih hdistinct threadList
      exact ⟨hrest.aligned, hrest.sublist.cons _, hrest.previous⟩
    next row hfind =>
    have hrest := ih hdistinct
      (threadList.modify (threadList.findIdx (isTarget a t))
        (writeToggleField field (!readToggleField field row)))
    refine ⟨?_, hrest.sublist.cons_cons _, ?_⟩
    · rw [map_cons, map_cons, hrest.aligned]
    · intro m hm
      rcases mem_cons.mp hm with rfl | hin
      · exact ⟨rfl, row, hfind, rfl⟩
      obtain ⟨hfield, found, hfound, hprevious⟩ := hrest.previous m hin
      have hmem : (m.accountId, m.threadId) ∈ threads := by
        refine hrest.sublist.subset ?_
        rw [hrest.aligned]
        exact mem_map_of_mem hin
      have hne : (m.accountId, m.threadId) ≠ (a, t) := fun heq => hfresh (heq ▸ hmem)
      rw [find_flipped hne] at hfound
      exact ⟨hfield, found, hfound, hprevious⟩

theorem mem_standardEntries {thread : AccountId × ThreadId} :
    thread ∈ standardEntries plan outcomes ↔ Changed plan outcomes thread := by
  rw [standardEntries, mem_map]
  constructor
  · rintro ⟨e, he, heq⟩
    obtain ⟨hin, hchanged⟩ := mem_filter.mp he
    exact ⟨e, hin, heq, hchanged⟩
  · rintro ⟨e, hin, heq, hchanged⟩
    exact ⟨e, mem_filter.mpr ⟨hin, hchanged⟩, heq⟩

theorem zip_changed {α β : Type} (f : α → β) (l : List α) (outcomes : List ActionOutcome) :
    ((l.zip outcomes).filter fun e => changedLocally e.2).map (fun e => f e.1) =
      (((l.map f).zip outcomes).filter fun e => changedLocally e.2).map Prod.fst := by
  rw [zip_map_left, filter_map, map_map]
  rfl

theorem standardEntries_nodup (hlength : outcomes.length = plan.operations.length)
    (h : (plan.operations.map fun o => (o.1, o.2.1)).Nodup) : (standardEntries plan outcomes).Nodup := by
  have heq := zip_changed (fun o : AccountId × ThreadId × MailOperation => (o.1, o.2.1))
    plan.operations outcomes
  rw [standardEntries, heq]
  refine List.Nodup.sublist (List.filter_sublist.map Prod.fst) ?_
  rwa [map_fst_zip (by rw [length_map, hlength])]

theorem toggleEntries_map (outcomes : List ActionOutcome)
    (h : plan.operations.map (fun o => (o.1, o.2.1)) =
      plan.optimistic.map fun m => (m.accountId, m.threadId)) :
    (toggleEntries plan outcomes).map (fun e => ((ofLex e.1).1, e.2)) = standardEntries plan outcomes := by
  have hoperations := zip_changed (fun o : AccountId × ThreadId × MailOperation => (o.1, o.2.1))
    plan.operations outcomes
  have hoptimistic := zip_changed (fun m : OptimisticMutation => (m.accountId, m.threadId))
    plan.optimistic outcomes
  rw [standardEntries, hoperations, h, ← hoptimistic, toggleEntries, map_map]
  rfl

theorem standardEntries_failed (h : outcomes.all isFailed = true) : standardEntries plan outcomes = [] := by
  rw [eq_nil_iff_forall_not_mem]
  intro thread hmem
  obtain ⟨e, hin, -, hchanged⟩ := mem_standardEntries.mp hmem
  have hfailed := all_eq_true.mp h e.2 (of_mem_zip hin).2
  cases houtcome : e.2 with
  | failed error =>
    rw [houtcome] at hchanged
    cases hchanged
  | success =>
    rw [houtcome] at hfailed
    cases hfailed
  | noOp =>
    rw [houtcome] at hfailed
    cases hfailed
  | localOnly reason retryable =>
    rw [houtcome] at hfailed
    cases hfailed

/-! ## Payloads -/

/-- The payloads are the threads of `entries`, each once, no two payloads under one key. -/
structure Covers (payloads : List MailUndoPayload) (entries : List (AccountId × ThreadId)) : Prop where
  covered : (payloads.flatMap targets).Perm entries
  separate : (payloads.map groupKey).Nodup
  inhabited : ∀ p ∈ payloads, p.threadIds ≠ []

theorem Covers.nil : Covers [] [] :=
  ⟨List.Perm.refl _, nodup_nil, fun _ h => absurd h not_mem_nil⟩

/-- Groups made into payloads that name the group's threads under its account. -/
theorem covers_groups {κ : Type} [LinearOrder κ] {account : κ → AccountId}
    {flag : κ → Option (ToggleField × Bool)} {payload : κ → List ThreadId → MailUndoPayload}
    (haccount : ∀ k ts, (payload k ts).accountId = account k)
    (hthreads : ∀ k ts, (payload k ts).threadIds = ts) (hflag : ∀ k ts, (payload k ts).toggled = flag k)
    (hinj : Function.Injective fun k => (account k, flag k)) (entries : List (κ × ThreadId)) :
    Covers ((Lib.group entries).map fun g => payload g.1 g.2)
      (entries.map fun e => (account e.1, e.2)) := by
  refine ⟨?_, ?_, ?_⟩
  · have htargets : ∀ g : κ × List ThreadId, targets (payload g.1 g.2) =
        (g.2.map fun t => (g.1, t)).map fun e => (account e.1, e.2) := by
      intro g
      rw [targets, hthreads, haccount, map_map]
      rfl
    have hflat : ((Lib.group entries).map fun g => payload g.1 g.2).flatMap targets =
        (Lib.ungroup (Lib.group entries)).map fun e => (account e.1, e.2) := by
      rw [flatMap_map, Lib.ungroup, map_flatMap]
      exact flatMap_congr fun g _ => htargets g
    rw [hflat]
    exact (Lib.ungroup_group entries).map _
  · have hkeys : ((Lib.group entries).map fun g => payload g.1 g.2).map groupKey =
        ((Lib.group entries).map Prod.fst).map fun k => (account k, flag k) := by
      rw [map_map, map_map]
      exact map_congr_left fun g _ => by
        show (_, _) = (_, _)
        rw [haccount, hflag]
    rw [hkeys]
    exact (Lib.group_keys_nodup entries).map hinj
  · intro p hp
    obtain ⟨g, hg, rfl⟩ := mem_map.mp hp
    rw [hthreads]
    exact Lib.group_nonempty entries g hg

theorem covers_toggle (field : ToggleField) (entries : List ((AccountId ×ₗ Bool) × ThreadId)) :
    Covers ((Lib.group entries).map fun g => togglePayload field (ofLex g.1).1 (ofLex g.1).2 g.2)
      (entries.map fun e => ((ofLex e.1).1, e.2)) := by
  have hflag : ∀ (k : AccountId ×ₗ Bool) (ts : List ThreadId),
      (togglePayload field (ofLex k).1 (ofLex k).2 ts).toggled = some (field, (ofLex k).2) := by
    intro k ts
    cases field <;> rfl
  refine covers_groups ?_ ?_ hflag ?_ entries
  · intro k ts
    cases field <;> rfl
  · intro k ts
    cases field <;> rfl
  · intro k k' h
    obtain ⟨haccount, hflag⟩ := Prod.mk.inj h
    have hprevious := (Prod.mk.inj (Option.some.inj hflag)).2
    exact ofLex.injective (Prod.ext haccount hprevious)

/-- Operations with a way back: the payload names the group's threads under its account. -/
def Reversed (operation : MailOperation) (compensation : CompensationContext) : Prop :=
  ∃ payload : AccountId → List ThreadId → MailUndoPayload,
    (∀ a ts, standardPayload operation compensation a ts = some (payload a ts)) ∧
    (∀ a ts, (payload a ts).accountId = a) ∧ (∀ a ts, (payload a ts).threadIds = ts) ∧
    ∃ flag, ∀ a ts, (payload a ts).toggled = flag

theorem covers_standard {operation : MailOperation} {compensation : CompensationContext}
    (h : Reversed operation compensation) (entries : List (AccountId × ThreadId)) :
    Covers ((Lib.group entries).filterMap fun g => standardPayload operation compensation g.1 g.2)
      entries := by
  obtain ⟨payload, hpayload, haccount, hthreads, flag, hflag⟩ := h
  have hcovers : Covers ((Lib.group entries).map fun g => payload g.1 g.2)
      (entries.map fun e => (id e.1, e.2)) :=
    covers_groups haccount hthreads hflag (fun _ _ heq => (Prod.mk.inj heq).1) entries
  have hmap : ((Lib.group entries).filterMap fun g => standardPayload operation compensation g.1 g.2) =
      (Lib.group entries).map fun g => payload g.1 g.2 := by
    rw [← filterMap_eq_map]
    exact filterMap_congr fun g _ => hpayload g.1 g.2
  rw [hmap]
  rwa [show (entries.map fun e => (id e.1, e.2)) = entries from map_id _] at hcovers

/-- A plan whose operations and mutations name the same distinct threads. -/
structure Aligned (plan : ActionExecutionPlan) : Prop where
  distinct : (plan.operations.map fun o => (o.1, o.2.1)).Nodup
  optimistic : plan.optimistic = [] ∨
    plan.operations.map (fun o => (o.1, o.2.1)) = plan.optimistic.map fun m => (m.accountId, m.threadId)

theorem mem_toggle_payloads {field : ToggleField} {p : MailUndoPayload}
    (h : p ∈ (Lib.group (toggleEntries plan outcomes)).map fun g =>
      togglePayload field (ofLex g.1).1 (ofLex g.1).2 g.2) :
    ∀ t ∈ p.threadIds, ∃ m ∈ plan.optimistic,
      m.accountId = p.accountId ∧ m.threadId = t ∧ p.toggled = some (field, m.previous) := by
  obtain ⟨g, hg, rfl⟩ := mem_map.mp h
  have hthreads : (togglePayload field (ofLex g.1).1 (ofLex g.1).2 g.2).threadIds = g.2 := by
    cases field <;> rfl
  intro t ht
  rw [hthreads] at ht
  have hungroup : (g.1, t) ∈ Lib.ungroup (Lib.group (toggleEntries plan outcomes)) :=
    mem_flatMap.mpr ⟨g, hg, mem_map_of_mem ht⟩
  have hentry := (Lib.ungroup_group _).mem_iff.mp hungroup
  obtain ⟨e, he, heq⟩ := mem_map.mp hentry
  obtain ⟨hkey, hid⟩ := Prod.mk.inj heq
  refine ⟨e.1, (of_mem_zip (mem_filter.mp he).1).1, ?_, hid, ?_⟩
  · rw [← hkey]
    cases field <;> rfl
  · rw [← hkey]
    cases field <;> rfl

theorem undo_covers (h : Aligned plan) (hlength : outcomes.length = plan.operations.length)
    (hundo : plan.behavior.undo = .reversible)
    (hreversed : plan.optimistic = [] → ∀ o ∈ plan.operations, Reversed o.2.2 plan.compensation) :
    ∃ payloads, buildUndoPayloads plan outcomes = some payloads ∧
      Covers payloads (standardEntries plan outcomes) ∧
      (plan.optimistic ≠ [] → ∀ p ∈ payloads, ∃ first ∈ plan.optimistic, ∀ t ∈ p.threadIds,
        ∃ m ∈ plan.optimistic, m.accountId = p.accountId ∧ m.threadId = t ∧
          p.toggled = some (first.field, m.previous)) := by
  unfold buildUndoPayloads
  rw [if_neg (by rw [hundo]; decide)]
  by_cases hfailed : outcomes.all isFailed = true
  · rw [if_pos hfailed, standardEntries_failed hfailed]
    exact ⟨[], rfl, .nil, fun _ p hp => absurd hp not_mem_nil⟩
  rw [if_neg hfailed]
  by_cases hoptimistic : plan.optimistic = []
  · rw [if_neg (not_not.mpr hoptimistic), buildStandardUndoPayloads]
    cases hoperations : plan.operations with
    | nil =>
      rw [hoperations] at hlength
      rw [length_eq_zero_iff.mp hlength] at hfailed
      exact absurd rfl hfailed
    | cons first rest =>
      refine ⟨_, rfl, covers_standard (hreversed hoptimistic first ?_) _, fun hne => absurd hoptimistic hne⟩
      rw [hoperations]
      exact mem_cons_self ..
  · rw [buildToggleUndoPayloads]
    cases hfirst : plan.optimistic with
    | nil => exact absurd hfirst hoptimistic
    | cons first rest =>
      have hcovers := covers_toggle first.field (toggleEntries plan outcomes)
      rw [toggleEntries_map outcomes (h.optimistic.resolve_left hoptimistic)] at hcovers
      refine ⟨_, rfl, hcovers, fun _ p hp => ⟨first, mem_cons_self .., fun t ht => ?_⟩⟩
      rw [← hfirst]
      exact mem_toggle_payloads hp t ht

theorem reversed_standard (hresolve : resolveIntent intent ctx = .resolved resolved)
    (h : Undoable intent ctx) : (completionBehavior resolved.operation).undo = .reversible ∧
      Reversed resolved.operation resolved.compensation := by
  cases intent with
  | permanentDelete => exact h.elim
  | archive =>
    cases hresolve
    exact ⟨rfl, _, fun _ _ => rfl, fun _ _ => rfl, fun _ _ => rfl, _, fun _ _ => rfl⟩
  | trash =>
    cases hresolve
    obtain ⟨source, hsource⟩ := Option.isSome_iff_exists.mp h
    refine ⟨rfl, ?_⟩
    rw [hsource]
    exact ⟨_, fun _ _ => rfl, fun _ _ => rfl, fun _ _ => rfl, _, fun _ _ => rfl⟩
  | moveToFolder folderId =>
    cases hresolve
    obtain ⟨source, hsource⟩ := Option.isSome_iff_exists.mp h
    refine ⟨rfl, ?_⟩
    rw [hsource]
    exact ⟨_, fun _ _ => rfl, fun _ _ => rfl, fun _ _ => rfl, _, fun _ _ => rfl⟩
  | toggleSpam =>
    cases hresolve
    exact ⟨rfl, _, fun _ _ => rfl, fun _ _ => rfl, fun _ _ => rfl, _, fun _ _ => rfl⟩
  | addLabel labelId =>
    cases hresolve
    exact ⟨rfl, _, fun _ _ => rfl, fun _ _ => rfl, fun _ _ => rfl, _, fun _ _ => rfl⟩
  | removeLabel labelId =>
    cases hresolve
    exact ⟨rfl, _, fun _ _ => rfl, fun _ _ => rfl, fun _ _ => rfl, _, fun _ _ => rfl⟩
  | applyLabelGroup groupId =>
    cases hresolve
    exact ⟨rfl, _, fun _ _ => rfl, fun _ _ => rfl, fun _ _ => rfl, _, fun _ _ => rfl⟩
  | removeLabelGroup groupId =>
    cases hresolve
    exact ⟨rfl, _, fun _ _ => rfl, fun _ _ => rfl, fun _ _ => rfl, _, fun _ _ => rfl⟩
  | snooze wakeAt =>
    cases hresolve
    exact ⟨rfl, _, fun _ _ => rfl, fun _ _ => rfl, fun _ _ => rfl, _, fun _ _ => rfl⟩
  | toggleStar => cases hresolve
  | toggleRead => cases hresolve
  | togglePin => cases hresolve
  | toggleMute => cases hresolve
  | unsubscribe => cases hresolve

theorem undo_nothing (hlength : outcomes.length = plan.operations.length) (hoptimistic : plan.optimistic = [])
    (hnone : ∀ o ∈ plan.operations, ∀ a ts, standardPayload o.2.2 plan.compensation a ts = none) :
    buildUndoPayloads plan outcomes = some [] := by
  unfold buildUndoPayloads
  split
  · rfl
  split
  · rfl
  next hfailed =>
  rw [if_neg (not_not.mpr hoptimistic), buildStandardUndoPayloads]
  cases hoperations : plan.operations with
  | nil =>
    rw [hoperations] at hlength
    rw [length_eq_zero_iff.mp hlength] at hfailed
    exact absurd rfl hfailed
  | cons first rest =>
    have hfirst := hnone first (by rw [hoperations]; exact mem_cons_self ..)
    exact congrArg some (filterMap_eq_nil_iff.mpr fun g _ => hfirst g.1 g.2)

theorem standardPayload_none (hresolve : resolveIntent intent ctx = .resolved resolved)
    (h : ¬Undoable intent ctx) (a : AccountId) (ts : List ThreadId) :
    standardPayload resolved.operation resolved.compensation a ts = none := by
  cases intent with
  | permanentDelete =>
    cases hresolve
    rfl
  | trash =>
    cases hresolve
    have hsource := Option.not_isSome_iff_eq_none.mp h
    rw [hsource]
    rfl
  | moveToFolder folderId =>
    cases hresolve
    have hsource := Option.not_isSome_iff_eq_none.mp h
    rw [hsource]
    rfl
  | _ => exact absurd trivial h

/-- Undo covers what was done, for every intent that has a way back: each thread that changed is in one
payload, once, under its account, and a toggle's payload has the flag that the thread had before. For the
others there is no payload. -/
theorem undo_of_plan {intent : MailActionIntent} {ctx : UiContext} {threads : List (AccountId × ThreadId)}
    {threadList left : List Thread} {plan : ActionExecutionPlan} {outcomes : List ActionOutcome}
    (hdistinct : threads.Nodup)
    (hplan : buildExecutionPlan (resolveIntent intent ctx) threads threadList = (some plan, left))
    (hlength : outcomes.length = plan.operations.length) :
    ∃ payloads, buildUndoPayloads plan outcomes = some payloads ∧ (¬Undoable intent ctx → payloads = []) ∧
      (Undoable intent ctx →
        (payloads.flatMap targets).Nodup ∧
        (∀ thread, thread ∈ payloads.flatMap targets ↔ Changed plan outcomes thread) ∧
        (payloads.map groupKey).Nodup ∧ (∀ p ∈ payloads, p.threadIds ≠ []) ∧
        ∀ field compensation, resolveIntent intent ctx = .perThreadToggle field compensation →
          ∀ p ∈ payloads, ∀ t ∈ p.threadIds, ∃ row, threadList.find? (isTarget p.accountId t) = some row ∧
            p.toggled = some (field, readToggleField field row)) := by
  cases hresolve : resolveIntent intent ctx with
  | noOp =>
    rw [hresolve] at hplan
    cases hplan
  | resolved resolved =>
    rw [hresolve] at hplan
    cases hplan
    have htargets : (threads.map fun thread => (thread.1, thread.2, resolved.operation)).map
        (fun o => (o.1, o.2.1)) = threads := by
      rw [map_map]
      exact map_id _
    by_cases hundo : Undoable intent ctx
    · obtain ⟨hreversible, hreversed⟩ := reversed_standard hresolve hundo
      obtain ⟨payloads, hpayloads, hcovers, -⟩ := undo_covers
        ⟨by rwa [htargets], .inl rfl⟩ hlength hreversible fun _ o ho => by
          obtain ⟨thread, -, rfl⟩ := mem_map.mp ho
          exact hreversed
      refine ⟨payloads, hpayloads, fun hno => absurd hundo hno, fun _ => ⟨?_, ?_, hcovers.separate,
        hcovers.inhabited, fun field compensation heq => by cases heq⟩⟩
      · exact hcovers.covered.nodup_iff.mpr (standardEntries_nodup hlength (by rwa [htargets]))
      · intro thread
        rw [hcovers.covered.mem_iff, mem_standardEntries]
    · refine ⟨[], undo_nothing hlength rfl fun o ho a ts => ?_, fun _ => rfl, fun h => absurd h hundo⟩
      obtain ⟨thread, -, rfl⟩ := mem_map.mp ho
      exact standardPayload_none hresolve hundo a ts
  | perThreadToggle field compensation =>
    rw [hresolve] at hplan
    cases hplan
    have hplanned := planned_planToggle field hdistinct threadList
    have hundo : Undoable intent ctx := by
      cases intent with
      | toggleStar => trivial
      | toggleRead => trivial
      | togglePin => trivial
      | toggleMute => trivial
      | _ => cases hresolve
    have hnodup := hplanned.sublist.nodup hdistinct
    have hempty : (planToggle field threads threadList).1.2 = [] →
        (planToggle field threads threadList).1.1 = [] := by
      intro hnone
      have haligned := hplanned.aligned
      rwa [hnone, map_nil, map_eq_nil_iff] at haligned
    obtain ⟨payloads, hpayloads, hcovers, hprevious⟩ := undo_covers
      ⟨hnodup, .inr hplanned.aligned⟩ hlength (by cases field <;> rfl) fun hnone o ho => by
        rw [show _ = [] from hempty hnone] at ho
        cases ho
    have hmem : ∀ thread, thread ∈ payloads.flatMap targets ↔ Changed _ outcomes thread := fun thread => by
      rw [hcovers.covered.mem_iff, mem_standardEntries]
    refine ⟨payloads, hpayloads, fun hno => absurd hundo hno, fun _ => ⟨?_, hmem, hcovers.separate,
      hcovers.inhabited, fun field' compensation' heq p hp t ht => ?_⟩⟩
    · exact hcovers.covered.nodup_iff.mpr (standardEntries_nodup hlength hnodup)
    · cases heq
      have hoptimistic : (planToggle field threads threadList).1.2 ≠ [] := by
        intro hnone
        obtain ⟨e, he, -⟩ := (hmem (p.accountId, t)).mp
          (mem_flatMap.mpr ⟨p, hp, mem_map_of_mem ht⟩)
        have hin := (of_mem_zip he).1
        rw [show _ = [] from hempty hnone] at hin
        cases hin
      obtain ⟨first, hfirst, hrest⟩ := hprevious hoptimistic p hp
      obtain ⟨m, hm, haccount, hid, htoggled⟩ := hrest t ht
      obtain ⟨-, row, hrow, hflag⟩ := hplanned.previous m hm
      rw [haccount, hid] at hrow
      refine ⟨row, hrow, ?_⟩
      rw [htoggled, (hplanned.previous first hfirst).1, hflag]

def twoThreads : List Thread :=
  [⟨"work", "t1", true, false, false, false⟩, ⟨"work", "t2", false, false, false, false⟩]

theorem undo_of_two_stars :
    ∃ plan left, buildExecutionPlan (resolveIntent .toggleStar ⟨.inbox⟩) [("work", "t1"), ("work", "t2")]
        twoThreads = (some plan, left) ∧
      ∃ payloads, buildUndoPayloads plan [.success, .noOp] = some payloads ∧
        (payloads.flatMap targets).Nodup ∧
        ∀ thread, thread ∈ payloads.flatMap targets ↔ Changed plan [.success, .noOp] thread := by
  obtain ⟨plan, left, hplan, hlength⟩ :
      ∃ plan left, buildExecutionPlan (resolveIntent .toggleStar ⟨.inbox⟩)
          [("work", "t1"), ("work", "t2")] twoThreads = (some plan, left) ∧
        [ActionOutcome.success, .noOp].length = plan.operations.length := ⟨_, _, rfl, by decide⟩
  obtain ⟨payloads, hpayloads, -, hcovers⟩ := undo_of_plan (by decide) hplan hlength
  exact ⟨plan, left, hplan, payloads, hpayloads, (hcovers trivial).1, (hcovers trivial).2.1⟩

/-- A permanent delete that succeeds is not undone, and has no payload. -/
theorem permanentDelete_uncovered :
    ¬∀ (intent : MailActionIntent) (ctx : UiContext) (threads : List (AccountId × ThreadId))
        (threadList left : List Thread) (plan : ActionExecutionPlan) (outcomes : List ActionOutcome),
      threads.Nodup → buildExecutionPlan (resolveIntent intent ctx) threads threadList = (some plan, left) →
      outcomes.length = plan.operations.length → ∃ payloads, buildUndoPayloads plan outcomes = some payloads ∧
        ∀ thread, thread ∈ payloads.flatMap targets ↔ Changed plan outcomes thread := by
  intro hclaim
  obtain ⟨payloads, hpayloads, hcovers⟩ := hclaim .permanentDelete ⟨.inbox⟩ [("work", "t1")] twoThreads
    twoThreads _ [.success] (by decide) rfl rfl
  have hchanged := (hcovers ("work", "t1")).mpr
    ⟨(("work", "t1", .permanentDelete), .success), mem_singleton_self _, rfl, rfl⟩
  cases hpayloads
  cases hchanged

end Ratatoskr.App
