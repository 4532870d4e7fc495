import Ratatoskr.Lib.Run
import Ratatoskr.Labels.Tables

/-!
# Labels.Intents

Several label and label-group actions on one thread. Each upserts its intents, keeps the generation that
the upsert returned, and later attaches an action id to its rows or deletes them; the provider's truth
moves the generation in between. Nothing in a row says whose it is: an action finds its rows again by
label, op and generation.

`lastUpsert` and `issued` are kept beside the tables to say which action wrote a row last and which rows
an action may still look for; no step reads `lastUpsert`.

* `Found.step` : what an action finds is its own, as long as no two actions in flight upsert the same
  label and op at one generation.
* `intents_belong_to_writer` : no attach or delete then changes another action's row.
* `delete_takes_another_row` : two actions that add the same label.
-/

namespace Ratatoskr.Labels

open List
open Lib (Table Reaches)

/-- `α` is the type of the actions. -/
structure Writers (α : Type) where
  db : Tables
  lastUpsert : LabelId → Option α
  issued : α → List (PendingLabelIntent × Nat)

inductive IntentAct (α : Type) where
  | upsert (action : α) (intents : List PendingLabelIntent) (actionId : Option String)
  | attach (action : α) (intents : List PendingLabelIntent) (generationSeen : Nat) (actionId : String)
  | delete (action : α) (intents : List PendingLabelIntent) (generationSeen : Nat)
  | confirm (intents : List PendingLabelIntent)
  | recompute
  | finish (action : α)

/-- Whether the action upserted these intents and got this generation back. -/
def ownIntents {α : Type} (s : Writers α) (action : α) (intents : List PendingLabelIntent)
    (generationSeen : Nat) : Bool :=
  intents.all (fun intent => (intent, generationSeen) ∈ s.issued action)

section Steps

variable {α : Type} [DecidableEq α] (thread : ThreadId)

def intentStep (s : Writers α) : IntentAct α → Except String (Writers α)
  | .upsert action intents actionId =>
    match upsertPendingThreadLabelIntents s.db thread intents actionId with
    | none => .error "read thread generation"
    | some (db, generation) =>
      .ok {
        db
        lastUpsert := fun l => if l ∈ intents.map Prod.fst then some action else s.lastUpsert l
        issued := Function.update s.issued action
          (intents.map (fun intent => (intent, generation)) ++ s.issued action) }
  | .attach action intents generationSeen actionId =>
    if ownIntents s action intents generationSeen then
      .ok { s with
        db := attachActionIdToPendingThreadLabelIntents s.db thread intents generationSeen actionId }
    else .error "not the action's intents"
  | .delete action intents generationSeen =>
    if ownIntents s action intents generationSeen then
      .ok { s with db := deletePendingThreadLabelIntentsForLabels s.db thread intents generationSeen }
    else .error "not the action's intents"
  | .confirm intents => .ok { s with db := confirmedProviderLabelIntents s.db thread intents }
  | .recompute => .ok { s with db := recomputeThreadLabelsFromMessages s.db thread }
  | .finish action => .ok { s with issued := Function.update s.issued action [] }

/-- The actions before any of them has upserted; the tables are any. -/
def Writers.initial (db : Tables) : Writers α := ⟨db, fun _ => none, fun _ => []⟩

/-- An upsert does not repeat a label, op and generation of another action in flight. -/
def Distinguishable (s : Writers α) : IntentAct α → Prop
  | .upsert action intents _ => ∀ other, other ≠ action → ∀ intent ∈ intents, ∀ generation,
      s.db.threads.lookup thread = some generation → (intent, generation) ∉ s.issued other
  | _ => True

end Steps

section Rows

variable {db : Tables} {thread : ThreadId}

/-- An upserted label has the row of one of the intents, another label keeps its row. -/
theorem lookup_upserted (thread : ThreadId) (intents : List PendingLabelIntent) (generation : Nat)
    (actionId : Option String) (t : Table (ThreadId × LabelId) IntentRow) (l : LabelId) :
    (l ∉ intents.map Prod.fst ∧ (intents.foldl (fun t intent =>
        t.insert (thread, intent.1) ⟨intent.2, generation, actionId⟩) t).lookup (thread, l) =
        t.lookup (thread, l)) ∨
    ∃ op, (l, op) ∈ intents ∧ (intents.foldl (fun t intent =>
        t.insert (thread, intent.1) ⟨intent.2, generation, actionId⟩) t).lookup (thread, l) =
        some ⟨op, generation, actionId⟩ := by
  induction intents generalizing t with
  | nil => exact .inl ⟨not_mem_nil, rfl⟩
  | cons intent intents ih =>
    rw [foldl_cons]
    obtain ⟨label, op⟩ := intent
    rcases ih (t.insert (thread, label) ⟨op, generation, actionId⟩) with ⟨hout, heq⟩ | ⟨op', hin, heq⟩
    · rw [heq, Table.lookup_insert_if]
      by_cases hl : l = label
      · subst hl
        exact .inr ⟨op, mem_cons_self .., if_pos rfl⟩
      · refine .inl ⟨?_, if_neg (fun h => hl (congrArg Prod.snd h))⟩
        simp only [map_cons, mem_cons, not_or]
        exact ⟨hl, hout⟩
    · exact .inr ⟨op', mem_cons_of_mem _ hin, heq⟩

def Misses (intents : List PendingLabelIntent) (generationSeen : Nat) (l : LabelId) (row : IntentRow) :
    Prop := ∀ intent ∈ intents, intent.1 = l → row.matches intent.2 generationSeen = false

theorem attach_frame (intents : List PendingLabelIntent) (generationSeen : Nat) (actionId : String)
    {l : LabelId} (h : ∀ row, db.intents.lookup (thread, l) = some row → Misses intents generationSeen l row) :
    (attachActionIdToPendingThreadLabelIntents db thread intents generationSeen actionId).intents.lookup
      (thread, l) = db.intents.lookup (thread, l) := by
  simp only [attachActionIdToPendingThreadLabelIntents]
  generalize db.intents = t at h
  induction intents generalizing t with
  | nil => rfl
  | cons intent intents ih =>
    have hsame : (t.update (fun key row =>
        if key = (thread, intent.1) ∧ row.matches intent.2 generationSeen then
          { row with actionId := some actionId }
        else row)).lookup (thread, l) = t.lookup (thread, l) := by
      rw [Table.lookup_update]
      cases hrow : t.lookup (thread, l) with
      | none => rfl
      | some row =>
        rw [Option.map_some, if_neg]
        rintro ⟨hkey, hmatch⟩
        rw [h row hrow intent (mem_cons_self ..) (congrArg Prod.snd hkey).symm] at hmatch
        cases hmatch
    rw [foldl_cons, ih _ fun row hrow i hi => h row (hsame ▸ hrow) i (mem_cons_of_mem _ hi)]
    exact hsame

variable {row : IntentRow}

theorem attach_keeps (intents : List PendingLabelIntent) (generationSeen : Nat) (actionId : String)
    {l : LabelId}
    (h : (attachActionIdToPendingThreadLabelIntents db thread intents generationSeen
      actionId).intents.lookup (thread, l) = some row) :
    ∃ before, db.intents.lookup (thread, l) = some before ∧ before.op = row.op ∧
      before.generationSeen = row.generationSeen := by
  simp only [attachActionIdToPendingThreadLabelIntents] at h
  generalize db.intents = t at h ⊢
  induction intents generalizing t with
  | nil => exact ⟨row, h, rfl, rfl⟩
  | cons intent intents ih =>
    obtain ⟨mid, hmid, hop, hgen⟩ := ih _ h
    rw [Table.lookup_update, Option.map_eq_some_iff] at hmid
    obtain ⟨before, hbefore, rfl⟩ := hmid
    refine ⟨before, hbefore, ?_, ?_⟩
    · rw [← hop]
      split <;> rfl
    · rw [← hgen]
      split <;> rfl

theorem delete_frame (intents : List PendingLabelIntent) (generationSeen : Nat) {l : LabelId}
    (h : ∀ row, db.intents.lookup (thread, l) = some row → Misses intents generationSeen l row) :
    (deletePendingThreadLabelIntentsForLabels db thread intents generationSeen).intents.lookup
      (thread, l) = db.intents.lookup (thread, l) := by
  simp only [deletePendingThreadLabelIntentsForLabels]
  generalize db.intents = t at h
  induction intents generalizing t with
  | nil => rfl
  | cons intent intents ih =>
    have hsame : (t.restrict (fun key row =>
        !(key = (thread, intent.1) ∧ row.matches intent.2 generationSeen))).lookup (thread, l) =
        t.lookup (thread, l) := by
      rw [Table.lookup_restrict]
      cases hrow : t.lookup (thread, l) with
      | none => rfl
      | some row =>
        rw [Option.filter_some, if_pos]
        rw [Bool.not_eq_true', decide_eq_false_iff_not]
        rintro ⟨hkey, hmatch⟩
        rw [h row hrow intent (mem_cons_self ..) (congrArg Prod.snd hkey).symm] at hmatch
        cases hmatch
    rw [foldl_cons, ih _ fun row hrow i hi => h row (hsame ▸ hrow) i (mem_cons_of_mem _ hi)]
    exact hsame

theorem delete_shrinks (intents : List PendingLabelIntent) (generationSeen : Nat)
    {key : ThreadId × LabelId}
    (h : (deletePendingThreadLabelIntentsForLabels db thread intents generationSeen).intents.lookup key =
      some row) : db.intents.lookup key = some row := by
  simp only [deletePendingThreadLabelIntentsForLabels] at h
  generalize db.intents = t at h ⊢
  induction intents generalizing t with
  | nil => exact h
  | cons intent intents ih =>
    have hmid := ih _ h
    rw [Table.lookup_restrict, Option.filter_eq_some_iff] at hmid
    exact hmid.1

theorem finalize_shrinks {key : ThreadId × LabelId}
    (h : (finalizeProviderTruthLabelMembership db thread).intents.lookup key = some row) :
    db.intents.lookup key = some row := by
  rw [finalizeProviderTruthLabelMembership, clearSatisfiedPendingThreadLabelIntents,
    Table.lookup_restrict, Option.filter_eq_some_iff] at h
  exact h.1

theorem confirmIntents_intents (db : Tables) (thread : ThreadId) (intents : List PendingLabelIntent) :
    (intents.foldl (fun db intent => confirmIntent db thread intent) db).intents = db.intents := by
  induction intents generalizing db with
  | nil => rfl
  | cons intent intents ih =>
    rw [foldl_cons, ih, confirmIntent]
    split <;> rfl

end Rows

/-! ## Runs -/

section Runs

variable {α : Type} [DecidableEq α] {thread : ThreadId} {s s' : Writers α}

/-- A row that an action would find again by label, op and generation was last upserted by it. -/
def Found (thread : ThreadId) (s : Writers α) : Prop :=
  ∀ action l op generation row, ((l, op), generation) ∈ s.issued action →
    s.db.intents.lookup (thread, l) = some row → row.matches op generation →
    s.lastUpsert l = some action

omit [DecidableEq α] in
theorem Found.of_shrink (h : Found thread s) (howner : s'.lastUpsert = s.lastUpsert)
    (hissued : ∀ action i, i ∈ s'.issued action → i ∈ s.issued action)
    (hrow : ∀ l row, s'.db.intents.lookup (thread, l) = some row →
      ∃ before, s.db.intents.lookup (thread, l) = some before ∧ before.op = row.op ∧
        before.generationSeen = row.generationSeen) : Found thread s' := by
  intro action l op generation row hin hlook hmatch
  obtain ⟨before, hbefore, hop, hgen⟩ := hrow l row hlook
  rw [howner]
  refine h action l op generation before (hissued action _ hin) hbefore ?_
  rw [IntentRow.matches, hop, hgen]
  exact hmatch

variable {intents : List PendingLabelIntent}

theorem Found.upsert (h : Found thread s) {action : α}
    {actionId : Option String} (hok : Distinguishable thread s (.upsert action intents actionId))
    (hs : intentStep thread s (.upsert action intents actionId) = .ok s') : Found thread s' := by
  simp only [intentStep, upsertPendingThreadLabelIntents] at hs
  cases hg : s.db.threads.lookup thread with
  | none =>
    simp only [hg] at hs
    cases hs
  | some generation =>
    simp only [hg] at hs
    cases hs
    intro other l op g row hin hlook hmatch
    simp only at hin hlook
    rcases lookup_upserted thread intents generation actionId s.db.intents l with ⟨hout, heq⟩ | ⟨op', hop', heq⟩
    · -- a label the upsert did not write: its row and its owner are as before
      have hold : ((l, op), g) ∈ s.issued other := by
        by_cases ho : other = action
        · subst ho
          rw [Function.update_self] at hin
          rcases mem_append.mp hin with hnew | hold
          · obtain ⟨intent, hi, hpair⟩ := mem_map.mp hnew
            cases hpair
            exact absurd (mem_map_of_mem hi) hout
          · exact hold
        · rwa [Function.update_of_ne ho] at hin
      simp only [if_neg hout]
      exact h other l op g row hold (heq ▸ hlook) hmatch
    · simp only [if_pos (mem_map_of_mem hop' : l ∈ intents.map Prod.fst)]
      by_cases ho : other = action
      · rw [ho]
      -- another action can only find it if it issued the same label, op and generation
      rw [Function.update_of_ne ho] at hin
      rw [heq] at hlook
      cases hlook
      obtain ⟨rfl, rfl⟩ : op' = op ∧ generation = g := by simpa [IntentRow.matches] using hmatch
      exact absurd hin (hok other ho (l, op') hop' generation hg)

theorem Found.step (h : Found thread s) {act : IntentAct α} (hok : Distinguishable thread s act)
    (hs : intentStep thread s act = .ok s') : Found thread s' := by
  cases act with
  | upsert action intents actionId => exact h.upsert hok hs
  | attach action intents generationSeen actionId =>
    simp only [intentStep] at hs
    split at hs
    · cases hs
      exact h.of_shrink rfl (fun _ _ hi => hi)
        (fun l row hrow => attach_keeps intents generationSeen actionId hrow)
    · cases hs
  | delete action intents generationSeen =>
    simp only [intentStep] at hs
    split at hs
    · cases hs
      exact h.of_shrink rfl (fun _ _ hi => hi)
        (fun l row hrow => ⟨row, delete_shrinks intents generationSeen hrow, rfl, rfl⟩)
    · cases hs
  | confirm intents =>
    cases hs
    refine h.of_shrink rfl (fun _ _ hi => hi) (fun l row hrow => ⟨row, ?_, rfl, rfl⟩)
    rw [← confirmIntents_intents s.db thread intents]
    exact finalize_shrinks hrow
  | recompute =>
    cases hs
    refine h.of_shrink rfl (fun _ _ hi => hi) (fun l row hrow => ⟨row, ?_, rfl, rfl⟩)
    have hbefore := finalize_shrinks hrow
    exact hbefore
  | finish action =>
    cases hs
    refine h.of_shrink rfl (fun other i hi => ?_) (fun l row hrow => ⟨row, hrow, rfl, rfl⟩)
    simp only at hi
    by_cases ho : other = action
    · subst ho
      rw [Function.update_self] at hi
      cases hi
    · rwa [Function.update_of_ne ho] at hi

omit [DecidableEq α] in
theorem Found.misses (h : Found thread s) {action : α}
    {generationSeen : Nat} (hown : ownIntents s action intents generationSeen) {l : LabelId}
    (howner : s.lastUpsert l ≠ some action) (row : IntentRow)
    (hrow : s.db.intents.lookup (thread, l) = some row) : Misses intents generationSeen l row := by
  intro intent hi hl
  rw [← Bool.not_eq_true]
  intro hmatch
  have hissued := of_decide_eq_true (all_eq_true.mp hown intent hi)
  subst hl
  exact howner (h action intent.1 intent.2 generationSeen row hissued hrow hmatch)

def ownWrite : IntentAct α → Option α
  | .attach action _ _ _ => some action
  | .delete action _ _ => some action
  | _ => none

/-- In every run in which no action upserts a label and op that another action in flight upserted at the
same generation, an attach or delete leaves every row alone whose last upsert another action made. -/
theorem intents_belong_to_writer {db : Tables}
    (h : Reaches (intentStep thread) (Distinguishable thread) (Writers.initial db) s)
    {e : IntentAct α} (hs : intentStep thread s e = .ok s') {a b : α} (ha : ownWrite e = some a)
    (hab : b ≠ a) {l : LabelId} (hb : s.lastUpsert l = some b) :
    s'.db.intents.lookup (thread, l) = s.db.intents.lookup (thread, l) := by
  have hinit : Found thread (Writers.initial db : Writers α) :=
    fun _ _ _ _ _ hin => absurd hin not_mem_nil
  have hfound : Found thread s := h.invariant hinit fun u act v hu hok hv => hu.step hok hv
  have howner : s.lastUpsert l ≠ some a := by
    rw [hb]
    exact fun heq => hab (Option.some.inj heq)
  cases e with
  | attach action intents generationSeen actionId =>
    cases ha
    simp only [intentStep] at hs
    split at hs
    · rename_i hown
      cases hs
      exact attach_frame intents generationSeen actionId (hfound.misses hown howner)
    · cases hs
  | delete action intents generationSeen =>
    cases ha
    simp only [intentStep] at hs
    split at hs
    · rename_i hown
      cases hs
      exact delete_frame intents generationSeen (hfound.misses hown howner)
    · cases hs
  | upsert action intents actionId => cases ha
  | confirm intents => cases ha
  | recompute => cases ha
  | finish action => cases ha

end Runs

def oneThread : Tables := { Tables.empty with threads := AList.insert "t" 0 ∅ }

/-- The second action adds the label again after the provider's truth has moved on; the first deletes
what it finds at its own generation. -/
theorem intents_belong_to_writer_recomputed : ∃ s s' : Writers Nat,
      Reaches (intentStep "t") (Distinguishable "t") (Writers.initial oneThread) s ∧
      intentStep "t" s (.delete 1 [("work", .add)] 0) = .ok s' ∧
      s'.db.intents.lookup ("t", "work") = s.db.intents.lookup ("t", "work") := by
  have h1 : Reaches (intentStep "t") (Distinguishable "t") (Writers.initial oneThread) _ :=
    (Reaches.refl (Writers.initial oneThread : Writers Nat)).tail
      (show Distinguishable "t" _ (.upsert 1 [("work", .add)] none) from
        fun _ _ _ _ _ _ => not_mem_nil) rfl
  have h2 := h1.tail (a := .recompute) (by exact trivial) rfl
  have h3 := h2.tail (a := .upsert 2 [("work", .add)] none) (by
    intro other _ intent hi generation hg hin
    cases hg
    by_cases ho : other = 1
    · subst ho
      cases hin with
      | tail _ hin => cases hin
    · simp [ho, Writers.initial] at hin) rfl
  have hrow := intents_belong_to_writer h3 (e := .delete 1 [("work", .add)] 0) rfl rfl
    (by decide : (2 : Nat) ≠ 1) (l := "work") rfl
  exact ⟨_, _, h3, rfl, hrow⟩

/-- Two actions add the same label at one generation: the first one's delete takes the second one's row. -/
theorem delete_takes_another_row : ∃ s s' : Writers Nat,
      Reaches (intentStep "t") (fun _ _ => True) (Writers.initial oneThread) s ∧
      intentStep "t" s (.delete 1 [("work", .add)] 0) = .ok s' ∧ s.lastUpsert "work" = some 2 ∧
      s.db.intents.lookup ("t", "work") = some ⟨.add, 0, none⟩ ∧
      s'.db.intents.lookup ("t", "work") = none := by
  have hrun : [IntentAct.upsert 1 [("work", .add)] none, .upsert 2 [("work", .add)] none].foldlM
      (intentStep "t") (Writers.initial oneThread) = .ok _ := rfl
  exact ⟨_, _, Lib.reaches_foldlM hrun, rfl, rfl, rfl, rfl⟩

end Ratatoskr.Labels
