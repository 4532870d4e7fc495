import Mathlib.Data.List.Dedup
import Ratatoskr.Cmdk.Keybinding

/-!
# Cmdk.Unambiguous

Which edits keep the key bindings unambiguous. `rebuild_reverse` turns unambiguous bindings into exact
reverse maps, and `check_conflict` on exact maps finds every conflict; so `set_override`, `unbind` and
`reset_all` are safe. `remove_override` brings back a default that `check_conflict` never saw, and a
loaded file is not checked at all.

* `rebuild_exact` : after a rebuild, key presses resolve to the effective bindings.
* `bindings_unambiguous` : what holds after every run of edits that check what they bring in.
-/

namespace Ratatoskr.Cmdk

open List
open Lib (Table Reaches)

/-- Equal chords, equal sequences, or a chord that starts the other's sequence. -/
def Conflicts : KeyBinding → KeyBinding → Prop
  | .chord a, .chord b => a = b
  | .chord a, .sequence first _ => a = first
  | .sequence first _, .chord b => first = b
  | .sequence first second, .sequence first' second' => first = first' ∧ second = second'

instance : DecidableRel Conflicts
  | .chord a, .chord b => inferInstanceAs (Decidable (a = b))
  | .chord a, .sequence first _ => inferInstanceAs (Decidable (a = first))
  | .sequence first _, .chord b => inferInstanceAs (Decidable (first = b))
  | .sequence first second, .sequence first' second' =>
    inferInstanceAs (Decidable (first = first' ∧ second = second'))

def Unambiguous (bindingFor : CommandId → Option KeyBinding) : Prop :=
  ∀ a b x y, a ≠ b → bindingFor a = some x → bindingFor b = some y → ¬ Conflicts x y

/-- Key presses resolve to the effective bindings and to nothing else. -/
structure Resolves (t : BindingTable) : Prop where
  command : ∀ chord id, t.resolveChord chord = .command id ↔ t.bindingFor id = some (.chord chord)
  pending : ∀ chord, t.resolveChord chord = .pending ↔
    ∃ id second, t.bindingFor id = some (.sequence chord second)
  sequence : ∀ first second id, t.resolveSequence first second = some id ↔
    t.bindingFor id = some (.sequence first second)

section Rebuild

variable {t : BindingTable}
variable {id : CommandId} {done : List (CommandId × KeyBinding)} {binding : KeyBinding}

/-- What the reverse maps say about the bindings entered so far. -/
structure Entered (t : BindingTable) (done : List (CommandId × KeyBinding)) : Prop where
  single : ∀ chord id, t.singleReverse.lookup chord = some id ↔ (id, .chord chord) ∈ done
  sequence : ∀ first second id, t.resolveSequence first second = some id ↔
    (id, .sequence first second) ∈ done
  first : ∀ chord, (t.sequenceFirstChords.lookup chord).isSome ↔
    ∃ id second, (id, KeyBinding.sequence chord second) ∈ done

theorem resolveSequence_add {first second a b : Chord} :
    (t.addReverse id (.sequence first second)).resolveSequence a b =
      if a = first ∧ b = second then some id else t.resolveSequence a b := by
  simp only [BindingTable.resolveSequence, BindingTable.addReverse, Table.lookup_insert_if]
  by_cases ha : a = first
  · subst ha
    simp only [if_true, Option.bind_some, Table.lookup_insert_if, true_and]
    by_cases hb : b = second
    · rw [if_pos hb, if_pos hb]
    cases t.sequenceFirstChords.lookup a with
    | none => rfl
    | some seconds => rfl
  · rw [if_neg ha, if_neg (fun h => ha h.1)]

theorem Entered.add (h : Entered t done) (hfree : ∀ id', (id', binding) ∈ done → id' = id) :
    Entered (t.addReverse id binding) (done ++ [(id, binding)]) := by
  have hmem : ∀ p : CommandId × KeyBinding, p ∈ done ++ [(id, binding)] ↔ p ∈ done ∨ p = (id, binding) := by
    intro p
    rw [mem_append, mem_singleton]
  cases binding with
  | chord c =>
    refine ⟨?_, ?_, ?_⟩
    · intro chord id'
      rw [hmem, BindingTable.addReverse, Table.lookup_insert_if]
      by_cases hc : chord = c
      · subst hc
        rw [if_pos rfl, Option.some.injEq, Prod.mk.injEq]
        constructor
        · rintro rfl
          exact .inr ⟨rfl, rfl⟩
        · rintro (hin | ⟨rfl, -⟩)
          · exact (hfree id' hin).symm
          · rfl
      · rw [if_neg hc, h.single, Prod.mk.injEq]
        simp [hc]
    · intro first second id'
      rw [hmem, Prod.mk.injEq]
      simp only [reduceCtorEq, and_false, or_false]
      exact h.sequence first second id'
    · intro chord
      simp only [hmem, Prod.mk.injEq, reduceCtorEq, and_false, or_false]
      exact h.first chord
  | sequence a b =>
    refine ⟨?_, ?_, ?_⟩
    · intro chord id'
      rw [hmem, Prod.mk.injEq]
      simp only [reduceCtorEq, and_false, or_false]
      exact h.single chord id'
    · intro first second id'
      rw [hmem, resolveSequence_add]
      by_cases hc : first = a ∧ second = b
      · obtain ⟨rfl, rfl⟩ := hc
        rw [if_pos ⟨rfl, rfl⟩, Option.some.injEq, Prod.mk.injEq]
        constructor
        · rintro rfl
          exact .inr ⟨rfl, rfl⟩
        · rintro (hin | ⟨rfl, -⟩)
          · exact (hfree id' hin).symm
          · rfl
      · rw [if_neg hc, h.sequence, Prod.mk.injEq]
        simp [hc]
    · intro chord
      rw [BindingTable.addReverse, Table.lookup_insert_if]
      by_cases hc : chord = a
      · subst hc
        rw [if_pos rfl]
        refine ⟨fun _ => ⟨id, b, (hmem _).mpr (.inr rfl)⟩, fun _ => rfl⟩
      · rw [if_neg hc, h.first]
        simp [hc]

theorem Entered.foldl {bindings : List (CommandId × KeyBinding)} (h : Entered t done)
    (hfree : ∀ a b x, (a, x) ∈ done ++ bindings → (b, x) ∈ done ++ bindings → a = b) :
    Entered (bindings.foldl (fun t b => t.addReverse b.1 b.2) t) (done ++ bindings) := by
  induction bindings generalizing t done with
  | nil => rwa [append_nil]
  | cons p bindings ih =>
    have hsplit : done ++ p :: bindings = (done ++ [p]) ++ bindings := by
      rw [append_assoc, singleton_append]
    rw [hsplit]
    refine ih (h.add ?_) ?_
    · intro id' hin
      refine hfree id' p.1 p.2 ?_ ?_
      · exact mem_append_left _ hin
      · exact mem_append_right _ (mem_cons_self ..)
    · rwa [← hsplit]

/-- The effective bindings, in the order the rebuild meets them. -/
def effective (t : BindingTable) (o : HashOrder) : List (CommandId × KeyBinding) :=
  (o.order t.ids).filterMap (fun id => (t.bindingFor id).map (fun b => (id, b)))

theorem mem_ids (h : t.bindingFor id = some binding) : id ∈ t.ids := by
  rw [BindingTable.ids, mem_dedup, mem_append]
  rw [BindingTable.bindingFor] at h
  cases hov : t.overrides.lookup id with
  | some o => exact .inr (AList.mem_keys.mp (AList.lookup_isSome.mp (by rw [hov]; rfl)))
  | none =>
    simp only [hov] at h
    exact .inl (AList.mem_keys.mp (AList.lookup_isSome.mp (by rw [h]; rfl)))

theorem mem_effective {o : HashOrder} : (id, binding) ∈ effective t o ↔ t.bindingFor id = some binding := by
  rw [effective, mem_filterMap]
  constructor
  · rintro ⟨id', -, hmap⟩
    rw [Option.map_eq_some_iff] at hmap
    obtain ⟨b, hb, heq⟩ := hmap
    cases heq
    exact hb
  · intro h
    exact ⟨id, (o.perm t.ids).mem_iff.mpr (mem_ids h), by rw [h]; rfl⟩

theorem foldl_addReverse_same (bindings : List (CommandId × KeyBinding)) (t : BindingTable) :
    (bindings.foldl (fun t b => t.addReverse b.1 b.2) t).overrides = t.overrides ∧
      (bindings.foldl (fun t b => t.addReverse b.1 b.2) t).defaults = t.defaults := by
  induction bindings generalizing t with
  | nil => exact ⟨rfl, rfl⟩
  | cons p bindings ih =>
    rw [foldl_cons]
    obtain ⟨hov, hdef⟩ := ih (t.addReverse p.1 p.2)
    rw [hov, hdef]
    cases p.2 <;> exact ⟨rfl, rfl⟩

@[simp] theorem rebuild_overrides (o : HashOrder) : (t.rebuildReverse o).overrides = t.overrides :=
  (foldl_addReverse_same _ _).1

@[simp] theorem rebuild_defaults (o : HashOrder) : (t.rebuildReverse o).defaults = t.defaults :=
  (foldl_addReverse_same _ _).2

@[simp] theorem rebuild_bindingFor (o : HashOrder) (id : CommandId) :
    (t.rebuildReverse o).bindingFor id = t.bindingFor id := by
  rw [BindingTable.bindingFor, BindingTable.bindingFor, rebuild_overrides, rebuild_defaults]

theorem rebuild_entered (h : Unambiguous t.bindingFor) (o : HashOrder) :
    Entered (t.rebuildReverse o) (effective t o) := by
  have hempty : Entered { t with singleReverse := ∅, sequenceFirstChords := ∅ } [] := by
    refine ⟨fun chord id => ?_, fun first second id => ?_, fun chord => ?_⟩
    · simp
    · simp [BindingTable.resolveSequence]
    · simp
  refine hempty.foldl ?_
  intro a b x ha hb
  by_contra hne
  refine h a b x x hne (mem_effective.mp ha) (mem_effective.mp hb) ?_
  cases x with
  | chord c => exact rfl
  | sequence first second => exact ⟨rfl, rfl⟩

/-- The reverse maps say exactly what the effective bindings are. -/
structure Exact (t : BindingTable) : Prop where
  single : ∀ chord id, t.singleReverse.lookup chord = some id ↔ t.bindingFor id = some (.chord chord)
  sequence : ∀ first second id, t.resolveSequence first second = some id ↔
    t.bindingFor id = some (.sequence first second)
  first : ∀ chord, (t.sequenceFirstChords.lookup chord).isSome ↔
    ∃ id second, t.bindingFor id = some (.sequence chord second)

theorem rebuild_exact (h : Unambiguous t.bindingFor) (o : HashOrder) : Exact (t.rebuildReverse o) := by
  have hin := rebuild_entered h o
  refine ⟨?_, ?_, ?_⟩
  · intro chord id
    rw [hin.single, mem_effective, rebuild_bindingFor]
  · intro first second id
    rw [hin.sequence, mem_effective, rebuild_bindingFor]
  · intro chord
    rw [hin.first]
    simp [mem_effective]

end Rebuild

/-! ## Exact tables -/

section Exact

variable {t : BindingTable}
variable {id : CommandId}

theorem Exact.resolves (h : Exact t) (hunamb : Unambiguous t.bindingFor) : Resolves t := by
  refine ⟨?_, ?_, h.sequence⟩
  · intro chord id
    rw [BindingTable.resolveChord]
    by_cases hp : (t.sequenceFirstChords.lookup chord).isSome
    · -- the chord starts a sequence, so no command is bound to it alone
      obtain ⟨id', second, hseq⟩ := (h.first chord).mp hp
      rw [if_pos hp]
      constructor
      · intro heq
        cases heq
      · intro hb
        by_cases hid : id = id'
        · rw [hid, hseq] at hb
          cases hb
        · exact absurd rfl (hunamb id id' _ _ hid hb hseq)
    · rw [if_neg hp, ← h.single]
      cases t.singleReverse.lookup chord with
      | none => simp
      | some existing => simp
  · intro chord
    rw [← h.first, BindingTable.resolveChord]
    by_cases hp : (t.sequenceFirstChords.lookup chord).isSome
    · simp [hp]
    · cases t.singleReverse.lookup chord <;> simp [hp]

/-- No other command has a binding that conflicts with this one. -/
def FreeFor (t : BindingTable) (id : CommandId) (binding : KeyBinding) : Prop :=
  ∀ other b, other ≠ id → t.bindingFor other = some b → ¬ Conflicts binding b

theorem checkChord_free (h : Exact t) {chord : Chord}
    (hcheck : t.checkChordConflict id chord = none) : FreeFor t id (.chord chord) := by
  rw [BindingTable.checkChordConflict] at hcheck
  have hsingle : (t.singleReverse.lookup chord).filter (fun existing => existing ≠ id) = none := by
    cases hs : (t.singleReverse.lookup chord).filter (fun existing => existing ≠ id) with
    | none => rfl
    | some existing =>
      rw [hs] at hcheck
      cases hcheck
  rw [hsingle] at hcheck
  intro other b hne hb hconf
  cases b with
  | chord c =>
    have heq : chord = c := hconf
    rw [(h.single chord other).mpr (by rw [heq]; exact hb)] at hsingle
    simp [hne] at hsingle
  | sequence first second =>
    have heq : chord = first := hconf
    have hlook := (h.sequence chord second other).mpr (by rw [heq]; exact hb)
    rw [BindingTable.resolveSequence] at hlook
    cases hs : t.sequenceFirstChords.lookup chord with
    | none =>
      rw [hs] at hlook
      cases hlook
    | some seconds =>
      rw [hs] at hlook hcheck
      have hmem : other ∈ seconds.rows.map Prod.snd :=
        mem_map.mpr ⟨(second, other), Table.mem_rows.mpr hlook, rfl⟩
      have hall := find?_eq_none.mp hcheck other hmem
      simp [hne] at hall

theorem checkSequence_free (h : Exact t) {first second : Chord}
    (hcheck : t.checkSequenceConflict id first second = none) : FreeFor t id (.sequence first second) := by
  rw [BindingTable.checkSequenceConflict] at hcheck
  have hsingle : (t.singleReverse.lookup first).filter (fun existing => existing ≠ id) = none := by
    cases hs : (t.singleReverse.lookup first).filter (fun existing => existing ≠ id) with
    | none => rfl
    | some existing =>
      rw [hs] at hcheck
      cases hcheck
  rw [hsingle] at hcheck
  intro other b hne hb hconf
  cases b with
  | chord c =>
    have heq : first = c := hconf
    rw [(h.single first other).mpr (by rw [heq]; exact hb)] at hsingle
    simp [hne] at hsingle
  | sequence first' second' =>
    obtain ⟨rfl, rfl⟩ : first = first' ∧ second = second' := hconf
    have hlook := (h.sequence first second other).mpr hb
    rw [BindingTable.resolveSequence] at hlook
    cases hs : t.sequenceFirstChords.lookup first with
    | none =>
      rw [hs] at hlook
      cases hlook
    | some seconds =>
      rw [hs] at hlook hcheck
      have hlook' : seconds.lookup second = some other := hlook
      simp only [hlook'] at hcheck
      simp [hne] at hcheck

theorem check_free (h : Exact t) {binding : KeyBinding}
    (hcheck : t.checkConflict id binding = none) : FreeFor t id binding := by
  cases binding with
  | chord chord => exact checkChord_free h hcheck
  | sequence first second => exact checkSequence_free h hcheck

theorem Conflicts.symm {x y : KeyBinding} (h : Conflicts x y) : Conflicts y x := by
  cases x with
  | chord a =>
    cases y with
    | chord b => exact Eq.symm h
    | sequence first second => exact Eq.symm h
  | sequence a a' =>
    cases y with
    | chord b => exact Eq.symm h
    | sequence first second => exact ⟨Eq.symm h.1, Eq.symm h.2⟩

theorem Unambiguous.rebind {b' : CommandId → Option KeyBinding} (h : Unambiguous t.bindingFor)
    (id : CommandId) (hother : ∀ other, other ≠ id → b' other = t.bindingFor other)
    (hfree : ∀ binding, b' id = some binding → FreeFor t id binding) : Unambiguous b' := by
  intro a b x y hne ha hb
  by_cases haid : a = id
  · subst haid
    have hbid : b ≠ a := fun heq => hne heq.symm
    rw [hother b hbid] at hb
    exact hfree x ha b y hbid hb
  · rw [hother a haid] at ha
    by_cases hbid : b = id
    · subst hbid
      exact fun hconf => hfree y hb a x haid ha hconf.symm
    · rw [hother b hbid] at hb
      exact h a b x y hne ha hb

end Exact

/-- What an edit does not check for itself: the default that a removed override brings back, and the
bindings of a file together with the defaults it leaves in place. -/
def EditOk (t : BindingTable) (e : Edit × HashOrder) : Prop :=
  match e.1 with
  | .removeOverride id => ∀ binding, t.defaults.lookup id = some binding → t.checkConflict id binding = none
  | .loadOverridesFromFile (.overrides entries) =>
    Unambiguous ({ t with overrides := readOverrides entries ∅ } : BindingTable).bindingFor
  | _ => True

structure Sound (defaults : Table CommandId KeyBinding) (t : BindingTable) : Prop where
  defaults_eq : t.defaults = defaults
  unambiguous : Unambiguous t.bindingFor
  exact : Exact t

section Runs

variable {defaults : Table CommandId KeyBinding} {t : BindingTable}
variable {id : CommandId} {t' : BindingTable}

theorem sound_rebuild (t : BindingTable) (hdef : t.defaults = defaults) (h : Unambiguous t.bindingFor)
    (o : HashOrder) : Sound defaults (t.rebuildReverse o) := by
  refine ⟨by rw [rebuild_defaults, hdef], ?_, rebuild_exact h o⟩
  intro a b x y hne ha hb
  rw [rebuild_bindingFor] at ha hb
  exact h a b x y hne ha hb

theorem bindingFor_insert (id other : CommandId) (v : Option KeyBinding) :
    ({ t with overrides := t.overrides.insert id v } : BindingTable).bindingFor other =
      if other = id then v else t.bindingFor other := by
  rw [BindingTable.bindingFor]
  simp only [Table.lookup_insert_if]
  by_cases h : other = id
  · rw [if_pos h, if_pos h]
    cases v <;> rfl
  · rw [if_neg h, if_neg h]
    rfl

theorem bindingFor_erase (id other : CommandId) :
    ({ t with overrides := t.overrides.erase id } : BindingTable).bindingFor other =
      if other = id then t.defaults.lookup id else t.bindingFor other := by
  rw [BindingTable.bindingFor]
  simp only [Table.lookup_erase_if]
  by_cases h : other = id
  · rw [if_pos h, if_pos h, h]
  · rw [if_neg h, if_neg h]
    rfl

theorem Sound.setOverride (h : Sound defaults t) {binding : KeyBinding} {o : HashOrder}
    (hset : t.setOverride id binding o = .ok t') : Sound defaults t' := by
  rw [BindingTable.setOverride] at hset
  cases hcheck : t.checkConflict id binding with
  | some conflict =>
    rw [hcheck] at hset
    cases hset
  | none =>
    rw [hcheck] at hset
    cases hset
    refine sound_rebuild { t with overrides := t.overrides.insert id (some binding) } h.defaults_eq
      (h.unambiguous.rebind id ?_ ?_) o
    · intro other hne
      rw [bindingFor_insert, if_neg hne]
    · intro b hb
      rw [bindingFor_insert, if_pos rfl] at hb
      cases hb
      exact check_free h.exact hcheck

theorem Sound.unbind (h : Sound defaults t) (id : CommandId) (o : HashOrder) :
    Sound defaults (t.unbind id o) := by
  refine sound_rebuild { t with overrides := t.overrides.insert id none } h.defaults_eq
    (h.unambiguous.rebind id ?_ ?_) o
  · intro other hne
    rw [bindingFor_insert, if_neg hne]
  · intro b hb
    rw [bindingFor_insert, if_pos rfl] at hb
    cases hb

theorem Sound.removeOverride (h : Sound defaults t) (o : HashOrder)
    (hok : ∀ binding, t.defaults.lookup id = some binding → t.checkConflict id binding = none) :
    Sound defaults (t.removeOverride id o) := by
  refine sound_rebuild { t with overrides := t.overrides.erase id } h.defaults_eq
    (h.unambiguous.rebind id ?_ ?_) o
  · intro other hne
    rw [bindingFor_erase, if_neg hne]
  · intro b hb
    rw [bindingFor_erase, if_pos rfl] at hb
    exact check_free h.exact (hok b hb)

theorem bindingFor_defaults (t : BindingTable) :
    ({ t with overrides := ∅ } : BindingTable).bindingFor = fun id => t.defaults.lookup id := by
  funext id
  rw [BindingTable.bindingFor]
  simp

theorem sound_step (hdef : Unambiguous fun id => defaults.lookup id) (h : Sound defaults t)
    {e : Edit × HashOrder} (hok : EditOk t e) (hstep : editStep t e = .ok t') : Sound defaults t' := by
  obtain ⟨edit, o⟩ := e
  cases edit with
  | setOverride id binding =>
    cases hset : t.setOverride id binding o with
    | error conflict =>
      simp only [editStep, hset] at hstep
      cases hstep
    | ok t'' =>
      simp only [editStep, hset] at hstep
      cases hstep
      exact h.setOverride hset
  | unbind id =>
    cases hstep
    exact h.unbind id o
  | removeOverride id =>
    cases hstep
    exact h.removeOverride o hok
  | resetAll =>
    cases hstep
    refine sound_rebuild { t with overrides := ∅ } h.defaults_eq ?_ o
    rw [h.defaults_eq]
    exact hdef
  | loadOverridesFromFile file =>
    cases file with
    | notFound =>
      cases hstep
      exact h
    | failed message => cases hstep
    | overrides entries =>
      cases hstep
      exact sound_rebuild { t with overrides := readOverrides entries ∅ } h.defaults_eq hok o

/-- From unambiguous defaults, every run of successful edits that brings in nothing unchecked leaves the
bindings unambiguous and key presses resolving to them. -/
theorem bindings_unambiguous (defaults : Table CommandId KeyBinding) (o : HashOrder)
    (hdef : Unambiguous fun id => defaults.lookup id) (t : BindingTable)
    (hrun : Reaches editStep EditOk (.new defaults o) t) : Unambiguous t.bindingFor ∧ Resolves t := by
  have hnew : Sound defaults (.new defaults o) := by
    refine sound_rebuild ⟨defaults, ∅, ∅, ∅⟩ rfl ?_ o
    have hsame := bindingFor_defaults ⟨defaults, ∅, ∅, ∅⟩
    rw [hsame]
    exact hdef
  have hsound : Sound defaults t :=
    hrun.invariant hnew (fun u e v hu hok hstep => sound_step hdef hu hok hstep)
  exact ⟨hsound.unambiguous, hsound.exact.resolves hsound.unambiguous⟩

/-- The two defaults of the shipped registry that the examples below need. -/
def twoDefaults : Table CommandId KeyBinding :=
  AList.insert .EmailArchive (.chord ⟨.char 'e', .none⟩)
    (AList.insert .EmailStar (.chord ⟨.char 's', .none⟩) ∅)

theorem twoDefaults_unambiguous : Unambiguous fun id => twoDefaults.lookup id := by
  intro a b x y hne ha hb
  have hcases : ∀ id z, twoDefaults.lookup id = some z →
      (id = .EmailArchive ∧ z = .chord ⟨.char 'e', .none⟩) ∨
      (id = .EmailStar ∧ z = .chord ⟨.char 's', .none⟩) := by
    intro id z hz
    simp only [twoDefaults, Table.lookup_insert_if] at hz
    split at hz
    · rename_i hid
      exact .inl ⟨hid, (Option.some.inj hz).symm⟩
    · split at hz
      · rename_i hid
        exact .inr ⟨hid, (Option.some.inj hz).symm⟩
      · cases hz
  rcases hcases a x ha with ⟨rfl, rfl⟩ | ⟨rfl, rfl⟩
  · rcases hcases b y hb with ⟨rfl, rfl⟩ | ⟨rfl, rfl⟩
    · exact absurd rfl hne
    · decide
  · rcases hcases b y hb with ⟨rfl, rfl⟩ | ⟨rfl, rfl⟩
    · decide
    · exact absurd rfl hne

/-- Archive is unbound, Star takes the free key, and Archive goes back to its default. -/
def sharedKey : List (Edit × HashOrder) :=
  [(.unbind .EmailArchive, .insertion),
    (.setOverride .EmailStar (.chord ⟨.char 'e', .none⟩), .insertion),
    (.removeOverride .EmailArchive, .insertion)]

/-- A removed override brings back a key that another command has taken meanwhile. -/
theorem restored_default_conflicts : ¬ ∀ (defaults : Table CommandId KeyBinding) (o : HashOrder),
      (Unambiguous fun id => defaults.lookup id) →
      ∀ t, Reaches editStep (fun _ _ => True) (.new defaults o) t →
        Unambiguous t.bindingFor ∧ Resolves t := by
  intro hclaim
  have hboth : (sharedKey.foldlM editStep (.new twoDefaults .insertion)).map
      (fun t => (t.bindingFor .EmailArchive, t.bindingFor .EmailStar)) =
      .ok (some (.chord ⟨.char 'e', .none⟩), some (.chord ⟨.char 'e', .none⟩)) := by decide
  cases hrun : sharedKey.foldlM editStep (.new twoDefaults .insertion) with
  | error e =>
    rw [hrun] at hboth
    cases hboth
  | ok t =>
    rw [hrun] at hboth
    simp only [Except.map, Except.ok.injEq, Prod.mk.injEq] at hboth
    have hend := hclaim twoDefaults .insertion twoDefaults_unambiguous t (Lib.reaches_foldlM hrun)
    exact hend.1 .EmailArchive .EmailStar _ _ (by decide) hboth.1 hboth.2 rfl

theorem bindings_unambiguous_freed : ∃ t, Reaches editStep EditOk (.new twoDefaults .insertion) t ∧
      t.bindingFor .EmailStar = some (.chord ⟨.char 'e', .none⟩) ∧ Unambiguous t.bindingFor ∧ Resolves t := by
  have hstar : ((sharedKey.take 2).foldlM editStep (.new twoDefaults .insertion)).map
      (fun t => t.bindingFor .EmailStar) = .ok (some (.chord ⟨.char 'e', .none⟩)) := by decide
  cases hrun : (sharedKey.take 2).foldlM editStep (.new twoDefaults .insertion) with
  | error e =>
    rw [hrun] at hstar
    cases hstar
  | ok t =>
    rw [hrun] at hstar
    have hreach : Reaches editStep EditOk (.new twoDefaults .insertion) t := by
      refine Lib.reaches_foldlM_ok ?_ hrun
      intro e he u
      rcases mem_pair.mp he with rfl | rfl <;> trivial
    exact ⟨t, hreach, Except.ok.inj hstar,
      bindings_unambiguous twoDefaults .insertion twoDefaults_unambiguous t hreach⟩

end Runs

end Ratatoskr.Cmdk
