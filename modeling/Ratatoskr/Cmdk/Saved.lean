import Mathlib.Data.List.Perm.Basic
import Mathlib.Data.List.Sort
import Ratatoskr.Cmdk.Unambiguous
import Ratatoskr.Lib.Slices

/-!
# Cmdk.Saved

The canonical texts of key bindings, and the overrides file (`cmdk/src/keybinding.rs`,
`cmdk/src/id.rs`).

A chord's text is the labels of its modifiers and its key, joined by `+`. Read back, the labels and the
key are its parts again, unless the key is `+` itself: then the last two parts are empty, and the first
of them is no modifier. Between two chords stands `" then "`, which no chord's text contains: its only
blank can be the key, at the end.
-/

namespace Ratatoskr.Cmdk

open List
open Lib (Table Reaches)

def CommandId.asStr (id : CommandId) : String :=
  ((commandTable.find? (fun e => e.1 = id)).map Prod.snd).getD "unknown"

def NamedKey.asStr (n : NamedKey) : String :=
  ((namedKeyTable.find? (fun e => e.1 = n)).map Prod.snd).getD ""

def Modifiers.hasAny (m : Modifiers) : Bool := m.cmdOrCtrl || m.shift || m.alt

def Chord.formatWithModifierLabel (chord : Chord) (cmdOrCtrlLabel : String) : List Char :=
  (if chord.modifiers.cmdOrCtrl then cmdOrCtrlLabel.toList ++ ['+'] else []) ++
    (if chord.modifiers.alt then "Alt+".toList else []) ++
    (if chord.modifiers.shift then "Shift+".toList else []) ++
    match chord.key with
    | .char c => if chord.modifiers.hasAny then [c.toUpper] else [c]
    | .named n => n.asStr.toList

def Chord.canonical (chord : Chord) : List Char := chord.formatWithModifierLabel "CmdOrCtrl"

def KeyBinding.canonical : KeyBinding → String
  | .chord c => String.ofList c.canonical
  | .sequence first second =>
    String.ofList (first.canonical ++ " then ".toList ++ second.canonical)

def entry (row : CommandId × Option KeyBinding) : String × Option String :=
  (row.1.asStr, row.2.map KeyBinding.canonical)

/-- The file that `save_overrides` leaves. A `BTreeMap` yields its entries by key; without overrides the
file is removed. -/
def BindingTable.saveOverrides (t : BindingTable) : OverridesFile :=
  if t.overrides.rows = [] then .notFound
  else
    .overrides ((t.overrides.rows.map entry).insertionSort fun a b => a.1 ≤ b.1)

def Key.Lowercase : Key → Prop
  | .char c => c.toLower = c
  | .named _ => True

def KeyBinding.chords : KeyBinding → List Chord
  | .chord c => [c]
  | .sequence first second => [first, second]

def KeyBinding.Lowercase (b : KeyBinding) : Prop := ∀ chord ∈ b.chords, chord.key.Lowercase

/-- No key is `+`. -/
def KeyBinding.PlusFree (b : KeyBinding) : Prop := ∀ chord ∈ b.chords, chord.key ≠ .char '+'

theorem toLower_toUpper (c : Char) : c.toUpper.toLower = c.toLower := by
  by_cases hlow : 'a'.val ≤ c.val ∧ c.val ≤ 'z'.val
  · have h122 : c.toNat ≤ 122 := hlow.2
    have hrange : ∀ n, n < 128 → (Char.ofNat n).toUpper.toLower = (Char.ofNat n).toLower := by
      decide +kernel
    have hc := hrange c.toNat (by omega)
    rwa [Char.ofNat_toNat] at hc
  · rw [show c.toUpper = c from dif_neg hlow]

theorem parse_asStr (n : NamedKey) : NamedKey.parse n.asStr = some n := by
  cases n <;> rfl

theorem asStr_chars (n : NamedKey) : '+' ∉ n.asStr.toList ∧ ' ' ∉ n.asStr.toList := by
  cases n <;> decide

theorem namedKey_parse_char (c : Char) : NamedKey.parse (String.ofList [c]) = none := by
  have hlong : ∀ e ∈ namedKeyTable, e.2.toList.length ≠ 1 := by decide
  rw [NamedKey.parse, Option.map_eq_none_iff, find?_eq_none]
  intro e he heq
  refine hlong e he ?_
  rw [of_decide_eq_true heq, String.toList_ofList]
  rfl

def Chord.keyText (chord : Chord) : List Char :=
  match chord.key with
  | .char c => if chord.modifiers.hasAny then [c.toUpper] else [c]
  | .named n => n.asStr.toList

variable {s : List Char}

theorem parseKey_named {n : NamedKey} (h : NamedKey.parse (String.ofList s) = some n) :
    parseKey s = .ok (.named n) := by
  unfold parseKey
  rw [h]

theorem parseKey_char (c : Char) : parseKey [c] = .ok (.char c.toLower) := by
  unfold parseKey
  rw [namedKey_parse_char]

variable {chord : Chord}

theorem parseKey_keyText (h : chord.key.Lowercase) : parseKey chord.keyText = .ok chord.key := by
  obtain ⟨key, modifiers⟩ := chord
  cases key with
  | named n =>
    refine parseKey_named ?_
    show NamedKey.parse (String.ofList n.asStr.toList) = some n
    rw [String.ofList_toList, parse_asStr]
  | char c =>
    have hlower : c.toLower = c := h
    show parseKey (if modifiers.hasAny then [c.toUpper] else [c]) = .ok (.char c)
    split
    · rw [parseKey_char, toLower_toUpper, hlower]
    · rw [parseKey_char, hlower]

def Modifiers.labels (m : Modifiers) : List (List Char) :=
  (if m.cmdOrCtrl then ["CmdOrCtrl".toList] else []) ++ (if m.alt then ["Alt".toList] else []) ++
    if m.shift then ["Shift".toList] else []

theorem canonical_eq (chord : Chord) :
    chord.canonical = chord.modifiers.labels.flatMap (· ++ ['+']) ++ chord.keyText := by
  obtain ⟨key, cmdOrCtrl, shift, alt⟩ := chord
  cases cmdOrCtrl <;> cases shift <;> cases alt <;> rfl

theorem labels_chars (m : Modifiers) : ∀ label ∈ m.labels, '+' ∉ label ∧ ' ' ∉ label := by
  obtain ⟨cmdOrCtrl, shift, alt⟩ := m
  revert cmdOrCtrl shift alt
  decide

theorem labels_inj {m m' : Modifiers} (h : m.labels = m'.labels) : m = m' := by
  obtain ⟨cmdOrCtrl, shift, alt⟩ := m
  obtain ⟨cmdOrCtrl', shift', alt'⟩ := m'
  revert cmdOrCtrl shift alt cmdOrCtrl' shift' alt'
  decide

theorem parseModifiers_labels (m : Modifiers) : parseModifiers m.labels .none = .ok m := by
  obtain ⟨cmdOrCtrl, shift, alt⟩ := m
  revert cmdOrCtrl shift alt
  decide

variable {labels : List (List Char)}

theorem splitOn_labels (h : ∀ label ∈ labels, '+' ∉ label) (text : List Char) :
    (labels.flatMap (· ++ ['+']) ++ text).splitOn '+' = labels ++ text.splitOn '+' := by
  induction labels with
  | nil => rfl
  | cons label labels ih =>
    have hlabel : label.splitOn '+' = [label] := by
      refine splitOnP_eq_singleton fun c hc => ?_
      simpa using fun heq : c = '+' => h label (mem_cons_self ..) (heq ▸ hc)
    have hsplit : (label ++ '+' :: (labels.flatMap (· ++ ['+']) ++ text)).splitOn '+' =
        label.splitOn '+' ++ (labels.flatMap (· ++ ['+']) ++ text).splitOn '+' :=
      splitOnP_append_cons _ _ (by simp)
    rw [flatMap_cons, append_assoc, append_assoc, singleton_append, hsplit, hlabel,
      ih fun l hl => h l (mem_cons_of_mem _ hl)]
    rfl

theorem splitOn_canonical (chord : Chord) :
    chord.canonical.splitOn '+' = chord.modifiers.labels ++ chord.keyText.splitOn '+' := by
  rw [canonical_eq]
  exact splitOn_labels (fun label hl => (labels_chars _ label hl).1) _

theorem keyText_cases (chord : Chord) :
    (∃ c, chord.keyText = [c]) ∨ ('+' ∉ chord.keyText ∧ ' ' ∉ chord.keyText) := by
  obtain ⟨key, modifiers⟩ := chord
  cases key with
  | named n => exact .inr (asStr_chars n)
  | char c =>
    refine .inl ?_
    show ∃ d, (if modifiers.hasAny then [c.toUpper] else [c]) = [d]
    split
    · exact ⟨_, rfl⟩
    · exact ⟨_, rfl⟩

theorem keyText_plus (h : chord.key = .char '+') : chord.keyText = ['+'] := by
  rw [Chord.keyText, h]
  show (if chord.modifiers.hasAny then ['+'.toUpper] else ['+']) = ['+']
  split <;> rfl

theorem plus_not_mem_keyText (hlower : chord.key.Lowercase) (h : chord.key ≠ .char '+') :
    '+' ∉ chord.keyText := by
  obtain ⟨key, modifiers⟩ := chord
  cases key with
  | named n => exact (asStr_chars n).1
  | char c =>
    have hc : c.toLower = c := hlower
    have hne : c ≠ '+' := fun heq => h (heq ▸ rfl)
    have hupper : c.toUpper ≠ '+' := by
      intro heq
      rw [← hc, ← toLower_toUpper, heq] at hne
      exact hne rfl
    show '+' ∉ if modifiers.hasAny then [c.toUpper] else [c]
    split
    · exact fun hmem => hupper (mem_singleton.mp hmem).symm
    · exact fun hmem => hne (mem_singleton.mp hmem).symm

theorem splitOn_plus : ['+'].splitOn '+' = [[], []] := by decide

theorem splitOn_free (h : '+' ∉ s) : s.splitOn '+' = [s] := by
  refine splitOnP_eq_singleton fun c hc => ?_
  simpa using fun heq : c = '+' => h (heq ▸ hc)

/-! ## Chords -/

theorem parse_of_parts {keyStr : List Char} {key : Key}
    {modifiers : Modifiers} (hparts : s.splitOn '+' = labels ++ [keyStr])
    (hlabels : parseModifiers labels .none = .ok modifiers) (hkey : parseKey keyStr = .ok key) :
    Chord.parse s = .ok ⟨key, modifiers⟩ := by
  unfold Chord.parse
  dsimp only
  rw [hparts, getLast?_concat, dropLast_concat]
  rw [hlabels]
  dsimp only
  rw [hkey]

theorem parse_plus (h : chord.key = .char '+') :
    Chord.parse chord.canonical = .error "unknown modifier: " := by
  have hparts : chord.canonical.splitOn '+' = (chord.modifiers.labels ++ [[]]) ++ [[]] := by
    rw [splitOn_canonical, keyText_plus h, append_assoc]
    rfl
  have hlabels : parseModifiers (chord.modifiers.labels ++ [[]]) .none =
      .error "unknown modifier: " := by
    generalize chord.modifiers = m
    obtain ⟨cmdOrCtrl, shift, alt⟩ := m
    revert cmdOrCtrl shift alt
    decide
  unfold Chord.parse
  dsimp only
  rw [hparts, getLast?_concat, dropLast_concat]
  rw [hlabels]

theorem chord_parse_iff (hlower : chord.key.Lowercase) :
    Chord.parse chord.canonical = .ok chord ↔ chord.key ≠ .char '+' := by
  constructor
  · intro h hplus
    rw [parse_plus hplus] at h
    cases h
  · intro h
    refine parse_of_parts ?_ (parseModifiers_labels chord.modifiers) (parseKey_keyText hlower)
    rw [splitOn_canonical, splitOn_free (plus_not_mem_keyText hlower h)]

theorem canonical_inj {a b : Chord} (ha : a.key.Lowercase) (hb : b.key.Lowercase)
    (h : a.canonical = b.canonical) : a = b := by
  have hparts : a.modifiers.labels ++ a.keyText.splitOn '+' =
      b.modifiers.labels ++ b.keyText.splitOn '+' := by
    rw [← splitOn_canonical, ← splitOn_canonical, h]
  have hparse : ∀ {c : Chord}, c.key.Lowercase → c.canonical = a.canonical →
      c.key ≠ .char '+' → a.key ≠ .char '+' := by
    intro c hc heq hfree hplus
    have hok := (chord_parse_iff hc).mpr hfree
    rw [heq, parse_plus hplus] at hok
    cases hok
  by_cases hplus : a.key = .char '+'
  · have hplus' : b.key = .char '+' := by
      by_contra hfree
      exact hparse hb h.symm hfree hplus
    rw [keyText_plus hplus, keyText_plus hplus'] at hparts
    have hmodifiers := labels_inj (append_cancel_right hparts)
    obtain ⟨ka, ma⟩ := a
    obtain ⟨kb, mb⟩ := b
    cases hmodifiers
    cases hplus
    cases hplus'
    rfl
  · have hparseA := (chord_parse_iff ha).mpr hplus
    have hfree : b.key ≠ .char '+' := by
      intro hplus'
      rw [h, parse_plus hplus'] at hparseA
      cases hparseA
    have hparseB := (chord_parse_iff hb).mpr hfree
    rw [h, hparseB] at hparseA
    exact (Except.ok.inj hparseA).symm

def thenText : List Char := " then ".toList

theorem canonical_blank (chord : Chord) : ' ' ∉ chord.canonical.dropLast := by
  have hfront : ' ' ∉ chord.modifiers.labels.flatMap (· ++ ['+']) := by
    rw [mem_flatMap]
    rintro ⟨label, hl, hmem⟩
    rcases mem_append.mp hmem with hin | hin
    · exact (labels_chars _ label hl).2 hin
    · simp at hin
  rw [canonical_eq]
  rcases keyText_cases chord with ⟨c, hc⟩ | ⟨-, hnone⟩
  · rw [hc, dropLast_concat]
    exact hfront
  · intro hmem
    rcases mem_append.mp (dropLast_subset _ hmem) with hin | hin
    · exact hfront hin
    · exact hnone hin

theorem thenText_front {c : Char} (h : thenText.isPrefixOf (c :: s) = true) :
    c = ' ' ∧ s.head? = some 't' := by
  cases s with
  | nil => simp [thenText] at h
  | cons d s =>
    simp only [thenText, String.reduceToList, List.isPrefixOf, Bool.and_eq_true, beq_iff_eq] at h
    exact ⟨h.1.symm, by rw [head?_cons, ← h.2.1]⟩

theorem splitOnce_none (h : ' ' ∉ s.dropLast) : splitOnce thenText s = none := by
  induction s with
  | nil => rfl
  | cons c s ih =>
    cases s with
    | nil =>
      have hno : thenText.isPrefixOf [c] = false := by
        rw [Bool.eq_false_iff]
        intro hpre
        exact absurd (thenText_front hpre).2 (by simp)
      rw [splitOnce, hno]
      rfl
    | cons d s =>
      rw [dropLast_cons_of_ne_nil (cons_ne_nil _ _), mem_cons] at h
      obtain ⟨hc, hrest⟩ := not_or.mp h
      have hno : thenText.isPrefixOf (c :: d :: s) = false := by
        rw [Bool.eq_false_iff]
        intro hpre
        exact hc (thenText_front hpre).1.symm
      rw [splitOnce, hno, ih hrest]
      rfl

theorem splitOnce_then {a : List Char} (h : ' ' ∉ a.dropLast) (b : List Char) :
    splitOnce thenText (a ++ thenText ++ b) = some (a, b) := by
  induction a with
  | nil =>
    have hpre : thenText.isPrefixOf (thenText ++ b) = true :=
      isPrefixOf_iff_prefix.mpr (prefix_append _ _)
    show splitOnce thenText (thenText ++ b) = some ([], b)
    cases hb : thenText ++ b with
    | nil => cases hb
    | cons c s =>
      rw [hb] at hpre
      rw [splitOnce, if_pos hpre, ← hb, drop_left]
  | cons c a ih =>
    have hno : thenText.isPrefixOf (c :: (a ++ thenText ++ b)) = false := by
      rw [Bool.eq_false_iff]
      intro hpre
      obtain ⟨rfl, hhead⟩ := thenText_front hpre
      cases a with
      | nil => cases hhead
      | cons d a =>
        exact h (mem_cons_self ..)
    have hrest : ' ' ∉ a.dropLast := by
      cases a with
      | nil => exact not_mem_nil
      | cons d a =>
        rw [dropLast_cons_of_ne_nil (cons_ne_nil _ _), mem_cons] at h
        exact (not_or.mp h).2
    show splitOnce thenText (c :: (a ++ thenText ++ b)) = some (c :: a, b)
    rw [splitOnce, hno, ih hrest]
    rfl

/-! ## Bindings -/

theorem chord_toList (c : Chord) : (KeyBinding.chord c).canonical.toList = c.canonical :=
  String.toList_ofList

theorem sequence_toList (first second : Chord) : (KeyBinding.sequence first second).canonical.toList =
      first.canonical ++ thenText ++ second.canonical :=
  String.toList_ofList

theorem splitOnce_chord (c : Chord) : splitOnce thenText (KeyBinding.chord c).canonical.toList = none := by
  rw [chord_toList]
  exact splitOnce_none (canonical_blank c)

theorem splitOnce_sequence (first second : Chord) :
    splitOnce thenText (KeyBinding.sequence first second).canonical.toList =
      some (first.canonical, second.canonical) := by
  rw [sequence_toList]
  exact splitOnce_then (canonical_blank first) _

theorem parse_canonical_chord (chord : Chord) :
    KeyBinding.parse (KeyBinding.chord chord).canonical = (Chord.parse chord.canonical).map .chord := by
  have hnone := splitOnce_chord chord
  rw [thenText] at hnone
  unfold KeyBinding.parse
  rw [hnone, chord_toList]
  cases Chord.parse chord.canonical with
  | error e => rfl
  | ok c => rfl

theorem parse_canonical_sequence (first second : Chord) :
    KeyBinding.parse (KeyBinding.sequence first second).canonical =
      match Chord.parse first.canonical, Chord.parse second.canonical with
      | .error e, _ => .error e | .ok _, .error e => .error e | .ok a, .ok b => .ok (.sequence a b) := by
  have hsome := splitOnce_sequence first second
  rw [thenText] at hsome
  unfold KeyBinding.parse
  cases hfirst : Chord.parse first.canonical with
  | error e => simp only [hsome, hfirst]
  | ok a =>
    cases hsecond : Chord.parse second.canonical with
    | error e => simp only [hsome, hfirst, hsecond]
    | ok b => simp only [hsome, hfirst, hsecond]

theorem parse_canonical_iff {b : KeyBinding} (h : b.Lowercase) :
    KeyBinding.parse b.canonical = .ok b ↔ b.PlusFree := by
  cases b with
  | chord c =>
    have hc : c.key.Lowercase := h c (mem_singleton_self c)
    rw [parse_canonical_chord, KeyBinding.PlusFree, KeyBinding.chords, forall_mem_singleton,
      ← chord_parse_iff hc]
    cases Chord.parse c.canonical with
    | error e => simp [Except.map]
    | ok d => simp [Except.map]
  | sequence first second =>
    have hfirst : first.key.Lowercase := h first (by simp [KeyBinding.chords])
    have hsecond : second.key.Lowercase := h second (by simp [KeyBinding.chords])
    rw [parse_canonical_sequence, KeyBinding.PlusFree, KeyBinding.chords, forall_mem_cons,
      forall_mem_singleton, ← chord_parse_iff hfirst, ← chord_parse_iff hsecond]
    cases Chord.parse first.canonical with
    | error e => simp
    | ok a =>
      cases Chord.parse second.canonical with
      | error e => simp
      | ok b => simp

theorem binding_canonical_inj {a b : KeyBinding} (ha : a.Lowercase) (hb : b.Lowercase)
    (h : a.canonical = b.canonical) : a = b := by
  cases a with
  | chord c =>
    cases b with
    | chord d =>
      have heq : c.canonical = d.canonical := by rw [← chord_toList c, h, chord_toList]
      rw [canonical_inj (ha c (by simp [KeyBinding.chords])) (hb d (by simp [KeyBinding.chords])) heq]
    | sequence first second =>
      have hno := splitOnce_chord c
      rw [h, splitOnce_sequence] at hno
      cases hno
  | sequence first second =>
    cases b with
    | chord d =>
      have hno := splitOnce_chord d
      rw [← h, splitOnce_sequence] at hno
      cases hno
    | sequence first' second' =>
      have hboth := splitOnce_sequence first second
      rw [h, splitOnce_sequence] at hboth
      obtain ⟨heq, heq'⟩ := Prod.mk.inj (Option.some.inj hboth)
      rw [canonical_inj (hb first' (by simp [KeyBinding.chords])) (ha first (by simp [KeyBinding.chords])) heq,
        canonical_inj (hb second' (by simp [KeyBinding.chords])) (ha second (by simp [KeyBinding.chords])) heq']

theorem parse_id_asStr (id : CommandId) : CommandId.parse id.asStr = some id := by
  cases id <;> rfl

/-- What an override becomes when its text is read back; `none` is no entry. -/
def reread (override : Option KeyBinding) : Option (Option KeyBinding) :=
  match override with
  | none => some none
  | some b =>
    match KeyBinding.parse b.canonical with
    | .ok kb => some (some kb)
    | .error _ => none

theorem readOverrides_cons (row : CommandId × Option KeyBinding) (entries : List (String × Option String))
    (t : Table CommandId (Option KeyBinding)) : readOverrides (entry row :: entries) t = readOverrides entries
        (match reread row.2 with
        | some override => AList.insert row.1 override t | none => t) := by
  obtain ⟨id, override⟩ := row
  cases override with
  | none =>
    conv_lhs => unfold readOverrides
    dsimp only [entry]
    rw [parse_id_asStr]
    rfl
  | some b =>
    conv_lhs => unfold readOverrides
    dsimp only [entry, reread, Option.map]
    rw [parse_id_asStr]
    dsimp only
    cases KeyBinding.parse b.canonical with
    | error e => rfl
    | ok kb => rfl

theorem lookup_readOverrides {rows : List (CommandId × Option KeyBinding)}
    (hnodup : (rows.map Prod.fst).Nodup) (t : Table CommandId (Option KeyBinding)) (id : CommandId) :
    (∀ override, (id, override) ∈ rows →
        (readOverrides (rows.map entry) t).lookup id = (reread override).or (t.lookup id)) ∧
      (id ∉ rows.map Prod.fst → (readOverrides (rows.map entry) t).lookup id = t.lookup id) := by
  induction rows generalizing t with
  | nil => exact ⟨fun _ h => absurd h not_mem_nil, fun _ => rfl⟩
  | cons row rows ih =>
    rw [map_cons, nodup_cons] at hnodup
    have hinsert : ∀ {u : Table CommandId (Option KeyBinding)}, id ≠ row.1 →
        (match reread row.2 with
          | some override => AList.insert row.1 override u
          | none => u).lookup id = u.lookup id := by
      intro u hne
      cases reread row.2 with
      | none => rfl
      | some override => exact AList.lookup_insert_ne hne
    rw [map_cons, readOverrides_cons]
    constructor
    · intro override hmem
      rcases mem_cons.mp hmem with rfl | hin
      · rw [(ih hnodup.2 _).2 hnodup.1]
        cases hreread : reread override with
        | none => rfl
        | some found => exact AList.lookup_insert _
      · have hne : id ≠ row.1 := fun heq => hnodup.1 (heq ▸ mem_map_of_mem hin)
        rw [(ih hnodup.2 _).1 override hin, hinsert hne]
    · intro hnot
      obtain ⟨hne, hrest⟩ := not_or.mp (mt mem_cons.mpr hnot)
      rw [(ih hnodup.2 _).2 hrest, hinsert hne]

theorem saved_entries (t : BindingTable) :
    ∃ rows : List (CommandId × Option KeyBinding), rows.Perm t.overrides.rows ∧
      (t.overrides.rows.map entry).insertionSort (fun a b => a.1 ≤ b.1) = rows.map entry := by
  have hperm := perm_insertionSort (fun a b : String × Option String => a.1 ≤ b.1)
    (t.overrides.rows.map entry)
  obtain ⟨rows, heq, hrows⟩ := (congrFun₂ (eq_map_comp_perm entry) _ _).mpr hperm
  exact ⟨rows, hrows, heq⟩

variable {defaults : Table CommandId KeyBinding}

theorem lookup_loaded {t loaded : BindingTable} {o o' : HashOrder}
    (h : (BindingTable.new defaults o).loadOverridesFromFile t.saveOverrides o' = .ok loaded)
    (id : CommandId) : loaded.overrides.lookup id = (t.overrides.lookup id).bind reread := by
  unfold BindingTable.saveOverrides at h
  split at h
  · next hempty =>
    cases h
    rw [BindingTable.new, rebuild_overrides]
    cases hlookup : t.overrides.lookup id with
    | none => rfl
    | some override =>
      have hmem := Lib.Table.mem_rows.mpr hlookup
      rw [hempty] at hmem
      cases hmem
  · obtain ⟨rows, hperm, heq⟩ := saved_entries t
    have hnodup : (rows.map Prod.fst).Nodup :=
      (hperm.map Prod.fst).nodup_iff.mpr (Lib.Table.rows_keys_nodup _)
    obtain ⟨hin, hout⟩ := lookup_readOverrides hnodup ∅ id
    cases h
    rw [rebuild_overrides]
    rw [heq]
    cases hlookup : t.overrides.lookup id with
    | none =>
      rw [hout]
      · rfl
      · intro hmem
        obtain ⟨row, hrow, hid⟩ := mem_map.mp ((hperm.map Prod.fst).mem_iff.mp hmem)
        have hfound := Lib.Table.mem_rows.mp (show (row.1, row.2) ∈ t.overrides.rows from hrow)
        rw [hid, hlookup] at hfound
        cases hfound
    | some override =>
      rw [hin override (hperm.mem_iff.mpr (Lib.Table.mem_rows.mpr hlookup))]
      exact Option.or_none

/-- The same defaults, the same overrides, and, where the bindings leave no doubt, the same command for
every key press. -/
structure SameTable (t t' : BindingTable) : Prop where
  defaults : t'.defaults = t.defaults
  overrides : ∀ id, t'.overrides.lookup id = t.overrides.lookup id
  chord : Unambiguous t.bindingFor → ∀ chord, t'.resolveChord chord = t.resolveChord chord
  sequence : Unambiguous t.bindingFor → ∀ first second,
    t'.resolveSequence first second = t.resolveSequence first second

def LowerEdit (_ : BindingTable) (e : Edit × HashOrder) : Prop :=
  ∀ id binding, e.1 = .setOverride id binding → binding.Lowercase

section Stored

variable {defaults : Table CommandId KeyBinding} {t : BindingTable}

structure Stored (defaults : Table CommandId KeyBinding) (t : BindingTable) : Prop where
  defaults : t.defaults = defaults
  lower : ∀ id b, t.overrides.lookup id = some (some b) → b.Lowercase
  exact : Unambiguous t.bindingFor → Exact t

theorem toLower_toLower (c : Char) : c.toLower.toLower = c.toLower :=
  Lib.toLower_ind (P := fun c d => c.toLower = d → d.toLower = d) (fun _ h => h) (by decide +kernel) c rfl

theorem chord_parse_lower {s : List Char} {c : Chord} (h : Chord.parse s = .ok c) : c.key.Lowercase := by
  unfold Chord.parse at h
  dsimp only at h
  split at h
  · cases h
  split at h
  · cases h
  split at h
  · cases h
  next key hkey =>
  cases h
  unfold parseKey at hkey
  split at hkey
  · cases hkey
    trivial
  · cases hkey
    exact toLower_toLower _
  · cases hkey

theorem parse_lower {s : String} {b : KeyBinding} (h : KeyBinding.parse s = .ok b) : b.Lowercase := by
  unfold KeyBinding.parse at h
  split at h
  · split at h
    · cases h
    · cases h
    · next a c ha hc =>
      cases h
      intro chord hmem
      rcases mem_cons.mp hmem with rfl | hmem
      · exact chord_parse_lower ha
      · obtain rfl := mem_singleton.mp hmem
        exact chord_parse_lower hc
  · split at h
    · cases h
    · next c hc =>
      cases h
      intro chord hmem
      obtain rfl := mem_singleton.mp hmem
      exact chord_parse_lower hc

def LowerOverrides (overrides : Table CommandId (Option KeyBinding)) : Prop :=
  ∀ id b, overrides.lookup id = some (some b) → b.Lowercase

theorem lower_empty : LowerOverrides ∅ := fun id b hlookup => by
  cases hlookup

variable {overrides : Table CommandId (Option KeyBinding)}

theorem LowerOverrides.insert
    (h : LowerOverrides overrides) {id : CommandId} {override : Option KeyBinding}
    (hb : ∀ b, override = some b → b.Lowercase) : LowerOverrides (AList.insert id override overrides) := by
  intro id' b hlookup
  rw [Lib.Table.lookup_insert_if] at hlookup
  split at hlookup
  · exact hb b (Option.some.inj hlookup)
  · exact h id' b hlookup

theorem lower_readOverrides (entries : List (String × Option String)) (h : LowerOverrides overrides) :
    LowerOverrides (readOverrides entries overrides) := by
  induction entries generalizing overrides with
  | nil => exact h
  | cons e entries ih =>
    unfold readOverrides
    split
    · exact ih h
    · exact ih (h.insert fun b hb => by cases hb)
    split
    · next kb hkb =>
      refine ih (h.insert fun b hb => ?_)
      cases hb
      exact parse_lower hkb
    · exact ih h

theorem stored_rebuild (u : BindingTable) (hdefaults : u.defaults = defaults)
    (hlower : LowerOverrides u.overrides) (o : HashOrder) : Stored defaults (u.rebuildReverse o) := by
  refine ⟨by rw [rebuild_defaults, hdefaults], by rwa [rebuild_overrides], fun h => rebuild_exact ?_ o⟩
  have hsame : (u.rebuildReverse o).bindingFor = u.bindingFor := funext fun id => rebuild_bindingFor o id
  rwa [hsame] at h

theorem stored_step {e : Edit × HashOrder} {u : BindingTable} (h : Stored defaults t)
    (hlower : LowerEdit t e) (hstep : editStep t e = .ok u) : Stored defaults u := by
  obtain ⟨edit, o⟩ := e
  cases edit with
  | setOverride id binding =>
    cases hset : t.setOverride id binding o with
    | error conflict =>
      simp only [editStep, hset] at hstep
      cases hstep
    | ok v =>
      simp only [editStep, hset] at hstep
      cases hstep
      unfold BindingTable.setOverride at hset
      split at hset
      · cases hset
      cases hset
      refine stored_rebuild { t with overrides := t.overrides.insert id (some binding) } h.defaults
        (LowerOverrides.insert h.lower fun b hb => ?_) o
      cases hb
      exact hlower id binding rfl
  | unbind id =>
    cases hstep
    exact stored_rebuild { t with overrides := t.overrides.insert id none } h.defaults
      (LowerOverrides.insert h.lower fun b hb => by cases hb) o
  | removeOverride id =>
    cases hstep
    refine stored_rebuild { t with overrides := t.overrides.erase id } h.defaults (fun id' b hlookup => ?_) o
    rw [Lib.Table.lookup_erase_if] at hlookup
    split at hlookup
    · cases hlookup
    · exact h.lower id' b hlookup
  | resetAll =>
    cases hstep
    exact stored_rebuild { t with overrides := ∅ } h.defaults lower_empty o
  | loadOverridesFromFile file =>
    cases file with
    | notFound =>
      cases hstep
      exact h
    | failed message => cases hstep
    | overrides entries =>
      cases hstep
      exact stored_rebuild { t with overrides := readOverrides entries ∅ } h.defaults
        (lower_readOverrides entries lower_empty) o

theorem stored_new (defaults : Table CommandId KeyBinding) (o : HashOrder) :
    Stored defaults (BindingTable.new defaults o) :=
  stored_rebuild ⟨defaults, ∅, ∅, ∅⟩ rfl lower_empty o

theorem reread_iff (override : Option KeyBinding) (h : ∀ b, override = some b → b.Lowercase) :
    reread override = some override ↔ ∀ b, override = some b → b.PlusFree := by
  cases override with
  | none => simp [reread]
  | some b =>
    have hiff := parse_canonical_iff (h b rfl)
    simp only [Option.some.injEq, forall_eq']
    rw [← hiff, reread]
    cases KeyBinding.parse b.canonical with
    | error e => simp
    | ok kb => simp

/-- Tables with the same bindings, both exact, resolve key presses to the same commands. -/
theorem resolves_same {t' : BindingTable} (h : Resolves t) (h' : Resolves t')
    (hsame : t'.bindingFor = t.bindingFor) : (∀ chord, t'.resolveChord chord = t.resolveChord chord) ∧
      ∀ first second, t'.resolveSequence first second = t.resolveSequence first second := by
  constructor
  · intro chord
    cases hr : t.resolveChord chord with
    | command id => exact (h'.command chord id).mpr (by rw [hsame]; exact (h.command chord id).mp hr)
    | pending => exact (h'.pending chord).mpr (by rw [hsame]; exact (h.pending chord).mp hr)
    | noMatch =>
      cases hr' : t'.resolveChord chord with
      | noMatch => rfl
      | command id =>
        have hback := (h.command chord id).mpr (by rw [← hsame]; exact (h'.command chord id).mp hr')
        rw [hr] at hback
        cases hback
      | pending =>
        have hback := (h.pending chord).mpr (by rw [← hsame]; exact (h'.pending chord).mp hr')
        rw [hr] at hback
        cases hback
  · intro first second
    refine Option.ext fun id => ?_
    rw [h'.sequence, h.sequence, hsame]

/-- Saving and loading give the same table exactly when no override has a `+` key. -/
theorem loaded_same_iff (ht : Stored defaults t) {loaded : BindingTable} {o o' : HashOrder}
    (h : (BindingTable.new defaults o).loadOverridesFromFile t.saveOverrides o' = .ok loaded) :
    SameTable t loaded ↔ ∀ id b, t.overrides.lookup id = some (some b) → b.PlusFree := by
  have hloaded : Stored defaults loaded := by
    have hstep : editStep (BindingTable.new defaults o) (.loadOverridesFromFile t.saveOverrides, o') =
        .ok loaded := congrArg (Except.mapError EditError.load) h
    exact stored_step (stored_new defaults o) (fun id binding heq => by cases heq) hstep
  have hlookup := lookup_loaded h
  constructor
  · intro hsame id b hb
    have hid := hsame.overrides id
    rw [hlookup, hb] at hid
    refine (reread_iff (some b) fun b' hb' => ?_).mp hid b rfl
    cases hb'
    exact ht.lower id b hb
  · intro hfree
    have hoverrides : ∀ id, loaded.overrides.lookup id = t.overrides.lookup id := by
      intro id
      rw [hlookup]
      cases hid : t.overrides.lookup id with
      | none => rfl
      | some override =>
        refine (reread_iff override fun b hb => ht.lower id b (by rw [hid, hb])).mpr fun b hb => ?_
        exact hfree id b (by rw [hid, hb])
    have hdefaults : loaded.defaults = t.defaults := by rw [hloaded.defaults, ht.defaults]
    have hbindings : loaded.bindingFor = t.bindingFor := by
      funext id
      rw [BindingTable.bindingFor, BindingTable.bindingFor, hoverrides, hdefaults]
    have hresolves : Unambiguous t.bindingFor → _ := fun hunamb =>
      resolves_same ((ht.exact hunamb).resolves hunamb)
        ((hloaded.exact (hbindings ▸ hunamb)).resolves (hbindings ▸ hunamb)) hbindings
    exact ⟨hdefaults, hoverrides, fun hunamb => (hresolves hunamb).1, fun hunamb => (hresolves hunamb).2⟩

end Stored

theorem stored_of_reaches {o : HashOrder} {t : BindingTable}
    (h : Reaches editStep LowerEdit (BindingTable.new defaults o) t) : Stored defaults t :=
  h.invariant (stored_new defaults o) fun _ _ _ hu hok hstep => stored_step hu hok hstep

theorem exists_loaded (t u : BindingTable) (o : HashOrder) :
    ∃ loaded, u.loadOverridesFromFile t.saveOverrides o = .ok loaded := by
  unfold BindingTable.saveOverrides
  split
  · exact ⟨_, rfl⟩
  · exact ⟨_, rfl⟩

/-- A binding reads back as saved exactly when none of its keys is `+`; different bindings have different
texts all the same; and a table's overrides, saved and loaded, are the same table exactly when none of
them has a `+` key. -/
theorem saved_bindings_iff {defaults : Table CommandId KeyBinding} {o : HashOrder} {t : BindingTable}
    (h : Reaches editStep LowerEdit (BindingTable.new defaults o) t) (o' o'' : HashOrder) :
    (∀ b : KeyBinding, b.Lowercase → (KeyBinding.parse b.canonical = .ok b ↔ b.PlusFree)) ∧
    (∀ a b : KeyBinding, a.Lowercase → b.Lowercase → a.canonical = b.canonical → a = b) ∧ ∃ loaded,
      (BindingTable.new defaults o').loadOverridesFromFile t.saveOverrides o'' = .ok loaded ∧
      (SameTable t loaded ↔ ∀ id b, t.overrides.lookup id = some (some b) → b.PlusFree) := by
  refine ⟨fun b hb => parse_canonical_iff hb, fun a b ha hb heq => binding_canonical_inj ha hb heq, ?_⟩
  obtain ⟨loaded, hload⟩ := exists_loaded t (BindingTable.new defaults o') o''
  exact ⟨loaded, hload, loaded_same_iff (stored_of_reaches h) hload⟩

/-- The archive command, bound to the key `j`. -/
def archiveKey : List (Edit × HashOrder) :=
  [(.setOverride .EmailArchive (.chord ⟨.char 'j', .none⟩), .insertion)]

theorem saved_bindings_archive : ∃ t, archiveKey.foldlM editStep (BindingTable.new ∅ .insertion) = .ok t ∧
      ∃ loaded,
        (BindingTable.new ∅ .insertion).loadOverridesFromFile t.saveOverrides .insertion = .ok loaded ∧
        (SameTable t loaded ↔ ∀ id b, t.overrides.lookup id = some (some b) → b.PlusFree) := by
  obtain ⟨t, ht⟩ : ∃ t, archiveKey.foldlM editStep (BindingTable.new ∅ .insertion) = .ok t := ⟨_, rfl⟩
  have hlower : (KeyBinding.chord ⟨.char 'j', .none⟩).Lowercase := by
    intro c hc
    obtain rfl := mem_singleton.mp hc
    show 'j'.toLower = 'j'
    decide
  have hstep : Reaches editStep LowerEdit (BindingTable.new ∅ .insertion) t := by
    refine Lib.reaches_foldlM_ok (fun e he u id binding heq => ?_) ht
    obtain rfl := mem_singleton.mp he
    cases heq
    exact hlower
  exact ⟨t, ht, (saved_bindings_iff hstep .insertion .insertion).2.2⟩

def plusKey : KeyBinding := .chord ⟨.char '+', .none⟩

/-- The key `+` is written as `+`, which reads as an unknown modifier. -/
theorem plus_key_unread : ¬∀ b : KeyBinding, b.Lowercase → KeyBinding.parse b.canonical = .ok b := by
  intro hclaim
  have hlower : plusKey.Lowercase := by
    intro c hc
    obtain rfl := mem_singleton.mp hc
    show '+'.toLower = '+'
    decide
  have herror : KeyBinding.parse plusKey.canonical = .error "unknown modifier: " := by decide
  have hok := hclaim plusKey hlower
  rw [herror] at hok
  cases hok

end Ratatoskr.Cmdk
