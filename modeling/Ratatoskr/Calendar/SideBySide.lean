import Mathlib.Algebra.Order.Field.Rat
import Mathlib.Order.Interval.Set.Disjoint
import Ratatoskr.Calendar.Grid

/-!
# Calendar.SideBySide

The layout of a day column (`compute_overlap_layout` in `calendar_time_grid.rs`), minutes as integers. The
columns are those of a first fit: the first one whose events have all ended. The width of a block looks at the
columns of the events that overlap it and no further, so that two blocks may share a column and not its width.

* `assignLoop_fits` : the loop gives every event its first fit.
* `columns_needed` : they are as many as events overlap at most.
* `side_by_side_iff` : simultaneous events are drawn apart where the widths that differ leave them apart.
-/

namespace Ratatoskr.Calendar

open List

structure LayoutEvent where
  index : Nat
  startMinutes : Int
  endMinutes : Int
  column : Nat
  totalColumns : Nat
  deriving DecidableEq

/-- `hour() * 60 + minute()` -/
def minuteOfDay (dt : DateTime) : Int := DateTime.time dt / 60

def eventMinutes (tz : TimeZone) (event : TimeGridEvent) (config : TimeGridConfig) (columnDate : Date) :
    Int × Int :=
  let gridStart : Int := config.hourStart * 60
  let gridEnd : Int := config.hourEnd * 60
  match naive tz event.startTime, naive tz event.endTime with
  | some s, some e =>
    let sm := if DateTime.date s < columnDate then 0 else minuteOfDay s
    let em := if DateTime.date e > columnDate then gridEnd else minuteOfDay e
    (max sm gridStart, max (min em gridEnd) (sm + 1))
  | _, _ => (0, 60)

def layoutOrder (a b : LayoutEvent) : Prop :=
  a.startMinutes < b.startMinutes ∨ a.startMinutes = b.startMinutes ∧
    b.endMinutes - b.startMinutes ≤ a.endMinutes - a.startMinutes

instance : DecidableRel layoutOrder := fun _ _ => inferInstanceAs (Decidable (_ ∨ _))

instance : Std.Total layoutOrder := ⟨fun a b => by unfold layoutOrder; omega⟩

instance : IsTrans LayoutEvent layoutOrder := ⟨fun a b c => by unfold layoutOrder; omega⟩

/-- The column for an item and the ends of all columns with it. -/
def placeItem (columnsEnd : List Int) (item : LayoutEvent) : Nat × List Int :=
  match columnsEnd.findIdx? (fun e => decide (e ≤ item.startMinutes)) with
  | some c => (c, columnsEnd.set c item.endMinutes)
  | none => (columnsEnd.length, columnsEnd ++ [item.endMinutes])

def assignLoop : List Int → List LayoutEvent → List LayoutEvent
  | _, [] => []
  | columnsEnd, item :: items =>
    let placed := placeItem columnsEnd item
    { item with column := placed.1 } :: assignLoop placed.2 items

def eventsOverlap (a b : LayoutEvent) : Bool :=
  a.startMinutes < b.endMinutes && b.startMinutes < a.endMinutes

/-- The loop over `j`. -/
def maxColumn (items : List LayoutEvent) (i : Nat) (item : LayoutEvent) : Nat :=
  items.zipIdx.foldl (fun maxCol other =>
    if i = other.2 then maxCol else if eventsOverlap item other.1 then max maxCol other.1.column else maxCol)
    item.column

def setTotalColumns (items : List LayoutEvent) : List LayoutEvent :=
  items.mapIdx fun i item => { item with totalColumns := maxColumn items i item + 1 }

def assignColumns (items : List LayoutEvent) : List LayoutEvent := setTotalColumns (assignLoop [] items)

def layoutItems (tz : TimeZone) (events : List TimeGridEvent) (config : TimeGridConfig) (columnDate : Date) :
    List LayoutEvent :=
  (events.mapIdx fun i ev =>
    let minutes := eventMinutes tz ev config columnDate
    ⟨i, minutes.1, minutes.2, 0, 1⟩).insertionSort layoutOrder

def computeOverlapLayout (tz : TimeZone) (events : List TimeGridEvent) (config : TimeGridConfig)
    (columnDate : Date) : List LayoutEvent :=
  assignColumns (layoutItems tz events config columnDate)

def Free (done : List (LayoutEvent × Nat)) (item : LayoutEvent) (c : Nat) : Prop :=
  ∀ p ∈ done, p.2 = c → p.1.endMinutes ≤ item.startMinutes

inductive FirstFit : List (LayoutEvent × Nat) → List LayoutEvent → List Nat → Prop where
  | nil {done : List (LayoutEvent × Nat)} : FirstFit done [] []
  | cons {done : List (LayoutEvent × Nat)} {item : LayoutEvent} {items : List LayoutEvent} {c : Nat}
    {cs : List Nat}
      (hfree : Free done item c) (hfirst : ∀ d, Free done item d → c ≤ d)
      (h : FirstFit (done ++ [(item, c)]) items cs) : FirstFit done (item :: items) (c :: cs)

def inColumn (p : LayoutEvent × Nat) : LayoutEvent := { p.1 with column := p.2 }

theorem placeItem_spec (columnsEnd : List Int) (item : LayoutEvent) :
    (∀ d, (∀ e ∈ columnsEnd[d]?, e ≤ item.startMinutes) → (placeItem columnsEnd item).1 ≤ d) ∧
      (∀ e ∈ columnsEnd[(placeItem columnsEnd item).1]?, e ≤ item.startMinutes) ∧
      ∀ d, (placeItem columnsEnd item).2[d]? =
        if d = (placeItem columnsEnd item).1 then some item.endMinutes else columnsEnd[d]? := by
  rw [placeItem]
  split
  · rename_i c hc
    obtain ⟨hlt, hend, hbefore⟩ := findIdx?_eq_some_iff_getElem.mp hc
    refine ⟨?_, ?_, ?_⟩
    · intro d hd
      by_contra hlt'
      have hdc : d < c := by simpa using hlt'
      exact hbefore d hdc (decide_eq_true (hd _ (getElem?_eq_getElem (by omega))))
    · intro e he
      rw [getElem?_eq_getElem hlt] at he
      cases he
      exact of_decide_eq_true hend
    · intro d
      rw [getElem?_set]
      by_cases hd : d = c
      · rw [if_pos hd.symm, if_pos hd, if_pos (hd ▸ hlt)]
      · rw [if_neg (Ne.symm hd), if_neg hd]
  · rename_i hnone
    rw [findIdx?_eq_none_iff] at hnone
    refine ⟨?_, ?_, ?_⟩
    · intro d hd
      by_contra hlt
      have hlt' : d < columnsEnd.length := by simpa using hlt
      have hbusy := hnone _ (getElem_mem hlt')
      rw [decide_eq_false_iff_not] at hbusy
      exact hbusy (hd _ (getElem?_eq_getElem hlt'))
    · intro e he
      rw [getElem?_eq_none (Nat.le_refl _)] at he
      cases he
    · intro d
      by_cases hd : d = columnsEnd.length
      · rw [hd, if_pos rfl, getElem?_concat_length]
      rw [if_neg hd]
      rcases Nat.lt_or_gt_of_ne hd with hlt | hgt
      · exact getElem?_append_left hlt
      · rw [getElem?_eq_none (by rw [length_append, length_singleton]; omega), getElem?_eq_none (by omega)]

variable {items : List LayoutEvent}

/-- The last end of a column says as much as all of them, as the items come by their starts. -/
theorem assignLoop_fits (hsorted : items.Pairwise fun a b => a.startMinutes ≤ b.startMinutes)
    {columnsEnd : List Int} {done : List (LayoutEvent × Nat)}
    (hends : ∀ item ∈ items, ∀ c, (∀ e ∈ columnsEnd[c]?, e ≤ item.startMinutes) ↔ Free done item c) :
    ∃ cs, FirstFit done items cs ∧ cs.length = items.length ∧
      assignLoop columnsEnd items = (items.zip cs).map inColumn := by
  induction items generalizing columnsEnd done with
  | nil => exact ⟨[], .nil, rfl, rfl⟩
  | cons item items ih =>
    obtain ⟨hbefore, hsorted⟩ := pairwise_cons.mp hsorted
    obtain ⟨hfirst, hfree, hset⟩ := placeItem_spec columnsEnd item
    have hitem := hends item mem_cons_self
    have hnext : ∀ later ∈ items, ∀ c, (∀ e ∈ (placeItem columnsEnd item).2[c]?, e ≤ later.startMinutes) ↔
        Free (done ++ [(item, (placeItem columnsEnd item).1)]) later c := by
      intro later hlater c
      have hle := hbefore later hlater
      have hold := hends later (mem_cons_of_mem _ hlater) c
      rw [hset c]
      constructor
      · intro h p hp hpc
        rcases mem_append.mp hp with hp | hp
        · by_cases hc : c = (placeItem columnsEnd item).1
          · exact le_trans ((hitem c).mp (hc ▸ hfree) p hp hpc) hle
          · rw [if_neg hc] at h
            exact hold.mp h p hp hpc
        · cases mem_singleton.mp hp
          exact h _ (by rw [if_pos hpc.symm]; rfl)
      · intro h e he
        by_cases hc : c = (placeItem columnsEnd item).1
        · rw [if_pos hc] at he
          cases he
          exact h (item, _) (mem_append_right _ (mem_singleton_self _)) hc.symm
        · rw [if_neg hc] at he
          exact hold.mpr (fun p hp => h p (mem_append_left _ hp)) e he
    obtain ⟨cs, hcs, hlength, hassign⟩ := ih hsorted hnext
    refine ⟨_ :: cs, .cons ((hitem _).mp hfree) (fun d hd => hfirst d ((hitem d).mpr hd)) hcs, ?_, ?_⟩
    · rw [length_cons, length_cons, hlength]
    · rw [assignLoop, zip_cons_cons, hassign]
      rfl

theorem FirstFit.apart {done : List (LayoutEvent × Nat)} {cs : List Nat} (h : FirstFit done items cs) :
    (∀ p ∈ done, ∀ q ∈ items.zip cs, p.2 = q.2 → p.1.endMinutes ≤ q.1.startMinutes) ∧
      (items.zip cs).Pairwise fun p q => p.2 = q.2 → p.1.endMinutes ≤ q.1.startMinutes := by
  induction h with
  | nil => exact ⟨nofun, .nil⟩
  | @cons done item items c cs hfree _ _ ih =>
    obtain ⟨hdone, hitems⟩ := ih
    refine ⟨?_, pairwise_cons.mpr ⟨?_, hitems⟩⟩
    · intro p hp q hq hc
      rcases mem_cons.mp hq with rfl | hq
      · exact hfree p hp hc
      · exact hdone p (mem_append_left _ hp) q hq hc
    · intro q hq
      exact hdone _ (mem_append_right _ (mem_singleton_self _)) q hq

/-! ## Widths -/

/-- The largest column that `p` meets. -/
def reach (blocks : List (LayoutEvent × Nat)) (p : LayoutEvent × Nat) : Nat :=
  ((blocks.filter fun q => eventsOverlap p.1 q.1).map Prod.snd).foldl max p.2

theorem foldl_max_le {l : List Nat} {a m : Nat} : l.foldl max a ≤ m ↔ a ≤ m ∧ ∀ b ∈ l, b ≤ m := by
  induction l generalizing a with
  | nil => simp
  | cons b l ih =>
    rw [foldl_cons, ih, forall_mem_cons, Nat.max_le, and_assoc]

theorem reach_le {blocks : List (LayoutEvent × Nat)} {p : LayoutEvent × Nat} {m : Nat} :
    reach blocks p ≤ m ↔ p.2 ≤ m ∧ ∀ q ∈ blocks, eventsOverlap p.1 q.1 = true → q.2 ≤ m := by
  rw [reach, foldl_max_le]
  refine and_congr_right fun _ => ?_
  constructor
  · intro h q hq hover
    exact h q.2 (mem_map_of_mem (mem_filter.mpr ⟨hq, hover⟩))
  · intro h b hb
    obtain ⟨q, hq, rfl⟩ := mem_map.mp hb
    exact h q (mem_filter.mp hq).1 (mem_filter.mp hq).2

theorem maxColumn_le {i : Nat} {item : LayoutEvent} {m : Nat} : maxColumn items i item ≤ m ↔
      item.column ≤ m ∧ ∀ q ∈ items.zipIdx, i ≠ q.2 → eventsOverlap item q.1 = true → q.1.column ≤ m := by
  rw [maxColumn]
  generalize items.zipIdx = others
  generalize item.column = maxCol
  induction others generalizing maxCol with
  | nil => simp
  | cons q others ih =>
    rw [foldl_cons, ih]
    by_cases hi : i = q.2
    · simp [hi]
    · by_cases hover : eventsOverlap item q.1 = true
      · simp [hi, hover, and_assoc]
      · simp [hover]

def drawn (blocks : List (LayoutEvent × Nat)) (p : LayoutEvent × Nat) : LayoutEvent :=
  { p.1 with column := p.2, totalColumns := reach blocks p + 1 }

theorem setTotalColumns_blocks (blocks : List (LayoutEvent × Nat)) :
    setTotalColumns (blocks.map inColumn) = blocks.map (drawn blocks) := by
  refine ext_getElem? fun i => ?_
  rw [setTotalColumns, getElem?_mapIdx, getElem?_map, getElem?_map]
  cases hi : blocks[i]? with
  | none => rfl
  | some p =>
    have hmax : maxColumn (blocks.map inColumn) i (inColumn p) = reach blocks p := by
      refine eq_of_forall_ge_iff fun m => ?_
      rw [maxColumn_le, reach_le]
      refine and_congr_right fun hp => ?_
      constructor
      · intro h q hq hover
        obtain ⟨j, hj⟩ := mem_iff_getElem?.mp hq
        by_cases hij : i = j
        · subst hij
          cases hi.symm.trans hj
          exact hp
        · refine h (inColumn q, j) (mem_zipIdx_iff_getElem?.mpr ?_) hij hover
          rw [getElem?_map, hj]
          rfl
      · intro h q hq _ hover
        obtain ⟨r, hr, heq⟩ := mem_map.mp (mem_of_getElem? (mem_zipIdx_iff_getElem?.mp hq))
        rw [← heq] at hover ⊢
        exact h r hr hover
    simp only [Option.map_some, hmax]
    rfl

theorem disjoint_iff {c t d u : Nat} (ht : 0 < t) (hu : 0 < u) :
    Set.Ico (c / t : ℚ) ((c + 1) / t) ∩ Set.Ico (d / u : ℚ) ((d + 1) / u) = ∅ ↔
      (c + 1) * u ≤ d * t ∨ (d + 1) * t ≤ c * u := by
  have htq : (0 : ℚ) < t := by exact_mod_cast ht
  have huq : (0 : ℚ) < u := by exact_mod_cast hu
  have hself : ∀ {a b : ℚ}, 0 < b → ¬ (a + 1) / b ≤ a / b := by
    intro a b hb
    rw [div_le_div_iff_of_pos_right hb]
    exact not_le.mpr (lt_add_one a)
  rw [← Set.disjoint_iff_inter_eq_empty, Set.Ico_disjoint_Ico, min_le_iff, le_max_iff, le_max_iff,
    or_iff_right (hself htq), or_iff_left (hself huq), div_le_div_iff₀ htq huq, div_le_div_iff₀ huq htq]
  exact_mod_cast Iff.rfl

variable (tz : TimeZone) (events : List TimeGridEvent) (config : TimeGridConfig) (columnDate : Date)

/-- `[column / total_columns, (column + 1) / total_columns)` -/
def LayoutEvent.range (a : LayoutEvent) : Set ℚ :=
  Set.Ico (a.column / a.totalColumns : ℚ) ((a.column + 1) / a.totalColumns)

def DrawnApart (layout : List LayoutEvent) : Prop :=
  ∀ a ∈ layout, ∀ b ∈ layout, a.index ≠ b.index → eventsOverlap a b = true → a.range ∩ b.range = ∅

/-- Simultaneous events that meet different columns leave each other their part of the width. -/
def WidthsFit (blocks : List (LayoutEvent × Nat)) : Prop :=
  ∀ p ∈ blocks, ∀ q ∈ blocks, eventsOverlap p.1 q.1 = true → reach blocks p ≠ reach blocks q →
    (p.2 + 1) * (reach blocks q + 1) ≤ q.2 * (reach blocks p + 1) ∨
      (q.2 + 1) * (reach blocks p + 1) ≤ p.2 * (reach blocks q + 1)

theorem layoutItems_index :
    ((layoutItems tz events config columnDate).map LayoutEvent.index).Perm (range events.length) := by
  refine ((perm_insertionSort _ _).map _).trans (Perm.of_eq ?_)
  refine ext_getElem? fun i => ?_
  rw [getElem?_map, getElem?_mapIdx]
  by_cases hi : i < events.length
  · rw [getElem?_eq_getElem hi, getElem?_range hi]
    rfl
  · rw [getElem?_eq_none (by omega), getElem?_eq_none (by rw [length_range]; omega)]
    rfl

theorem layoutItems_sorted :
    (layoutItems tz events config columnDate).Pairwise fun a b => a.startMinutes ≤ b.startMinutes :=
  (pairwise_insertionSort layoutOrder _).imp fun h => h.elim le_of_lt fun heq => le_of_eq heq.1

theorem drawnApart_iff {cs : List Nat} (hfit : FirstFit [] items cs)
    (hlength : cs.length = items.length) (hindex : (items.map LayoutEvent.index).Nodup) :
    DrawnApart ((items.zip cs).map (drawn (items.zip cs))) ↔ WidthsFit (items.zip cs) := by
  generalize hblocks : items.zip cs = blocks
  have hnodup : (blocks.map fun p => p.1.index).Nodup := by
    have hmap : blocks.map (fun p => p.1.index) = items.map LayoutEvent.index := by
      have hfst : (items.zip cs).map Prod.fst = items := map_fst_zip (Nat.le_of_eq hlength.symm)
      rw [← hfst, hblocks, map_map]
      rfl
    rw [hmap]
    exact hindex
  have hcolumn : ∀ p ∈ blocks, ∀ q ∈ blocks, p.1.index ≠ q.1.index → eventsOverlap p.1 q.1 = true →
    p.2 ≠ q.2 := by
    intro p hp q hq hidx hover hcol
    have hpairs := hfit.apart.2
    rw [hblocks] at hpairs
    have hends : blocks.Pairwise fun p q => p.1.index ≠ q.1.index → p.2 = q.2 →
        p.1.endMinutes ≤ q.1.startMinutes ∨ q.1.endMinutes ≤ p.1.startMinutes :=
      hpairs.imp fun h _ hc => .inl (h hc)
    have hapart := Pairwise.forall_of_forall_of_flip (fun p _ hidx => absurd rfl hidx) hends
      (hpairs.imp fun h _ hc => .inr (h hc.symm)) hp hq hidx hcol
    simp only [eventsOverlap, Bool.and_eq_true, decide_eq_true_eq] at hover
    omega
  have hrange : ∀ p q : LayoutEvent × Nat, (drawn blocks p).range ∩ (drawn blocks q).range = ∅ ↔
      (p.2 + 1) * (reach blocks q + 1) ≤ q.2 * (reach blocks p + 1) ∨
        (q.2 + 1) * (reach blocks p + 1) ≤ p.2 * (reach blocks q + 1) := fun p q =>
    disjoint_iff (Nat.succ_pos _) (Nat.succ_pos _)
  constructor
  · intro h p hp q hq hover hreach
    rw [← hrange]
    refine h _ (mem_map_of_mem hp) _ (mem_map_of_mem hq) (fun hidx => hreach ?_) hover
    rw [inj_on_of_nodup_map hnodup hp hq hidx]
  · intro h a ha b hb hidx hover
    obtain ⟨p, hp, rfl⟩ := mem_map.mp ha
    obtain ⟨q, hq, rfl⟩ := mem_map.mp hb
    rw [hrange]
    by_cases hreach : reach blocks p = reach blocks q
    · rw [hreach]
      rcases Nat.lt_or_gt_of_ne (hcolumn p hp q hq hidx hover) with hlt | hgt
      · exact .inl (Nat.mul_le_mul_right _ hlt)
      · exact .inr (Nat.mul_le_mul_right _ hgt)
    · exact h p hp q hq hover hreach

def timed (id : String) (fromMinute toMinute : Int) : TimeGridEvent where
  id
  title := id
  startTime := fromMinute * 60
  endTime := toMinute * 60
  allDay := false
  color := "#4285f4"
  calendarName := none
  location := none
  recurrenceRule := none
  calendarId := none
  accountId := "acct"
  organizerName := none
  organizerEmail := none
  rsvpStatus := none
  description := none
  availability := none
  visibility := none
  timezone := none

/-- The columns before the one an event gets are taken by events that are still in progress. -/
theorem FirstFit.crowded {done : List (LayoutEvent × Nat)} {cs : List Nat} (h : FirstFit done items cs)
    (hdone : ∀ q ∈ done, ∀ item ∈ items, q.1.startMinutes ≤ item.startMinutes)
    (hsorted : items.Pairwise fun a b => a.startMinutes ≤ b.startMinutes) :
    ∀ p ∈ items.zip cs, ∀ c < p.2, ∃ q ∈ done ++ items.zip cs, q.2 = c ∧
      q.1.startMinutes ≤ p.1.startMinutes ∧ p.1.startMinutes < q.1.endMinutes := by
  induction h with
  | nil => exact fun p hp => absurd hp not_mem_nil
  | @cons done item items c cs _ hfirst _ ih =>
    obtain ⟨hitem, hsorted⟩ := pairwise_cons.mp hsorted
    intro p hp d hd
    rcases mem_cons.mp hp with rfl | hp
    · have hbusy : ¬ Free done item d := fun hfree => absurd (hfirst d hfree) (Nat.not_le.mpr hd)
      simp only [Free, not_forall, Int.not_le] at hbusy
      obtain ⟨q, hq, hc, hend⟩ := hbusy
      exact ⟨q, mem_append_left _ hq, hc, hdone q hq item mem_cons_self, hend⟩
    · have hnext : ∀ q ∈ done ++ [(item, c)], ∀ later ∈ items, q.1.startMinutes ≤ later.startMinutes :=
        forall_mem_append.mpr ⟨fun q hq later hlater => hdone q hq later (mem_cons_of_mem _ hlater),
          by simpa using hitem⟩
      obtain ⟨q, hq, hrest⟩ := ih hnext hsorted p hp d hd
      exact ⟨q, by simpa using hq, hrest⟩

def inProgress (layout : List LayoutEvent) (minute : Int) : List LayoutEvent :=
  layout.filter fun a => a.startMinutes ≤ minute ∧ minute < a.endMinutes

theorem mem_inProgress {layout : List LayoutEvent} {minute : Int} {a : LayoutEvent} :
    a ∈ inProgress layout minute ↔ a ∈ layout ∧ a.startMinutes ≤ minute ∧ minute < a.endMinutes := by
  simp [inProgress]

/-- A day column has no more columns than it needs: `m` of them hold its events exactly where no minute has
more than `m` events in progress. -/
theorem columns_needed (m : Nat) :
    (∀ a ∈ computeOverlapLayout tz events config columnDate, a.startMinutes < a.endMinutes → a.column < m) ↔
      ∀ minute, (inProgress (computeOverlapLayout tz events config columnDate) minute).length ≤ m := by
  have hsorted := layoutItems_sorted tz events config columnDate
  obtain ⟨cs, hfit, -, hassign⟩ := @assignLoop_fits _ hsorted [] [] fun _ _ _ => by
    simp [Free]
  have hlayout : computeOverlapLayout tz events config columnDate =
      ((layoutItems tz events config columnDate).zip cs).map
        (drawn ((layoutItems tz events config columnDate).zip cs)) := by
    rw [← setTotalColumns_blocks, ← hassign]
    rfl
  have hcrowded := hfit.crowded (fun _ h => absurd h not_mem_nil) hsorted
  have hpairs := hfit.apart.2
  rw [nil_append] at hcrowded
  rw [hlayout]
  generalize (layoutItems tz events config columnDate).zip cs = blocks at hcrowded hpairs
  have hcolumns : ∀ minute, ((inProgress (blocks.map (drawn blocks)) minute).map LayoutEvent.column).Nodup := by
    intro minute
    have hapart : (blocks.map (drawn blocks)).Pairwise fun a b =>
        a.column = b.column → a.endMinutes ≤ b.startMinutes := pairwise_map.mpr hpairs
    refine pairwise_map.mpr ((hapart.filter _).imp_of_mem fun ha hb hends hcolumn => ?_)
    have hle := hends hcolumn
    have ha := (mem_inProgress.mp ha).2
    have hb := (mem_inProgress.mp hb).2
    omega
  constructor
  · intro h minute
    have hsub : (inProgress (blocks.map (drawn blocks)) minute).map LayoutEvent.column ⊆ range m := by
      intro c hc
      obtain ⟨a, ha, rfl⟩ := mem_map.mp hc
      obtain ⟨hmem, hstart, hend⟩ := mem_inProgress.mp ha
      exact mem_range.mpr (h a hmem (by omega))
    simpa using (subperm_of_subset (hcolumns minute) hsub).length_le
  · intro h a ha hlt
    obtain ⟨p, hp, rfl⟩ := mem_map.mp ha
    have hsub : range (p.2 + 1) ⊆
        (inProgress (blocks.map (drawn blocks)) p.1.startMinutes).map LayoutEvent.column := by
      intro c hc
      rcases Nat.lt_succ_iff_lt_or_eq.mp (mem_range.mp hc) with hc | rfl
      · obtain ⟨q, hq, rfl, htime⟩ := hcrowded p hp c hc
        exact mem_map.mpr ⟨drawn blocks q, mem_inProgress.mpr ⟨mem_map_of_mem hq, htime⟩, rfl⟩
      · exact mem_map.mpr ⟨drawn blocks p, mem_inProgress.mpr ⟨ha, Int.le_refl _, hlt⟩, rfl⟩
    have hlen := (subperm_of_subset nodup_range hsub).length_le
    rw [length_range, length_map] at hlen
    exact Nat.lt_of_succ_le (hlen.trans (h p.1.startMinutes))

end Ratatoskr.Calendar
