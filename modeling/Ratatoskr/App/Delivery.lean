import Mathlib.Data.List.Pairwise
import Ratatoskr.App.NotificationQueue

/-!
# App.Delivery

What the notification queue promises, over every interleaving of its lock sections. Capacity, distinct
coalesce keys, slot order and latest-wins need no condition. `enqueue_drop` pops the front of a full
queue without looking at its class, so a `MustDeliver` item is only safe while no `Drop` item meets a
full queue that has it in front.

* `kept_step` : one lock section.
* `queue_promises` : what holds after every run.
-/

namespace Ratatoskr.App

open List
open Lib (Reaches)

section Log

variable {τ κ : Type} [DecidableEq κ] (classify : τ → NotificationClass κ)

def SameKey (a b : τ) : Prop := ∃ key, classify a = .coalesce key ∧ classify b = .coalesce key

def placedSlots (log : List (Event τ)) : List Nat :=
  log.filterMap (fun | .placed slot _ => some slot | _ => none)

def receivedSlots (log : List (Event τ)) : List Nat :=
  log.filterMap (fun | .received slot _ => some slot | _ => none)

/-- The `MustDeliver` items placed in the queue, each with its slot. -/
def mustPlaced (log : List (Event τ)) : List (Nat × τ) :=
  log.filterMap (fun
    | .placed slot item => if classify item = .mustDeliver then some (slot, item) else none
    | _ => none)

def mustReceived (log : List (Event τ)) : List (Nat × τ) :=
  log.filterMap (fun
    | .received slot item => if classify item = .mustDeliver then some (slot, item) else none
    | _ => none)

/-- The values a key was given, in order: new slots and replacements. -/
def valuesOf (key : κ) (log : List (Event τ)) : List τ :=
  log.filterMap (fun
    | .placed _ item | .replaced _ item => if classify item = .coalesce key then some item else none
    | _ => none)

/-- What an event says about the events before it: only a closed queue turns a producer away, only a
coalesced item finds no room, and a coalesced item is received with the latest value of its key. -/
def EventOk (before : List (Event τ)) : Event τ → Prop
  | .refused _ => .closed ∈ before
  | .noRoom item => classify item ≠ .mustDeliver
  | .received _ item =>
    ∀ key, classify item = .coalesce key → (valuesOf classify key before).getLast? = some item
  | _ => True

structure Promises (capacity : Nat) (s : System τ) : Prop where
  capacity : s.state.items.length ≤ capacity
  keys : s.state.items.Pairwise (fun a b => ¬ SameKey classify a b)
  delivered : .ended ∈ s.log → mustReceived classify s.log = mustPlaced classify s.log
  inOrder : mustReceived classify s.log <+: mustPlaced classify s.log
  created : (placedSlots s.log).Pairwise (· < ·)
  fifo : (receivedSlots s.log).Pairwise (· < ·)
  history : ∀ before e, before ++ [e] <+: s.log → EventOk classify before e

/-- The items in the queue that must be delivered, with their slots. -/
def mustQueued (s : System τ) : List (Nat × τ) :=
  (s.slots.zip s.state.items).filter (fun p => classify p.2 = .mustDeliver)

structure Kept (capacity : Nat) (s : System τ) : Prop where
  len : s.slots.length = s.state.items.length
  capacity : s.state.items.length ≤ capacity
  keys : s.state.items.Pairwise (fun a b => ¬ SameKey classify a b)
  waiting : ∀ producer item, s.waiting producer = some item → classify item = .mustDeliver
  bound : ∀ slot ∈ placedSlots s.log ++ (receivedSlots s.log ++ s.slots), slot < s.nextSlot
  created : (placedSlots s.log).Pairwise (· < ·)
  fifo : (receivedSlots s.log ++ s.slots).Pairwise (· < ·)
  must : mustReceived classify s.log ++ mustQueued classify s = mustPlaced classify s.log
  latest : ∀ item ∈ s.state.items, ∀ key, classify item = .coalesce key →
    (valuesOf classify key s.log).getLast? = some item
  closed : s.state.closed = true ↔ .closed ∈ s.log
  ended : .ended ∈ s.log → s.state.closed = true ∧ s.state.items = []
  history : ∀ before e, before ++ [e] <+: s.log → EventOk classify before e

/-- A `Drop` item does not meet a full queue with a `MustDeliver` item in front. -/
def DropOk (capacity : Nat) (s : System τ) : Act τ → Prop
  | .enqueue _ item => classify item = .drop → s.state.closed = false → capacity ≤ s.state.items.length →
      ∀ front, s.state.items.head? = some front → classify front ≠ .mustDeliver
  | _ => True

end Log

section Append

variable {τ κ : Type} [DecidableEq κ] {classify : τ → NotificationClass κ}

theorem history_append {log : List (Event τ)} {e : Event τ}
    (h : ∀ before e, before ++ [e] <+: log → EventOk classify before e) (he : EventOk classify log e) :
    ∀ before e', before ++ [e'] <+: log ++ [e] → EventOk classify before e' := by
  intro before e' hpre
  rcases prefix_concat_iff.mp hpre with heq | hpre
  · obtain ⟨rfl, hlast⟩ := append_inj' heq rfl
    cases hlast
    exact he
  · exact h before e' hpre

theorem placedSlots_append (log more : List (Event τ)) :
    placedSlots (log ++ more) = placedSlots log ++ placedSlots more := filterMap_append

theorem receivedSlots_append (log more : List (Event τ)) :
    receivedSlots (log ++ more) = receivedSlots log ++ receivedSlots more := filterMap_append

theorem mustPlaced_append (log more : List (Event τ)) :
    mustPlaced classify (log ++ more) = mustPlaced classify log ++ mustPlaced classify more :=
  filterMap_append

theorem mustReceived_append (log more : List (Event τ)) :
    mustReceived classify (log ++ more) = mustReceived classify log ++ mustReceived classify more :=
  filterMap_append

theorem valuesOf_append (key : κ) (log more : List (Event τ)) :
    valuesOf classify key (log ++ more) = valuesOf classify key log ++ valuesOf classify key more :=
  filterMap_append

end Append

section Sections

variable {τ κ : Type} [DecidableEq κ] {classify : τ → NotificationClass κ} {capacity : Nat}
  {s s' : System τ}

def Quiet : Event τ → Prop
  | .placed _ _ | .replaced _ _ | .received _ _ => False
  | _ => True

variable {e : Event τ}

theorem Quiet.slots (h : Quiet e) (log : List (Event τ)) :
    placedSlots (log ++ [e]) = placedSlots log ∧ receivedSlots (log ++ [e]) = receivedSlots log := by
  rw [placedSlots_append, receivedSlots_append]
  cases e <;> first | exact ⟨append_nil _, append_nil _⟩ | exact h.elim

theorem Quiet.items (h : Quiet e) (log : List (Event τ)) :
    mustPlaced classify (log ++ [e]) = mustPlaced classify log ∧
      mustReceived classify (log ++ [e]) = mustReceived classify log := by
  rw [mustPlaced_append, mustReceived_append]
  cases e <;> first | exact ⟨append_nil _, append_nil _⟩ | exact h.elim

theorem Quiet.values (h : Quiet e) (key : κ) (log : List (Event τ)) :
    valuesOf classify key (log ++ [e]) = valuesOf classify key log := by
  rw [valuesOf_append]
  cases e <;> first | exact append_nil _ | exact h.elim

/-- A quiet event, after which at most the closed flag and the waiting producers differ. -/
theorem Kept.quiet (h : Kept classify capacity s) (hq : Quiet e)
    (he : EventOk classify s.log e) (hitems : s'.state.items = s.state.items)
    (hslots : s'.slots = s.slots) (hnext : s'.nextSlot = s.nextSlot) (hlog : s'.log = s.log ++ [e])
    (hwait : ∀ producer item, s'.waiting producer = some item → classify item = .mustDeliver)
    (hclosed : s'.state.closed = true ↔ .closed ∈ s'.log)
    (hended : .ended ∈ s'.log → s'.state.closed = true ∧ s'.state.items = []) :
    Kept classify capacity s' := by
  have hmustQ : mustQueued classify s' = mustQueued classify s := by
    rw [mustQueued, mustQueued, hitems, hslots]
  refine ⟨?_, ?_, ?_, hwait, ?_, ?_, ?_, ?_, ?_, hclosed, hended, ?_⟩
  · rw [hslots, hitems, h.len]
  · rw [hitems]
    exact h.capacity
  · rw [hitems]
    exact h.keys
  · rw [hlog, (hq.slots s.log).1, (hq.slots s.log).2, hslots, hnext]
    exact h.bound
  · rw [hlog, (hq.slots s.log).1]
    exact h.created
  · rw [hlog, (hq.slots s.log).2, hslots]
    exact h.fifo
  · rw [hlog, (hq.items s.log).1, (hq.items s.log).2, hmustQ]
    exact h.must
  · intro item hitem key hkey
    rw [hlog, hq.values]
    rw [hitems] at hitem
    exact h.latest item hitem key hkey
  · rw [hlog]
    exact history_append h.history he

variable {slots : List Nat} {items : List τ}

theorem Kept.evict (h : Kept classify capacity s) {slot : Nat} {front : τ}
    (hslots : s.slots = slot :: slots) (hitems : s.state.items = front :: items)
    (hfront : classify front ≠ .mustDeliver) (hopen : s.state.closed = false) :
    Kept classify capacity { s with
      state := { s.state with items := items }
      slots := slots
      log := s.log ++ [.evicted slot front] } := by
  have hq : Quiet (.evicted slot front) := trivial
  have hlen := h.len
  have hcap := h.capacity
  have hkeys := h.keys
  have hbound := h.bound
  have hfifo := h.fifo
  have hmust := h.must
  rw [hslots, hitems] at hlen
  rw [hitems] at hcap hkeys
  rw [hslots] at hbound hfifo
  rw [mustQueued, hslots, hitems, zip_cons_cons, filter_cons_of_neg (by simpa using hfront)]
    at hmust
  refine ⟨Nat.succ.inj hlen, Nat.le_of_succ_le hcap, hkeys.of_cons, h.waiting, ?_, ?_, ?_, ?_, ?_, ?_,
    ?_, ?_⟩
  · rw [(hq.slots s.log).1, (hq.slots s.log).2]
    intro n hn
    refine hbound n ?_
    rcases mem_append.mp hn with hn | hn
    · exact mem_append_left _ hn
    · rcases mem_append.mp hn with hn | hn
      · exact mem_append_right _ (mem_append_left _ hn)
      · exact mem_append_right _ (mem_append_right _ (mem_cons_of_mem _ hn))
  · rw [(hq.slots s.log).1]
    exact h.created
  · rw [(hq.slots s.log).2]
    exact hfifo.sublist ((sublist_cons_self ..).append_left _)
  · rw [(hq.items s.log).1, (hq.items s.log).2]
    exact hmust
  · intro item hitem key hkey
    rw [hq.values]
    refine h.latest item ?_ key hkey
    rw [hitems]
    exact mem_cons_of_mem _ hitem
  · rw [mem_append, ← h.closed]
    simp
  · intro hin
    rcases mem_append.mp hin with hin | hin
    · rw [(h.ended hin).1] at hopen
      cases hopen
    · simp at hin
  · exact history_append h.history trivial

variable {item : τ} {waiting : Nat → Option τ}

theorem Kept.placed (h : Kept classify capacity s) (hroom : s.state.items.length < capacity)
    (hkey : ∀ other ∈ s.state.items, ¬ SameKey classify other item) (hopen : s.state.closed = false)
    (hwait : ∀ producer item, waiting producer = some item → classify item = .mustDeliver) :
    Kept classify capacity
      { state := { s.state with items := s.state.items ++ [item] }
        slots := s.slots ++ [s.nextSlot]
        nextSlot := s.nextSlot + 1
        waiting := waiting
        log := s.log ++ [.placed s.nextSlot item] } := by
  have hplaced : placedSlots (s.log ++ [.placed s.nextSlot item]) = placedSlots s.log ++ [s.nextSlot] :=
    placedSlots_append ..
  have hreceived : receivedSlots (s.log ++ [.placed s.nextSlot item]) = receivedSlots s.log := by
    rw [receivedSlots_append]
    exact append_nil _
  have hzip : (s.slots ++ [s.nextSlot]).zip (s.state.items ++ [item]) =
      s.slots.zip s.state.items ++ [(s.nextSlot, item)] := zip_append h.len
  refine ⟨?_, ?_, ?_, hwait, ?_, ?_, ?_, ?_, ?_, ?_, ?_, ?_⟩
  · simp [h.len]
  · simp only [length_append, length_singleton]
    omega
  · refine pairwise_append.mpr ⟨h.keys, pairwise_singleton .., ?_⟩
    intro a ha b hb
    rw [mem_singleton.mp hb]
    exact hkey a ha
  · rw [hplaced, hreceived]
    intro n hn
    have hsub : n ∈ placedSlots s.log ++ (receivedSlots s.log ++ s.slots) ∨ n = s.nextSlot := by
      simp only [mem_append, mem_singleton] at hn ⊢
      tauto
    rcases hsub with hn | rfl
    · exact Nat.lt_succ_of_lt (h.bound n hn)
    · exact Nat.lt_succ_self _
  · rw [hplaced]
    refine pairwise_append.mpr ⟨h.created, pairwise_singleton .., ?_⟩
    intro a ha b hb
    rw [mem_singleton.mp hb]
    exact h.bound a (mem_append_left _ ha)
  · rw [hreceived, ← append_assoc]
    refine pairwise_append.mpr ⟨h.fifo, pairwise_singleton .., ?_⟩
    intro a ha b hb
    rw [mem_singleton.mp hb]
    exact h.bound a (mem_append_right _ ha)
  · have hmust := h.must
    rw [mustQueued] at hmust
    rw [mustPlaced_append, mustQueued, hzip, ← hmust]
    by_cases hclass : classify item = .mustDeliver
    · simp [mustReceived, mustPlaced, hclass]
    · simp [mustReceived, mustPlaced, hclass]
  · intro other hother key hclass
    rw [valuesOf_append]
    rcases mem_append.mp hother with hin | hin
    · have hne : classify item ≠ .coalesce key := fun hc => hkey other hin ⟨key, hclass, hc⟩
      simp only [valuesOf, filterMap_cons, if_neg hne, filterMap_nil, append_nil]
      exact h.latest other hin key hclass
    · rw [mem_singleton.mp hin] at hclass ⊢
      simp [valuesOf, hclass]
  · rw [mem_append, ← h.closed]
    simp
  · intro hin
    rcases mem_append.mp hin with hin | hin
    · rw [(h.ended hin).1] at hopen
      cases hopen
    · simp at hin
  · exact history_append h.history trivial

omit [DecidableEq κ] in
theorem keys_unique (h : items.Pairwise (fun a b => ¬ SameKey classify a b)) {i j : Nat}
    {a b : τ} (hi : items[i]? = some a) (hj : items[j]? = some b) (hsame : SameKey classify a b) : i = j := by
  obtain ⟨hil, rfl⟩ := List.getElem?_eq_some_iff.mp hi
  obtain ⟨hjl, rfl⟩ := List.getElem?_eq_some_iff.mp hj
  have hpair := pairwise_iff_getElem.mp h
  obtain ⟨key, ha, hb⟩ := hsame
  rcases Nat.lt_trichotomy i j with hlt | heq | hgt
  · exact absurd ⟨key, ha, hb⟩ (hpair i j hil hjl hlt)
  · exact heq
  · exact absurd ⟨key, hb, ha⟩ (hpair j i hjl hil hgt)

omit [DecidableEq κ] in
/-- Overwriting an item with one of the same class changes nothing that only looks at classes. -/
theorem set_classes {i : Nat} {old : τ} (hi : items[i]? = some old) (hclass : classify old = classify item) :
    (items.set i item).map classify = items.map classify := by
  obtain ⟨hil, rfl⟩ := List.getElem?_eq_some_iff.mp hi
  rw [map_set, ← hclass, ← getElem_map classify]
  · exact set_getElem_self _
  · rw [length_map]
    exact hil

theorem filter_zip_set {i : Nat} {old : τ} (hi : items[i]? = some old) (hold : classify old ≠ .mustDeliver)
    (hitem : classify item ≠ .mustDeliver) :
    (slots.zip (items.set i item)).filter (fun p => classify p.2 = .mustDeliver) =
      (slots.zip items).filter (fun p => classify p.2 = .mustDeliver) := by
  induction items generalizing slots i with
  | nil => cases hi
  | cons x xs ih =>
    cases slots with
    | nil => rfl
    | cons n ns =>
      cases i with
      | zero =>
        rw [getElem?_cons_zero, Option.some.injEq] at hi
        subst hi
        rw [set_cons_zero, zip_cons_cons, zip_cons_cons,
          filter_cons_of_neg (by simpa using hitem), filter_cons_of_neg (by simpa using hold)]
      | succ i =>
        rw [set_cons_succ, zip_cons_cons, zip_cons_cons, filter_cons, filter_cons, ih (by simpa using hi)]

theorem Kept.replaced (h : Kept classify capacity s) {old : τ} {key : κ} {index : Nat} {slot : Nat}
    (hi : s.state.items[index]? = some old) (hold : classify old = .coalesce key)
    (hitem : classify item = .coalesce key) (hopen : s.state.closed = false)
    (hwait : ∀ producer item, waiting producer = some item → classify item = .mustDeliver) :
    Kept classify capacity { s with
      state := { s.state with items := s.state.items.set index item }
      waiting := waiting
      log := s.log ++ [.replaced slot item] } := by
  have hplaced : placedSlots (s.log ++ [.replaced slot item]) = placedSlots s.log := by
    rw [placedSlots_append]
    exact append_nil _
  have hreceived : receivedSlots (s.log ++ [.replaced slot item]) = receivedSlots s.log := by
    rw [receivedSlots_append]
    exact append_nil _
  have hnot : ∀ x, classify x = .coalesce key → classify x ≠ .mustDeliver := by
    intro x hx hm
    rw [hx] at hm
    cases hm
  refine ⟨?_, ?_, ?_, hwait, ?_, ?_, ?_, ?_, ?_, ?_, ?_, ?_⟩
  · simp [h.len]
  · simp only [length_set]
    exact h.capacity
  · have hsame := set_classes hi (hold.trans hitem.symm)
    have hclasses : ∀ l : List τ, l.Pairwise (fun a b => ¬ SameKey classify a b) ↔
        (l.map classify).Pairwise (fun a b => ¬ ∃ key, a = .coalesce key ∧ b = .coalesce key) := by
      intro l
      rw [pairwise_map]
      rfl
    rw [hclasses, hsame, ← hclasses]
    exact h.keys
  · rw [hplaced, hreceived]
    exact h.bound
  · rw [hplaced]
    exact h.created
  · rw [hreceived]
    exact h.fifo
  · have hmust := h.must
    rw [mustQueued] at hmust
    rw [mustPlaced_append, mustQueued,
      filter_zip_set hi (hnot old hold) (hnot item hitem), ← hmust]
    simp [mustReceived, mustPlaced]
  · intro other hother key' hclass
    rw [valuesOf_append]
    obtain ⟨j, hj⟩ := mem_iff_getElem?.mp hother
    rw [getElem?_set] at hj
    by_cases hij : index = j
    · -- the overwritten slot holds the value just given
      rw [if_pos hij] at hj
      split at hj
      · cases hj
        simp [valuesOf, hclass]
      · cases hj
    · rw [if_neg hij] at hj
      have hne : classify item ≠ .coalesce key' := by
        intro hc
        refine hij (keys_unique h.keys hi hj ⟨key', ?_, hclass⟩)
        rw [hold, ← hitem, hc]
      simp only [valuesOf, filterMap_cons, if_neg hne, filterMap_nil, append_nil]
      exact h.latest other (mem_of_getElem? hj) key' hclass
  · rw [mem_append, ← h.closed]
    simp
  · intro hin
    rcases mem_append.mp hin with hin | hin
    · rw [(h.ended hin).1] at hopen
      cases hopen
    · simp at hin
  · exact history_append h.history trivial

theorem Kept.refused (h : Kept classify capacity s) (hclosed : s.state.closed = true) (item : τ)
    (hwait : ∀ producer item, waiting producer = some item → classify item = .mustDeliver) :
    Kept classify capacity { s with waiting := waiting, log := s.log ++ [.refused item] } := by
  refine h.quiet (e := .refused item) trivial (h.closed.mp hclosed) rfl rfl rfl rfl hwait ?_ ?_
  · rw [mem_append, ← h.closed]
    simp
  · intro hin
    rcases mem_append.mp hin with hin | hin
    · exact h.ended hin
    · simp at hin

theorem waiting_done (h : Kept classify capacity s) (producer : Nat) :
    ∀ p item, Function.update s.waiting producer none p = some item → classify item = .mustDeliver := by
  intro p item hp
  rw [Function.update_apply] at hp
  split at hp
  · cases hp
  · exact h.waiting p item hp

theorem kept_mustDeliver (h : Kept classify capacity s)
    (hclass : classify item = .mustDeliver) (producer : Nat) :
    Kept classify capacity (record s producer item (enqueueMustDeliver capacity item s.state)) := by
  have hdone := waiting_done h producer
  rw [enqueueMustDeliver]
  by_cases hclosed : s.state.closed = true
  · rw [if_pos hclosed]
    exact h.refused hclosed item hdone
  have hopen : s.state.closed = false := Bool.eq_false_iff.mpr hclosed
  rw [if_neg hclosed]
  by_cases hroom : s.state.items.length < capacity
  · rw [if_pos hroom]
    refine h.placed hroom ?_ hopen hdone
    rintro other - ⟨key, -, hkey⟩
    rw [hclass] at hkey
    cases hkey
  · rw [if_neg hroom]
    refine ⟨h.len, h.capacity, h.keys, ?_, h.bound, h.created, h.fifo, h.must, h.latest, h.closed,
      h.ended, h.history⟩
    intro p x hp
    have hp' : Function.update s.waiting producer (some item) p = some x := hp
    rw [Function.update_apply] at hp'
    split at hp'
    · cases hp'
      exact hclass
    · exact h.waiting p x hp'

theorem kept_coalesce (h : Kept classify capacity s) {key : κ}
    (hclass : classify item = .coalesce key) (producer : Nat) : Kept classify capacity
      (record s producer item (enqueueCoalesce classify capacity key item s.state)) := by
  have hdone := waiting_done h producer
  rw [enqueueCoalesce]
  by_cases hclosed : s.state.closed = true
  · rw [if_pos hclosed]
    exact h.refused hclosed item hdone
  have hopen : s.state.closed = false := Bool.eq_false_iff.mpr hclosed
  rw [if_neg hclosed]
  cases hfind : s.state.items.findIdx? (fun slot => classify slot = .coalesce key) with
  | some index =>
    obtain ⟨hlt, hold, -⟩ := findIdx?_eq_some_iff_getElem.mp hfind
    exact h.replaced (getElem?_eq_getElem hlt) (by simpa using hold) hclass hopen hdone
  | none =>
    have hfree := findIdx?_eq_none_iff.mp hfind
    by_cases hfull : capacity ≤ s.state.items.length
    · simp only [if_pos hfull]
      refine h.quiet (e := .noRoom item) trivial ?_ rfl rfl rfl rfl hdone ?_ ?_
      · intro hmust
        rw [hclass] at hmust
        cases hmust
      · simp only [record, mem_append, ← h.closed]
        simp
      · intro hin
        simp only [record, mem_append] at hin
        rcases hin with hin | hin
        · exact h.ended hin
        · simp at hin
    · simp only [if_neg hfull]
      refine h.placed (by omega) ?_ hopen hdone
      rintro other hother ⟨key', hother', hitem⟩
      rw [hclass] at hitem
      cases hitem
      have hno := hfree other hother
      simp [hother'] at hno

/-- A lock section of `enqueue_drop` that evicts nothing that must be delivered. -/
theorem kept_drop (hcap : 1 ≤ capacity) (h : Kept classify capacity s)
    (hclass : classify item = .drop) (producer : Nat)
    (hok : s.state.closed = false → capacity ≤ s.state.items.length →
      ∀ front, s.state.items.head? = some front → classify front ≠ .mustDeliver) :
    Kept classify capacity (record s producer item (enqueueDrop capacity item s.state)) := by
  have hdone := waiting_done h producer
  have hother : ∀ other : τ, ¬ SameKey classify other item := by
    rintro other ⟨key, -, hkey⟩
    rw [hclass] at hkey
    cases hkey
  rw [enqueueDrop]
  by_cases hclosed : s.state.closed = true
  · rw [if_pos hclosed]
    exact h.refused hclosed item hdone
  have hopen : s.state.closed = false := Bool.eq_false_iff.mpr hclosed
  rw [if_neg hclosed]
  by_cases hfull : capacity ≤ s.state.items.length
  · rw [if_pos hfull]
    cases hitems : s.state.items with
    | nil =>
      rw [hitems, length_nil] at hfull
      omega
    | cons front items =>
      cases hslots : s.slots with
      | nil =>
        have hlen := h.len
        rw [hitems, hslots] at hlen
        cases hlen
      | cons slot slots =>
        have hevict := h.evict hslots hitems (hok hopen hfull front (by rw [hitems]; rfl)) hopen
        have hroom : items.length < capacity := by
          have hle := h.capacity
          rw [hitems, length_cons] at hle
          omega
        have hplaced := hevict.placed hroom (fun other _ => hother other) hopen hdone
        simpa only [record, hslots, hitems, tail_cons, zip_cons_cons, head?_cons,
          Option.toList_some, map_cons, map_nil] using hplaced
  · rw [if_neg hfull]
    exact h.placed (by omega) (fun other _ => hother other) hopen hdone

theorem Kept.received (h : Kept classify capacity s) {slot : Nat} {front : τ}
    (hslots : s.slots = slot :: slots) (hitems : s.state.items = front :: items) :
    Kept classify capacity { s with
      state := { s.state with items := items }
      slots := slots
      log := s.log ++ [.received slot front] } := by
  have hplaced : placedSlots (s.log ++ [.received slot front]) = placedSlots s.log := by
    rw [placedSlots_append]
    exact append_nil _
  have hreceived : receivedSlots (s.log ++ [.received slot front]) = receivedSlots s.log ++ [slot] :=
    receivedSlots_append ..
  have hlen := h.len
  have hcap := h.capacity
  have hkeys := h.keys
  have hbound := h.bound
  have hfifo := h.fifo
  have hmust := h.must
  rw [hslots, hitems] at hlen
  rw [hitems] at hcap hkeys
  rw [hslots] at hbound hfifo
  rw [mustQueued, hslots, hitems, zip_cons_cons] at hmust
  refine ⟨Nat.succ.inj hlen, Nat.le_of_succ_le hcap, hkeys.of_cons, h.waiting, ?_, ?_, ?_, ?_, ?_, ?_, ?_, ?_⟩
  · rw [hplaced, hreceived, append_assoc]
    exact hbound
  · rw [hplaced]
    exact h.created
  · rw [hreceived, append_assoc]
    exact hfifo
  · rw [mustPlaced_append, mustQueued, ← hmust]
    by_cases hclass : classify front = .mustDeliver
    · simp [mustReceived, mustPlaced, hclass]
    · simp [mustReceived, mustPlaced, hclass]
  · intro item hitem key hkey
    rw [valuesOf_append]
    simp only [valuesOf, filterMap_cons, filterMap_nil, append_nil]
    refine h.latest item ?_ key hkey
    rw [hitems]
    exact mem_cons_of_mem _ hitem
  · rw [mem_append, ← h.closed]
    simp
  · intro hin
    rcases mem_append.mp hin with hin | hin
    · rw [(h.ended hin).2] at hitems
      cases hitems
    · simp at hin
  · refine history_append h.history ?_
    intro key hkey
    exact h.latest front (by rw [hitems]; exact mem_cons_self ..) key hkey

theorem kept_recv (h : Kept classify capacity s)
    (hstep : step classify capacity s .recv = .ok s') : Kept classify capacity s' := by
  rw [step, recv] at hstep
  cases hitems : s.state.items with
  | cons front items =>
    rw [hitems] at hstep
    cases hstep
    cases hslots : s.slots with
    | nil =>
      have hlen := h.len
      rw [hitems, hslots] at hlen
      cases hlen
    | cons slot slots => exact h.received hslots hitems
  | nil =>
    rw [hitems] at hstep
    by_cases hclosed : s.state.closed = true
    · simp only [hclosed] at hstep
      cases hstep
      refine h.quiet (e := .ended) trivial trivial rfl rfl rfl rfl h.waiting ?_ ?_
      · rw [mem_append, ← h.closed]
        simp
      · intro _
        exact ⟨hclosed, hitems⟩
    · simp only [if_neg hclosed] at hstep
      cases hstep
      exact h

theorem kept_step (hcap : 1 ≤ capacity) (h : Kept classify capacity s) {a : Act τ}
    (hok : DropOk classify capacity s a) (hstep : step classify capacity s a = .ok s') :
    Kept classify capacity s' := by
  cases a with
  | enqueue producer item =>
    rw [step] at hstep
    cases hwait : s.waiting producer with
    | some x =>
      rw [hwait] at hstep
      cases hstep
    | none =>
      rw [hwait] at hstep
      cases hstep
      rw [enqueue]
      cases hclass : classify item with
      | coalesce key => exact kept_coalesce h hclass producer
      | drop => exact kept_drop hcap h hclass producer (hok hclass)
      | mustDeliver => exact kept_mustDeliver h hclass producer
  | retry producer =>
    rw [step] at hstep
    cases hwait : s.waiting producer with
    | some item =>
      rw [hwait] at hstep
      cases hstep
      exact kept_mustDeliver h (h.waiting producer item hwait) producer
    | none =>
      rw [hwait] at hstep
      cases hstep
  | recv => exact kept_recv h hstep
  | close =>
    cases hstep
    refine h.quiet (e := .closed) trivial trivial rfl rfl rfl rfl h.waiting ?_ ?_
    · simp [close]
    · intro hin
      rcases mem_append.mp hin with hin | hin
      · exact ⟨rfl, (h.ended hin).2⟩
      · simp at hin

theorem kept_new : Kept classify capacity System.new := by
  refine ⟨rfl, Nat.zero_le _, List.Pairwise.nil, ?_, ?_, List.Pairwise.nil, List.Pairwise.nil, rfl, ?_,
    ?_, ?_, ?_⟩
  · intro producer item hp
    cases hp
  · intro slot hslot
    cases hslot
  · intro item hitem
    cases hitem
  · simp [System.new]
  · intro hin
    cases hin
  · intro before e hpre
    exact absurd (prefix_nil.mp hpre) (by simp)

theorem Kept.promises (h : Kept classify capacity s) : Promises classify capacity s := by
  refine ⟨h.capacity, h.keys, ?_, ?_, h.created, ?_, h.history⟩
  · intro hended
    have hmust := h.must
    rw [mustQueued, (h.ended hended).2, zip_nil_right, filter_nil, append_nil] at hmust
    exact hmust
  · rw [← h.must]
    exact prefix_append ..
  · exact h.fifo.sublist (sublist_append_left ..)

/-- In every run in which no `Drop` item meets a full queue with a `MustDeliver` item in front, every
promise holds in every state. -/
theorem queue_promises (classify : τ → NotificationClass κ) (capacity : Nat) (hcap : 1 ≤ capacity)
    (s : System τ) (hrun : Reaches (step classify capacity) (DropOk classify capacity) .new s) :
    Promises classify capacity s := by
  have hkept : Kept classify capacity s :=
    hrun.invariant kept_new (fun _ _ _ hu hok hstep => kept_step hcap hu hok hstep)
  exact hkept.promises

end Sections

/-! ## A lost item -/

/-- The class is part of the test item, as in the tests of the source. -/
def mockClass (item : NotificationClass String × Nat) : NotificationClass String := item.1

/-- A `MustDeliver` item fills the queue, a `Drop` item arrives, the consumer reads to the end. -/
def lostItem : List (Act (NotificationClass String × Nat)) :=
  [.enqueue 0 (.mustDeliver, 1), .enqueue 1 (.drop, 2), .recv, .close, .recv]

theorem mustDeliver_evicted :
    ¬ ∀ (classify : NotificationClass String × Nat → NotificationClass String) (capacity : Nat),
      1 ≤ capacity → ∀ s, Reaches (step classify capacity) (fun _ _ => True) .new s →
        Promises classify capacity s := by
  intro hclaim
  have hlost : (lostItem.foldlM (step mockClass 1) .new).map
      (fun s => (mustReceived mockClass s.log, mustPlaced mockClass s.log)) =
      .ok ([], [(0, (.mustDeliver, 1))]) := by decide
  have hended : (lostItem.foldlM (step mockClass 1) .new).map
      (fun s => s.log.any (fun | .ended => true | _ => false)) = .ok true := by decide
  cases hrun : lostItem.foldlM (step mockClass 1) .new with
  | error e =>
    rw [hrun] at hlost
    cases hlost
  | ok s =>
    rw [hrun] at hlost hended
    simp only [Except.map, Except.ok.injEq, Prod.mk.injEq] at hlost hended
    have hmem : .ended ∈ s.log := by
      obtain ⟨e, he, hend⟩ := any_eq_true.mp hended
      cases e <;> first | exact he | cases hend
    have hall := (hclaim mockClass 1 (Nat.le_refl _) s (Lib.reaches_foldlM hrun)).delivered hmem
    rw [hlost.1, hlost.2] at hall
    cases hall

theorem queue_promises_delivered : ∃ s, Reaches (step mockClass 1) (DropOk mockClass 1) .new s ∧
      mustReceived mockClass s.log = [(0, (.mustDeliver, 1))] ∧ Promises mockClass 1 s := by
  have hgot : (([.enqueue 0 (.mustDeliver, 1), .recv, .close, .recv] :
      List (Act (NotificationClass String × Nat))).foldlM (step mockClass 1) .new).map
      (fun s => mustReceived mockClass s.log) = .ok [(0, (.mustDeliver, 1))] := by decide
  cases hrun : ([.enqueue 0 (.mustDeliver, 1), .recv, .close, .recv] :
      List (Act (NotificationClass String × Nat))).foldlM (step mockClass 1) .new with
  | error e =>
    rw [hrun] at hgot
    cases hgot
  | ok s =>
    rw [hrun] at hgot
    have hreach : Reaches (step mockClass 1) (DropOk mockClass 1) .new s := by
      refine Lib.reaches_foldlM_ok ?_ hrun
      intro a ha u
      simp only [mem_cons, not_mem_nil, or_false] at ha
      rcases ha with rfl | rfl | rfl | rfl
      · intro hdrop
        cases hdrop
      · trivial
      · trivial
      · trivial
    exact ⟨s, hreach, Except.ok.inj hgot, queue_promises mockClass 1 (Nat.le_refl _) s hreach⟩

end Ratatoskr.App
