import Ratatoskr.Drafts.Wal
import Ratatoskr.Lib.Run

/-!
# Drafts.Replay

What a drain makes of the log. A line that a crash cut short has no newline, so that the next append joins
it and both are lost; the account of a row stays that of its first save; and an entry that the database
refuses is renamed away with the file. Where none of these happens a drain applies exactly the complete
appends, in order, however often it was begun before.
-/

namespace Ratatoskr.Drafts

open List
open Lib (splitLines splitLines_terminated splitLines_rest Reaches)
open Threading (trim)

variable {bytes : List UInt8} {e : WalEntry}

/-- What `serde_json` says of an entry: its text is read back, escapes control characters and is no blank,
and none of its beginnings is the text of an entry. -/
structure Codec.Faithful (codec : Codec) (entry : WalEntry) : Prop where
  roundTrip : codec.fromStr (codec.toString entry) = some entry
  escapes : ∀ b ∈ text codec entry, 32 ≤ b.toNat
  visible : trim (codec.toString entry).toList ≠ []
  torn : ∀ n < (text codec entry).length, ∀ s, decodeUtf8 ((text codec entry).take n) = some s →
    codec.fromStr s = none

theorem decodeUtf8_utf8 (s : String) : decodeUtf8 (utf8 s) = some s := by
  unfold decodeUtf8 utf8 String.fromUTF8?
  rw [dif_pos s.isValidUTF8]
  rfl

theorem utf8_of_decode {s : String} (h : decodeUtf8 bytes = some s) : utf8 s = bytes := by
  unfold decodeUtf8 String.fromUTF8? at h
  split at h
  · cases h
    rfl
  · cases h

section Layout

variable {codec : Codec} {entry : WalEntry}
variable {pending : List WalEntry}

theorem Codec.Faithful.newline_not_mem (h : codec.Faithful entry) : newline ∉ text codec entry := by
  intro hmem
  exact absurd (h.escapes _ hmem) (by decide)

theorem Codec.Faithful.text_ne_nil (h : codec.Faithful entry) : text codec entry ≠ [] := by
  intro hnil
  have hempty : codec.toString entry = "" := by
    have hs := decodeUtf8_utf8 (codec.toString entry)
    rw [show utf8 (codec.toString entry) = utf8 "" from hnil] at hs
    exact (Option.some.inj hs).symm
  exact h.visible (by rw [hempty]; rfl)

theorem chomp_escaped {bytes : List UInt8} (h : ∀ b ∈ bytes, 32 ≤ b.toNat) (terminated : Bool) :
    chomp (bytes, terminated) = bytes := by
  cases terminated with
  | false => rfl
  | true =>
    refine if_neg (fun hlast => ?_)
    exact absurd (h _ (mem_of_getLast? hlast)) (by decide)

/-- How the file stands: whole lines, and after them nothing, a text without its newline, or a part of
one. -/
inductive Layout (codec : Codec) : List UInt8 → List WalEntry → Prop where
  | whole (pending : List WalEntry) : Layout codec (pending.flatMap (line codec)) pending
  | unterminated (pending : List WalEntry) (entry : WalEntry) (h : codec.Faithful entry) :
      Layout codec (pending.flatMap (line codec) ++ text codec entry) (pending ++ [entry])
  | torn (pending : List WalEntry) (entry : WalEntry) (h : codec.Faithful entry) (n : Nat) (hpos : 0 < n)
      (hn : n < (text codec entry).length) :
      Layout codec (pending.flatMap (line codec) ++ (text codec entry).take n) pending

theorem lines_append (rest : List UInt8) (h : ∀ e ∈ pending, codec.Faithful e) :
    lines (pending.flatMap (line codec) ++ rest) = pending.map (text codec) ++ lines rest := by
  have hflat : pending.flatMap (line codec) =
      (pending.map (text codec)).flatMap (fun t => t ++ [newline]) := by
    rw [flatMap_map]
    rfl
  have hsep : ∀ t ∈ pending.map (text codec), newline ∉ t := by
    intro t ht
    obtain ⟨e, he, rfl⟩ := mem_map.mp ht
    exact (h e he).newline_not_mem
  rw [lines, hflat, splitLines_terminated rest hsep, map_append, map_map, map_map]
  refine congrArg (· ++ lines rest) (map_congr_left (fun e he => ?_))
  exact chomp_escaped (h e he).escapes true

theorem lines_unterminated (h : codec.Faithful entry) : lines (text codec entry) = [text codec entry] := by
  rw [lines, splitLines_rest h.newline_not_mem h.text_ne_nil, map_singleton, chomp_escaped h.escapes]

theorem lines_torn (h : codec.Faithful entry) {n : Nat} (hpos : 0 < n) (hn : n < (text codec entry).length) :
    lines ((text codec entry).take n) = [(text codec entry).take n] := by
  have hne : (text codec entry).take n ≠ [] := by
    intro hnil
    have hlen := congrArg List.length hnil
    rw [length_take, length_nil] at hlen
    omega
  have hsep : newline ∉ (text codec entry).take n := fun hmem =>
    h.newline_not_mem (mem_of_mem_take hmem)
  rw [lines, splitLines_rest hsep hne]
  rfl

def saveAll (failures : Nat → Bool) : Nat → List WalEntry → Replayed → Replayed
  | _, [], r => r
  | idx, e :: rest, r => saveAll failures (idx + 1) rest (saveEntry (failures idx) r e)

variable {failures : Nat → Bool}

attribute [local simp] saveAll replayLine replayLines

theorem replayLine_faithful (h : codec.Faithful entry) (failed : Bool) (r : Replayed) :
    replayLine codec failed r (codec.toString entry) = saveEntry failed r entry := by
  rw [replayLine, if_neg h.visible, h.roundTrip]

theorem replayLines_texts {es : List WalEntry} (h : ∀ e ∈ es, codec.Faithful e) (idx : Nat)
    (rest : List (List UInt8)) (r : Replayed) :
    replayLines codec failures idx (es.map (text codec) ++ rest) r =
      replayLines codec failures (idx + es.length) rest (saveAll failures idx es r) := by
  induction es generalizing idx r with
  | nil => rfl
  | cons e es ih =>
    have hes := fun x hx => h x (mem_cons_of_mem _ hx)
    rw [map_cons, cons_append, replayLines, text, decodeUtf8_utf8]
    simp only
    rw [replayLine_faithful (h e mem_cons_self), ih hes, length_cons]
    congr 1
    omega

/-- A part of a text changes nothing, whether or not it is cut inside a character. -/
theorem replayLines_torn (h : codec.Faithful entry) {n : Nat} (hn : n < (text codec entry).length)
    (idx : Nat) (r : Replayed) : replayLines codec failures idx [(text codec entry).take n] r = r := by
  rw [replayLines]
  cases hd : decodeUtf8 ((text codec entry).take n) with
  | none => rfl
  | some s =>
    simp only [replayLine, h.torn n hn s hd]
    split <;> rfl

theorem replay_layout (failures : Nat → Bool) {file : List UInt8} (hl : Layout codec file pending)
    (h : ∀ e ∈ pending, codec.Faithful e) (count : Nat) (r : Replayed) :
    replayLines codec failures 0 ((lines file).take count) r = saveAll failures 0 (pending.take count) r := by
  have htake : ∀ e ∈ pending.take count, codec.Faithful e := fun e he => h e (mem_of_mem_take he)
  cases hl with
  | whole =>
    rw [← append_nil (pending.flatMap _), lines_append [] h, show lines [] = [] from rfl,
      append_nil, ← map_take, ← append_nil (List.map _ _), replayLines_texts htake, replayLines]
  | unterminated before entry he =>
    rw [lines_append _ (fun e hm => h e (mem_append_left _ hm)), lines_unterminated he,
      ← map_singleton, ← map_append, ← map_take, ← append_nil (List.map _ _),
      replayLines_texts htake, replayLines]
  | torn _ entry he n hpos hn =>
    rw [lines_append _ h, lines_torn he hpos hn, take_append, ← map_take, replayLines_texts htake, length_map]
    cases hc : count - pending.length with
    | zero => rw [take_zero, replayLines]
    | succ k =>
      rw [take_succ_cons, take_nil]
      exact replayLines_torn he hn _ _

end Layout

/-! ## Rows -/

def lastAppend (id : String) : List WalEntry → Option WalEntry
  | [] => none
  | e :: rest =>
    match lastAppend id rest with
    | some last => some last
    | none => if e.params.id = id then some e else none

/-- What the row of the draft should be after these appends. -/
def expected (first : Db) (es : List WalEntry) (id : String) : Option LocalDraft :=
  match lastAppend id es with
  | some e => some ⟨e.params, .pending⟩
  | none => first.localDrafts id

theorem lastAppend_append (id : String) (as bs : List WalEntry) :
    lastAppend id (as ++ bs) = (lastAppend id bs).or (lastAppend id as) := by
  induction as with
  | nil => cases h : lastAppend id bs <;> simp [lastAppend, h]
  | cons a as ih =>
    rw [cons_append, lastAppend, ih, lastAppend]
    cases lastAppend id bs <;> cases lastAppend id as <;> rfl

theorem lastAppend_eq_none {id : String} {es : List WalEntry} (h : lastAppend id es = none) :
    ∀ e ∈ es, e.params.id ≠ id := by
  induction es with
  | nil => exact fun e he => by cases he
  | cons e es ih =>
    rw [lastAppend] at h
    cases hl : lastAppend id es with
    | some last =>
      rw [hl] at h
      cases h
    | none =>
      rw [hl] at h
      refine forall_mem_cons.mpr ⟨fun hid => ?_, ih hl⟩
      simp only [if_pos hid] at h
      cases h

/-- The rows that are there have the accounts of these entries, and entries of one draft have one
account. -/
structure OneAccount (db : Db) (es : List WalEntry) : Prop where
  rows : ∀ e ∈ es, ∀ row, db.localDrafts e.params.id = some row →
    row.params.accountId = e.params.accountId
  entries : ∀ e ∈ es, ∀ e' ∈ es, e.params.id = e'.params.id → e.params.accountId = e'.params.accountId

section Rows

variable {db : Db} {es : List WalEntry} {e : WalEntry} {r : Replayed}
variable {part : List WalEntry}

@[simp] theorem putDraft_self (row : LocalDraft) :
    (db.putDraft row).localDrafts row.params.id = some row := if_pos rfl

theorem putDraft_other {row : LocalDraft} {id : String} (h : row.params.id ≠ id) :
    (db.putDraft row).localDrafts id = db.localDrafts id := if_neg (Ne.symm h)

theorem OneAccount.putDraft (h : OneAccount db es) (he : e ∈ es) :
    OneAccount (db.putDraft ⟨e.params, .pending⟩) es where
  entries := h.entries
  rows := by
    intro x hx row hrow
    by_cases hid : e.params.id = x.params.id
    · rw [← hid, putDraft_self] at hrow
      cases hrow
      exact h.entries e he x hx hid
    · rw [putDraft_other hid] at hrow
      exact h.rows x hx row hrow

theorem save_eq (h : OneAccount db es) (he : e ∈ es) {failed : Bool} {db' : Db}
    (hs : dbSaveLocalDraftSync failed db e.params = some db') : db' = db.putDraft ⟨e.params, .pending⟩ := by
  unfold dbSaveLocalDraftSync at hs
  cases failed with
  | true => cases hs
  | false =>
    rw [if_neg (by simp)] at hs
    split at hs
    · rename_i row hrow
      rw [h.rows e he row hrow] at hs
      exact (Option.some.inj hs).symm
    · split at hs
      · exact (Option.some.inj hs).symm
      · cases hs

theorem saveEntry_cases (h : OneAccount r.db es) (he : e ∈ es) (failed : Bool) : saveEntry failed r e = r ∨
      saveEntry failed r e = ⟨r.db.putDraft ⟨e.params, .pending⟩, r.applied ++ [e]⟩ := by
  unfold saveEntry
  split
  · exact .inl rfl
  · rename_i db' hs
    rw [save_eq h he hs]
    exact .inr rfl

theorem saveEntry_ok (h : OneAccount r.db es) (he : e ∈ es) (haccount : e.params.accountId ∈ r.db.accounts) :
    saveEntry false r e = ⟨r.db.putDraft ⟨e.params, .pending⟩, r.applied ++ [e]⟩ := by
  have hsome : ∃ db', dbSaveLocalDraftSync false r.db e.params = some db' := by
    rw [dbSaveLocalDraftSync]
    cases r.db.localDrafts e.params.id with
    | some row => exact ⟨_, rfl⟩
    | none => exact ⟨_, if_pos haccount⟩
  obtain ⟨db', hs⟩ := hsome
  rw [saveEntry, hs, save_eq h he hs]

/-- What any replay of some of the entries leaves: rows of other drafts, the accounts, and rows with the
entries' accounts. -/
theorem saveAll_frame (failures : Nat → Bool) (h : OneAccount r.db es)
    (hpart : ∀ e ∈ part, e ∈ es) (idx : Nat) : (saveAll failures idx part r).db.accounts = r.db.accounts ∧
      OneAccount (saveAll failures idx part r).db es ∧ ∀ id, (∀ e ∈ es, e.params.id ≠ id) →
        (saveAll failures idx part r).db.localDrafts id = r.db.localDrafts id := by
  induction part generalizing idx r with
  | nil => exact ⟨rfl, h, fun _ _ => rfl⟩
  | cons e part ih =>
    have hrest := fun x hx => hpart x (mem_cons_of_mem _ hx)
    have he := hpart e mem_cons_self
    rw [saveAll]
    rcases saveEntry_cases h he (failures idx) with hsame | hput
    · rw [hsame]
      exact ih h hrest (idx + 1)
    rw [hput]
    obtain ⟨haccounts, hone, hrows⟩ := ih (r := ⟨r.db.putDraft ⟨e.params, .pending⟩, r.applied ++ [e]⟩)
      (h.putDraft he) hrest (idx + 1)
    refine ⟨haccounts, hone, fun id hid => ?_⟩
    rw [hrows id hid]
    exact putDraft_other (hid e he)

/-- Without errors every entry is applied in its turn, and the last one for a draft is its row. -/
theorem saveAll_ok (failures : Nat → Bool) (h : OneAccount r.db es) (hpart : ∀ e ∈ part, e ∈ es) (idx : Nat)
    (hok : ∀ i e, part[i]? = some e → failures (idx + i) = false ∧ e.params.accountId ∈ r.db.accounts) :
    (saveAll failures idx part r).applied = r.applied ++ part ∧
      ∀ id, (saveAll failures idx part r).db.localDrafts id = expected r.db part id := by
  induction part generalizing idx r with
  | nil => exact ⟨(append_nil _).symm, fun _ => rfl⟩
  | cons e part ih =>
    have he := hpart e mem_cons_self
    obtain ⟨hfail, haccount⟩ := hok 0 e rfl
    rw [Nat.add_zero] at hfail
    obtain ⟨happlied, hrows⟩ := ih (r := ⟨r.db.putDraft ⟨e.params, .pending⟩, r.applied ++ [e]⟩)
      (h.putDraft he) (fun x hx => hpart x (mem_cons_of_mem _ hx)) (idx + 1) (by
        intro i x hx
        have hnext := hok (i + 1) x (by rw [getElem?_cons_succ, hx])
        rw [show idx + 1 + i = idx + (i + 1) by omega]
        exact hnext)
    rw [saveAll, hfail, saveEntry_ok h he haccount]
    refine ⟨by rw [happlied, append_assoc, singleton_append], fun id => ?_⟩
    rw [hrows id, expected, expected, lastAppend]
    cases lastAppend id part with
    | some last => rfl
    | none =>
      by_cases hid : e.params.id = id
      · rw [if_pos hid, ← hid]
        exact putDraft_self ⟨e.params, .pending⟩
      · rw [if_neg hid]
        exact putDraft_other hid

end Rows

/-! ## Runs -/

def endsLine (file : Option (List UInt8)) : Prop :=
  file.getD [] = [] ∨ (file.getD []).getLast? = some newline

/-- What the code needs of a step: an append finds no torn line and the draft has the account of its row
and of its earlier appends; a drain meets no error of the database. -/
def Meets (codec : Codec) (s : Run) : Event → Prop
  | .append entry written => endsLine s.file ∧
      (isComplete codec entry written = true →
        (∀ row, s.db.localDrafts entry.params.id = some row → row.params.accountId = entry.params.accountId) ∧
        ∀ e ∈ s.pending, e.params.id = entry.params.id → e.params.accountId = entry.params.accountId)
  | .crashedDrain _ _ => True
  | .drain failures _ => ∀ i e, s.pending[i]? = some e →
      failures i = false ∧ e.params.accountId ∈ s.db.accounts

def Event.MadeOf (made : WalEntry → Prop) : Event → Prop
  | .append entry _ => made entry
  | _ => True

structure Inv (codec : Codec) (first : Db) (s : Run) : Prop where
  layout : Layout codec (s.file.getD []) s.pending
  faithful : ∀ e ∈ s.pending, codec.Faithful e
  oneAccount : OneAccount s.db s.pending
  rows : ∀ id, (∀ e ∈ s.pending, e.params.id ≠ id) →
    s.db.localDrafts id = expected first s.rotated id

section Runs

variable {codec : Codec} {first : Db} {s : Run}
variable {entry : WalEntry} {t : Run} {failures failures' : Nat → Bool} {renamed : Bool}

theorem Inv.start : Inv codec first (.start first) where
  layout := .whole []
  faithful := fun _ he => by cases he
  oneAccount := ⟨fun _ he => (by cases he), fun _ he => (by cases he)⟩
  rows := fun _ _ => rfl

theorem getLast?_text_ne {bytes rest : List UInt8} (hne : rest ≠ []) (h : newline ∉ rest) :
    ¬(bytes ++ rest = [] ∨ (bytes ++ rest).getLast? = some newline) := by
  rintro (hnil | hlast)
  · exact hne (append_eq_nil_iff.mp hnil).2
  · rw [getLast?_append_of_ne_nil _ hne] at hlast
    exact h (mem_of_getLast? hlast)

theorem Layout.eq_whole {file : List UInt8} {pending : List WalEntry} (hl : Layout codec file pending)
    (hends : file = [] ∨ file.getLast? = some newline) : file = pending.flatMap (line codec) := by
  cases hl with
  | whole => rfl
  | unterminated before entry he => exact absurd hends (getLast?_text_ne he.text_ne_nil he.newline_not_mem)
  | torn _ entry he n hpos hn =>
    refine absurd hends (getLast?_text_ne ?_ (fun hm => he.newline_not_mem (mem_of_mem_take hm)))
    intro hnil
    have hlen := congrArg List.length hnil
    rw [length_take, length_nil] at hlen
    omega

theorem layout_append (pending : List WalEntry) (he : codec.Faithful entry) (written : Nat) :
    Layout codec (pending.flatMap (line codec) ++ (line codec entry).take written)
      (if isComplete codec entry written then pending ++ [entry] else pending) := by
  by_cases hc : (text codec entry).length ≤ written
  · rw [isComplete, if_pos (decide_eq_true hc)]
    rcases Nat.eq_or_lt_of_le hc with heq | hlt
    · have htake : (line codec entry).take written = text codec entry := by
        rw [line, ← heq, take_left]
      rw [htake]
      exact .unterminated pending entry he
    · have htake : (line codec entry).take written = line codec entry := by
        refine take_of_length_le ?_
        rw [line, length_append, length_singleton]
        omega
      rw [htake]
      have hl : Layout codec _ (pending ++ [entry]) := .whole _
      rwa [flatMap_append, flatMap_singleton] at hl
  · rw [if_neg (by simp [isComplete, hc])]
    have htake : (line codec entry).take written = (text codec entry).take written := by
      rw [line, take_append_of_le_length (by omega)]
    rw [htake]
    cases written with
    | zero =>
      rw [take_zero, append_nil]
      exact .whole pending
    | succ n => exact .torn pending entry he (n + 1) (by omega) (by omega)

theorem Inv.appended (h : Inv codec first s) (he : codec.Faithful entry) {written : Nat}
    (hm : Meets codec s (.append entry written))
    (hs : s.step codec (.append entry written) = .ok t) : Inv codec first t := by
  cases hs
  obtain ⟨hends, haccount⟩ := hm
  have hlayout := layout_append s.pending he written
  rw [← h.layout.eq_whole hends] at hlayout
  cases hc : isComplete codec entry written with
  | false =>
    rw [hc] at hlayout
    refine ⟨?_, ?_, ?_, ?_⟩ <;> simp only [if_neg Bool.false_ne_true]
    · exact hlayout
    · exact h.faithful
    · exact h.oneAccount
    · exact h.rows
  | true =>
    rw [hc] at hlayout
    obtain ⟨hrow, hentries⟩ := haccount hc
    refine ⟨?_, ?_, ?_, ?_⟩ <;> simp only [if_true]
    · exact hlayout
    · intro e hmem
      rcases mem_append.mp hmem with hmem | hmem
      · exact h.faithful e hmem
      · rwa [mem_singleton.mp hmem]
    · constructor
      · intro e hmem row
        rcases mem_append.mp hmem with hmem | hmem
        · exact h.oneAccount.rows e hmem row
        · rw [mem_singleton.mp hmem]
          exact hrow row
      · intro e hmem e' hmem' hid
        rcases mem_append.mp hmem with hmem | hmem <;>
          rcases mem_append.mp hmem' with hmem' | hmem'
        · exact h.oneAccount.entries e hmem e' hmem' hid
        · rw [mem_singleton.mp hmem'] at hid ⊢
          exact hentries e hmem hid
        · rw [mem_singleton.mp hmem] at hid ⊢
          exact (hentries e' hmem' hid.symm).symm
        · rw [mem_singleton.mp hmem, mem_singleton.mp hmem']
    · intro id hid
      exact h.rows id (fun e hmem => hid e (mem_append_left _ hmem))

theorem Inv.drainSome_eq (h : Inv codec first s) (failures : Nat → Bool) (count : Nat) :
    drainSome codec failures s.file s.db count = saveAll failures 0 (s.pending.take count) ⟨s.db, []⟩ :=
  replay_layout failures h.layout h.faithful count _

theorem Inv.drain_eq (h : Inv codec first s) (failures : Nat → Bool) :
    drain codec failures s.file s.db = saveAll failures 0 s.pending ⟨s.db, []⟩ := by
  have hall := replay_layout failures h.layout h.faithful
    ((lines (s.file.getD [])).length + s.pending.length) ⟨s.db, []⟩
  rwa [take_of_length_le (by omega), take_of_length_le (by omega)] at hall

theorem Inv.crashedDrain (h : Inv codec first s) (failures : Nat → Bool) (count : Nat) :
    Inv codec first { s with db := (drainSome codec failures s.file s.db count).db } := by
  obtain ⟨-, hone, hrows⟩ := saveAll_frame (r := ⟨s.db, []⟩) failures h.oneAccount
    (fun e he => mem_of_mem_take (i := count) he) 0
  rw [← h.drainSome_eq] at hone hrows
  exact ⟨h.layout, h.faithful, hone, fun id hid => (hrows id hid).trans (h.rows id hid)⟩

theorem Inv.drain_spec (h : Inv codec first s) (hm : Meets codec s (.drain failures renamed)) :
    (drain codec failures s.file s.db).applied = s.pending ∧
      ∀ id, (drain codec failures s.file s.db).db.localDrafts id =
        expected first (s.rotated ++ s.pending) id := by
  obtain ⟨happlied, hrows⟩ := saveAll_ok (r := ⟨s.db, []⟩) failures h.oneAccount
    (fun e he => he) 0 (by
      intro i e hi
      rw [Nat.zero_add]
      exact hm i e hi)
  rw [← h.drain_eq] at happlied hrows
  refine ⟨happlied, fun id => ?_⟩
  rw [hrows id, expected, expected, lastAppend_append]
  cases hl : lastAppend id s.pending with
  | some last => rfl
  | none => exact h.rows id (lastAppend_eq_none hl)

theorem Inv.drained (h : Inv codec first s) (hm : Meets codec s (.drain failures renamed))
    (hs : s.step codec (.drain failures renamed) = .ok t) : Inv codec first t := by
  cases hs
  cases renamed with
  | true =>
    refine ⟨.whole [], fun _ he => (by cases he), ⟨fun _ he => (by cases he), fun _ he => (by cases he)⟩, ?_⟩
    exact fun id _ => (h.drain_spec hm).2 id
  | false =>
    obtain ⟨-, hone, hrows⟩ := saveAll_frame (r := ⟨s.db, []⟩) failures h.oneAccount (fun e he => he) 0
    rw [← h.drain_eq] at hone hrows
    exact ⟨h.layout, h.faithful, hone, fun id hid => (hrows id hid).trans (h.rows id hid)⟩

theorem Inv.step (h : Inv codec first s) {made : WalEntry → Prop} (hcodec : ∀ e, made e → codec.Faithful e)
    {ev : Event} (hmade : ev.MadeOf made) (hm : Meets codec s ev) {t : Run}
    (hs : s.step codec ev = .ok t) : Inv codec first t := by
  cases ev with
  | append entry written => exact h.appended (hcodec entry hmade) hm hs
  | crashedDrain failures count =>
    cases hs
    exact h.crashedDrain failures count
  | drain failures renamed => exact h.drained hm hs

theorem Inv.same_rows (h : Inv codec first s) (ht : Inv codec first t)
    (happends : s.rotated ++ s.pending = t.rotated ++ t.pending) {renamed' : Bool}
    (hm : Meets codec s (.drain failures renamed)) (hm' : Meets codec t (.drain failures' renamed')) :
    (drain codec failures' t.file t.db).db.localDrafts =
      (drain codec failures s.file s.db).db.localDrafts := by
  funext id
  rw [(h.drain_spec hm).2 id, (ht.drain_spec hm').2 id, happends]

theorem Inv.crashed_meets (h : Inv codec first s) {count : Nat}
    (hm : Meets codec s (.drain failures renamed)) :
    Meets codec { s with db := (drainSome codec failures' s.file s.db count).db }
      (.drain failures renamed) := by
  obtain ⟨haccounts, -, -⟩ := saveAll_frame (r := ⟨s.db, []⟩) failures' h.oneAccount
    (fun e he => mem_of_mem_take (i := count) he) 0
  rw [← h.drainSome_eq] at haccounts
  intro i e hi
  obtain ⟨hfail, haccount⟩ := hm i e hi
  exact ⟨hfail, by rwa [haccounts]⟩

end Runs

/-- In every run whose appends find no torn line and keep a draft's account, a drain without errors of the
database applies exactly the complete appends of the log, in order; every row is then the last complete
append for its draft, or what it was at first; and neither a drain before it that stopped nor another one
after it changes that. -/
theorem drain_loses_at_most_torn (codec : Codec) (made : WalEntry → Prop)
    (hcodec : ∀ e, made e → codec.Faithful e) (first : Db) (s : Run)
    (hs : Reaches (Run.step codec) (fun s ev => ev.MadeOf made ∧ Meets codec s ev) (.start first) s)
    (failures : Nat → Bool) (renamed : Bool) (hm : Meets codec s (.drain failures renamed)) :
    (drain codec failures s.file s.db).applied = s.pending ∧
      (∀ id, (drain codec failures s.file s.db).db.localDrafts id =
        expected first (s.rotated ++ s.pending) id) ∧
      (∀ failures' count, (drain codec failures s.file
          (drainSome codec failures' s.file s.db count).db).db.localDrafts =
        (drain codec failures s.file s.db).db.localDrafts) ∧
      ∀ t failures' renamed', s.step codec (.drain failures renamed) = .ok t →
        Meets codec t (.drain failures' renamed') → (drain codec failures' t.file t.db).db.localDrafts =
            (drain codec failures s.file s.db).db.localDrafts := by
  have h : Inv codec first s := hs.invariant Inv.start
    (fun u ev v hu hok hv => hu.step hcodec hok.1 hok.2 hv)
  refine ⟨(h.drain_spec hm).1, (h.drain_spec hm).2, fun failures' count => ?_, ?_⟩
  · exact h.same_rows (h.crashedDrain failures' count) rfl hm (h.crashed_meets hm)
  · intro t failures' renamed' ht hm'
    refine h.same_rows (h.drained hm ht) ?_ hm hm'
    cases ht
    cases renamed with
    | true => exact (append_nil _).symm
    | false => rfl

/-! ## Two appends -/

def bareParams (id : String) : SaveLocalDraftParams where
  id := id
  accountId := "acct-1"
  toAddresses := none
  ccAddresses := none
  bccAddresses := none
  subject := none
  bodyHtml := none
  replyToMessageId := none
  threadId := none
  fromEmail := none
  signatureId := none
  remoteDraftId := none
  attachments := none
  signatureSeparatorIndex := none

def entryA : WalEntry := ⟨1, bareParams "draft-a"⟩

def entryB : WalEntry := ⟨2, bareParams "draft-b"⟩

def jsonRest : String :=
  "\"account_id\":\"acct-1\",\"to_addresses\":null,\"cc_addresses\":null,\"bcc_addresses\":null," ++
    "\"subject\":null,\"body_html\":null,\"reply_to_message_id\":null,\"thread_id\":null," ++
    "\"from_email\":null,\"signature_id\":null,\"remote_draft_id\":null,\"attachments\":null," ++
    "\"signature_separator_index\":null\x7d\x7d"

def jsonA : String := "\x7b" ++ ("\"epoch_ms\":1,\"params\":\x7b\"id\":\"draft-a\"," ++ jsonRest)

def jsonB : String := "\x7b" ++ ("\"epoch_ms\":2,\"params\":\x7b\"id\":\"draft-b\"," ++ jsonRest)

def pairCodec : Codec where
  toString e := if e = entryA then jsonA else jsonB
  fromStr s := if s = jsonA then some entryA else if s = jsonB then some entryB else none

def Pair (e : WalEntry) : Prop := e = entryA ∨ e = entryB

theorem jsonA_length : (utf8 jsonA).length = 312 := by decide +kernel

theorem jsonB_length : (utf8 jsonB).length = 312 := by decide +kernel

theorem pairCodec_length {s : String} {n : Nat} (h : (utf8 s).length = n) (hn : n ≠ 312) :
    pairCodec.fromStr s = none := by
  have hA : s ≠ jsonA := fun he => hn (by rw [← h, he, jsonA_length])
  have hB : s ≠ jsonB := fun he => hn (by rw [← h, he, jsonB_length])
  simp [pairCodec, if_neg hA, if_neg hB]

theorem pairCodec_text (he : Pair e) : (text pairCodec e).length = 312 := by
  rcases he with rfl | rfl
  · exact jsonA_length
  · exact jsonB_length

theorem trim_brace_ne_nil (rest : String) : trim ("\x7b" ++ rest).toList ≠ [] := by
  intro hnil
  have hbrace : Rte.isWhitespace '\x7b' = false := by decide
  have hall := dropWhile_eq_nil_iff.mp (reverse_eq_nil_iff.mp hnil) '\x7b' (by
    simp [Threading.trimStart, hbrace])
  cases hall

theorem pairCodec_faithful (e : WalEntry) (he : Pair e) : pairCodec.Faithful e where
  roundTrip := by rcases he with rfl | rfl <;> decide +kernel
  escapes := by rcases he with rfl | rfl <;> decide +kernel
  visible := by rcases he with rfl | rfl <;> exact trim_brace_ne_nil _
  torn := by
    intro n hn s hs
    have hlen := congrArg List.length (utf8_of_decode hs)
    rw [length_take] at hlen
    rw [pairCodec_text he] at hn
    exact pairCodec_length hlen (by omega)

def oneAccountDb : Db := ⟨["acct-1"], fun _ => none⟩

def noFailures : Nat → Bool := fun _ => false

theorem append_step {codec : Codec} {s : Run} {entry : WalEntry} {written : Nat} {complete : Bool}
    (hbytes : (line codec entry).take written = bytes)
    (hcomplete : isComplete codec entry written = complete) :
    s.step codec (.append entry written) = .ok { s with
      file := some (s.file.getD [] ++ bytes)
      pending := if complete then s.pending ++ [entry] else s.pending } := by
  rw [Run.step, append, hbytes, hcomplete]

theorem cut (he : Pair e) : (line pairCodec e).take 20 = (text pairCodec e).take 20 ∧
    isComplete pairCodec e 20 = false := by
  have hlen := pairCodec_text he
  constructor
  · exact take_append_of_le_length (by omega)
  · rw [isComplete, hlen]
    rfl

theorem whole (he : Pair e) : (line pairCodec e).take 313 = line pairCodec e ∧
    isComplete pairCodec e 313 = true := by
  have hlen := pairCodec_text he
  constructor
  · exact take_of_length_le (by rw [line, length_append, hlen]; exact Nat.le_refl _)
  · rw [isComplete, hlen]
    rfl

theorem glued_lines : lines ((text pairCodec entryA).take 20 ++ line pairCodec entryB) =
    [(text pairCodec entryA).take 20 ++ text pairCodec entryB] := by
  have hescapes : ∀ b ∈ (text pairCodec entryA).take 20 ++ text pairCodec entryB, 32 ≤ b.toNat := by
    intro b hb
    rcases mem_append.mp hb with hb | hb
    · exact (pairCodec_faithful entryA (.inl rfl)).escapes b (mem_of_mem_take hb)
    · exact (pairCodec_faithful entryB (.inr rfl)).escapes b hb
  rw [line, ← append_assoc, lines, Lib.splitLines_cons_line
    (fun hmem => absurd (hescapes newline hmem) (by decide)), splitLines, map_singleton,
    chomp_escaped hescapes]

theorem glued_lost (db : Db) : (drain pairCodec noFailures
    (some ((text pairCodec entryA).take 20 ++ line pairCodec entryB)) db).applied = [] := by
  rw [drain, Option.getD_some, glued_lines, replayLines]
  cases hd : decodeUtf8 ((text pairCodec entryA).take 20 ++ text pairCodec entryB) with
  | none => rfl
  | some s =>
    have hlen := congrArg List.length (utf8_of_decode hd)
    rw [length_append, length_take, pairCodec_text (.inl rfl), pairCodec_text (.inr rfl)] at hlen
    simp only [replayLine, pairCodec_length hlen (by decide)]
    split <;> rfl

/-- The first append is cut after twenty bytes and the app goes on: the second one is complete and is not
applied. -/
theorem cut_then_whole_loses : ¬∀ (codec : Codec) (made : WalEntry → Prop), (∀ e, made e → codec.Faithful e) →
      ∀ (first : Db) (s : Run), Reaches (Run.step codec) (fun _ ev => ev.MadeOf made) (.start first) s →
          ∀ failures, (drain codec failures s.file s.db).applied = s.pending := by
  intro h
  have hrun : Reaches (Run.step pairCodec) (fun _ ev => Event.MadeOf Pair ev) (.start oneAccountDb) _ :=
    ((Reaches.refl _).tail (a := Event.append entryA 20) (Or.inl rfl)
      (append_step (cut (.inl rfl)).1 (cut (.inl rfl)).2)).tail
      (a := Event.append entryB 313) (Or.inr rfl) (append_step (whole (.inr rfl)).1 (whole (.inr rfl)).2)
  have hlost := h pairCodec Pair pairCodec_faithful oneAccountDb _ hrun noFailures
  exact absurd (hlost.symm.trans (glued_lost oneAccountDb)) (cons_ne_nil _ _)

/-- One whole append, then one that is cut after twenty bytes: the first is applied. -/
theorem whole_then_cut_applied :
    ∃ s, Reaches (Run.step pairCodec) (fun s ev => ev.MadeOf Pair ∧ Meets pairCodec s ev)
        (.start oneAccountDb) s ∧ Meets pairCodec s (.drain noFailures true) ∧ s.pending = [entryA] ∧
      (drain pairCodec noFailures s.file s.db).applied = [entryA] := by
  have hfirst : Meets pairCodec (Run.start oneAccountDb) (.append entryA 313) :=
    ⟨.inl rfl, fun _ => ⟨fun row hrow => (by cases hrow), fun e he => (by cases he)⟩⟩
  have hends : endsLine (some ([] ++ line pairCodec entryA)) := .inr getLast?_concat
  have hrun : Reaches (Run.step pairCodec) (fun s ev => Event.MadeOf Pair ev ∧ Meets pairCodec s ev)
      (.start oneAccountDb) _ :=
    ((Reaches.refl _).tail (a := Event.append entryA 313) ⟨Or.inl rfl, hfirst⟩
      (append_step (whole (.inl rfl)).1 (whole (.inl rfl)).2)).tail (a := Event.append entryB 20)
        ⟨Or.inr rfl, hends, fun hc => absurd ((cut (.inr rfl)).2.symm.trans hc) (by decide)⟩
        (append_step (cut (.inr rfl)).1 (cut (.inr rfl)).2)
  have hdrain : ∀ i e, [entryA][i]? = some e →
      noFailures i = false ∧ e.params.accountId ∈ oneAccountDb.accounts := by
    intro i e hi
    cases i with
    | zero =>
      cases hi
      exact ⟨rfl, mem_cons_self⟩
    | succ n => cases hi
  exact ⟨_, hrun, hdrain, rfl, (drain_loses_at_most_torn pairCodec Pair pairCodec_faithful oneAccountDb _
    hrun noFailures true hdrain).1⟩

end Ratatoskr.Drafts
