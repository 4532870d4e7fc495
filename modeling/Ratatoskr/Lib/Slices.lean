import Mathlib.Data.List.DropRight
import Mathlib.Data.List.Induction
import Ratatoskr.Lib.Sized

/-!
# Lib.Slices

Slices of a text at byte offsets. A slice exists where its ends lie between characters (`none` is the
panic of a slice whose end is inside a character or behind the text).

* `sliceFrom_append`, `sliceTo_append` : at the length of what stands in front, a slice exists.
* `sliceFrom_after` : one byte behind the start of a character, a slice exists for one-byte characters.
* `find_cases`, `rfind_cases` : the first and the last character with a property, with the text around it.
* `scanBack_append`, `scanOn_append` : loops over bytes, for properties of one-byte characters.
-/

namespace Ratatoskr.Lib

open List

variable {c : Char} {s a b rest : List Char} {n i k : Nat} {p : Char → Bool}

theorem forall_mem_of_all {q : Char → Prop} [DecidablePred q] (h : s.all (fun c => decide (q c)) = true) :
    ∀ c ∈ s, q c := fun c hc => of_decide_eq_true (all_eq_true.mp h c hc)

@[simp] theorem byteLength_nil : byteLength [] = 0 := rfl

@[simp] theorem byteLength_append (a b : List Char) : byteLength (a ++ b) = byteLength a + byteLength b := by
  simp [byteLength]

theorem byteLength_concat (a : List Char) (h : c.utf8Size = 1) :
    byteLength (a ++ [c]) = byteLength a + 1 := by
  rw [byteLength_append, byteLength_cons, h, byteLength_nil]

theorem byteLength_of_single (h : ∀ c ∈ s, c.utf8Size = 1) : byteLength s = s.length := by
  induction s with
  | nil => rfl
  | cons c s ih =>
    have hc := h c mem_cons_self
    have hs := ih fun d hd => h d (mem_cons_of_mem _ hd)
    rw [byteLength_cons, hc, hs, length_cons, Nat.add_comm]

theorem toLower_ind {P : Char → Char → Prop} (hself : ∀ c, P c c)
    (hrange : ∀ n < 128, P (Char.ofNat n) (Char.ofNat n).toLower) (c : Char) : P c c.toLower := by
  by_cases hup : 'A'.val ≤ c.val ∧ c.val ≤ 'Z'.val
  · have h90 : c.toNat ≤ 90 := hup.2
    have hc := hrange c.toNat (by omega)
    rwa [Char.ofNat_toNat] at hc
  · rw [show c.toLower = c from dif_neg hup]
    exact hself c

theorem utf8Size_toLower (c : Char) : c.toLower.utf8Size = c.utf8Size :=
  toLower_ind (P := fun c d => d.utf8Size = c.utf8Size) (fun _ => rfl) (by decide +kernel) c

theorem byteLength_map_toLower (s : List Char) : byteLength (s.map Char.toLower) = byteLength s := by
  rw [byteLength, map_map]
  exact congrArg List.sum (map_congr_left fun c _ => utf8Size_toLower c)

theorem byteLength_pos (h : s ≠ []) : 0 < byteLength s := by
  cases s with
  | nil => exact absurd rfl h
  | cons c s =>
    exact Nat.lt_of_lt_of_le c.utf8Size_pos (Nat.le_add_right _ _)

theorem splitBytes_eq_some : splitBytes n s = some (a, b) ↔ s = a ++ b ∧ byteLength a = n := by
  constructor
  · intro h
    refine ⟨?_, splitBytes_length h⟩
    induction s generalizing n a with
    | nil =>
      cases n with
      | zero =>
        cases h
        rfl
      | succ n => cases h
    | cons c s ih =>
      cases n with
      | zero =>
        cases h
        rfl
      | succ n =>
        rw [splitBytes] at h
        split at h
        · obtain ⟨⟨field, rest⟩, hsplit, heq⟩ := Option.map_eq_some_iff.mp h
          cases heq
          rw [cons_append, ← ih hsplit]
        · cases h
  · rintro ⟨rfl, rfl⟩
    exact splitBytes_append a b

/-- `&s[i..]`. -/
def sliceFrom (s : List Char) (i : Nat) : Option (List Char) := (splitBytes i s).map Prod.snd

/-- `&s[..i]`. -/
def sliceTo (s : List Char) (i : Nat) : Option (List Char) := (splitBytes i s).map Prod.fst

/-- `&s[i..j]`. -/
def slice (s : List Char) (i j : Nat) : Option (List Char) := (sliceTo s j).bind fun t => sliceFrom t i

theorem sliceFrom_append (a b : List Char) : sliceFrom (a ++ b) (byteLength a) = some b := by
  rw [sliceFrom, splitBytes_append]
  rfl

theorem sliceTo_append (a b : List Char) : sliceTo (a ++ b) (byteLength a) = some a := by
  rw [sliceTo, splitBytes_append]
  rfl

theorem sliceFrom_eq_some : sliceFrom s i = some b ↔ ∃ a, s = a ++ b ∧ byteLength a = i := by
  rw [sliceFrom, Option.map_eq_some_iff]
  constructor
  · rintro ⟨⟨a, b'⟩, h, rfl⟩
    exact ⟨a, splitBytes_eq_some.mp h⟩
  · rintro ⟨a, h⟩
    exact ⟨(a, b), splitBytes_eq_some.mpr h, rfl⟩

theorem slice_append (a b c : List Char) :
    slice (a ++ (b ++ c)) (byteLength a) (byteLength (a ++ b)) = some b := by
  rw [slice, ← append_assoc, sliceTo_append]
  exact sliceFrom_append a b

theorem sliceTo_of_single (h : ∀ c ∈ s, c.utf8Size = 1) (hn : n ≤ s.length) :
    sliceTo s n = some (s.take n) := by
  have hlength : byteLength (s.take n) = n := by
    rw [byteLength_of_single fun c hc => h c (mem_of_mem_take hc), length_take, Nat.min_eq_left hn]
  have hslice := sliceTo_append (s.take n) (s.drop n)
  rwa [take_append_drop, hlength] at hslice

theorem splitBytes_inside (a : List Char) (b : List Char) (hpos : 0 < k) (hk : k < c.utf8Size) :
    splitBytes (byteLength a + k) (a ++ c :: b) = none := by
  cases hsplit : splitBytes (byteLength a + k) (a ++ c :: b) with
  | none => rfl
  | some parts =>
    obtain ⟨heq, hlength⟩ := splitBytes_eq_some.mp hsplit
    -- the rest would begin behind `a` and before the end of `c`
    rcases append_eq_append_iff.mp heq with ⟨mid, hfront, hrest⟩ | ⟨mid, ha, -⟩
    · rw [hfront, byteLength_append] at hlength
      cases mid with
      | nil =>
        rw [byteLength_nil] at hlength
        omega
      | cons d mid =>
        obtain ⟨rfl, -⟩ := List.cons.inj hrest
        rw [byteLength_cons] at hlength
        omega
    · rw [ha, byteLength_append] at hlength
      omega

theorem sliceFrom_after (a : List Char) (c : Char) (b : List Char) :
    sliceFrom (a ++ c :: b) (byteLength a + 1) = if c.utf8Size = 1 then some b else none := by
  split
  · next hone =>
    have hlength : byteLength (a ++ [c]) = byteLength a + 1 := by
      rw [byteLength_append, byteLength_cons, hone, byteLength_nil]
    rw [← hlength, show a ++ c :: b = (a ++ [c]) ++ b by simp, sliceFrom_append]
  · next hmore =>
    have hpos := c.utf8Size_pos
    rw [sliceFrom, splitBytes_inside a b (by omega) (by omega)]
    rfl

/-! ## From the end -/

section

variable {α : Type} {p : α → Bool}
variable {b : List α}

theorem rtakeWhile_append_of_pos (a : List α) (h : ∀ c ∈ b, p c = true) :
    (a ++ b).rtakeWhile p = a.rtakeWhile p ++ b := by
  rw [List.rtakeWhile, List.rtakeWhile, reverse_append,
    takeWhile_append_of_pos fun c hc => h c (mem_reverse.mp hc), reverse_append,
    reverse_reverse]

theorem rtakeWhile_append_cons (a : List α) {c : α} (hc : p c = false) (b : List α) :
    (a ++ c :: b).rtakeWhile p = b.rtakeWhile p := by
  induction b using List.reverseRecOn with
  | nil => exact rtakeWhile_concat_neg _ _ _ (by simp [hc])
  | append_singleton b d ih =>
    have hmove : a ++ c :: (b ++ [d]) = (a ++ c :: b) ++ [d] := by simp
    rw [hmove, rtakeWhile_concat, rtakeWhile_concat, ih]

theorem rtakeWhile_append_of_le {a : List α} (h : ((a ++ b).rtakeWhile p).length ≤ b.length) :
    (a ++ b).rtakeWhile p = b.rtakeWhile p := by
  rw [List.rtakeWhile, length_reverse, reverse_append, takeWhile_append] at h
  rw [List.rtakeWhile, List.rtakeWhile, reverse_append, takeWhile_append]
  split
  · next hall =>
    rw [if_pos hall, length_append, length_reverse] at h
    have hnone : a.reverse.takeWhile p = [] := eq_nil_of_length_eq_zero (by omega)
    rw [hnone, append_nil, takeWhile_eq_self_iff.mpr]
    intro c hc
    have hfront : b.reverse.takeWhile p <+: b.reverse := takeWhile_prefix p
    rw [← hfront.eq_of_length hall] at hc
    exact mem_takeWhile_imp hc
  · rfl

theorem rdropWhile_subset (a : List α) : a.rdropWhile p ⊆ a := by
  have hfront : a.rdropWhile p <+: a := rdropWhile_prefix p a
  exact hfront.subset

theorem rdropWhile_append_of_pos (a : List α) (h : ∀ c ∈ b, p c = true) :
    (a ++ b).rdropWhile p = a.rdropWhile p := by
  rw [List.rdropWhile, List.rdropWhile, reverse_append,
    dropWhile_append_of_pos fun c hc => h c (mem_reverse.mp hc)]

theorem rdropWhile_append_cons (a : List α) {c : α} (hc : p c = false) (b : List α) :
    (a ++ c :: b).rdropWhile p = a ++ c :: b.rdropWhile p := by
  have hwhole := rdropWhile_append_rtakeWhile (p := p) (l := a ++ c :: b)
  have hpart := rdropWhile_append_rtakeWhile (p := p) (l := b)
  rw [rtakeWhile_append_cons a hc] at hwhole
  refine append_cancel_right (hwhole.trans ?_)
  rw [append_assoc, cons_append, hpart]

end

/-- Whether the byte at an offset is an ASCII character with `p`, which no other character has. -/
def byteIs (p : Char → Bool) (s : List Char) (i : Nat) : Bool :=
  match splitBytes i s with
  | some (_, c :: _) => p c
  | _ => false

theorem byteIs_append (p : Char → Bool) (a : List Char) (c : Char) (b : List Char) :
    byteIs p (a ++ c :: b) (byteLength a) = p c := by
  rw [byteIs, splitBytes_append]

theorem byteIs_end (p : Char → Bool) (a : List Char) : byteIs p a (byteLength a) = false := by
  have hsplit := splitBytes_append a []
  rw [append_nil] at hsplit
  rw [byteIs, hsplit]

theorem byteIs_of_single (h : ∀ c ∈ s, c.utf8Size = 1) (p : Char → Bool) (n : Nat) :
    byteIs p s n = s[n]?.any p := by
  induction s generalizing n with
  | nil => cases n <;> rfl
  | cons c s ih =>
    have hc := h c mem_cons_self
    cases n with
    | zero => rfl
    | succ n =>
      rw [getElem?_cons_succ, ← ih (fun d hd => h d (mem_cons_of_mem _ hd)) n, byteIs, byteIs,
        splitBytes, hc]
      simp only [Nat.add_sub_cancel]
      rcases splitBytes n s with _ | ⟨_, _ | _⟩ <;> rfl

theorem byteIs_last (hp : ∀ c, p c = true → c.utf8Size = 1) (a : List Char) (b : List Char)
    (hi : i + 1 = byteLength a + c.utf8Size) : byteIs p (a ++ c :: b) i = p c := by
  have hpos := c.utf8Size_pos
  by_cases hone : c.utf8Size = 1
  · rw [show i = byteLength a by omega, byteIs_append]
  rw [show i = byteLength a + (c.utf8Size - 1) by omega, byteIs, splitBytes_inside a b (by omega) (by omega)]
  cases hc : p c with
  | false => rfl
  | true => exact absurd (hp c hc) hone

/-- Back over the bytes with `p`. -/
def scanBack (p : Char → Bool) (s : List Char) : Nat → Nat
  | 0 => 0
  | i + 1 => if byteIs p s i then scanBack p s i else i + 1

/-- On over the bytes with `p`; the length of what is ahead is fuel enough. -/
def scanOn (p : Char → Bool) (s : List Char) : Nat → Nat → Nat
  | 0, i => i
  | n + 1, i => if byteIs p s i then scanOn p s n (i + 1) else i

theorem scanBack_append (hp : ∀ c, p c = true → c.utf8Size = 1) (a b : List Char) :
    scanBack p (a ++ b) (byteLength a) + byteLength (a.rtakeWhile p) = byteLength a := by
  induction a using List.reverseRecOn generalizing b with
  | nil => rfl
  | append_singleton a c ih =>
    have hpos := c.utf8Size_pos
    have hlength : byteLength (a ++ [c]) = byteLength a + c.utf8Size := by simp [byteLength_cons]
    obtain ⟨i, hi⟩ : ∃ i, byteLength a + c.utf8Size = i + 1 := ⟨byteLength a + c.utf8Size - 1, by omega⟩
    have hlast := byteIs_last hp a b hi.symm
    rw [hlength, hi, scanBack, show a ++ [c] ++ b = a ++ c :: b by simp, hlast]
    cases hc : p c with
    | false =>
      rw [rtakeWhile_concat_neg _ _ _ (by simp [hc])]
      simp
    | true =>
      have hone := hp c hc
      have hrest := ih (c :: b)
      rw [rtakeWhile_concat_pos _ _ _ hc, byteLength_append, byteLength_cons, byteLength_nil,
        show i = byteLength a by omega, if_pos rfl]
      omega

theorem scanOn_append (hp : ∀ c, p c = true → c.utf8Size = 1) (a b : List Char) (hn : byteLength b ≤ n) :
    scanOn p (a ++ b) n (byteLength a) = byteLength a + byteLength (b.takeWhile p) := by
  induction b generalizing a n with
  | nil =>
    cases n with
    | zero => rfl
    | succ n =>
      rw [scanOn, append_nil, byteIs_end]
      simp
  | cons c b ih =>
    rw [byteLength_cons] at hn
    have hpos := c.utf8Size_pos
    cases n with
    | zero => omega
    | succ n =>
      rw [scanOn, byteIs_append]
      cases hc : p c with
      | false => simp [hc]
      | true =>
        have hone := hp c hc
        have hrest := ih (a ++ [c]) (n := n) (by omega)
        rw [byteLength_append, byteLength_cons, byteLength_nil, hone, append_assoc] at hrest
        rw [takeWhile_cons_of_pos hc, byteLength_cons]
        exact hrest.trans (by omega)

/-! ## Search -/

/-- The offsets of the characters with `p`, the text beginning at `i`. -/
def indicesOf (p : Char → Bool) : Nat → List Char → List Nat
  | _, [] => []
  | i, c :: s => if p c then i :: indicesOf p (i + c.utf8Size) s else indicesOf p (i + c.utf8Size) s

/-- `str::find` of the first character with `p`. -/
def find (p : Char → Bool) : List Char → Option Nat
  | [] => none
  | c :: s => if p c then some 0 else (find p s).map (· + c.utf8Size)

/-- `str::rfind` of the last character with `p`. -/
def rfind (p : Char → Bool) : List Char → Option Nat
  | [] => none
  | c :: s =>
    match rfind p s with
    | some i => some (i + c.utf8Size)
    | none => if p c then some 0 else none

theorem indicesOf_skip (h : ∀ c ∈ a, p c = false) (i : Nat) (b : List Char) :
    indicesOf p i (a ++ b) = indicesOf p (i + byteLength a) b := by
  induction a generalizing i with
  | nil => rfl
  | cons c a ih =>
    rw [cons_append, indicesOf, if_neg (by simp [h c mem_cons_self]),
      ih (fun d hd => h d (mem_cons_of_mem _ hd)), byteLength_cons, Nat.add_assoc]

theorem find_cases (p : Char → Bool) (s : List Char) :
    (∃ a c b, s = a ++ c :: b ∧ (∀ d ∈ a, p d = false) ∧ p c = true ∧ find p s = some (byteLength a)) ∨
      ((∀ d ∈ s, p d = false) ∧ find p s = none) := by
  induction s with
  | nil => exact .inr ⟨fun _ h => absurd h not_mem_nil, rfl⟩
  | cons c s ih =>
    cases hc : p c with
    | true => exact .inl ⟨[], c, s, rfl, fun _ h => absurd h not_mem_nil, hc, by rw [find, if_pos hc]; rfl⟩
    | false =>
      have hfind : find p (c :: s) = (find p s).map (· + c.utf8Size) := if_neg (by simp [hc])
      rcases ih with ⟨a, d, b, rfl, hbefore, hd, hat⟩ | ⟨hnone, hat⟩
      · refine .inl ⟨c :: a, d, b, rfl, forall_mem_cons.mpr ⟨hc, hbefore⟩, hd, ?_⟩
        rw [hfind, hat, byteLength_cons, Option.map_some, Nat.add_comm]
      · exact .inr ⟨forall_mem_cons.mpr ⟨hc, hnone⟩, by rw [hfind, hat]; rfl⟩

theorem rfind_cases (p : Char → Bool) (s : List Char) :
    (∃ a c b, s = a ++ c :: b ∧ p c = true ∧ (∀ d ∈ b, p d = false) ∧ rfind p s = some (byteLength a)) ∨
      ((∀ d ∈ s, p d = false) ∧ rfind p s = none) := by
  induction s with
  | nil => exact .inr ⟨fun _ h => absurd h not_mem_nil, rfl⟩
  | cons c s ih =>
    rcases ih with ⟨a, d, b, rfl, hd, hbehind, hat⟩ | ⟨hnone, hat⟩
    · refine .inl ⟨c :: a, d, b, rfl, hd, hbehind, ?_⟩
      rw [rfind, hat, byteLength_cons, Nat.add_comm]
    cases hc : p c with
    | true => exact .inl ⟨[], c, s, rfl, hc, hnone, by rw [rfind, hat]; exact if_pos hc⟩
    | false =>
      refine .inr ⟨forall_mem_cons.mpr ⟨hc, hnone⟩, ?_⟩
      rw [rfind, hat]
      exact if_neg (by simp [hc])

def Boundary (s : List Char) (i : Nat) : Prop := ∃ a b, s = a ++ b ∧ byteLength a = i

theorem boundary_zero (s : List Char) : Boundary s 0 := ⟨[], s, rfl, rfl⟩

theorem boundary_end (s : List Char) : Boundary s (byteLength s) := ⟨s, [], (append_nil s).symm, rfl⟩

theorem Boundary.le (h : Boundary s i) : i ≤ byteLength s := by
  obtain ⟨a, b, rfl, rfl⟩ := h
  rw [byteLength_append]
  exact Nat.le_add_right _ _

theorem Boundary.sliceFrom (h : Boundary s i) : ∃ b, Lib.sliceFrom s i = some b := by
  obtain ⟨a, b, rfl, rfl⟩ := h
  exact ⟨b, sliceFrom_append a b⟩

theorem Boundary.slice {j : Nat} (hi : Boundary s i) (hj : Boundary s j) (hij : i ≤ j) :
    ∃ b, Lib.slice s i j = some b ∧ byteLength b = j - i := by
  obtain ⟨a, b, rfl, rfl⟩ := hi
  obtain ⟨a', b', heq, rfl⟩ := hj
  rcases append_eq_append_iff.mp heq with ⟨mid, rfl, rfl⟩ | ⟨mid, rfl, rfl⟩
  · refine ⟨mid, slice_append a mid b', ?_⟩
    rw [byteLength_append, Nat.add_sub_cancel_left]
  -- the two offsets are one
  cases mid with
  | nil =>
    refine ⟨[], ?_, ?_⟩
    · have hslice := slice_append a' [] b
      rw [append_nil] at hslice
      rwa [append_nil]
    · rw [append_nil, Nat.sub_self]
      rfl
  | cons c mid =>
    have hpos := byteLength_pos (cons_ne_nil c mid)
    rw [byteLength_append] at hij
    omega

/-- A character with `p` behind an offset: there is a boundary in front of it, and one behind it. -/
theorem find_boundary (hrest : sliceFrom s i = some rest) (hfind : find p rest = some k) :
    Boundary s (i + k) ∧ ∃ c, p c = true ∧ Boundary s (i + k + c.utf8Size) := by
  obtain ⟨a, rfl, rfl⟩ := sliceFrom_eq_some.mp hrest
  rcases find_cases p rest with ⟨front, c, b, rfl, -, hc, hat⟩ | ⟨-, hat⟩
  · rw [hat] at hfind
    cases hfind
    refine ⟨⟨a ++ front, c :: b, by simp, byteLength_append ..⟩, c, hc, a ++ (front ++ [c]), b, by simp, ?_⟩
    simp [byteLength_cons, Nat.add_assoc]
  · rw [hat] at hfind
    cases hfind

theorem sliceFrom_find (hrest : sliceFrom s i = some rest) (hfind : find p rest = some k) :
    ∃ c b, p c = true ∧ sliceFrom s (i + k) = some (c :: b) := by
  obtain ⟨a, rfl, rfl⟩ := sliceFrom_eq_some.mp hrest
  rcases find_cases p rest with ⟨front, c, b, rfl, -, hc, hat⟩ | ⟨-, hat⟩
  · rw [hat] at hfind
    cases hfind
    exact ⟨c, b, hc, by rw [← byteLength_append, ← append_assoc, sliceFrom_append]⟩
  · rw [hat] at hfind
    cases hfind

theorem size_le_of_find (hc : p c = false) (h : find p (c :: s) = some k) : c.utf8Size ≤ k := by
  rw [find, if_neg (by simp [hc])] at h
  obtain ⟨j, -, rfl⟩ := Option.map_eq_some_iff.mp h
  exact Nat.le_add_left _ _

theorem byteIs_boundary (h : byteIs p s i = true) :
    Boundary s i ∧ ∃ c, p c = true ∧ Boundary s (i + c.utf8Size) := by
  rw [byteIs] at h
  split at h
  · next a c b hsplit =>
    obtain ⟨rfl, rfl⟩ := splitBytes_eq_some.mp hsplit
    refine ⟨⟨a, c :: b, rfl, rfl⟩, c, h, a ++ [c], b, by simp, ?_⟩
    simp [byteLength_cons]
  · cases h

end Ratatoskr.Lib
