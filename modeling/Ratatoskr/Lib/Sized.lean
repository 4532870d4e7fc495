import Mathlib.Algebra.GroupWithZero.Nat
import Mathlib.Data.List.TakeWhile

/-!
# Lib.Sized

Texts that carry the byte length of a field before it, and decimal numbers: the parsers of a character
list, and that each gives back what was written.
-/

namespace Ratatoskr.Lib

open List

def withoutPlus (text : List Char) : List Char :=
  if text.head? = some '+' then text.tail else text

/-- A decimal number below `bound`; one plus sign may stand before it. -/
def parseDecimal (bound : Nat) (text : List Char) : Option Nat :=
  if withoutPlus text = [] ∨ ¬ (withoutPlus text).all Char.isDigit then none
  else if Nat.ofDigitChars 10 (withoutPlus text) 0 < bound then
    some (Nat.ofDigitChars 10 (withoutPlus text) 0)
  else none

variable {n : Nat}

theorem isDigit_of_mem_repr {c : Char} (h : c ∈ n.repr.toList) : c.isDigit = true := by
  rw [Nat.toList_repr] at h
  exact Nat.isDigit_of_mem_toDigits (by decide) (by decide) h

variable {sep : Char}

theorem repr_ne_of_not_isDigit (hsep : sep.isDigit = false) : ∀ c ∈ n.repr.toList, c ≠ sep := by
  intro c hc heq
  rw [heq] at hc
  rw [isDigit_of_mem_repr hc] at hsep
  cases hsep

theorem parseDecimal_repr {bound : Nat} (h : n < bound) : parseDecimal bound n.repr.toList = some n := by
  have hplus : n.repr.toList.head? ≠ some '+' := by
    intro hhead
    have hdigit := isDigit_of_mem_repr (mem_of_mem_head? hhead)
    revert hdigit
    decide
  have hall : n.repr.toList.all Char.isDigit = true :=
    all_eq_true.mpr (fun c hc => isDigit_of_mem_repr hc)
  have hne : n.repr.toList ≠ [] := by
    rw [Nat.toList_repr]
    exact Nat.toDigits_ne_nil
  have hvalue : Nat.ofDigitChars 10 n.repr.toList 0 = n := by
    rw [Nat.toList_repr, Nat.ofDigitChars_ten_toDigits]
  have hok : ¬ (n.repr.toList = [] ∨ ¬ n.repr.toList.all Char.isDigit) :=
    not_or.mpr ⟨hne, not_not.mpr hall⟩
  have hsame : withoutPlus n.repr.toList = n.repr.toList := if_neg hplus
  rw [parseDecimal, hsame, if_neg hok, hvalue, if_pos h]

variable {text : List Char}

theorem parseDecimal_lt {bound : Nat} (h : parseDecimal bound text = some n) : n < bound := by
  rw [parseDecimal] at h
  split at h
  · cases h
  split at h
  · rename_i hlt
    cases h
    exact hlt
  · cases h

/-- What stands before the first `sep`, and what stands after it. -/
def splitFirst (sep : Char) (text : List Char) : Option (List Char × List Char) :=
  match text.dropWhile (· ≠ sep) with
  | [] => none
  | _ :: after => some (text.takeWhile (· ≠ sep), after)

variable {field : List Char}

theorem splitFirst_append (h : ∀ c ∈ field, c ≠ sep)
    (rest : List Char) : splitFirst sep (field ++ sep :: rest) = some (field, rest) := by
  have hfield : ∀ c ∈ field, decide (c ≠ sep) = true := fun c hc => decide_eq_true (h c hc)
  have htake : (field ++ sep :: rest).takeWhile (· ≠ sep) = field := by
    rw [takeWhile_append_of_pos hfield, takeWhile_cons_of_neg (by simp), append_nil]
  have hdrop : (field ++ sep :: rest).dropWhile (· ≠ sep) = sep :: rest := by
    rw [dropWhile_append_of_pos hfield, dropWhile_cons_of_neg (by simp)]
  rw [splitFirst, hdrop, htake]

variable {rest : List Char}

theorem splitFirst_length (h : splitFirst sep text = some (field, rest)) : rest.length < text.length := by
  have hle := (dropWhile_suffix (l := text) (fun c => decide (c ≠ sep))).length_le
  rw [splitFirst] at h
  split at h
  · cases h
  rename_i c rest' hdrop
  cases h
  rw [hdrop, length_cons] at hle
  omega

/-- What follows `start`. -/
def after (start text : List Char) : Option (List Char) :=
  if start.isPrefixOf text then some (text.drop start.length) else none

theorem after_append (start rest : List Char) : after start (start ++ rest) = some rest := by
  have hstart : start.isPrefixOf (start ++ rest) = true :=
    isPrefixOf_iff_prefix.mpr (prefix_append start rest)
  rw [after, if_pos hstart, drop_left]

theorem after_length {start : List Char} (h : after start text = some rest) : rest.length ≤ text.length := by
  rw [after] at h
  split at h
  · cases h
    rw [length_drop]
    omega
  · cases h

def bothFields (sep : Char) (text : List Char) : Option (List Char × List Char) :=
  match text.splitOn sep with
  | [first, second] => some (first, second)
  | _ => none

theorem bothFields_append {first second : List Char} (hfirst : ∀ c ∈ first, c ≠ sep)
    (hsecond : ∀ c ∈ second, c ≠ sep) : bothFields sep (first ++ sep :: second) = some (first, second) := by
  have hmem : ∀ field ∈ [first, second], sep ∉ field := by
    intro field hfield hsep
    rw [mem_cons, mem_singleton] at hfield
    rcases hfield with rfl | rfl
    · exact hfirst sep hsep rfl
    · exact hsecond sep hsep rfl
  have hsplit := splitOn_intercalate sep hmem (cons_ne_nil _ _)
  have hjoin : [sep].intercalate [first, second] = first ++ sep :: second := by
    simp [List.intercalate]
  rw [hjoin] at hsplit
  rw [bothFields, hsplit]

def byteLength (text : List Char) : Nat := (text.map Char.utf8Size).sum

theorem byteLength_cons (c : Char) (text : List Char) :
    byteLength (c :: text) = c.utf8Size + byteLength text := by
  simp [byteLength]

/-- The first `n` bytes and the rest, where a character ends there. -/
def splitBytes : Nat → List Char → Option (List Char × List Char)
  | 0, text => some ([], text)
  | _ + 1, [] => none
  | n + 1, c :: text =>
    if c.utf8Size ≤ n + 1 then
      (splitBytes (n + 1 - c.utf8Size) text).map (fun (field, rest) => (c :: field, rest))
    else none

theorem splitBytes_append (field rest : List Char) :
    splitBytes (byteLength field) (field ++ rest) = some (field, rest) := by
  induction field with
  | nil =>
    cases rest with
    | nil => rfl
    | cons c rest => rfl
  | cons c field ih =>
    have hlength := byteLength_cons c field
    obtain ⟨n, hn⟩ : ∃ n, byteLength (c :: field) = n + 1 :=
      ⟨byteLength (c :: field) - 1, by have := c.utf8Size_pos; omega⟩
    have hfits : c.utf8Size ≤ n + 1 := by omega
    have hleft : n + 1 - c.utf8Size = byteLength field := by omega
    rw [hn, cons_append, splitBytes, if_pos hfits, hleft, ih]
    rfl

theorem splitBytes_length (h : splitBytes n text = some (field, rest)) : byteLength field = n := by
  induction text generalizing n field with
  | nil =>
    cases n with
    | zero =>
      cases h
      rfl
    | succ n => cases h
  | cons c text ih =>
    cases n with
    | zero =>
      cases h
      rfl
    | succ n =>
      rw [splitBytes] at h
      split at h
      · obtain ⟨⟨field', rest'⟩, hsplit, heq⟩ := Option.map_eq_some_iff.mp h
        cases heq
        rw [byteLength_cons, ih hsplit]
        omega
      · cases h

theorem byteLength_toList (s : String) : byteLength s.toList = s.utf8ByteSize := by
  rw [← String.ofList_toList (s := s)]
  generalize s.toList = cs
  rw [String.toList_ofList]
  induction cs with
  | nil => rfl
  | cons c cs ih =>
    have hcons : String.ofList (c :: cs) = String.singleton c ++ String.ofList cs := by
      rw [String.singleton_eq_ofList, ← String.ofList_append]
      rfl
    rw [hcons, String.utf8ByteSize_append, String.utf8ByteSize_singleton, ← ih, byteLength_cons]

theorem splitBytes_toList (field : String) (rest : List Char) :
    splitBytes field.utf8ByteSize (field.toList ++ rest) = some (field.toList, rest) := by
  rw [← byteLength_toList]
  exact splitBytes_append _ _

end Ratatoskr.Lib
