import Mathlib.Data.List.TakeWhile

/-!
# Lib.Lines

A sequence read line by line: up to and with the next separator, and the rest where there is none. A line
says whether its separator was there.

* `splitLines_terminated` : whole lines in front are read one by one.
* `splitLines_rest` : what follows the last separator is a line of its own, without one.
* `splitLines_start` : however a line begins, the lines after it are those behind its separator.
-/

namespace Ratatoskr.Lib

open List

variable {α : Type} [DecidableEq α]

/-- The lines without their separator, each with whether it had one. -/
def splitLines (sep : α) : List α → List (List α × Bool)
  | [] => []
  | b :: bs =>
    if b = sep then ([], true) :: splitLines sep bs
    else
      match splitLines sep bs with
      | [] => [([b], false)]
      | (line, terminated) :: rest => (b :: line, terminated) :: rest

variable {sep : α}

theorem splitLines_cons_line {line rest : List α} (h : sep ∉ line) :
    splitLines sep (line ++ sep :: rest) = (line, true) :: splitLines sep rest := by
  induction line with
  | nil => simp [splitLines]
  | cons b line ih =>
    obtain ⟨hb, hline⟩ := not_or.mp (mt mem_cons.mpr h)
    rw [cons_append, splitLines, if_neg (Ne.symm hb), ih hline]

theorem splitLines_terminated {lines : List (List α)} (rest : List α) (h : ∀ line ∈ lines, sep ∉ line) :
    splitLines sep (lines.flatMap (fun line => line ++ [sep]) ++ rest) =
      lines.map (fun line => (line, true)) ++ splitLines sep rest := by
  induction lines with
  | nil => rfl
  | cons line lines ih =>
    have hrest := ih (fun l hl => h l (mem_cons_of_mem _ hl))
    rw [flatMap_cons, append_assoc, append_assoc, singleton_append,
      splitLines_cons_line (h line mem_cons_self), hrest, map_cons, cons_append]

theorem splitLines_rest {rest : List α} (h : sep ∉ rest) (hne : rest ≠ []) :
    splitLines sep rest = [(rest, false)] := by
  induction rest with
  | nil => exact absurd rfl hne
  | cons b rest ih =>
    obtain ⟨hb, hrest⟩ := not_or.mp (mt mem_cons.mpr h)
    rw [splitLines, if_neg (Ne.symm hb)]
    cases rest with
    | nil => rfl
    | cons c rest => rw [ih hrest (cons_ne_nil _ _)]

def afterLine (sep : α) (s : List α) : List α := (s.dropWhile (· ≠ sep)).drop 1

theorem afterLine_append {start : List α} (h : sep ∉ start) (rest : List α) :
    afterLine sep (start ++ rest) = afterLine sep rest := by
  have hstart : ∀ b ∈ start, decide (b ≠ sep) = true := fun b hb =>
    decide_eq_true fun heq => h (heq ▸ hb)
  rw [afterLine, dropWhile_append_of_pos hstart]
  rfl

theorem afterLine_line {line rest : List α} (h : sep ∉ line) : afterLine sep (line ++ sep :: rest) = rest := by
  rw [afterLine_append h, afterLine, dropWhile_cons_of_neg (by simp)]
  rfl

theorem afterLine_rest {rest : List α} (h : sep ∉ rest) : afterLine sep rest = [] := by
  have hall := afterLine_append h []
  rwa [append_nil] at hall

theorem splitLines_start {start : List α} (h : sep ∉ start) (hne : start ≠ []) (rest : List α) :
    ∃ more terminated, splitLines sep (start ++ rest) =
      (start ++ more, terminated) :: splitLines sep (afterLine sep rest) := by
  by_cases hsep : sep ∈ rest
  · obtain ⟨line, behind, rfl, hline⟩ := eq_append_cons_of_mem hsep
    have hwhole : sep ∉ start ++ line := by simp [h, hline]
    refine ⟨line, true, ?_⟩
    rw [← append_assoc, splitLines_cons_line hwhole, afterLine_line hline]
  · have hwhole : sep ∉ start ++ rest := by simp [h, hsep]
    refine ⟨rest, false, ?_⟩
    rw [splitLines_rest hwhole (by simp [hne]), afterLine_rest hsep]
    rfl

end Ratatoskr.Lib
