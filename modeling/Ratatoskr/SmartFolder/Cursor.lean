import Ratatoskr.SmartFolder.Lexer

/-!
# SmartFolder.Cursor

The operator that the cursor of the search box is in (`smart-folder/src/parser/mod.rs`,
`analyze_cursor_context`). The colons in front of the cursor are looked at from the last one on. The word
before a colon is taken from one byte behind the last blank before it, which is a slice inside a character
where that blank is longer than a byte.
-/

namespace Ratatoskr.SmartFolder

open List
open Lib (byteLength sliceFrom sliceTo slice rfind)
open Rte (isWhitespace)

inductive CursorContext where
  | freeText
  | insideOperator (operator partialValue : List Char) (valueStart valueEnd : Nat)
  deriving DecidableEq

def colons : Nat → List Char → List Nat
  | _, [] => []
  | i, c :: s => if c = ':' then i :: colons (i + c.utf8Size) s else colons (i + c.utf8Size) s

def isOperator (lower : List Char) : Bool := operators.any fun op => op.toList = lower

/-- The value typed so far, if the cursor is still in it: behind an open quote anything but a quote, else
anything but a blank. -/
def openValue : List Char → Option (List Char)
  | '"' :: afterOpen => if '"' ∈ afterOpen then none else some afterOpen
  | part => if part.any isWhitespace then none else some part

/-- The loop over the colons, `before` being the query up to the cursor. -/
def cursorLoop (query before : List Char) (cursor : Nat) : List Nat → Except Panic CursorContext
  | [] => .ok .freeText
  | colon :: rest => do
    let beforeColon ← sliced (sliceTo before colon)
    let opStart := match rfind isWhitespace beforeColon with
      | some p => p + 1
      | none => 0
    let candidate ← sliced (sliceFrom beforeColon opStart)
    if candidate = [] then cursorLoop query before cursor rest
    else if ¬isOperator (candidate.map Char.toLower) then cursorLoop query before cursor rest
    else do
      let valueStart := colon + 1
      let part ← sliced (slice query valueStart cursor)
      match openValue part with
      | some partialValue =>
        .ok (.insideOperator (candidate.map Char.toLower) partialValue valueStart cursor)
      | none => cursorLoop query before cursor rest

def analyzeCursorContext (query : List Char) (cursorPos : Nat) : Except Panic CursorContext := do
  let cursor := min cursorPos (byteLength query)
  let before ← sliced (sliceTo query cursor)
  cursorLoop query before cursor (colons 0 before).reverse

def lastWord (s : List Char) : List Char := s.rtakeWhile fun c => !isWhitespace c

def BlankOk (word : List Char) : Prop :=
  ∀ a c b, word = a ++ c :: b → isWhitespace c = true → (∀ d ∈ b, isWhitespace d = false) →
    c.utf8Size = 1

/-- The search ends at a colon between these two texts: an operator in front, and a value that goes on up
to the cursor behind. -/
def Settled (word part : List Char) : Prop :=
  isOperator ((lastWord word).map Char.toLower) = true ∧ (openValue part).isSome = true

theorem lastWord_blank (a : List Char) {c : Char} {b : List Char} (hc : isWhitespace c = true)
    (hb : ∀ d ∈ b, isWhitespace d = false) : lastWord (a ++ c :: b) = b := by
  have hreverse : (a ++ c :: b).reverse = b.reverse ++ c :: a.reverse := by simp
  have hword : ∀ d ∈ b.reverse, (!isWhitespace d) = true := fun d hd => by
    simp [hb d (mem_reverse.mp hd)]
  rw [lastWord, List.rtakeWhile, hreverse, takeWhile_append_of_pos hword,
    takeWhile_cons_of_neg (by simp [hc]), append_nil, reverse_reverse]

theorem lastWord_whole {s : List Char} (h : ∀ d ∈ s, isWhitespace d = false) : lastWord s = s := by
  have hword : ∀ d ∈ s.reverse, (!isWhitespace d) = true := fun d hd => by
    simp [h d (mem_reverse.mp hd)]
  have htake := @List.takeWhile_append_of_pos _ _ _ [] hword
  rw [takeWhile_nil, append_nil] at htake
  rw [lastWord, List.rtakeWhile, htake, reverse_reverse]

def wordStart (word : List Char) : Nat :=
  match rfind isWhitespace word with
  | some p => p + 1
  | none => 0

theorem sliceFrom_wordStart (word : List Char) :
    (BlankOk word ∧ sliceFrom word (wordStart word) = some (lastWord word)) ∨
      (¬BlankOk word ∧ sliceFrom word (wordStart word) = none) := by
  rcases Lib.rfind_cases isWhitespace word with ⟨a, c, b, rfl, hc, hb, hat⟩ | ⟨hnone, hat⟩
  · rw [wordStart, hat]
    rw [Lib.sliceFrom_after, lastWord_blank a hc hb]
    by_cases hone : c.utf8Size = 1
    · refine .inl ⟨?_, if_pos hone⟩
      intro a' c' b' heq hc' hb'
      -- the last blank is where it is, however the text is taken apart
      have hword : b = b' := by
        rw [← lastWord_blank a hc hb, heq, lastWord_blank a' hc' hb']
      have hfront : a ++ [c] = a' ++ [c'] := by
        rw [hword] at heq
        have hsame : (a ++ [c]) ++ b' = (a' ++ [c']) ++ b' := by simpa using heq
        exact append_cancel_right hsame
      have hsame := (append_inj' hfront rfl).2
      rw [← (List.cons.inj hsame).1]
      exact hone
    · exact .inr ⟨fun h => hone (h a c b rfl hc hb), if_neg hone⟩
  · rw [wordStart, hat]
    refine .inl ⟨?_, ?_⟩
    · rintro a c b rfl hc -
      have hno := hnone c (by simp)
      rw [hc] at hno
      cases hno
    · rw [lastWord_whole hnone]
      exact Lib.sliceFrom_append [] word

section Loop

variable {query before after word part : List Char} {rest : List Nat}

theorem cursorLoop_panic (hbefore : before = word ++ ':' :: part) (h : ¬BlankOk word) (cursor : Nat) :
    cursorLoop query before cursor (byteLength word :: rest) = .error .boundary := by
  have hslice := ((sliceFrom_wordStart word).resolve_left fun hok => h hok.1).2
  rw [wordStart] at hslice
  rw [cursorLoop, hbefore, Lib.sliceTo_append, sliced_some, ok_bind]
  dsimp only
  rw [hslice]
  rfl

theorem cursorLoop_word (hquery : query = before ++ after) (hbefore : before = word ++ ':' :: part)
    (h : BlankOk word) :
    (Settled word part → ∃ ctx,
        cursorLoop query before (byteLength before) (byteLength word :: rest) = .ok ctx) ∧
      (¬Settled word part →
        cursorLoop query before (byteLength before) (byteLength word :: rest) =
          cursorLoop query before (byteLength before) rest) := by
  have hslice := ((sliceFrom_wordStart word).resolve_right fun hno => hno.1 h).2
  have hpart : slice query (byteLength word + 1) (byteLength before) = some part := by
    have hfront : byteLength (word ++ [':']) = byteLength word + 1 := by
      rw [Lib.byteLength_append, Lib.byteLength_cons]
      rfl
    have hmid := Lib.slice_append (word ++ [':']) part after
    rw [hfront] at hmid
    rw [hquery, hbefore]
    simpa using hmid
  rw [wordStart] at hslice
  have hstep : cursorLoop query before (byteLength before) (byteLength word :: rest) =
      if lastWord word = [] then cursorLoop query before (byteLength before) rest
      else if ¬isOperator ((lastWord word).map Char.toLower) then
        cursorLoop query before (byteLength before) rest
      else
        match openValue part with
        | some partialValue => .ok (.insideOperator ((lastWord word).map Char.toLower) partialValue
            (byteLength word + 1) (byteLength before))
        | none => cursorLoop query before (byteLength before) rest := by
    conv_lhs => rw [cursorLoop]
    rw [show sliceTo before (byteLength word) = some word by rw [hbefore, Lib.sliceTo_append],
      sliced_some, ok_bind]
    dsimp only
    rw [hslice, sliced_some, ok_bind, hpart, sliced_some, ok_bind]
  rw [hstep]
  constructor
  · rintro ⟨hoperator, hopen⟩
    obtain ⟨value, hvalue⟩ := Option.isSome_iff_exists.mp hopen
    have hne : lastWord word ≠ [] := by
      intro hnil
      rw [hnil] at hoperator
      exact absurd hoperator (by decide)
    rw [if_neg hne, if_neg (not_not.mpr hoperator), hvalue]
    exact ⟨_, rfl⟩
  · intro hno
    split
    · rfl
    split
    · rfl
    next hoperator =>
    cases hvalue : openValue part with
    | none => rfl
    | some value =>
      exact absurd ⟨not_not.mp hoperator, by rw [hvalue]; rfl⟩ hno

end Loop

/-! ## All colons -/

theorem colons_concat (i : Nat) (a : List Char) (c : Char) :
    colons i (a ++ [c]) = colons i a ++ if c = ':' then [i + byteLength a] else [] := by
  induction a generalizing i with
  | nil =>
    simp [colons]
  | cons d a ih =>
    rw [cons_append, colons, colons, ih, Nat.add_assoc]
    split <;> rfl

/-- Every colon of `a` has a word that can be sliced, or one behind it ends the search; `b` is what stands
between `a` and the cursor. -/
def Watched (a b : List Char) : Prop :=
  ∀ word part, a = word ++ ':' :: part → BlankOk word ∨
    ∃ word' part', part = word' ++ ':' :: part' ∧ BlankOk (word ++ ':' :: word') ∧
      Settled (word ++ ':' :: word') (part' ++ b)

theorem colon_concat {a word part : List Char} {c : Char} : a ++ [c] = word ++ ':' :: part ↔
      (part = [] ∧ c = ':' ∧ a = word) ∨ ∃ part₀, part = part₀ ++ [c] ∧ a = word ++ ':' :: part₀ := by
  constructor
  · intro h
    rcases eq_nil_or_concat part with rfl | ⟨part₀, d, rfl⟩
    · obtain ⟨rfl, hc⟩ := append_inj' h rfl
      exact .inl ⟨rfl, (List.cons.inj hc).1, rfl⟩
    · have hlast : a ++ [c] = (word ++ ':' :: part₀) ++ [d] := by simpa using h
      obtain ⟨rfl, hc⟩ := append_inj' hlast rfl
      obtain rfl := (List.cons.inj hc).1
      exact .inr ⟨part₀, concat_eq_append, rfl⟩
  · rintro (⟨rfl, rfl, rfl⟩ | ⟨part₀, rfl, rfl⟩)
    · rfl
    · simp

theorem watched_pass {a b : List Char} {c : Char} (h : c = ':' → BlankOk a ∧ ¬Settled a b) :
    Watched (a ++ [c]) b ↔ Watched a (c :: b) := by
  constructor
  · rintro hwatched word part rfl
    refine (hwatched word (part ++ [c]) (by simp)).imp_right ?_
    rintro ⟨word', part', hpart, hok, hsettled⟩
    rcases colon_concat.mp hpart with ⟨rfl, rfl, rfl⟩ | ⟨part₀, rfl, rfl⟩
    · exact absurd hsettled (h rfl).2
    · exact ⟨word', part₀, rfl, hok, by simpa using hsettled⟩
  · intro hwatched word part heq
    rcases colon_concat.mp heq with ⟨rfl, rfl, rfl⟩ | ⟨part₀, rfl, rfl⟩
    · exact .inl (h rfl).1
    · refine (hwatched word part₀ rfl).imp_right ?_
      rintro ⟨word', part', rfl, hok, hsettled⟩
      exact ⟨word', part' ++ [c], by simp, hok, by simpa using hsettled⟩

theorem watched_settled {a b : List Char} (hok : BlankOk a) (hsettled : Settled a b) :
    Watched (a ++ [':']) b := by
  intro word part heq
  rcases colon_concat.mp heq with ⟨rfl, -, rfl⟩ | ⟨part₀, rfl, rfl⟩
  · exact .inl hok
  · exact .inr ⟨part₀, [], by simp, hok, by simpa using hsettled⟩

theorem not_watched_panic {a b : List Char} (h : ¬BlankOk a) : ¬Watched (a ++ [':']) b := by
  intro hwatched
  rcases hwatched a [] (by simp) with hok | ⟨word', part', hpart, -⟩
  · exact h hok
  · exact absurd hpart (by simp)

theorem cursorLoop_ok_iff {query after : List Char} (a b : List Char) (hquery : query = (a ++ b) ++ after) :
    (∃ ctx, cursorLoop query (a ++ b) (byteLength (a ++ b)) (colons 0 a).reverse = .ok ctx) ↔
      Watched a b := by
  induction a using List.reverseRecOn generalizing b with
  | nil =>
    constructor
    · intro _ word part heq
      exact absurd heq (by simp)
    · intro _
      exact ⟨_, rfl⟩
  | append_singleton a c ih =>
    have hrest := ih (c :: b) (by simpa using hquery)
    have htext : a ++ [c] ++ b = a ++ c :: b := by simp
    rw [htext] at hquery ⊢
    rw [colons_concat]
    by_cases hcolon : c = ':'
    · subst hcolon
      rw [if_pos rfl, reverse_append, reverse_singleton, singleton_append, Nat.zero_add]
      by_cases hok : BlankOk a
      · obtain ⟨hsettle, hpass⟩ := @cursorLoop_word _ _ _ _ _ (colons 0 a).reverse hquery rfl hok
        by_cases hsettled : Settled a b
        · exact ⟨fun _ => watched_settled hok hsettled, fun _ => hsettle hsettled⟩
        · rw [hpass hsettled, watched_pass fun _ => ⟨hok, hsettled⟩]
          exact hrest
      · rw [cursorLoop_panic rfl hok]
        constructor
        · rintro ⟨ctx, hctx⟩
          cases hctx
        · intro hwatched
          exact absurd hwatched (not_watched_panic hok)
    · rw [if_neg hcolon, append_nil, watched_pass fun heq => absurd heq hcolon]
      exact hrest

/-- Every colon in front of the cursor has a word that can be sliced, or one behind it ends the search. -/
def ColonsOk (before : List Char) : Prop := Watched before []

/-- With the cursor between two characters, the analysis returns exactly when the colons are watched. -/
theorem analyzeCursorContext_ok_iff (before after : List Char) :
    (∃ ctx, analyzeCursorContext (before ++ after) (byteLength before) = .ok ctx) ↔ ColonsOk before := by
  have hmin : min (byteLength before) (byteLength (before ++ after)) = byteLength before := by
    rw [Lib.byteLength_append]
    omega
  have hloop := cursorLoop_ok_iff before [] (show before ++ after = (before ++ []) ++ after by simp)
  rw [append_nil] at hloop
  rw [ColonsOk, ← hloop, analyzeCursorContext, hmin, Lib.sliceTo_append, sliced_some, ok_bind]

end Ratatoskr.SmartFolder
