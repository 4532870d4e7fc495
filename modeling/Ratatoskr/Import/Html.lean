import Mathlib.Algebra.Group.Nat.Defs
import Ratatoskr.Import.Recipients
import Ratatoskr.Lib.Lines

/-!
# Import.Html

The text in a pasted HTML fragment and in RTF (`import/src/recipient_parser.rs`): tables with their rows
and cells, tags, entities, control words. The loops have fuel; `none` is a slice that panics, or a loop
that is out of fuel.

* `findOpenTag_ok`, `findCloseTag_bounds` : tags stand between characters, ahead of the cursor.
* `eachTag_ok` : a loop over tags ends, and cuts what it reads at its ends.
* `extractHtmlTables_ok`, `htmlToText_ok`, `rtfToText_ok` : no text makes them panic.
-/

namespace Ratatoskr.Import

open List
open Lib (byteLength byteLength_cons byteIs slice sliceFrom sliceTo find Boundary)
open Rte (isWhitespace)
open Threading (trim trimStart)

variable {i start cursor fuel : Nat} {html tag : Text} {α : Type}

abbrev Table := List (List Text)

/-- `window.eq_ignore_ascii_case(needle)` for the bytes at an offset. -/
def windowIs (haystack : Text) : Nat → Text → Bool
  | _, [] => true
  | i, c :: needle =>
    byteIs (fun d => d.toLower = c.toLower) haystack i && windowIs haystack (i + c.utf8Size) needle

def findAsciiCaseInsensitive (haystack needle : Text) (start : Nat) : Option Nat :=
  if needle = [] ∨ byteLength haystack ≤ start then none
  else
    let windows := byteLength haystack - start + 1 - byteLength needle
    ((List.range windows).map (start + ·)).find? fun i => windowIs haystack i needle

def isTagBoundary (html : Text) (index : Nat) : Bool :=
  byteIs (fun c => c = ' ' || c = '\t' || c = '\n' || c = '\x0c' || c = '\r' || c = '>' || c = '/') html index

/-- The loop of `find_open_tag`: where the tag starts, and where its content does. -/
def findOpenTagFrom (html tag : Text) : Nat → Nat → Option (Option (Nat × Nat))
  | 0, _ => none
  | fuel + 1, cursor =>
    let needle := '<' :: tag
    match findAsciiCaseInsensitive html needle cursor with
    | none => some none
    | some start =>
      let afterName := start + byteLength needle
      if isTagBoundary html afterName then do
        let rest ← sliceFrom html afterName
        some ((find (· = '>') rest).map fun i => (start, i + afterName + 1))
      else findOpenTagFrom html tag fuel afterName

def findOpenTag (html tag : Text) (start : Nat) : Option (Option (Nat × Nat)) :=
  findOpenTagFrom html tag (byteLength html + 1) start

def findCloseTag (html tag : Text) (start : Nat) : Option Nat :=
  findAsciiCaseInsensitive html ('<' :: '/' :: tag) start

def isHexDigit (c : Char) : Bool := c.isDigit || 'a' ≤ c && c ≤ 'f' || 'A' ≤ c && c ≤ 'F'

/-- `char::to_digit(16)` of a digit. -/
def hexDigit (c : Char) : Nat :=
  if c.isDigit then c.toNat - '0'.toNat else c.toLower.toNat - 'a'.toNat + 10

/-- `char::from_u32`. -/
def charFromU32 (n : Nat) : Option Char := if h : n.isValidChar then some (Char.ofNatAux n h) else none

/-- `u32::from_str_radix(_, 16)`. -/
def parseHex (text : Text) : Option Nat :=
  let digits := Lib.withoutPlus text
  let value := digits.foldl (fun n c => n * 16 + hexDigit c) 0
  if digits = [] ∨ ¬digits.all isHexDigit ∨ 2 ^ 32 ≤ value then none else some value

def decodeHtmlEntity (entity : Text) : Option (Option Text) :=
  if entity = "amp".toList then some (some ['&'])
  else if entity = "lt".toList then some (some ['<'])
  else if entity = "gt".toList then some (some ['>'])
  else if entity = "quot".toList then some (some ['"'])
  else if entity = "apos".toList ∨ entity = "#39".toList then some (some ['\''])
  else if entity = "nbsp".toList then some (some [' '])
  else if "#x".toList.isPrefixOf entity ∨ "#X".toList.isPrefixOf entity then do
    let digits ← sliceFrom entity 2
    some (((parseHex digits).bind charFromU32).map fun c => [c])
  else if "#".toList.isPrefixOf entity then do
    let digits ← sliceFrom entity 1
    some (((Lib.parseDecimal (2 ^ 32) digits).bind charFromU32).map fun c => [c])
  else some none

def restFrom (input : Text) (cursor : Nat) (out : Text) : Option Text :=
  if cursor < byteLength input then do
    let rest ← sliceFrom input cursor
    some (out ++ rest)
  else some out

/-- The loop of `decode_html_entities`. -/
def decodeFrom (input : Text) : Nat → Nat → Text → Option Text
  | 0, _, _ => none
  | fuel + 1, cursor, out => do
    let rest ← sliceFrom input cursor
    match find (· = '&') rest with
    | none => restFrom input cursor out
    | some relAmp => do
      let amp := cursor + relAmp
      let before ← slice input cursor amp
      let out := out ++ before
      let behind ← sliceFrom input amp
      match find (· = ';') behind with
      | none => restFrom input amp out
      | some relSemicolon => do
        let semicolon := amp + relSemicolon
        let entity ← slice input (amp + 1) semicolon
        match ← decodeHtmlEntity entity with
        | some decoded => decodeFrom input fuel (semicolon + 1) (out ++ decoded)
        | none => decodeFrom input fuel (amp + 1) (out ++ ['&'])

def decodeHtmlEntities (input : Text) : Option Text := decodeFrom input (byteLength input + 1) 0 []

def htmlTagSeparator (tagBody : Text) : Text :=
  let trimmed := trimStart (tagBody.dropWhile (· = '/'))
  let name := String.ofList ((trimmed.takeWhile Char.isAlphanum).map Char.toLower)
  if name ∈ ["br", "p", "div", "tr"] then ['\n']
  else if name ∈ ["td", "th"] then ['\t']
  else []

/-- The text behind the cursor, with its entities decoded. -/
def decodedFrom (html : Text) (cursor : Nat) (out : Text) : Option Text :=
  if cursor < byteLength html then do
    let rest ← sliceFrom html cursor
    let decoded ← decodeHtmlEntities rest
    some (out ++ decoded)
  else some out

/-- The loop of `html_to_text`. -/
def htmlToTextFrom (html : Text) : Nat → Nat → Text → Option Text
  | 0, _, _ => none
  | fuel + 1, cursor, out => do
    let rest ← sliceFrom html cursor
    match find (· = '<') rest with
    | none => decodedFrom html cursor out
    | some relStart => do
      let start := cursor + relStart
      let before ← slice html cursor start
      let decoded ← decodeHtmlEntities before
      let out := out ++ decoded
      let behind ← sliceFrom html start
      match find (· = '>') behind with
      | none => decodedFrom html start out
      | some relEnd => do
        let stop := start + relEnd + 1
        let tagBody ← slice html (start + 1) (stop - 1)
        htmlToTextFrom html fuel stop (out ++ htmlTagSeparator tagBody)

def htmlToText (html : Text) : Option Text := htmlToTextFrom html (byteLength html + 1) 0 []

/-! ## Tables -/

/-- A loop over tags: `next` finds the next one at a cursor, `read` takes what is between it and its
closing tag. -/
def eachTag {α : Type} (html : Text) (next : Nat → Option (Option (Text × Nat × Nat)))
    (read : Text → Option (Option α)) : Nat → Nat → List α → Option (List α)
  | 0, _, _ => none
  | fuel + 1, cursor, items => do
    match ← next cursor with
    | none => some items
    | some (tag, start, contentStart) => do
      let stop := (findCloseTag html tag contentStart).getD (byteLength html)
      let content ← slice html contentStart stop
      let item ← read content
      eachTag html next read fuel (max stop (start + 1)) (items ++ item.toList)

def openTag (html : Text) (tag : String) (cursor : Nat) : Option (Option (Text × Nat × Nat)) :=
  (findOpenTag html tag.toList cursor).map fun found => found.map fun at' => (tag.toList, at'.1, at'.2)

/-- The first `td` or `th`. -/
def findNextCellOpenTag (html : Text) (cursor : Nat) : Option (Option (Text × Nat × Nat)) := do
  let td ← openTag html "td" cursor
  let th ← openTag html "th" cursor
  match td, th with
  | some td, some th => if td.2.1 ≤ th.2.1 then some (some td) else some (some th)
  | some td, none => some (some td)
  | none, some th => some (some th)
  | none, none => some none

def readCell (content : Text) : Option (Option Text) := do
  let text ← htmlToText content
  some (some ((cleanText text).getD []))

def extractHtmlCells (rowHtml : Text) : Option (List Text) :=
  eachTag rowHtml (findNextCellOpenTag rowHtml) readCell (byteLength rowHtml + 1) 0 []

/-- Rows without cells and tables without rows are left out. -/
def unlessEmpty {α : Type} (read : Text → Option (List α)) (content : Text) : Option (Option (List α)) := do
  let items ← read content
  some (if items.isEmpty then none else some items)

def extractHtmlRows (tableHtml : Text) : Option (List (List Text)) :=
  eachTag tableHtml (openTag tableHtml "tr") (unlessEmpty extractHtmlCells) (byteLength tableHtml + 1) 0 []

def extractHtmlTables (html : Text) : Option (List Table) :=
  eachTag html (openTag html "table") (unlessEmpty extractHtmlRows) (byteLength html + 1) 0 []

/-- `str::lines`. -/
def lines (text : Text) : List Text :=
  (Lib.splitLines '\n' text).map fun line =>
    if line.2 ∧ line.1.getLast? = some '\r' then line.1.dropLast else line.1

/-- `value.parse::<isize>()`, as an offset. -/
def parseOffset : Text → Option Nat
  | '-' :: digits => if digits ≠ [] ∧ digits.all (· = '0') then some 0 else none
  | value => Lib.parseDecimal (2 ^ 63) value

def cfHtmlOffset (html key : Text) : Option Nat :=
  match ((lines html).take 16).find? fun line => key.isPrefixOf line with
  | none => none
  | some line =>
    match line.drop key.length with
    | ':' :: value => parseOffset (trim value)
    | _ => none

def extractCfHtmlFragment (html : Text) : Option Text := do
  let start ← cfHtmlOffset html "StartFragment".toList
  let stop ← cfHtmlOffset html "EndFragment".toList
  if stop ≤ start ∨ byteLength html < stop then none else slice html start stop

def decodeRtfHex : Text → Option Char
  | high :: low :: _ =>
    if isHexDigit high && isHexDigit low then charFromU32 (hexDigit high * 16 + hexDigit low) else none
  | _ => none

/-- The control behind a backslash: what is behind it, and what it writes. -/
def consumeRtfControl : Text → Text × Text
  | [] => ([], [])
  | next :: rest =>
    if next = '\\' ∨ next = '\x7b' ∨ next = '\x7d' then (rest, [next])
    else if next = '\'' then (rest.drop 2, (decodeRtfHex rest).toList)
    else if !next.isAlpha then (rest, [])
    else
      let word := String.ofList ((next :: rest).takeWhile Char.isAlpha)
      let behind := (next :: rest).dropWhile Char.isAlpha
      let negative := behind.head? = some '-'
      let behind := if negative then behind.tail else behind
      let number := Lib.parseDecimal (2 ^ 31) (behind.takeWhile Char.isDigit)
      let behind := behind.dropWhile Char.isDigit
      let behind := if behind.head? = some ' ' then behind.tail else behind
      (behind,
        if word = "cell" ∨ word = "tab" then ['\t']
        else if word = "row" ∨ word = "par" ∨ word = "line" then ['\n']
        else if word = "u" then
          ((number.filter fun n => !negative || n = 0).bind charFromU32).toList
        else [])

/-- The loop of `rtf_to_text`, over the characters from the index on. -/
def rtfToTextFrom : Nat → Text → Text → Option Text
  | 0, _, _ => none
  | _ + 1, [], out => some out
  | fuel + 1, c :: rest, out =>
    if c = '\x7b' ∨ c = '\x7d' then rtfToTextFrom fuel rest out
    else if c = '\\' then
      let control := consumeRtfControl rest
      rtfToTextFrom fuel control.1 (out ++ control.2)
    else rtfToTextFrom fuel rest (out ++ [c])

def rtfToText (rtf : Text) : Option Text := rtfToTextFrom (rtf.length + 1) rtf []

def Ascii (s : Text) : Prop := ∀ c ∈ s, c.utf8Size = 1

theorem windowIs_boundary {haystack needle : Text} (hneedle : Ascii needle)
    (hi : Boundary haystack i) (h : windowIs haystack i needle = true) :
    Boundary haystack (i + byteLength needle) := by
  induction needle generalizing i with
  | nil => exact hi
  | cons c needle ih =>
    rw [windowIs, Bool.and_eq_true] at h
    obtain ⟨-, d, hd, hbehind⟩ := Lib.byteIs_boundary h.1
    have hsize : d.utf8Size = c.utf8Size := by
      rw [← Lib.utf8Size_toLower d, of_decide_eq_true hd, Lib.utf8Size_toLower]
    rw [hsize] at hbehind
    have hrest := ih (fun e he => hneedle e (mem_cons_of_mem _ he)) hbehind h.2
    rwa [byteLength_cons, ← Nat.add_assoc]

theorem findAscii_bounds {haystack needle : Text} (hneedle : Ascii needle)
    (h : findAsciiCaseInsensitive haystack needle start = some i) :
    start ≤ i ∧ Boundary haystack i ∧ Boundary haystack (i + byteLength needle) := by
  rw [findAsciiCaseInsensitive] at h
  split at h
  · cases h
  next hsome =>
  have hwindow := find?_some h
  obtain ⟨k, -, rfl⟩ := mem_map.mp (mem_of_find?_eq_some h)
  have hstart : Boundary haystack (start + k) := by
    cases needle with
    | nil => exact absurd (.inl rfl) hsome
    | cons c needle =>
      rw [windowIs, Bool.and_eq_true] at hwindow
      exact (Lib.byteIs_boundary hwindow.1).1
  exact ⟨Nat.le_add_right _ _, hstart, windowIs_boundary hneedle hstart hwindow⟩

/-- Where a tag is found: ahead of the cursor, with its content behind it between characters. -/
def TagAt (html : Text) (cursor start contentStart : Nat) : Prop :=
  cursor ≤ start ∧ start < contentStart ∧ Boundary html contentStart

theorem TagAt.mono {cursor' contentStart : Nat} (h : TagAt html cursor start contentStart)
    (hcursor : cursor' ≤ cursor) : TagAt html cursor' start contentStart :=
  ⟨Nat.le_trans hcursor h.1, h.2⟩

theorem findOpenTagFrom_ok (htag : Ascii tag) (hpos : 0 < fuel) (hfuel : byteLength html < cursor + fuel) :
    ∃ found, findOpenTagFrom html tag fuel cursor = some found ∧
      ∀ start contentStart, found = some (start, contentStart) → TagAt html cursor start contentStart := by
  have hneedle : Ascii ('<' :: tag) := forall_mem_cons.mpr ⟨rfl, htag⟩
  have hsize : 0 < byteLength ('<' :: tag) := Lib.byteLength_pos (cons_ne_nil _ _)
  induction fuel generalizing cursor with
  | zero => exact absurd hpos (Nat.lt_irrefl _)
  | succ fuel ih =>
    rw [findOpenTagFrom]
    cases hfind : findAsciiCaseInsensitive html ('<' :: tag) cursor with
    | none => exact ⟨none, rfl, fun _ _ h => by cases h⟩
    | some start =>
      obtain ⟨hstart, -, hname⟩ := findAscii_bounds hneedle hfind
      dsimp only
      by_cases hboundary : isTagBoundary html (start + byteLength ('<' :: tag)) = true
      · obtain ⟨rest, hrest⟩ := hname.sliceFrom
        rw [if_pos hboundary, hrest]
        refine ⟨_, rfl, fun start' contentStart h => ?_⟩
        cases hclose : find (· = '>') rest with
        | none =>
          rw [hclose] at h
          cases h
        | some i =>
          rw [hclose] at h
          cases h
          obtain ⟨-, c, hc, hbehind⟩ := Lib.find_boundary hrest hclose
          rw [of_decide_eq_true hc] at hbehind
          refine ⟨hstart, by omega, ?_⟩
          rwa [Nat.add_comm i]
      · rw [if_neg hboundary]
        have hle := hname.le
        obtain ⟨found, hfound, hbounds⟩ :=
          @ih (start + byteLength ('<' :: tag)) (by omega) (by omega)
        exact ⟨found, hfound, fun s c h => (hbounds s c h).mono (by omega)⟩

theorem findOpenTag_ok (htag : Ascii tag) (html : Text) (cursor : Nat) :
    ∃ found, findOpenTag html tag cursor = some found ∧
      ∀ start contentStart, found = some (start, contentStart) → TagAt html cursor start contentStart :=
  findOpenTagFrom_ok htag (Nat.succ_pos _) (by omega)

theorem findCloseTag_bounds (htag : Ascii tag) {stop : Nat}
    (h : findCloseTag html tag start = some stop) : start ≤ stop ∧ Boundary html stop := by
  have hneedle : Ascii ('<' :: '/' :: tag) :=
    forall_mem_cons.mpr ⟨rfl, forall_mem_cons.mpr ⟨rfl, htag⟩⟩
  obtain ⟨hstart, hstop, -⟩ := findAscii_bounds hneedle h
  exact ⟨hstart, hstop⟩

/-- What finds the tags of a loop: always an answer, and a tag ahead of the cursor. -/
def Finds (html : Text) (next : Nat → Option (Option (Text × Nat × Nat))) : Prop :=
  ∀ cursor, ∃ found, next cursor = some found ∧ ∀ tag start contentStart,
    found = some (tag, start, contentStart) → Ascii tag ∧ TagAt html cursor start contentStart

/-- A loop over tags ends: every round takes the cursor behind the tag it found. -/
theorem eachTag_ok {next : Nat → Option (Option (Text × Nat × Nat))}
    {read : Text → Option (Option α)} (hnext : Finds html next)
    (hread : ∀ content, ∃ item, read content = some item) (hpos : 0 < fuel)
    (hfuel : byteLength html < cursor + fuel) (items : List α) :
    ∃ all, eachTag html next read fuel cursor items = some all := by
  induction fuel generalizing cursor items with
  | zero => exact absurd hpos (Nat.lt_irrefl _)
  | succ fuel ih =>
    obtain ⟨found, hfound, hbounds⟩ := hnext cursor
    rw [eachTag, hfound]
    simp only [Option.bind_eq_bind, Option.bind_some]
    cases found with
    | none => exact ⟨items, rfl⟩
    | some at' =>
      obtain ⟨tag, start, contentStart⟩ := at'
      obtain ⟨htag, hstart, hcontent, hboundary⟩ := hbounds tag start contentStart rfl
      have hle := hboundary.le
      have hstop : contentStart ≤ (findCloseTag html tag contentStart).getD (byteLength html) ∧
          Boundary html ((findCloseTag html tag contentStart).getD (byteLength html)) := by
        cases hclose : findCloseTag html tag contentStart with
        | none => exact ⟨hle, Lib.boundary_end html⟩
        | some stop => exact findCloseTag_bounds htag hclose
      obtain ⟨content, hslice, -⟩ := hboundary.slice hstop.2 hstop.1
      obtain ⟨item, hitem⟩ := hread content
      dsimp only
      rw [hslice]
      simp only [Option.bind_some, hitem]
      exact ih (by omega) (by omega) _

theorem openTag_finds {tag : String} (htag : Ascii tag.toList) (html : Text) :
    Finds html (openTag html tag) := by
  intro cursor
  obtain ⟨found, hfound, hbounds⟩ := findOpenTag_ok htag html cursor
  rw [openTag, hfound]
  refine ⟨_, rfl, fun tag' start contentStart h => ?_⟩
  obtain ⟨⟨start', contentStart'⟩, hat, heq⟩ := Option.map_eq_some_iff.mp h
  cases heq
  exact ⟨htag, hbounds _ _ hat⟩

theorem findNextCellOpenTag_finds (html : Text) : Finds html (findNextCellOpenTag html) := by
  intro cursor
  obtain ⟨td, htd, htdBounds⟩ := @openTag_finds "td" (Lib.forall_mem_of_all (by decide)) html cursor
  obtain ⟨th, hth, hthBounds⟩ := @openTag_finds "th" (Lib.forall_mem_of_all (by decide)) html cursor
  rw [findNextCellOpenTag, htd, hth]
  simp only [Option.bind_eq_bind, Option.bind_some]
  cases td with
  | none =>
    cases th with
    | none => exact ⟨none, rfl, fun _ _ _ h => by cases h⟩
    | some th => exact ⟨_, rfl, hthBounds⟩
  | some td =>
    cases th with
    | none => exact ⟨_, rfl, htdBounds⟩
    | some th =>
      dsimp only
      split
      · exact ⟨_, rfl, htdBounds⟩
      · exact ⟨_, rfl, hthBounds⟩

/-! ## Entities and text -/

theorem ok_ite {p : Prop} [Decidable p] {x y : Option α} (hx : p → ∃ a, x = some a)
    (hy : ¬p → ∃ a, y = some a) : ∃ a, (if p then x else y) = some a := by
  split
  · next h => exact hx h
  · next h => exact hy h

theorem decodeHtmlEntity_ok (entity : Text) : ∃ decoded, decodeHtmlEntity entity = some decoded := by
  have hslice : ∀ mark : Text, mark.isPrefixOf entity = true →
      ∃ digits, sliceFrom entity (byteLength mark) = some digits := by
    intro mark hmark
    obtain ⟨digits, rfl⟩ := isPrefixOf_iff_prefix.mp hmark
    exact ⟨digits, Lib.sliceFrom_append mark digits⟩
  have hhex : byteLength "#x".toList = 2 ∧ byteLength "#X".toList = 2 ∧ byteLength "#".toList = 1 :=
    ⟨rfl, rfl, rfl⟩
  iterate 6 refine ok_ite (fun _ => ⟨_, rfl⟩) fun _ => ?_
  refine ok_ite (fun hmark => ?_) fun _ => ok_ite (fun hmark => ?_) fun _ => ⟨_, rfl⟩
  · obtain ⟨digits, hdigits⟩ : ∃ digits, sliceFrom entity 2 = some digits := by
      rcases hmark with hmark | hmark
      · exact hhex.1 ▸ hslice _ hmark
      · exact hhex.2.1 ▸ hslice _ hmark
    rw [hdigits]
    exact ⟨_, rfl⟩
  · obtain ⟨digits, hdigits⟩ := hslice _ hmark
    rw [hhex.2.2] at hdigits
    rw [hdigits]
    exact ⟨_, rfl⟩

/-- An ASCII character that is found: boundaries in front of it and behind it. -/
theorem found_ascii {d : Char} (hd : d.utf8Size = 1) {s rest : Text} {k : Nat}
    (hrest : sliceFrom s i = some rest) (hfind : find (· = d) rest = some k) :
    Boundary s (i + k) ∧ Boundary s (i + k + 1) := by
  obtain ⟨hat, c, hc, hbehind⟩ := Lib.find_boundary hrest hfind
  rw [of_decide_eq_true hc, hd] at hbehind
  exact ⟨hat, hbehind⟩

theorem restFrom_ok {input : Text} (h : Boundary input cursor) (out : Text) :
    ∃ text, restFrom input cursor out = some text := by
  rw [restFrom]
  split
  · obtain ⟨rest, hrest⟩ := h.sliceFrom
    rw [hrest]
    exact ⟨_, rfl⟩
  · exact ⟨out, rfl⟩

theorem decodeFrom_ok {input : Text} (hcursor : Boundary input cursor)
    (hfuel : byteLength input < cursor + fuel) (out : Text) :
    ∃ text, decodeFrom input fuel cursor out = some text := by
  induction fuel generalizing cursor out with
  | zero => exact absurd hcursor.le (by omega)
  | succ fuel ih =>
    obtain ⟨rest, hrest⟩ := hcursor.sliceFrom
    rw [decodeFrom, hrest]
    simp only [Option.bind_eq_bind, Option.bind_some]
    cases hamp : find (· = '&') rest with
    | none => exact restFrom_ok hcursor out
    | some relAmp =>
      obtain ⟨hat, hbehind⟩ := found_ascii (by decide) hrest hamp
      obtain ⟨c, behind, hc, hslice⟩ := Lib.sliceFrom_find hrest hamp
      obtain rfl : c = '&' := of_decide_eq_true hc
      obtain ⟨before, hbefore, -⟩ := hcursor.slice hat (Nat.le_add_right _ _)
      simp only [hbefore, hslice, Option.bind_some]
      cases hsemicolon : find (· = ';') ('&' :: behind) with
      | none => exact restFrom_ok hat _
      | some relSemicolon =>
        obtain ⟨hend, hafter⟩ := found_ascii (by decide) hslice hsemicolon
        have hlater : 1 ≤ relSemicolon := Lib.size_le_of_find rfl hsemicolon
        obtain ⟨entity, hentity, -⟩ := hbehind.slice hend (by omega)
        obtain ⟨decoded, hdecoded⟩ := decodeHtmlEntity_ok entity
        simp only [hentity, hdecoded, Option.bind_some]
        cases decoded with
        | some text => exact ih hafter (by omega) _
        | none => exact ih hbehind (by omega) _

theorem decodeHtmlEntities_ok (input : Text) : ∃ text, decodeHtmlEntities input = some text :=
  decodeFrom_ok (Lib.boundary_zero input) (by omega) []

theorem decodedFrom_ok (h : Boundary html cursor) (out : Text) :
    ∃ text, decodedFrom html cursor out = some text := by
  rw [decodedFrom]
  split
  · obtain ⟨rest, hrest⟩ := h.sliceFrom
    obtain ⟨decoded, hdecoded⟩ := decodeHtmlEntities_ok rest
    rw [hrest]
    simp only [Option.bind_eq_bind, Option.bind_some, hdecoded]
    exact ⟨_, rfl⟩
  · exact ⟨out, rfl⟩

theorem htmlToTextFrom_ok (hcursor : Boundary html cursor)
    (hfuel : byteLength html < cursor + fuel) (out : Text) :
    ∃ text, htmlToTextFrom html fuel cursor out = some text := by
  induction fuel generalizing cursor out with
  | zero => exact absurd hcursor.le (by omega)
  | succ fuel ih =>
    obtain ⟨rest, hrest⟩ := hcursor.sliceFrom
    rw [htmlToTextFrom, hrest]
    simp only [Option.bind_eq_bind, Option.bind_some]
    cases hopen : find (· = '<') rest with
    | none => exact decodedFrom_ok hcursor out
    | some relStart =>
      obtain ⟨hat, hbehind⟩ := found_ascii (by decide) hrest hopen
      obtain ⟨c, behind, hc, hslice⟩ := Lib.sliceFrom_find hrest hopen
      obtain rfl : c = '<' := of_decide_eq_true hc
      obtain ⟨before, hbefore, -⟩ := hcursor.slice hat (Nat.le_add_right _ _)
      obtain ⟨decoded, hdecoded⟩ := decodeHtmlEntities_ok before
      simp only [hbefore, hdecoded, hslice, Option.bind_some]
      cases hclose : find (· = '>') ('<' :: behind) with
      | none => exact decodedFrom_ok hat _
      | some relEnd =>
        obtain ⟨hend, hafter⟩ := found_ascii (by decide) hslice hclose
        have hlater : 1 ≤ relEnd := Lib.size_le_of_find rfl hclose
        obtain ⟨tagBody, htagBody, -⟩ := hbehind.slice hend (by omega)
        simp only [Nat.add_sub_cancel, htagBody]
        exact ih hafter (by omega) _

theorem htmlToText_ok (html : Text) : ∃ text, htmlToText html = some text :=
  htmlToTextFrom_ok (Lib.boundary_zero html) (by omega) []

theorem readCell_ok (content : Text) : ∃ cell, readCell content = some cell := by
  obtain ⟨text, htext⟩ := htmlToText_ok content
  rw [readCell, htext]
  exact ⟨_, rfl⟩

theorem unlessEmpty_ok {read : Text → Option (List α)}
    (h : ∀ content, ∃ items, read content = some items) (content : Text) :
    ∃ item, unlessEmpty read content = some item := by
  obtain ⟨items, hitems⟩ := h content
  rw [unlessEmpty, hitems]
  exact ⟨_, rfl⟩

theorem extractHtmlCells_ok (rowHtml : Text) : ∃ cells, extractHtmlCells rowHtml = some cells :=
  eachTag_ok (findNextCellOpenTag_finds rowHtml) readCell_ok (Nat.succ_pos _) (by omega) []

theorem extractHtmlRows_ok (tableHtml : Text) : ∃ rows, extractHtmlRows tableHtml = some rows :=
  eachTag_ok (openTag_finds (Lib.forall_mem_of_all (by decide)) tableHtml) (unlessEmpty_ok extractHtmlCells_ok)
    (Nat.succ_pos _) (by omega) []

theorem extractHtmlTables_ok (html : Text) : ∃ tables, extractHtmlTables html = some tables :=
  eachTag_ok (openTag_finds (Lib.forall_mem_of_all (by decide)) html) (unlessEmpty_ok extractHtmlRows_ok)
    (Nat.succ_pos _) (by omega) []

theorem consumeRtfControl_length (rest : Text) : (consumeRtfControl rest).1.length ≤ rest.length := by
  cases rest with
  | nil => exact Nat.le_refl _
  | cons next rest =>
    have htail : ∀ (p : Prop) [Decidable p] (s : Text), (if p then s.tail else s).length ≤ s.length := by
      intro p _ s
      split
      · rw [List.length_tail]
        exact Nat.sub_le _ _
      · exact Nat.le_refl _
    rw [consumeRtfControl]
    split
    · exact Nat.le_succ _
    split
    · rw [length_drop, length_cons]
      omega
    · split
      · exact Nat.le_succ _
      · exact (htail _ _).trans ((dropWhile_suffix _).length_le.trans
          ((htail _ _).trans (dropWhile_suffix _).length_le))

theorem rtfToTextFrom_ok {rest : Text} (hfuel : rest.length < fuel) (out : Text) :
    ∃ text, rtfToTextFrom fuel rest out = some text := by
  induction fuel generalizing rest out with
  | zero => exact absurd hfuel (Nat.not_lt_zero _)
  | succ fuel ih =>
    cases rest with
    | nil => exact ⟨out, rfl⟩
    | cons c rest =>
      rw [length_cons] at hfuel
      have hcontrol := consumeRtfControl_length rest
      rw [rtfToTextFrom]
      split
      · exact ih (by omega) _
      · split
        · exact ih (by omega) _
        · exact ih (by omega) _

theorem rtfToText_ok (rtf : Text) : ∃ text, rtfToText rtf = some text :=
  rtfToTextFrom_ok (Nat.lt_succ_self _) []

end Ratatoskr.Import
