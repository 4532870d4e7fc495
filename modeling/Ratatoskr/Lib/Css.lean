/-!
# Lib.Css

The image references of a CSS text, as a browser reads them: the tokens of the text with comments taken out
and escapes resolved, and the addresses among them, `url(address)` and the strings that are arguments of a
function that takes addresses of images.

* `tokens` : the tokens that matter here.
* `imageRefs` : the addresses.
* `imageRefs_of_no_paren` : there is none without a parenthesis.
-/

namespace Ratatoskr.Lib.Css

open List

inductive Token where
  | function (name : List Char)
  /-- An address without quotes. -/
  | url (address : List Char)
  | string (value : List Char)
  | openParen
  | closeParen

def isBlank (c : Char) : Bool := c = ' ' || c = '\t' || c = '\n' || c = '\r' || c = '\x0c'

def isNewline (c : Char) : Bool := c = '\n' || c = '\r' || c = '\x0c'

def isQuote (c : Char) : Bool := c = '"' || c = '\''

def isNameStart (c : Char) : Bool := c.isAlpha || c = '_' || c = '-' || 128 ≤ c.toNat

def isNameChar (c : Char) : Bool := isNameStart c || c.isDigit

def hexValue (c : Char) : Option Nat :=
  if c.isDigit then some (c.toNat - '0'.toNat)
  else if 'a' ≤ c.toLower && c.toLower ≤ 'f' then some (c.toLower.toNat - 'a'.toNat + 10)
  else none

def isHex (c : Char) : Bool := (hexValue c).isSome

def hexNumber (digits : List Char) : Nat := digits.foldl (fun n c => 16 * n + (hexValue c).getD 0) 0

/-- The character that the text behind a backslash stands for. -/
def escape : List Char → Char × List Char
  | [] => ('\ufffd', [])
  | c :: rest =>
    if isHex c then
      let digits := (rest.takeWhile isHex).take 5
      let after := rest.drop digits.length
      let n := hexNumber (c :: digits)
      (if n = 0 then '\ufffd' else Char.ofNat n,
        match after with
        | b :: more => if isBlank b then more else b :: more
        | [] => [])
    else (c, rest)

/-! ## Tokens

The number is fuel; the length of the text is enough, as every round takes a character. -/

def name : Nat → List Char → List Char × List Char
  | 0, s => ([], s)
  | _, [] => ([], [])
  | n + 1, c :: rest =>
    if c = '\\' && !(rest.head?.any isNewline) then
      let (d, more) := escape rest
      let (read, left) := name n more
      (d :: read, left)
    else if isNameChar c then
      let (read, left) := name n rest
      (c :: read, left)
    else ([], c :: rest)

/-- A string without its first quote; `none` if the line ends in it. -/
def stringBody (quote : Char) : Nat → List Char → Option (List Char) × List Char
  | 0, s => (some [], s)
  | _, [] => (some [], [])
  | n + 1, c :: rest =>
    if c = quote then (some [], rest)
    else if isNewline c then (none, c :: rest)
    else if c = '\\' then
      if rest.head?.any isNewline then stringBody quote n (rest.drop 1)
      else
        let (d, more) := escape rest
        let (value, left) := stringBody quote n more
        (value.map (d :: ·), left)
    else
      let (value, left) := stringBody quote n rest
      (value.map (c :: ·), left)

/-- An address without quotes, from its first character to the parenthesis or the end of the text; `none`
if it has a character that no address has. -/
def urlBody : Nat → List Char → Option (List Char) × List Char
  | 0, s => (some [], s)
  | _, [] => (some [], [])
  | n + 1, c :: rest =>
    if c = ')' then (some [], rest)
    else if isBlank c then
      match rest.dropWhile isBlank with
      | [] => (some [], [])
      | d :: more => if d = ')' then (some [], more) else (none, (more.dropWhile (· ≠ ')')).drop 1)
    else if isQuote c || c = '(' then (none, (rest.dropWhile (· ≠ ')')).drop 1)
    else if c = '\\' then
      if rest.head?.any isNewline then (none, (rest.dropWhile (· ≠ ')')).drop 1)
      else
        let (d, more) := escape rest
        let (value, left) := urlBody n more
        (value.map (d :: ·), left)
    else
      let (value, left) := urlBody n rest
      (value.map (c :: ·), left)

def afterComment : List Char → List Char
  | '*' :: '/' :: rest => rest
  | _ :: rest => afterComment rest
  | [] => []

def lower (s : List Char) : List Char := s.map Char.toLower

def tokens : Nat → List Char → List Token
  | 0, _ => []
  | _, [] => []
  | n + 1, c :: rest =>
    if c = '/' && rest.head? = some '*' then tokens n (afterComment (rest.drop 1))
    else if isQuote c then
      let (value, left) := stringBody c n rest
      (value.map Token.string).toList ++ tokens n left
    else if c = '(' then .openParen :: tokens n rest
    else if c = ')' then .closeParen :: tokens n rest
    -- numbers with a unit, hashes and at-keywords are no names of functions
    else if c.isDigit || c = '#' || c = '@' then tokens n (name n rest).2
    else if isNameStart c || (c = '\\' && !(rest.head?.any isNewline)) then
      let (read, left) := name (n + 1) (c :: rest)
      match left with
      | '(' :: more =>
        if lower read = "url".toList then
          let arg := more.dropWhile isBlank
          if arg.head?.any isQuote then .function read :: tokens n arg
          else
            let (address, left) := urlBody n arg
            (address.map Token.url).toList ++ tokens n left
        else .function read :: tokens n more
      | _ => tokens n left
    else tokens n rest

def imageFunctions : List (List Char) :=
  ["url".toList, "src".toList, "image".toList, "image-set".toList, "-webkit-image-set".toList]

/-- The addresses among the tokens, inside the functions of the list, the innermost first. -/
def refsIn : List (List Char) → List Token → List (List Char)
  | _, [] => []
  | inside, .url address :: rest => address :: refsIn inside rest
  | inside, .function f :: rest => refsIn (lower f :: inside) rest
  | inside, .openParen :: rest => refsIn ([] :: inside) rest
  | inside, .closeParen :: rest => refsIn inside.tail rest
  | inside, .string value :: rest =>
    match inside with
    | f :: _ => if f ∈ imageFunctions then value :: refsIn inside rest else refsIn inside rest
    | [] => refsIn inside rest

def imageRefs (s : List Char) : List (List Char) := refsIn [] (tokens s.length s)

example : imageRefs "background: u\\72l( 'a' ); x: image-set(\"b\" 1x)".toList =
    ["a".toList, "b".toList] := by
  decide

/-! ## Texts without parentheses -/

theorem escape_suffix (s : List Char) : (escape s).2 <:+ s := by
  cases s with
  | nil => exact suffix_refl _
  | cons c rest =>
    rw [escape]
    split
    · have hdrop := drop_suffix ((rest.takeWhile isHex).take 5).length rest
      dsimp only
      split
      · rename_i b more heq
        rw [heq] at hdrop
        split
        · exact ((suffix_cons b more).trans hdrop).trans (suffix_cons c rest)
        · exact hdrop.trans (suffix_cons c rest)
      · exact nil_suffix
    · exact suffix_cons c rest

theorem name_suffix (n : Nat) (s : List Char) : (name n s).2 <:+ s := by
  induction n generalizing s with
  | zero => exact suffix_refl _
  | succ n ih =>
    cases s with
    | nil => exact suffix_refl _
    | cons c rest =>
      unfold name
      split
      · exact ((ih _).trans (escape_suffix rest)).trans (suffix_cons c rest)
      · split
        · exact (ih rest).trans (suffix_cons c rest)
        · exact suffix_refl _

theorem stringBody_suffix (quote : Char) (n : Nat) (s : List Char) : (stringBody quote n s).2 <:+ s := by
  induction n generalizing s with
  | zero => exact suffix_refl _
  | succ n ih =>
    cases s with
    | nil => exact suffix_refl _
    | cons c rest =>
      unfold stringBody
      split
      · exact suffix_cons c rest
      split
      · exact suffix_refl _
      split
      · split
        · exact ((ih _).trans (drop_suffix 1 rest)).trans (suffix_cons c rest)
        · exact ((ih _).trans (escape_suffix rest)).trans (suffix_cons c rest)
      · exact (ih rest).trans (suffix_cons c rest)

theorem afterComment_suffix (s : List Char) : afterComment s <:+ s := by
  fun_induction afterComment s with
  | case1 rest => exact (suffix_cons '/' rest).trans (suffix_cons '*' _)
  | case2 c rest _ ih => exact ih.trans (suffix_cons c rest)
  | case3 => exact suffix_refl _

/-- Strings and closing parentheses are all that a text without an opening one has. -/
theorem tokens_of_no_paren {n : Nat} {s : List Char} (h : '(' ∉ s) :
    ∀ t ∈ tokens n s, t = .closeParen ∨ ∃ value, t = .string value := by
  induction n generalizing s with
  | zero =>
    intro t ht
    cases ht
  | succ n ih =>
    cases s with
    | nil =>
      intro t ht
      cases ht
    | cons c rest =>
      have hsuffix : ∀ {left : List Char}, left <:+ rest → '(' ∉ left :=
        fun hleft hmem => h (mem_cons_of_mem c (hleft.subset hmem))
      have hne : c ≠ '(' := fun heq => h (heq ▸ mem_cons_self ..)
      unfold tokens
      split
      · exact ih (hsuffix ((afterComment_suffix _).trans (drop_suffix 1 rest)))
      split
      · intro t ht
        rw [mem_append] at ht
        rcases ht with ht | ht
        · rw [Option.mem_toList, Option.map_eq_some_iff] at ht
          obtain ⟨value, -, rfl⟩ := ht
          exact .inr ⟨value, rfl⟩
        · exact ih (hsuffix (stringBody_suffix c n rest)) t ht
      · split
        · intro t ht
          rcases mem_cons.mp ht with rfl | ht
          · exact .inl rfl
          · exact ih (hsuffix (suffix_refl _)) t ht
        · split
          · exact ih (hsuffix (name_suffix n rest))
          · split
            · have hname := name_suffix (n + 1) (c :: rest)
              dsimp only
              split
              · rename_i more heq
                rw [heq] at hname
                exact absurd (hname.subset (mem_cons_self ..)) h
              · exact ih fun hmem => h (hname.subset hmem)
            · exact ih (hsuffix (suffix_refl _))

theorem refsIn_of_strings {ts : List Token} (h : ∀ t ∈ ts, t = .closeParen ∨ ∃ value, t = .string value) :
    refsIn [] ts = [] := by
  induction ts with
  | nil => rfl
  | cons t ts ih =>
    have htail := ih fun u hu => h u (mem_cons_of_mem t hu)
    rcases h t (mem_cons_self ..) with rfl | ⟨value, rfl⟩
    · exact htail
    · exact htail

theorem imageRefs_of_no_paren {s : List Char} (h : '(' ∉ s) : imageRefs s = [] :=
  refsIn_of_strings (tokens_of_no_paren h)

end Ratatoskr.Lib.Css
