import Ratatoskr.Rte.Document

/-!
# Threading.Text

The header texts of `sync/src/threading.rs`: subjects without their reply and list prefixes, the
Message-IDs of a References header, and the thread id of a root Message-ID.

Texts are handled as lists of characters. The one byte slice of the source, `s[prefix.len()..]`, cuts
after an ASCII prefix, where bytes and characters agree: no character outside ASCII lowercases to
`r`, `e`, `f`, `w`, `d` or `:`.
-/

namespace Ratatoskr.Threading

open Rte (isWhitespace)

def trimStart (s : List Char) : List Char := s.dropWhile isWhitespace

def trimEnd (s : List Char) : List Char := (s.reverse.dropWhile isWhitespace).reverse

def trim (s : List Char) : List Char := trimEnd (trimStart s)

/-- Strip a leading `[list-prefix]` tag and the blanks after it. -/
def stripTag : List Char → Option (List Char)
  | '[' :: s => if ']' ∈ s then some (trimStart ((s.dropWhile (· ≠ ']')).drop 1)) else none
  | _ => none

/-- Strip `lead` in either case and the blanks after it. -/
def stripLead (lead s : List Char) : Option (List Char) :=
  if (s.take lead.length).map Char.toLower = lead then some (trimStart (s.drop lead.length)) else none

/-- The first of the reply and forward marks that `s` starts with, taken off. -/
def stripReply (s : List Char) : Option (List Char) :=
  (stripLead ['r', 'e', ':'] s).or
    ((stripLead ['f', 'w', 'd', ':'] s).or (stripLead ['f', 'w', ':'] s))

/-- The loop of `normalize_subject`. Every round that changes `s` takes a character off, so its length
is fuel enough. -/
def normalizeLoop : Nat → List Char → List Char
  | 0, s => s
  | n + 1, s =>
    let tagged := stripTag s
    let s' := tagged.getD s
    match stripReply s' with
    | some rest => normalizeLoop n rest
    | none => if tagged.isSome then normalizeLoop n s' else s

def normalizeSubject (subject : Option String) : String :=
  match subject with
  | none => ""
  | some subject =>
    let s := trim subject.toList
    String.ofList (trim (normalizeLoop s.length s))

/-- The scan for `<...>`. `current` is the text since the last `<`, if one is open. -/
def scanBrackets : Option (List Char) → List Char → List (List Char)
  | _, [] => []
  | _, '<' :: s => scanBrackets (some []) s
  | some current, '>' :: s =>
    let trimmed := trim current
    if trimmed = [] then scanBrackets none s else trimmed :: scanBrackets none s
  | some current, c :: s => scanBrackets (some (current ++ [c])) s
  | none, _ :: s => scanBrackets none s

/-- `split_whitespace`, with the word read so far. -/
def splitWords : List Char → List Char → List (List Char)
  | word, [] => if word = [] then [] else [word]
  | word, c :: s =>
    if isWhitespace c then
      if word = [] then splitWords [] s else word :: splitWords [] s
    else splitWords (word ++ [c]) s

/-- A bare token without the `<` before and the `>` after it. -/
def cleanToken (token : List Char) : List Char :=
  trim ((token.dropWhile (· = '<')).reverse.dropWhile (· = '>')).reverse

def parseReferences (references : Option String) : List String :=
  match references with
  | none => []
  | some references =>
    let refs := trim references.toList
    let ids := scanBrackets none refs
    if ids ≠ [] then ids.map String.ofList
    else (((splitWords [] refs).map cleanToken).filter (· ≠ [])).map String.ofList

/-- `djb2` on the UTF-8 bytes, with 32-bit wrap-around. -/
def djb2 (s : String) : UInt32 :=
  s.toUTF8.data.toList.foldl (fun hash byte => hash * 33 + byte.toUInt32) 5381

/-- `format!("{hash:x}")`. -/
def djb2Hash (s : String) : String := String.ofList (Nat.toDigits 16 (djb2 s).toNat)

def generateThreadId (rootMessageId : String) : String := "imap-thread-" ++ djb2Hash rootMessageId

example : generateThreadId "ab" = generateThreadId "bA" := by decide

end Ratatoskr.Threading
