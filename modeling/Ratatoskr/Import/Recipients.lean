import Ratatoskr.Lib.Slices
import Ratatoskr.Threading.Subject

/-!
# Import.Recipients

Pasted To/Cc/Bcc text (`import/src/recipient_parser.rs`). Texts are lists of characters, the offsets are
the source's, in bytes; `none` is the panic of a slice whose end is inside a character, or a loop out of
fuel. `char::to_lowercase` is a parameter.
-/

namespace Ratatoskr.Import

open Lib (byteLength byteLength_cons byteIs scanBack scanOn slice sliceFrom sliceTo rfind indicesOf)
open Rte (isWhitespace)
open Threading (trim trimStart splitWords)

abbrev Text := List Char

structure ParsedRecipient where
  email : Text
  displayName : Option Text
  deriving DecidableEq

structure Span where
  start : Nat
  stop : Nat

def normalizeEmail (lower : Char → Text) (value : Text) : Text :=
  (value.filter fun c => !isWhitespace c).flatMap lower

def isValidEmail (lower : Char → Text) (value : Text) : Bool :=
  match Lib.splitFirst '@' (normalizeEmail lower value) with
  | some (localPart, domain) => !localPart.isEmpty && !domain.isEmpty && !domain.contains '@'
  | none => false

def cleanText (value : Text) : Option Text :=
  let trimmed := trim value
  if trimmed = [] then none else some trimmed

def eqIgnoreAsciiCase (a b : Text) : Bool := a.map Char.toLower = b.map Char.toLower

def isLocal (c : Char) : Bool :=
  c.isAlphanum || c = '.' || c = '_' || c = '%' || c = '+' || c = '-' || c = '\''

def isDomain (c : Char) : Bool := c.isAlphanum || c = '.' || c = '-'

def commonTlds : List Text :=
  ["com", "org", "net", "edu", "gov", "mil", "int", "io", "ai", "co", "uk", "us", "no", "se",
    "dk", "de", "fr", "nl", "es", "it", "pl", "ca", "au", "jp", "cn", "in", "br", "mx"].map String.toList

def scanLocalStart (input : Text) (atIndex : Nat) : Option Nat :=
  if atIndex = 0 then none
  else
    let start := scanBack isLocal input atIndex
    if start < atIndex then some start else none

/-- The loop of `trim_glued_name_suffix` over the top-level domains. -/
def gluedEnd (suffix : Text) (suffixStart domainEnd : Nat) : List Text → Option Nat
  | [] => some domainEnd
  | tld :: tlds =>
    if byteLength tld < byteLength suffix then do
      let front ← sliceTo suffix (byteLength tld)
      if eqIgnoreAsciiCase front tld && byteIs Char.isUpper suffix (byteLength tld) then
        some (suffixStart + byteLength tld)
      else gluedEnd suffix suffixStart domainEnd tlds
    else gluedEnd suffix suffixStart domainEnd tlds

def trimGluedNameSuffix (input : Text) (domainStart domainEnd : Nat) : Option Nat := do
  let domain ← slice input domainStart domainEnd
  match rfind (· = '.') domain with
  | none => some domainEnd
  | some lastDot =>
    let suffixStart := domainStart + lastDot + 1
    let suffix ← slice input suffixStart domainEnd
    if commonTlds.any fun tld => eqIgnoreAsciiCase suffix tld then some domainEnd
    else gluedEnd suffix suffixStart domainEnd commonTlds

def scanDomainEnd (input : Text) (start : Nat) : Option (Option Nat) :=
  let stop := scanOn isDomain input (byteLength input) start
  if stop = start then some none else (trimGluedNameSuffix input start stop).map some

def isTrailing (c : Char) : Bool :=
  c = '.' || c = ',' || c = ';' || c = ':' || c = ')' || c = ']' || c = '\x7d' || c = '>' || c = '"' ||
    c = '\''

/-- The loop of `trim_email_span`. -/
def trimEmailEnd (input : Text) (start : Nat) : Nat → Nat → Option Nat
  | 0, _ => none
  | fuel + 1, stop =>
    if start < stop then do
      let front ← sliceTo input stop
      match front.getLast? with
      | none => some stop
      | some c =>
        if isTrailing c then trimEmailEnd input start fuel (stop - c.utf8Size) else some stop
    else some stop

def trimEmailSpan (input : Text) (start stop : Nat) : Option Span :=
  (trimEmailEnd input start (stop + 1) stop).map (Span.mk start)

/-- One round of `find_email_spans`. -/
def candidateAt (lower : Char → Text) (input : Text) (atIndex : Nat) : Option (Option Span) :=
  match scanLocalStart input atIndex with
  | none => some none
  | some start => do
    match ← scanDomainEnd input (atIndex + 1) with
    | none => some none
    | some stop =>
      if atIndex ≤ start ∨ stop ≤ atIndex + 1 then some none
      else do
        let candidate ← trimEmailSpan input start stop
        if candidate.start < candidate.stop then do
          let email ← slice input candidate.start candidate.stop
          some (if isValidEmail lower email then some candidate else none)
        else some none

def findSpans (lower : Char → Text) (input : Text) : List Nat → List Span → Option (List Span)
  | [], spans => some spans
  | i :: rest, spans => do
    match ← candidateAt lower input i with
    | none => findSpans lower input rest spans | some candidate =>
      if spans.getLast?.any fun last => candidate.start < last.stop then
        findSpans lower input rest spans
      else findSpans lower input rest (spans ++ [candidate])

def findEmailSpans (lower : Char → Text) (input : Text) : Option (List Span) :=
  findSpans lower input (indicesOf (· = '@') 0 input) []

def isNameEdge (c : Char) : Bool :=
  isWhitespace c || c = '"' || c = '\'' || c = '<' || c = '>' || c = ',' || c = ';' || c = ':' ||
    c = '(' || c = ')' || c = '[' || c = ']' || c = '\x7b' || c = '\x7d'

def headers : List Text := ["To", "Cc", "Bcc"].map String.toList

def stripHeader (trimmed header : Text) : Option Text :=
  if byteLength header < byteLength trimmed then do
    let front ← sliceTo trimmed (byteLength header)
    if eqIgnoreAsciiCase front header then do
      let rest ← sliceFrom trimmed (byteLength header)
      if (trimStart rest).head? = some ':' then do
        let behind ← sliceFrom trimmed (byteLength header + 1)
        some (trim behind)
      else some trimmed
    else some trimmed
  else some trimmed

def isQuote (c : Char) : Bool := c = '"' || c = '\''

def withoutOpeningQuote (s : Text) : Option Text := if s.head?.any isQuote then sliceFrom s 1 else some s

def withoutClosingQuote (s : Text) : Option Text :=
  if s.getLast?.any isQuote then sliceTo s (byteLength s - 1) else some s

/-- `split_whitespace().collect().join(" ")`. -/
def squash (s : Text) : Text := List.intercalate [' '] (splitWords [] s)

def cleanDisplayName (name : Text) : Option (Option Text) := do
  let trimmed ← headers.foldlM stripHeader (trim ((name.dropWhile isNameEdge).rdropWhile isNameEdge))
  let unquoted ← withoutOpeningQuote trimmed
  let unquoted ← withoutClosingQuote unquoted
  some (cleanText (squash unquoted))

def isLineBreak (c : Char) : Bool := c = '\n' || c = '\r'

/-- What is behind the last character with `p`, if there is one. -/
def afterLast (p : Char → Bool) (name : Text) : Option Text :=
  match rfind p name with
  | some i => sliceFrom name (i + 1)
  | none => some name

def beforeLast (p : Char → Bool) (name : Text) : Option Text :=
  match rfind p name with
  | some i => sliceTo name i
  | none => some name

def extractDisplayName (lower : Char → Text) (input : Text) (previousEnd emailStart : Nat) :
    Option (Option Text) :=
  if emailStart ≤ previousEnd then some none
  else do
    let name ← slice input previousEnd emailStart
    let name ← afterLast isLineBreak name
    let name ← beforeLast (· = '<') name
    let name ← afterLast (· = '>') name
    let cleaned ← cleanDisplayName name
    some (cleaned.filter fun name => !isValidEmail lower name)

/-! ## Lists -/

/-- The loop of `parse_recipient_list`. -/
def recipientsOf (lower : Char → Text) (input : Text) :
    List Span → Nat → List ParsedRecipient → Option (List ParsedRecipient)
  | [], _, recipients => some recipients
  | span :: spans, previousEnd, recipients => do
    let rawEmail ← slice input span.start span.stop
    let email := normalizeEmail lower rawEmail
    if isValidEmail lower email then do
      let displayName ← extractDisplayName lower input previousEnd span.start
      recipientsOf lower input spans span.stop (recipients ++ [⟨email, displayName⟩])
    else recipientsOf lower input spans span.stop recipients

def parseRecipientList (lower : Char → Text) (input : Text) : Option (List ParsedRecipient) := do
  let spans ← findEmailSpans lower input
  recipientsOf lower input spans 0 []

end Ratatoskr.Import
