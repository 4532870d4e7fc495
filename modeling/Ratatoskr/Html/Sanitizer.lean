import Mathlib.Data.List.Nodup
import Ratatoskr.Lib.Markup
import Ratatoskr.Threading.Text

/-!
# Html.Sanitizer

The regular expressions of `common/src/html_sanitizer.rs`, each as a function from the text at a position to
the text behind the match, and the passes. The expressions ignore case, and for that the letters `s` and `k` have
a third form outside ASCII. A document is a tree of elements; the value of an attribute is
its text in the source, with the character references in it, up to the last pass, which decodes it. Names of
elements and attributes are in lower case, as `lol_html` and the parser of the last pass return them.

The libraries are given: what `css-inline` makes of a document, how an HTML parser decodes a value, which
characters are those of a word, and which passes of `lol_html` fail. `ammonia` is modelled as the source
configures it. Log lines are left out.
-/

namespace Ratatoskr.Html

open List
open Lib (Markup Verdict)
open Rte (isWhitespace)
open Threading (trim)

abbrev Text := List Char

/-- A letter of a pattern, in lower case, matches in any case. -/
def sameLetter (p c : Char) : Bool := c.toLower = p || (p = 's' && c = 'ſ') || (p = 'k' && c = '\u212a')

def literal : Text → Text → Option Text
  | [], s => some s
  | p :: ps, c :: s => if sameLetter p c then literal ps s else none
  | _ :: _, [] => none

/-- `is_match` of a pattern without anchor. -/
def isMatch (pattern : Text → Option Text) : Text → Bool
  | [] => (pattern []).isSome
  | c :: s => (pattern (c :: s)).isSome || isMatch pattern s

/-- `replace_all`. No pattern here matches the empty text, so the length of the text is fuel enough. -/
def replaceAll (pattern : Text → Option Text) (replacement : Text) : Nat → Text → Text
  | 0, s => s
  | _, [] => []
  | n + 1, c :: s =>
    match pattern (c :: s) with
    | some rest => replacement ++ replaceAll pattern replacement n rest
    | none => c :: replaceAll pattern replacement n s

def toAsciiLowercase (s : Text) : Text := s.map Char.toLower

def contains (part : Text) (s : Text) : Bool :=
  isMatch (fun t => if part.isPrefixOf t then some t else none) s

/-- `@import\s+[^;]+;?` -/
def importRe (s : Text) : Option Text :=
  match literal "@import".toList s with
  | none => none
  | some s =>
    let run := s.takeWhile (· ≠ ';')
    if run.head?.any isWhitespace && 2 ≤ run.length then some ((s.drop run.length).drop 1) else none

/-- `^\s*javascript\s*:` -/
def jsUrlRe (s : Text) : Bool :=
  (literal "javascript".toList (s.dropWhile isWhitespace)).any fun rest =>
    (rest.dropWhile isWhitespace).head? = some ':'

/-- `^on[a-z]` -/
def eventHandlerRe (name : Text) : Bool :=
  (literal "on".toList name).any fun rest =>
    rest.head?.any fun c => c.isAlpha || sameLetter 's' c || sameLetter 'k' c

/-- `^\s*data:image/(png|jpeg|gif|webp)\b`; which characters are those of a word is given. -/
def dataImageRe (wordChar : Char → Bool) (s : Text) : Bool :=
  (literal "data:image/".toList (s.dropWhile isWhitespace)).any fun rest =>
    ["png", "jpeg", "gif", "webp"].any fun type =>
      (literal type.toList rest).any fun rest => !(rest.head?.any wordChar)

/-- `url\(\s*['"]?https?://` -/
def cssUrlHttpRe (s : Text) : Option Text := do
  let s ← literal "url(".toList s
  let s := s.dropWhile isWhitespace
  let s := if s.head?.any fun c => c = '\'' || c = '"' then s.drop 1 else s
  let s ← literal "http".toList s
  literal "://".toList (if s.head?.any (sameLetter 's') then s.drop 1 else s)

/-- `url\(\s*['"]?https?://[^)]*\)` -/
def cssUrlHttpReplaceRe (s : Text) : Option Text := do
  let s ← cssUrlHttpRe s
  match s.dropWhile (· ≠ ')') with
  | _ :: rest => some rest
  | [] => none

example : replaceAll cssUrlHttpReplaceRe "none".toList 40 "a: URL( 'HTTPS://h/p') b; c: url(//h)".toList =
    "a: none b; c: url(//h)".toList := by
  decide

/-- The attributes of an element, of which no two have one name. -/
structure Attributes where
  entries : List (String × Text)
  distinct : (entries.map Prod.fst).Nodup

structure Element where
  tagName : String
  attributes : Attributes

abbrev Document := Markup Element

namespace Attributes

def get (a : Attributes) (name : String) : Option Text := a.entries.lookup name

def names (a : Attributes) : List String := a.entries.map Prod.fst

def filterMap (f : String → Text → Option Text) (a : Attributes) : Attributes where
  entries := a.entries.filterMap fun e => (f e.1 e.2).map (e.1, ·)
  distinct := by
    refine List.Nodup.sublist ?_ a.distinct
    induction a.entries with
    | nil => exact List.Sublist.refl _
    | cons e entries ih =>
      cases h : f e.1 e.2 with
      | none =>
        simp only [filterMap_cons, h, Option.map_none, map_cons]
        exact ih.cons e.1
      | some value =>
        simp only [filterMap_cons, h, Option.map_some, map_cons]
        exact ih.cons_cons e.1

def remove (a : Attributes) (name : String) : Attributes :=
  a.filterMap fun n value => if n = name then none else some value

def set (a : Attributes) (name : String) (value : Text) : Attributes :=
  if h : name ∈ a.names then a.filterMap fun n old => some (if n = name then value else old)
  else
    ⟨a.entries ++ [(name, value)], by
      rw [map_append, nodup_append]
      refine ⟨a.distinct, nodup_singleton _, ?_⟩
      intro x hx y hy heq
      rw [map_singleton, mem_singleton] at hy
      rw [heq, hy] at hx
      exact h hx⟩

end Attributes

/-- The three passes of `lol_html`. -/
inductive Pass where
  | dangerous | amp | images

structure Libraries where
  /-- `css-inline`; `none` for an error. -/
  inline : Document → Option Document
  /-- The value that an HTML parser reads in the text of an attribute. -/
  decode : Text → Text
  /-- Character references start with an ampersand, and in printable ASCII there is nothing else to read. -/
  decode_plain : ∀ s : Text, (∀ c ∈ s, ' ' ≤ c ∧ c ≤ '~' ∧ c ≠ '&') → decode s = s
  /-- `\w` -/
  wordChar : Char → Bool
  /-- `rewrite_str` returns an error. -/
  fails : Pass → Bool

variable (lib : Libraries)

def Libraries.rewriteStr (pass : Pass) (handler : Element → Verdict Element) (html : Document) : Document :=
  if lib.fails pass then html else html.rewrite handler

def Libraries.inlineCss (html : Document) : Document := (lib.inline html).getD html

/-- A style in which something is found is set to the text without it. -/
def rewriteStyle (found : Text → Bool) (without : Text → Text) (attributes : Attributes) : Attributes :=
  match attributes.get "style" with
  | some style => if found style then attributes.set "style" (without style) else attributes
  | none => attributes

def removeTagsWithContent : List String := ["script", "style", "iframe", "object", "embed", "applet", "form"]

def removeTagsKeepContent : List String := ["link", "input", "button", "select", "textarea", "meta"]

def isUrlName (name : String) : Bool := name = "href" || name = "src"

/-- A `data:` URL that is not an image of an allowed type, in the `src` of an `img`. -/
def Libraries.isForbiddenData (tagName name : String) (value : Text) : Bool :=
  "data:".toList.isPrefixOf (toAsciiLowercase (trim value)) &&
    !(tagName = "img" && name = "src" && dataImageRe lib.wordChar (trim value))

def checkUrl (unwanted : Text → Bool) (name : String) (attributes : Attributes) : Attributes :=
  if isUrlName name && (attributes.get name).any unwanted then attributes.remove name else attributes

/-- `@import` rules in a style. -/
def cleanStyle : Attributes → Attributes :=
  rewriteStyle (fun style => contains "@import".toList (toAsciiLowercase style)) fun style =>
    replaceAll importRe [] style.length style

def Libraries.cleanAttribute (tagName : String) (attributes : Attributes) (name : String) : Attributes :=
  if eventHandlerRe name.toList then attributes.remove name
  else
    let attributes := checkUrl jsUrlRe name attributes
    let attributes := checkUrl (lib.isForbiddenData tagName name) name attributes
    if name = "style" then cleanStyle attributes else attributes

def Libraries.dangerousElement (e : Element) : Verdict Element :=
  if e.tagName ∈ removeTagsWithContent then .remove
  else if e.tagName ∈ removeTagsKeepContent then .unwrap
  else .keep ⟨e.tagName, e.attributes.names.foldl (lib.cleanAttribute e.tagName) e.attributes⟩

def Libraries.stripDangerousElements (html : Document) : Document :=
  lib.rewriteStr .dangerous lib.dangerousElement html

def ampRemoveTags : List String :=
  ["amp-img", "amp-anim", "amp-carousel", "amp-accordion", "amp-sidebar", "amp-image-lightbox",
    "amp-fit-text", "amp-layout", "amp-selector", "amp-bind-macro", "amp-list", "amp-form", "amp-mustache",
    "amp-timeago"]

def ampElement (e : Element) : Verdict Element :=
  if e.tagName ∈ ampRemoveTags then .remove
  else if e.tagName = "html" then
    .keep ⟨e.tagName, (e.attributes.remove "amp4email").remove "⚡4email"⟩
  else .keep e

def Libraries.stripAmpElements (html : Document) : Document := lib.rewriteStr .amp ampElement html

def isRemoteSrc (src : Text) : Bool :=
  let lower := toAsciiLowercase (trim src)
  "http://".toList.isPrefixOf lower || "https://".toList.isPrefixOf lower

def blockedStyle : Text :=
  "display:inline-block;width:20px;height:20px;background:#ddd;border:1px solid #ccc;".toList

/-- The handler of `img[src]`. -/
def blockSrc (attributes : Attributes) : Attributes :=
  match attributes.get "src" with
  | some src =>
    if isRemoteSrc src then
      (((attributes.remove "src").set "data-blocked-src" src).set "alt" "[Remote image blocked]".toList).set
        "style" blockedStyle
    else attributes
  | none => attributes

/-- The handler of `*[style]`: `none` for every `url()` that is matched whole. -/
def blockStyle : Attributes → Attributes :=
  rewriteStyle (isMatch cssUrlHttpRe) fun style =>
    replaceAll cssUrlHttpReplaceRe "none".toList style.length style

/-- Both handlers, chosen by the attributes that the element comes with. -/
def imagesElement (e : Element) : Verdict Element :=
  let attributes := if e.tagName = "img" then blockSrc e.attributes else e.attributes
  .keep ⟨e.tagName, if (e.attributes.get "style").isSome then blockStyle attributes else attributes⟩

def Libraries.stripRemoteImages (html : Document) : Document := lib.rewriteStr .images imagesElement html

/-! ## Whitelist -/

def tags : List String :=
  ["div", "span", "p", "br", "hr", "h1", "h2", "h3", "h4", "h5", "h6", "a", "img", "table", "thead", "tbody",
    "tfoot", "tr", "td", "th", "caption", "colgroup", "col", "ul", "ol", "li", "dl", "dt", "dd", "blockquote",
    "pre", "code", "em", "strong", "b", "i", "u", "s", "sub", "sup", "font", "center", "big", "small", "abbr",
    "cite", "q", "mark", "wbr"]

def genericAttributes : List String := ["style", "class", "id", "dir", "lang", "title"]

def tagAttributes (tagName : String) : List String :=
  if tagName = "a" then ["href"]
  else if tagName = "img" then ["src", "alt", "width", "height"]
  else if tagName = "td" ∨ tagName = "th" then
    ["colspan", "rowspan", "width", "height", "align", "valign", "bgcolor"]
  else if tagName = "table" then
    ["width", "height", "align", "bgcolor", "border", "cellpadding", "cellspacing"]
  else if tagName = "tr" then ["align", "valign", "bgcolor"]
  else if tagName = "font" then ["color", "face", "size"]
  else if tagName = "col" ∨ tagName = "colgroup" then ["width", "span"]
  else []

def urlSchemes : List Text := ["http".toList, "https".toList, "mailto".toList, "cid".toList]

/-- A URL without the control characters and spaces before it. -/
def trimUrl (url : Text) : Text := url.dropWhile fun c => c.toNat ≤ 0x20

def scheme (url : Text) : Option Text :=
  let run := (trimUrl url).takeWhile fun c => c.isAlphanum || c = '+' || c = '-' || c = '.'
  if run.head?.any Char.isAlpha && ((trimUrl url).drop run.length).head? = some ':' then
    some (toAsciiLowercase run)
  else none

local instance : LawfulBEq Text := inferInstance

def keepsUrl (url : Text) : Bool :=
  match scheme url with
  | some s => s ∈ urlSchemes
  | none => true

def Libraries.whitelistAttribute (tagName name : String) (raw : Text) : Option Text :=
  let value := lib.decode raw
  if name ∈ genericAttributes ∨ name ∈ tagAttributes tagName then
    if isUrlName name && !keepsUrl value then none else some value
  else none

/-- The content of scripts and styles goes with them; every link gets the `rel`. -/
def Libraries.whitelistElement (e : Element) : Verdict Element :=
  if e.tagName = "script" ∨ e.tagName = "style" then .remove
  else if e.tagName ∈ tags then
    let attributes := e.attributes.filterMap (lib.whitelistAttribute e.tagName)
    .keep ⟨e.tagName,
      if e.tagName = "a" then attributes.set "rel" "noopener noreferrer".toList else attributes⟩
  else .unwrap

def Libraries.whitelistSanitize (html : Document) : Document := html.rewrite lib.whitelistElement

inductive RemoteImagePolicy where
  | allowRemote | stripRemote
  deriving DecidableEq

def RemoteImagePolicy.fromSettings (blockRemoteImages senderIsAllowlisted : Bool) : RemoteImagePolicy :=
  if blockRemoteImages && !senderIsAllowlisted then .stripRemote else .allowRemote

def RemoteImagePolicy.stripsRemote (policy : RemoteImagePolicy) : Bool := policy = .stripRemote

def sanitizeHtmlBodyWithImagePolicy (lib : Libraries) (html : Document) (policy : RemoteImagePolicy) :
    Document :=
  match html with
  | .nil => .nil
  | html =>
    let stage1 := lib.inlineCss html
    let stage2 := lib.stripDangerousElements stage1
    let stage2b := lib.stripAmpElements stage2
    let stage2c := if policy.stripsRemote then lib.stripRemoteImages stage2b else stage2b
    lib.whitelistSanitize stage2c

def sanitizeHtmlBody (lib : Libraries) (html : Document) : Document :=
  sanitizeHtmlBodyWithImagePolicy lib html .allowRemote

end Ratatoskr.Html
