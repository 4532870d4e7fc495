import Ratatoskr.Import.Html
import Ratatoskr.Import.Table

/-!
# Import.Paste

A paste into the recipients (`import/src/recipient_parser.rs`): HTML, then RTF, then plain text, the first
that has recipients.

* `pasteWith_follows` : which texts are read as recipient lists does not depend on the names in them.
* `parseRecipientPaste_isSome_iff` : a paste is read exactly when the names in those texts can be.
* `name_inside_character` : two that cannot.
-/

namespace Ratatoskr.Import

open Lib (byteLength Traced Follows)
open Threading (trim)

structure RecipientPastePayload where
  plainText : Option Text := none
  html : Option Text := none
  rtf : Option Text := none

inductive RecipientPasteSourceFormat where
  | html
  | rtf
  | plainText
  | empty

inductive RecipientSkipReason where
  | duplicateEmail

structure SkippedRecipient where
  sourceIndex : Nat
  email : Text
  displayName : Option Text
  reason : RecipientSkipReason

structure RecipientPasteResult where
  recipients : List ParsedRecipient := []
  skipped : List SkippedRecipient := []
  sourceFormat : RecipientPasteSourceFormat := .empty

/-- The loop of `finish_paste_result`, behind the addresses seen. -/
def finishFrom : Nat → List Text → List ParsedRecipient → RecipientPasteResult → RecipientPasteResult
  | _, _, [], result => result
  | sourceIndex, seen, recipient :: recipients, result =>
    if recipient.email ∈ seen then
      finishFrom (sourceIndex + 1) seen recipients
        { result with
          skipped := result.skipped ++
            [⟨sourceIndex, recipient.email, recipient.displayName, .duplicateEmail⟩] }
    else
      finishFrom (sourceIndex + 1) (recipient.email :: seen) recipients
        { result with recipients := result.recipients ++ [recipient] }

def finishPasteResult (recipients : List ParsedRecipient) (sourceFormat : RecipientPasteSourceFormat) :
    RecipientPasteResult :=
  finishFrom 0 [] recipients { sourceFormat }

def nonBlank (text : Option Text) : Option Text := text.filter fun text => trim text ≠ []

structure Reader (m : Type → Type) where
  list : Text → m (List ParsedRecipient)
  tables : Text → m (List Table)
  text : Text → m Text
  rtf : Text → m Text

section

variable {m : Type → Type} [Monad m] (lower : Char → Text) (lowerText : Text → Text) (reader : Reader m)

def recipientsInTables : List Table → m (List ParsedRecipient)
  | [] => pure []
  | table :: tables => do
    let recipients ← recipientsFromTableRows lower lowerText reader.list table
    if recipients.isEmpty then recipientsInTables tables else pure recipients

def parseHtmlRecipients (html : Text) : m (List ParsedRecipient) := do
  let fragment := (extractCfHtmlFragment html).getD html
  let tables ← reader.tables fragment
  let recipients ← recipientsInTables lower lowerText reader tables
  if recipients.isEmpty then do
    let text ← reader.text fragment
    reader.list text
  else pure recipients

def parseRtfRecipients (rtf : Text) : m (List ParsedRecipient) := do
  let text ← reader.rtf rtf
  reader.list text

/-- The recipients of a representation; none where it is missing or blank. -/
def parsePresent (parse : Text → m (List ParsedRecipient)) (representation : Option Text) :
    m (List ParsedRecipient) :=
  match nonBlank representation with
  | none => pure []
  | some text => parse text

def pasteWith (payload : RecipientPastePayload) : m RecipientPasteResult := do
  let fromHtml ← parsePresent (parseHtmlRecipients lower lowerText reader) payload.html
  if fromHtml.isEmpty then do
    let fromRtf ← parsePresent (parseRtfRecipients reader) payload.rtf
    if fromRtf.isEmpty then
      match nonBlank payload.plainText with
      | none => pure {}
      | some text => do
        let recipients ← reader.list text
        pure (finishPasteResult recipients .plainText)
    else pure (finishPasteResult fromRtf .rtf)
  else pure (finishPasteResult fromHtml .html)

end

/-- `none` is a panic, or a loop that does not end. -/
def parseRecipientPaste (lower : Char → Text) (lowerText : Text → Text) (payload : RecipientPastePayload) :
    Option RecipientPasteResult :=
  pasteWith lower lowerText ⟨parseRecipientList lower, extractHtmlTables, htmlToText, rtfToText⟩ payload

def addressesOf (lower : Char → Text) (text : Text) : List ParsedRecipient :=
  (addressed lower (pieces lower text)).map fun piece => ⟨normalizeEmail lower piece.2, none⟩

/-- Reads the addresses alone, and notes each text it reads as a list. -/
def addressReader (lower : Char → Text) : Reader (Traced Text) where
  list text := ⟨addressesOf lower text, [text]⟩
  tables fragment := pure ((extractHtmlTables fragment).getD [])
  text fragment := pure ((htmlToText fragment).getD [])
  rtf text := pure ((rtfToText text).getD [])

/-- The texts of a paste that are read as recipient lists: the cells of its tables that are looked into,
up to the first table with an address, and the text of each representation up to the first with one. -/
def listsOf (lower : Char → Text) (lowerText : Text → Text) (payload : RecipientPastePayload) : List Text :=
  (pasteWith lower lowerText (addressReader lower) payload).asked

/-- Two readers: the first stops exactly at a list that is not ok. -/
structure ReaderFollows (ok : Text → Prop) (reader : Reader Option) (reader' : Reader (Traced Text)) :
    Prop where
  list : ∀ text, Follows ok SameEmails (reader.list text) (reader'.list text)
  tables : ∀ fragment, Follows ok Eq (reader.tables fragment) (reader'.tables fragment)
  text : ∀ fragment, Follows ok Eq (reader.text fragment) (reader'.text fragment)
  rtf : ∀ text, Follows ok Eq (reader.rtf text) (reader'.rtf text)

theorem parseRecipientList_follows (lower : Char → Text) (text : Text) :
    Follows (ListOk lower) SameEmails (parseRecipientList lower text) ⟨addressesOf lower text, [text]⟩ := by
  refine .ask (fun hok => ?_) fun hbad => ?_
  · obtain ⟨recipients, hparse⟩ := Option.isSome_iff_exists.mp ((parseRecipientList_isSome lower text).mpr hok)
    refine ⟨recipients, hparse, ?_⟩
    rw [parseRecipientList_eq] at hparse
    have hemails := Lib.mapM_eq_some_map (g := fun piece => normalizeEmail lower piece.2)
      (k := ParsedRecipient.email) (fun _ _ hr => by
        obtain ⟨_, -, rfl⟩ := Option.map_eq_some_iff.mp hr
        rfl) hparse
    rw [SameEmails, hemails, addressesOf, List.map_map]
    rfl
  · exact Option.not_isSome_iff_eq_none.mp fun hsome => hbad ((parseRecipientList_isSome lower text).mp hsome)

theorem follows_of_ok {α : Type} {ok : Text → Prop} {x : Option α} (h : ∃ a, x = some a) (d : α) :
    Follows ok Eq x (pure (x.getD d)) := by
  obtain ⟨a, rfl⟩ := h
  exact .pure rfl

theorem addressReader_follows (lower : Char → Text) :
    ReaderFollows (ListOk lower) ⟨parseRecipientList lower, extractHtmlTables, htmlToText, rtfToText⟩
      (addressReader lower) where
  list := parseRecipientList_follows lower
  tables fragment := follows_of_ok (extractHtmlTables_ok fragment) []
  text fragment := follows_of_ok (htmlToText_ok fragment) []
  rtf text := follows_of_ok (rtfToText_ok text) []

section

variable {ok : Text → Prop} {reader : Reader Option} {reader' : Reader (Traced Text)}
  (h : ReaderFollows ok reader reader') (lower : Char → Text) (lowerText : Text → Text)

include h

theorem recipientsInTables_follows (tables : List Table) :
    Follows ok SameEmails (recipientsInTables lower lowerText reader tables)
      (recipientsInTables lower lowerText reader' tables) := by
  induction tables with
  | nil => exact .pure rfl
  | cons table tables ih =>
    refine (recipientsFromTableRows_follows h.list lower lowerText table).bind fun recipients hsame => ?_
    rw [hsame.isEmpty]
    split
    · exact ih
    · exact .pure hsame

theorem parseHtmlRecipients_follows (html : Text) :
    Follows ok SameEmails (parseHtmlRecipients lower lowerText reader html)
      (parseHtmlRecipients lower lowerText reader' html) := by
  refine (h.tables _).bind fun tables htables => ?_
  subst htables
  refine (recipientsInTables_follows h lower lowerText _).bind fun recipients hsame => ?_
  rw [hsame.isEmpty]
  split
  · refine (h.text _).bind fun text htext => ?_
    subst htext
    exact h.list _
  · exact .pure hsame

theorem parseRtfRecipients_follows (rtf : Text) :
    Follows ok SameEmails (parseRtfRecipients reader rtf) (parseRtfRecipients reader' rtf) := by
  refine (h.rtf rtf).bind fun text htext => ?_
  subst htext
  exact h.list _

omit h in
theorem parsePresent_follows {parse : Text → Option (List ParsedRecipient)}
    {parse' : Text → Traced Text (List ParsedRecipient)}
    (hparse : ∀ text, Follows ok SameEmails (parse text) (parse' text)) (representation : Option Text) :
    Follows ok SameEmails (parsePresent parse representation) (parsePresent parse' representation) := by
  rw [parsePresent, parsePresent]
  cases nonBlank representation with
  | none => exact .pure rfl
  | some text => exact hparse text

theorem pasteWith_follows (payload : RecipientPastePayload) :
    Follows ok (fun _ _ => True) (pasteWith lower lowerText reader payload)
      (pasteWith lower lowerText reader' payload) := by
  refine (parsePresent_follows (parseHtmlRecipients_follows h lower lowerText) payload.html).bind
    fun fromHtml hhtml => ?_
  rw [hhtml.isEmpty]
  split
  · refine (parsePresent_follows (parseRtfRecipients_follows h) payload.rtf).bind fun fromRtf hrtf => ?_
    rw [hrtf.isEmpty]
    split
    · cases nonBlank payload.plainText with
      | none => exact .pure trivial
      | some text => exact (h.list text).bind fun _ _ => .pure trivial
    · exact .pure trivial
  · exact .pure trivial

end

/-- A paste is read exactly when every name in front of an address can be cut at the header words, in each
of its texts that are read as recipient lists. -/
theorem parseRecipientPaste_isSome_iff (lower : Char → Text) (lowerText : Text → Text)
    (payload : RecipientPastePayload) : (parseRecipientPaste lower lowerText payload).isSome = true ↔
      ∀ text ∈ listsOf lower lowerText payload, ∀ piece ∈ addressed lower (pieces lower text),
        NameOk headers (trimmedName (nameText piece.1)) :=
  (pasteWith_follows (addressReader_follows lower) lower lowerText payload).isSome_iff

/-- The third byte of `Zoë` ends inside the `ë`; the no-break space behind `To` is two bytes. -/
theorem name_inside_character : parseRecipientPaste (fun c => [c.toLower]) (fun text => text.map Char.toLower)
        { plainText := some "Zoë <zoe@x.com>".toList } = none ∧
      parseRecipientPaste (fun c => [c.toLower]) (fun text => text.map Char.toLower)
        { plainText := some "To\u00a0: Ann <ann@x.com>".toList } = none := by
  decide +kernel

end Ratatoskr.Import
