import Ratatoskr.Actions.Rows

/-!
# Consumer.ScopeKeys

The keys of the checkpoint store (`service/src/bifrost/checkpoint_store.rs`), as lists of characters. A text in
a key stands behind its byte length, as the folder in an object id does. The texts of the errors are left out.
-/

namespace Ratatoskr.ScopeKeys

open Actions (DecodedImapObjectId decodeImapObjectId)

inductive ObjectType where
  | email | mailbox | thread | event | contact | emailSubmission | calendarEvent | contactGroup
  | unknown (name : String)
  deriving DecidableEq

inductive CursorScope where
  | account
  | type (ty : ObjectType)
  | query (query : String)
  | folder (folder : String)
  | folderType (folder : String) (ty : ObjectType)
  | unknown (name : String)

def objectTypeToKey : ObjectType → Option String
  | .email => some "email"
  | .mailbox => some "mailbox"
  | .thread => some "thread"
  | .event => some "event"
  | .contact => some "contact"
  | .emailSubmission => some "email-submission"
  | .calendarEvent => some "calendar-event"
  | .contactGroup => some "contact-group"
  | .unknown _ => none

def objectTypeFromKey (key : List Char) : Option ObjectType :=
  [.email, .mailbox, .thread, .event, .contact, .emailSubmission, .calendarEvent, .contactGroup].find? fun ty =>
    (objectTypeToKey ty).map String.toList = some key

def encodeKeyString (value : String) : List Char := value.utf8ByteSize.repr.toList ++ ':' :: value.toList

def decodeKeyStringWithRest (value : List Char) : Option (String × List Char) := do
  let (len, tail) ← Lib.splitFirst ':' value
  let len ← Lib.parseDecimal (2 ^ 64) len
  let (decoded, rest) ← Lib.splitBytes len tail
  some (String.ofList decoded, rest)

def decodeKeyString (value : List Char) : Option String := do
  let (decoded, rest) ← decodeKeyStringWithRest value
  if rest = [] then some decoded else none

def scopeToKey : CursorScope → Option (List Char)
  | .account => some "account".toList
  | .type ty => (objectTypeToKey ty).map fun ty => "type:".toList ++ ty.toList
  | .query query => some ("query:".toList ++ encodeKeyString query)
  | .folder folder => some ("folder:".toList ++ encodeKeyString folder)
  | .folderType folder ty => (objectTypeToKey ty).map fun ty =>
      "foldertype:".toList ++ (encodeKeyString folder ++ ([':'] ++ ty.toList))
  | .unknown _ => none

def scopeFromKey (key : List Char) : Option CursorScope :=
  if key = "account".toList then some .account
  else if let some value := Lib.after "type:".toList key then (objectTypeFromKey value).map .type
  else if let some value := Lib.after "query:".toList key then (decodeKeyString value).map .query
  else if let some value := Lib.after "folder:".toList key then (decodeKeyString value).map .folder
  else if let some value := Lib.after "foldertype:".toList key then do
    let (folder, rest) ← decodeKeyStringWithRest value
    let ty ← Lib.after [':'] rest
    (objectTypeFromKey ty).map (.folderType folder)
  else none

def CursorScope.texts : CursorScope → List String
  | .query text | .folder text | .folderType text _ => [text]
  | _ => []

/-- A string of the program: a `usize` counts its bytes. -/
abbrev SizedString := { text : String // text.utf8ByteSize < 2 ^ 64 }

structure Scope where
  scope : CursorScope
  sized : ∀ text ∈ scope.texts, text.utf8ByteSize < 2 ^ 64

theorem objectTypeFromKey_toKey {ty : ObjectType} {key : String} (h : objectTypeToKey ty = some key) :
    objectTypeFromKey key.toList = some ty := by
  cases ty <;> cases h <;> decide

theorem decode_encodeKeyString {text : String} (h : text.utf8ByteSize < 2 ^ 64) (rest : List Char) :
    decodeKeyStringWithRest (encodeKeyString text ++ rest) = some (text, rest) := by
  have hcolon : ∀ c ∈ text.utf8ByteSize.repr.toList, c ≠ ':' := Lib.repr_ne_of_not_isDigit rfl
  have hencode : encodeKeyString text ++ rest =
      text.utf8ByteSize.repr.toList ++ ':' :: (text.toList ++ rest) := by
    rw [encodeKeyString, List.append_assoc, List.cons_append]
  rw [decodeKeyStringWithRest, hencode]
  simp only [Option.bind_eq_bind, Option.bind_some, Lib.splitFirst_append hcolon, Lib.parseDecimal_repr h,
    Lib.splitBytes_toList, String.ofList_toList]

theorem decodeKeyString_encode {text : String} (h : text.utf8ByteSize < 2 ^ 64) :
    decodeKeyString (encodeKeyString text) = some text := by
  have hrest := decode_encodeKeyString h []
  rw [List.append_nil] at hrest
  simp [decodeKeyString, hrest]

/-- Keys that start with different tags are told apart. -/
theorem after_ne {tag tag' rest : List Char} (h : tag.isPrefixOf (tag' ++ rest) = false) :
    Lib.after tag (tag' ++ rest) = none := by
  rw [Lib.after, h, if_neg Bool.false_ne_true]

theorem scopeFromKey_toKey (s : Scope) {key : List Char} (hkey : scopeToKey s.scope = some key) :
    scopeFromKey key = some s.scope := by
  obtain ⟨scope, hsized⟩ := s
  cases scope with
  | account =>
    cases hkey
    rw [scopeFromKey, if_pos rfl]
  | unknown name => cases hkey
  | type ty =>
    obtain ⟨name, hname, rfl⟩ := Option.map_eq_some_iff.mp hkey
    rw [scopeFromKey, Lib.after_append]
    simp [objectTypeFromKey_toKey hname]
  | query query =>
    cases hkey
    rw [scopeFromKey, after_ne rfl, Lib.after_append]
    simp [decodeKeyString_encode (hsized query (List.mem_singleton_self _))]
  | folder folder =>
    cases hkey
    rw [scopeFromKey, after_ne rfl, after_ne rfl, Lib.after_append]
    simp [decodeKeyString_encode (hsized folder (List.mem_singleton_self _))]
  | folderType folder ty =>
    obtain ⟨name, hname, rfl⟩ := Option.map_eq_some_iff.mp hkey
    rw [scopeFromKey, if_neg (by simp), after_ne rfl, after_ne rfl, after_ne rfl]
    simp only [decode_encodeKeyString (hsized folder (List.mem_singleton_self _)), Option.bind_eq_bind,
      Option.bind_some, Lib.after_append, objectTypeFromKey_toKey hname, Option.map_some]

end Ratatoskr.ScopeKeys
