import Ratatoskr.Import.Pieces

/-!
# Import.Table

Contacts from the rows of a table (`import/src/table.rs`, `mapping.rs`, `detect.rs`). Email cells, and
the cells of columns whose header says nothing, are read as recipient lists. How a list is read is a
parameter, in any monad: with `parse_recipient_list` the program may stop at a cell, and with the
addresses alone it goes through.

* `detectMappings_follows`, `rowToContact_follows` : the columns and the addresses do not depend on names.
* `recipientsFromTableRows_follows` : the rows are read unless one of the cells read as a list stops it.
-/

namespace Ratatoskr.Import

open Lib (byteLength Traced Follows)
open Rte (isWhitespace)
open Threading (trim splitWords)

inductive ContactField where
  | displayName
  | firstName
  | lastName
  | email
  | email2
  | phone
  | company
  | notes
  | group
  | ignore
  deriving DecidableEq

structure ColumnMapping where
  sourceIndex : Nat
  targetField : ContactField

structure ImportedContact where
  displayName : Option Text := none
  firstName : Option Text := none
  lastName : Option Text := none
  email : Option Text := none
  email2 : Option Text := none
  phone : Option Text := none
  company : Option Text := none
  notes : Option Text := none
  groups : List Text := []

inductive ImportRowStatus where
  | ready
  | missingEmail
  | invalidEmail
  | duplicateEmail

structure ImportStats where
  totalRows : Nat := 0
  importable : Nat := 0
  skippedNoEmail : Nat := 0
  skippedInvalidEmail : Nat := 0
  skippedDuplicate : Nat := 0

def ImportStats.record (stats : ImportStats) (status : ImportRowStatus) : ImportStats :=
  let stats := { stats with totalRows := stats.totalRows + 1 }
  match status with
  | .ready => { stats with importable := stats.importable + 1 }
  | .missingEmail => { stats with skippedNoEmail := stats.skippedNoEmail + 1 }
  | .invalidEmail => { stats with skippedInvalidEmail := stats.skippedInvalidEmail + 1 }
  | .duplicateEmail => { stats with skippedDuplicate := stats.skippedDuplicate + 1 }

/-- The floating-point ratio `digits / len > 0.7`, in whole numbers. -/
def looksLikeData (lower : Char → Text) (value : Text) : Bool :=
  let trimmed := trim value
  if trimmed = [] then false
  else if isValidEmail lower trimmed then true
  else if trimmed.head? = some '+' ∧ trimmed.tail.any Char.isDigit then true
  else 7 * byteLength trimmed < 10 * trimmed.countP Char.isDigit && 3 < byteLength trimmed

def detectHasHeader (lower : Char → Text) : List (List Text) → Bool
  | [] => false
  | [_] => false
  | firstRow :: _ => firstRow.countP (looksLikeData lower) < (firstRow.length + 1) / 2

def columnName (i : Nat) : Text := "Column ".toList ++ (Nat.repr (i + 1)).toList

def normalizeHeaders (headerRow : List Text) (colCount : Nat) : List Text :=
  (headerRow ++ List.replicate (colCount - headerRow.length) []).mapIdx fun i header =>
    if trim header = [] then columnName i else trim header

def syntheticHeaders (colCount : Nat) : List Text := (List.range colCount).map columnName

def splitHeaders (rows : List (List Text)) (hasHeader : Bool) : List Text × List (List Text) :=
  let colCount := (rows.map List.length).foldl max 0
  if hasHeader then (normalizeHeaders (rows.head?.getD []) colCount, rows.tail)
  else (syntheticHeaders colCount, rows)

def emailPatterns : List String :=
  ["email", "e mail", "email address", "e mail address", "mail", "e post", "epost", "correo"]

def email2Patterns : List String :=
  ["email 2", "email2", "e mail 2", "secondary email", "other email", "home email", "work email"]

def namePatterns : List String :=
  ["name", "full name", "display name", "displayname", "contact", "contact name", "navn", "nombre", "nom"]

def firstNamePatterns : List String :=
  ["first name", "firstname", "first", "given name", "given", "fornavn", "prenom", "vorname"]

def lastNamePatterns : List String :=
  ["last name", "lastname", "last", "surname", "family name", "family", "etternavn", "nom de famille",
    "nachname"]

def phonePatterns : List String :=
  ["phone", "telephone", "tel", "mobile", "cell", "telefon", "telefono", "phone number"]

def companyPatterns : List String :=
  ["company", "organization", "organisation", "org", "firma", "empresa", "societe", "work", "employer"]

def notesPatterns : List String := ["notes", "note", "comments", "comment", "description", "memo", "notat"]

def groupPatterns : List String :=
  ["group", "groups", "category", "categories", "list", "tag", "tags", "gruppe", "label"]

def headerCandidates : List (ContactField × List String) :=
  [(.email, emailPatterns), (.firstName, firstNamePatterns), (.lastName, lastNamePatterns),
    (.displayName, namePatterns), (.phone, phonePatterns), (.company, companyPatterns),
    (.email2, email2Patterns), (.notes, notesPatterns), (.group, groupPatterns)]

/-- `str::to_lowercase` is a parameter: it is not `char::to_lowercase` at a final sigma. -/
def normalizeHeader (lowerText : Text → Text) (header : Text) : Text :=
  squash ((lowerText (trim header)).map fun c => if c = '_' ∨ c = '-' then ' ' else c)

def matchesPattern (normalized : Text) (pattern : String) : Bool :=
  let normalizedTokens := splitWords [] normalized
  let patternTokens := splitWords [] pattern.toList
  if normalized = pattern.toList then true
  else if patternTokens.length = 1 then normalizedTokens.contains pattern.toList
  else normalizedTokens.tails.any patternTokens.isPrefixOf

/-- The loop of `detect_from_header` over the fields with their patterns. -/
def headerField (normalized : Text) (used : List ContactField) :
    List (ContactField × List String) → Option ContactField
  | [] => none
  | (field, patterns) :: candidates =>
    let found := patterns.any (matchesPattern normalized)
    if field ∈ used then
      if field = .email ∧ .email2 ∉ used ∧ found then some .email2
      else headerField normalized used candidates
    else if found then some field
    else headerField normalized used candidates

def detectFromHeader (lowerText : Text → Text) (header : Text) (used : List ContactField) :
    Option ContactField :=
  headerField (normalizeHeader lowerText header) used headerCandidates

def isPhoneChar (c : Char) : Bool :=
  c.isDigit || c = '+' || c = '-' || c = '(' || c = ')' || c = ' ' || c = '.' || c = '\u00a0' || c = '/'

def looksLikePhone (value : Text) : Bool :=
  let trimmed := trim value
  5 ≤ byteLength trimmed && 5 ≤ trimmed.countP Char.isDigit && trimmed.all isPhoneChar

def looksLikeGroupList (value : Text) : Bool := value.contains ';' || value.contains '|'

structure ColumnCounts where
  nonEmpty : Nat := 0
  emailish : Nat := 0
  phoneish : Nat := 0
  groupish : Nat := 0

def contentField (counts : ColumnCounts) (used : List ContactField) : Option ContactField :=
  if counts.nonEmpty = 0 then none
  else if counts.nonEmpty ≤ counts.emailish * 2 ∧ .email ∉ used then some .email
  else if counts.nonEmpty ≤ counts.emailish * 2 ∧ .email2 ∉ used then some .email2
  else if counts.nonEmpty ≤ counts.phoneish * 2 ∧ .phone ∉ used then some .phone
  else if counts.nonEmpty ≤ counts.groupish * 2 ∧ .group ∉ used then some .group
  else none

section

variable {m : Type → Type} [Monad m] (lower : Char → Text) (lowerText : Text → Text)
  (parse : Text → m (List ParsedRecipient))

def looksLikeEmail (value : Text) : m Bool :=
  if isValidEmail lower value then pure true
  else do
    let recipients ← parse value
    pure (!recipients.isEmpty)

/-- The loop of `detect_from_content` over the rows. -/
def countColumn (index : Nat) : List (List Text) → ColumnCounts → m ColumnCounts
  | [], counts => pure counts
  | row :: rows, counts =>
    match (row[index]?.map trim).filter (· ≠ []) with
    | none => countColumn index rows counts
    | some value => do
      let emailish ← looksLikeEmail lower parse value
      countColumn index rows
        { nonEmpty := counts.nonEmpty + 1
          emailish := counts.emailish + emailish.toNat
          phoneish := counts.phoneish + (looksLikePhone value).toNat
          groupish := counts.groupish + (looksLikeGroupList value).toNat }

def detectFromContent (index : Nat) (rows : List (List Text)) (used : List ContactField) :
    m (Option ContactField) := do
  let counts ← countColumn lower parse index rows {}
  pure (contentField counts used)

def detectField (sampleRows : List (List Text)) (hasHeader : Bool) (index : Nat) (header : Text)
    (used : List ContactField) : m (Option ContactField) :=
  match if hasHeader then detectFromHeader lowerText header used else none with
  | some field => pure (some field)
  | none => detectFromContent lower parse index sampleRows used

/-- The loop of `auto_detect_mappings`, from a column on. -/
def detectMappings (sampleRows : List (List Text)) (hasHeader : Bool) :
    Nat → List Text → List ContactField → m (List ColumnMapping)
  | _, [], _ => pure []
  | index, header :: headers, used => do
    let detected ← detectField lower lowerText parse sampleRows hasHeader index header used
    let targetField := detected.getD .ignore
    let used := if targetField = .ignore then used else used ++ [targetField]
    let mappings ← detectMappings sampleRows hasHeader (index + 1) headers used
    pure (⟨index, targetField⟩ :: mappings)

def autoDetectMappings (headers : List Text) (sampleRows : List (List Text)) (hasHeader : Bool) :
    m (List ColumnMapping) :=
  detectMappings lower lowerText parse sampleRows hasHeader 0 headers []

/-! ## Contacts -/

def splitGroups (value : Text) : List Text :=
  (value.splitOnP fun c => c = ';' || c = ',' || c = '|').filterMap cleanText

/-- The address in a cell, and the name: one that is there already stays. -/
def assignEmailCell (displayName : Option Text) (value : Text) : m (Text × Option Text) := do
  let parsed ← parse value
  match parsed with
  | recipient :: _ => pure (recipient.email, displayName.or recipient.displayName)
  | [] => pure (normalizeEmail lower value, displayName)

def assignCell (contact : ImportedContact) (value : Text) : ContactField → m ImportedContact
  | .displayName => pure { contact with displayName := some value }
  | .firstName => pure { contact with firstName := some value }
  | .lastName => pure { contact with lastName := some value }
  | .email => do
    let cell ← assignEmailCell lower parse contact.displayName value
    pure { contact with email := some cell.1, displayName := cell.2 }
  | .email2 => do
    let cell ← assignEmailCell lower parse none value
    pure { contact with email2 := some cell.1 }
  | .phone => pure { contact with phone := some value }
  | .company => pure { contact with company := some value }
  | .notes => pure { contact with notes := some value }
  | .group => pure { contact with groups := contact.groups ++ splitGroups value }
  | .ignore => pure contact

def assignColumn (row : List Text) (contact : ImportedContact) (mapping : ColumnMapping) : m ImportedContact :=
  match row[mapping.sourceIndex]?.bind cleanText with
  | none => pure contact
  | some value => assignCell lower parse contact value mapping.targetField

def rowToContact (row : List Text) (mappings : List ColumnMapping) : m ImportedContact :=
  mappings.foldlM (assignColumn lower parse row) {}

def normalizedEmail (contact : ImportedContact) : Option Text :=
  (contact.email.map (normalizeEmail lower)).filter (· ≠ [])

def effectiveDisplayName (contact : ImportedContact) : Option Text :=
  match contact.displayName.filter (· ≠ []) with
  | some name => some name
  | none =>
    match contact.firstName.filter (· ≠ []), contact.lastName.filter (· ≠ []) with
    | some first, some last => some (first ++ ' ' :: last)
    | some first, none => some first
    | none, last => last

def rowStatus (contact : ImportedContact) : ImportRowStatus :=
  match normalizedEmail lower contact with
  | none => .missingEmail
  | some email => if isValidEmail lower email then .ready else .invalidEmail

/-- The status of a row behind those whose addresses have been seen, and all addresses seen. -/
local instance : LawfulBEq Text := inferInstance

def rowStatusWithSeen (contact : ImportedContact) (seen : List Text) : ImportRowStatus × List Text :=
  match rowStatus lower contact, normalizedEmail lower contact with
  | .ready, some email => if email ∈ seen then (.duplicateEmail, seen) else (.ready, email :: seen)
  | .ready, none => (.missingEmail, seen)
  | status, _ => (status, seen)

structure ImportPreviewRow where
  contact : ImportedContact
  status : ImportRowStatus

def previewRows (mappings : List ColumnMapping) : List (List Text) → List Text → m (List ImportPreviewRow)
  | [], _ => pure []
  | row :: rows, seen => do
    let contact ← rowToContact lower parse row mappings
    let status := rowStatusWithSeen lower contact seen
    let rest ← previewRows mappings rows status.2
    pure (⟨contact, status.1⟩ :: rest)

def statsForRows (mappings : List ColumnMapping) : List (List Text) → List Text → ImportStats → m ImportStats
  | [], _, stats => pure stats
  | row :: rows, seen, stats => do
    let contact ← rowToContact lower parse row mappings
    let status := rowStatusWithSeen lower contact seen
    statsForRows mappings rows status.2 (stats.record status.1)

structure TablePreview where
  headers : List Text
  rows : List ImportPreviewRow
  totalRows : Nat
  hasHeader : Bool
  mappings : List ColumnMapping
  stats : ImportStats

/-- `ImportOptions::default().preview_rows`. -/
def defaultPreviewRows : Nat := 20

def buildTablePreview (rows : List (List Text)) : m (Option TablePreview) :=
  if rows = [] then pure none
  else do
    let hasHeader := detectHasHeader lower rows
    let split := splitHeaders rows hasHeader
    let sampleCells := split.2.take defaultPreviewRows
    let mappings ← autoDetectMappings lower lowerText parse split.1 sampleCells hasHeader
    let preview ← previewRows lower parse mappings sampleCells []
    let stats ← statsForRows lower parse mappings split.2 [] {}
    pure (some ⟨split.1, preview, split.2.length, hasHeader, mappings, stats⟩)

def tableContactsFromRows (rows : List (List Text)) (mappings : List ColumnMapping) (hasHeader : Bool) :
    m (List ImportedContact) :=
  (splitHeaders rows hasHeader).2.mapM fun row => rowToContact lower parse row mappings

def contactRecipient (contact : ImportedContact) : Option ParsedRecipient :=
  ((normalizedEmail lower contact).filter (isValidEmail lower)).map fun email =>
    ⟨email, effectiveDisplayName contact⟩

def recipientsFromTableRows (rows : List (List Text)) : m (List ParsedRecipient) := do
  let preview ← buildTablePreview lower lowerText parse rows
  match preview with
  | none => pure []
  | some preview => do
    let contacts ← tableContactsFromRows lower parse rows preview.mappings preview.hasHeader
    pure (contacts.filterMap (contactRecipient lower))

end

def SameEmails (recipients recipients' : List ParsedRecipient) : Prop :=
  recipients.map ParsedRecipient.email = recipients'.map ParsedRecipient.email

def SameEmail (contact contact' : ImportedContact) : Prop := contact.email = contact'.email

theorem SameEmails.isEmpty {recipients recipients' : List ParsedRecipient}
    (h : SameEmails recipients recipients') : recipients.isEmpty = recipients'.isEmpty := by
  have hlength := congrArg List.length h
  rw [List.length_map, List.length_map] at hlength
  rw [Bool.eq_iff_iff, List.isEmpty_iff, List.isEmpty_iff, ← List.length_eq_zero_iff, hlength,
    List.length_eq_zero_iff]

section

variable {ok : Text → Prop} {parse : Text → Option (List ParsedRecipient)}
  {ask : Text → Traced Text (List ParsedRecipient)}
  (hparse : ∀ text, Follows ok SameEmails (parse text) (ask text))
  (lower : Char → Text) (lowerText : Text → Text)

include hparse

theorem looksLikeEmail_follows (value : Text) :
    Follows ok Eq (looksLikeEmail lower parse value) (looksLikeEmail lower ask value) := by
  rw [looksLikeEmail, looksLikeEmail]
  split
  · exact .pure rfl
  · exact (hparse value).bind fun recipients h => .pure (congrArg not h.isEmpty)

theorem countColumn_follows (index : Nat) (rows : List (List Text)) (counts : ColumnCounts) :
    Follows ok Eq (countColumn lower parse index rows counts) (countColumn lower ask index rows counts) := by
  induction rows generalizing counts with
  | nil => exact .pure rfl
  | cons row rows ih =>
    rw [countColumn, countColumn]
    cases (row[index]?.map trim).filter (· ≠ []) with
    | none => exact ih counts
    | some value =>
      refine (looksLikeEmail_follows hparse lower value).bind fun emailish h => ?_
      subst h
      exact ih _

theorem detectField_follows (sampleRows : List (List Text)) (hasHeader : Bool) (index : Nat) (header : Text)
    (used : List ContactField) :
    Follows ok Eq (detectField lower lowerText parse sampleRows hasHeader index header used)
      (detectField lower lowerText ask sampleRows hasHeader index header used) := by
  rw [detectField, detectField]
  cases (if hasHeader then detectFromHeader lowerText header used else none) with
  | some field => exact .pure rfl
  | none =>
    refine (countColumn_follows hparse lower index sampleRows {}).bind fun counts h => ?_
    subst h
    exact .pure rfl

theorem detectMappings_follows (sampleRows : List (List Text)) (hasHeader : Bool) (index : Nat)
    (headers : List Text) (used : List ContactField) :
    Follows ok Eq (detectMappings lower lowerText parse sampleRows hasHeader index headers used)
      (detectMappings lower lowerText ask sampleRows hasHeader index headers used) := by
  induction headers generalizing index used with
  | nil => exact .pure rfl
  | cons header headers ih =>
    refine (detectField_follows hparse lower lowerText sampleRows hasHeader index header used).bind
      fun detected h => ?_
    subst h
    refine (ih _ _).bind fun mappings h => ?_
    subst h
    exact .pure rfl

theorem assignEmailCell_follows (displayName displayName' : Option Text) (value : Text) :
    Follows ok (fun cell cell' => cell.1 = cell'.1) (assignEmailCell lower parse displayName value)
      (assignEmailCell lower ask displayName' value) := by
  refine (hparse value).bind fun recipients h => ?_
  generalize (ask value).value = recipients' at h
  cases recipients with
  | nil =>
    cases recipients' with
    | nil => exact .pure rfl
    | cons _ _ => cases h
  | cons recipient _ =>
    cases recipients' with
    | nil => cases h
    | cons recipient' _ => exact .pure (List.cons.inj h).1

theorem assignCell_follows (field : ContactField) {contact contact' : ImportedContact}
    (h : SameEmail contact contact') (value : Text) :
    Follows ok SameEmail (assignCell lower parse contact value field)
      (assignCell lower ask contact' value field) := by
  cases field with
  | email =>
    exact (assignEmailCell_follows hparse lower _ _ value).bind fun _ hcell => .pure (congrArg some hcell)
  | email2 => exact (assignEmailCell_follows hparse lower none none value).bind fun _ _ => .pure h
  | displayName => exact .pure h
  | firstName => exact .pure h
  | lastName => exact .pure h
  | phone => exact .pure h
  | company => exact .pure h
  | notes => exact .pure h
  | group => exact .pure h
  | ignore => exact .pure h

theorem rowToContact_follows (mappings : List ColumnMapping) (row : List Text) :
    Follows ok SameEmail (rowToContact lower parse row mappings) (rowToContact lower ask row mappings) := by
  refine Follows.foldlM (fun contact contact' mapping h => ?_) mappings rfl
  rw [assignColumn, assignColumn]
  cases row[mapping.sourceIndex]?.bind cleanText with
  | none => exact .pure h
  | some value => exact assignCell_follows hparse lower mapping.targetField h value

omit hparse in
theorem rowStatusWithSeen_congr {contact contact' : ImportedContact} (h : SameEmail contact contact')
    (seen : List Text) : rowStatusWithSeen lower contact seen = rowStatusWithSeen lower contact' seen := by
  have hemail : normalizedEmail lower contact = normalizedEmail lower contact' := by
    rw [normalizedEmail, normalizedEmail, h]
  rw [rowStatusWithSeen, rowStatusWithSeen, rowStatus, rowStatus, hemail]

theorem previewRows_follows (mappings : List ColumnMapping) (rows : List (List Text)) (seen : List Text) :
    Follows ok (fun _ _ => True) (previewRows lower parse mappings rows seen)
      (previewRows lower ask mappings rows seen) := by
  induction rows generalizing seen with
  | nil => exact .pure trivial
  | cons row rows ih =>
    refine (rowToContact_follows hparse lower mappings row).bind fun contact h => ?_
    rw [rowStatusWithSeen_congr lower h]
    exact (ih _).bind fun _ _ => .pure trivial

theorem statsForRows_follows (mappings : List ColumnMapping) (rows : List (List Text)) (seen : List Text)
    (stats : ImportStats) : Follows ok Eq (statsForRows lower parse mappings rows seen stats)
      (statsForRows lower ask mappings rows seen stats) := by
  induction rows generalizing seen stats with
  | nil => exact .pure rfl
  | cons row rows ih =>
    refine (rowToContact_follows hparse lower mappings row).bind fun contact h => ?_
    rw [rowStatusWithSeen_congr lower h]
    exact ih _ _

def SamePreview : Option TablePreview → Option TablePreview → Prop
  | some preview, some preview' =>
    preview.mappings = preview'.mappings ∧ preview.hasHeader = preview'.hasHeader
  | none, none => True
  | _, _ => False

theorem buildTablePreview_follows (rows : List (List Text)) :
    Follows ok SamePreview (buildTablePreview lower lowerText parse rows)
      (buildTablePreview lower lowerText ask rows) := by
  rw [buildTablePreview, buildTablePreview]
  split
  · exact .pure trivial
  refine (detectMappings_follows hparse lower lowerText _ _ 0 _ []).bind fun mappings h => ?_
  subst h
  refine (previewRows_follows hparse lower _ _ []).bind fun preview _ => ?_
  refine (statsForRows_follows hparse lower _ _ [] {}).bind fun stats _ => ?_
  exact .pure ⟨rfl, rfl⟩

omit hparse in
theorem filterMap_sameEmails {contacts contacts' : List ImportedContact}
    (h : List.Forall₂ SameEmail contacts contacts') : SameEmails (contacts.filterMap (contactRecipient lower))
      (contacts'.filterMap (contactRecipient lower)) := by
  induction h with
  | nil => rfl
  | @cons contact contact' contacts contacts' hcontact _ ih =>
    have hemail : (contactRecipient lower contact).map ParsedRecipient.email =
        (contactRecipient lower contact').map ParsedRecipient.email := by
      rw [contactRecipient, contactRecipient, normalizedEmail, normalizedEmail, hcontact, Option.map_map,
        Option.map_map]
      rfl
    rw [List.filterMap_cons, List.filterMap_cons]
    cases hleft : contactRecipient lower contact with
    | none =>
      rw [hleft, Option.map_none] at hemail
      rw [Option.map_eq_none_iff.mp hemail.symm]
      exact ih
    | some recipient =>
      rw [hleft, Option.map_some] at hemail
      obtain ⟨recipient', hright, hsame⟩ := Option.map_eq_some_iff.mp hemail.symm
      rw [hright]
      exact congrArg₂ List.cons hsame.symm ih

theorem recipientsFromTableRows_follows (rows : List (List Text)) :
    Follows ok SameEmails (recipientsFromTableRows lower lowerText parse rows)
      (recipientsFromTableRows lower lowerText ask rows) := by
  refine (buildTablePreview_follows hparse lower lowerText rows).bind fun preview h => ?_
  generalize (buildTablePreview lower lowerText ask rows).value = preview' at h
  cases preview with
  | none =>
    cases preview' with
    | none => exact .pure rfl
    | some _ => exact h.elim
  | some preview =>
    cases preview' with
    | none => exact h.elim
    | some preview' =>
      obtain ⟨hmappings, hheader⟩ := h
      dsimp only
      rw [hmappings, hheader]
      exact (Follows.mapM (rowToContact_follows hparse lower _) _).bind fun contacts hcontacts =>
        .pure (filterMap_sameEmails lower hcontacts)

end

end Ratatoskr.Import
