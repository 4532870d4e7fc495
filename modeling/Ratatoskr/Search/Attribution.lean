import Mathlib.Algebra.GroupWithZero.Nat
import Mathlib.Data.List.DropRight
import Ratatoskr.Mail.Bodies

/-!
# Search.Attribution

Which field a search hit matched in (`enrich_match_kinds` of `search/src/lib.rs`, `enrich_with_attribution`
of `core/src/search_pipeline.rs`). The texts of all hits are gathered first, in one map under the message
ids, then every hit is scored against its entry.

Snippet generators and the Unicode tables are taken as given, ranks as any linear order. A hit list has at
most 200 entries, so the fragments come from one query. Queries do not fail.
-/

namespace Ratatoskr.Search

open List
open Lib (Table)
open Mail (AccountId MessageId ThreadId AttachmentId MessageBody)

inductive Field where
  | bodyText
  | subject
  | fromName
  | attachmentText

/-- The best fragment of a text and how many ranges of it are highlighted. -/
structure Snippet where
  highlighted : Nat
  fragment : String

/-- `SnippetGenerator`s, by the query and the field, and the character tables. -/
structure Engine where
  generator : String → Field → Option (String → Snippet)
  trim : String → String
  toLowercase : String → String
  isWhitespace : Char → Bool
  isAlphanumeric : Char → Bool

inductive MatchKind where
  | body
  | subject
  | sender
  | attachment (attachmentId : AttachmentId) (filename mime snippet : String)
  deriving DecidableEq

structure TantivyResult (ρ : Type) where
  messageId : MessageId
  accountId : AccountId
  threadId : ThreadId
  subject : Option String
  fromName : Option String
  fromAddress : Option String
  snippet : Option String
  date : Int
  rank : ρ
  matchKind : MatchKind
  alsoMatched : List MatchKind
  deriving DecidableEq

structure AttachmentAttributionInput where
  attachmentId : AttachmentId
  filename : String
  mime : String
  extractedText : String

structure AttributionInputs where
  subject : String
  fromName : String
  bodyText : String
  attachments : List AttachmentAttributionInput

def scoreField (generator : Option (String → Snippet)) (text : String) : Nat :=
  if text = "" then 0
  else
    match generator with
    | none => 0
    | some snippet => (snippet text).highlighted

/-- From one occurrence the search goes on behind it: `skip` counts down what is left of it. -/
def countFrom (isAlphanumeric : Char → Bool) (needle : List Char) (before : Option Char) :
    Nat → List Char → Nat
  | _, [] => 0
  | skip + 1, c :: cs => countFrom isAlphanumeric needle (some c) skip cs
  | 0, c :: cs =>
    if needle.isPrefixOf (c :: cs) then
      let bounded := !before.any isAlphanumeric && !((c :: cs).drop needle.length).head?.any isAlphanumeric
      (if bounded then 1 else 0) + countFrom isAlphanumeric needle (some c) (needle.length - 1) cs
    else countFrom isAlphanumeric needle (some c) 0 cs

def countWordOccurrences (engine : Engine) (haystack needle : String) : Nat :=
  if needle = "" then 0
  else countFrom engine.isAlphanumeric needle.toList none 0 haystack.toList

/-- The distinct words of the query; their order does not matter. -/
def queryTokens (engine : Engine) (query : String) : List String :=
  let words := (query.toList.splitOnP engine.isWhitespace).filter (fun word => word ≠ [])
  let trimmed := words.map (fun word =>
    (word.dropWhile (fun c => !engine.isAlphanumeric c)).rdropWhile (fun c => !engine.isAlphanumeric c))
  let tokens := trimmed.map (fun word => engine.toLowercase (String.ofList word))
  (tokens.filter (fun token => token ≠ "")).dedup

structure ScoredAttachment where
  highlights : Nat
  termFreq : Nat
  fragment : String
  attachment : AttachmentAttributionInput

def scoreAttachment (engine : Engine) (query : String) (attachment : AttachmentAttributionInput) :
    Option ScoredAttachment :=
  if attachment.extractedText = "" then none
  else
    match engine.generator query .attachmentText with
    | none => none
    | some generator =>
      let snippet := generator attachment.extractedText
      if snippet.highlighted = 0 then none
      else
        let lower := engine.toLowercase attachment.extractedText
        let termFreq := ((queryTokens engine query).map (countWordOccurrences engine lower)).sum
        some ⟨snippet.highlighted, termFreq, snippet.fragment, attachment⟩

/-- More highlights, then more occurrences, then the file name. -/
def scoresBefore (a b : ScoredAttachment) : Bool :=
  b.highlights < a.highlights ||
    (a.highlights = b.highlights &&
      (b.termFreq < a.termFreq ||
        (a.termFreq = b.termFreq && a.attachment.filename ≤ b.attachment.filename)))

def candidates (engine : Engine) (query : String) (input : AttributionInputs) : List (MatchKind × Nat) :=
  let fields := [
    (MatchKind.body, scoreField (engine.generator query .bodyText) input.bodyText),
    (MatchKind.subject, scoreField (engine.generator query .subject) input.subject),
    (MatchKind.sender, scoreField (engine.generator query .fromName) input.fromName)]
  let attachments := (input.attachments.filterMap (scoreAttachment engine query)).mergeSort scoresBefore
  fields.filter (fun c => 0 < c.2) ++ attachments.map (fun a =>
    (.attachment a.attachment.attachmentId a.attachment.filename a.attachment.mime a.fragment, a.highlights))

/-- The best candidate, and those with at least half of its score. -/
def matchKinds (engine : Engine) (query : String) (input : AttributionInputs) :
    Option (MatchKind × List MatchKind) :=
  match (candidates engine query input).mergeSort (fun a b => b.2 ≤ a.2) with
  | [] => none
  | (primary, topScore) :: rest =>
    let threshold := max (topScore / 2) 1
    some (primary, (rest.filter (fun c => threshold ≤ c.2)).map Prod.fst)

section Results

variable {ρ : Type}

def attributed (engine : Engine) (query : String) (input : AttributionInputs) (result : TantivyResult ρ) :
    TantivyResult ρ :=
  match matchKinds engine query input with
  | none => result
  | some (primary, also) => { result with matchKind := primary, alsoMatched := also }

def enrichMatchKinds (engine : Engine) (freeText : String) (results : List (TantivyResult ρ))
    (inputs : Table MessageId AttributionInputs) : List (TantivyResult ρ) :=
  let trimmed := engine.trim freeText
  if trimmed = "" then results
  else results.map (fun result =>
    match inputs.lookup result.messageId with
    | none => result
    | some input => attributed engine trimmed input result)

/-! ## What the scores are computed from -/

/-- A row of `threads` with the sender of its latest message. -/
structure DbThread where
  subject : Option String
  snippet : Option String
  fromName : Option String
  fromAddress : Option String
  lastMessageAt : Option Int
  isRead : Bool
  isStarred : Bool
  hasAttachments : Bool
  messageCount : Int

structure AttachmentRow where
  id : AttachmentId
  messageId : MessageId
  accountId : AccountId
  filename : Option String
  mimeType : Option String
  contentHash : Option String

structure ExtractedText where
  extractedText : Option String
  status : String

/-- The attachments stand in the order of their row ids, the texts under their content hash. -/
structure SearchDb where
  threads : Table (AccountId × ThreadId) DbThread
  attachments : List AttachmentRow
  extracted : Table String ExtractedText

def extractedOf (db : SearchDb) (row : AttachmentRow) : String :=
  match row.contentHash.bind db.extracted.lookup with
  | some ⟨some text, "indexed"⟩ => text
  | _ => ""

def attributionInput (db : SearchDb) (row : AttachmentRow) : AttachmentAttributionInput :=
  ⟨row.id, row.filename.getD "", row.mimeType.getD "", extractedOf db row⟩

/-- `WHERE (a.account_id, a.message_id) IN (VALUES …)`. -/
def selectAttachmentFragmentsBatch (db : SearchDb) (pairs : List (AccountId × MessageId)) :
    List AttachmentRow :=
  db.attachments.filter (fun row => (row.accountId, row.messageId) ∈ pairs)

def fragmentsOf (db : SearchDb) (rows : List AttachmentRow) (account : AccountId) (message : MessageId) :
    List AttachmentAttributionInput :=
  (rows.filter (fun row => row.accountId = account ∧ row.messageId = message)).map (attributionInput db)

/-- The text that the body store has under an id; without a store there is none. -/
def storedText (bodyRead : Option (Table MessageId MessageBody)) (message : MessageId) : Option String :=
  (bodyRead.bind (fun bodies => bodies.lookup message)).bind MessageBody.bodyText

/-- `body_by_mid`. -/
def bodyByMid (bodyRead : Option (Table MessageId MessageBody)) (ids : List MessageId) :
    Table MessageId String :=
  ids.foldl (fun texts id =>
    match storedText bodyRead id with
    | some text => texts.insert id text
    | none => texts) ∅

structure Gathered where
  bodies : Table MessageId String
  inputs : Table MessageId AttributionInputs

/-- The body is taken out of its map, the inputs go in under the message id. -/
def gather (db : SearchDb) (rows : List AttachmentRow) (g : Gathered) (result : TantivyResult ρ) :
    Gathered where
  bodies := g.bodies.erase result.messageId
  inputs := g.inputs.insert result.messageId
    ⟨result.subject.getD "", result.fromName.getD "", (g.bodies.lookup result.messageId).getD "",
      fragmentsOf db rows result.accountId result.messageId⟩

def attributionInputs (db : SearchDb) (bodyRead : Option (Table MessageId MessageBody))
    (results : List (TantivyResult ρ)) : Table MessageId AttributionInputs :=
  let rows := selectAttachmentFragmentsBatch db (results.map (fun r => (r.accountId, r.messageId)))
  let bodies := bodyByMid bodyRead (results.map TantivyResult.messageId)
  (results.foldl (gather db rows) ⟨bodies, ∅⟩).inputs

def enrichWithAttribution (engine : Engine) (db : SearchDb)
    (bodyRead : Option (Table MessageId MessageBody)) (freeText : String)
    (results : List (TantivyResult ρ)) : List (TantivyResult ρ) :=
  if engine.trim freeText = "" ∨ results = [] then results
  else enrichMatchKinds engine freeText results (attributionInputs db bodyRead results)

theorem lookup_bodyByMid (bodyRead : Option (Table MessageId MessageBody)) (ids : List MessageId)
    (id : MessageId) :
    (bodyByMid bodyRead ids).lookup id = if id ∈ ids then storedText bodyRead id else none := by
  induction ids using List.reverseRecOn with
  | nil => rfl
  | append_singleton ids last ih =>
    rw [bodyByMid, foldl_concat]
    rw [bodyByMid] at ih
    cases htext : storedText bodyRead last with
    | none =>
      rw [ih]
      by_cases hid : id = last
      · subst hid
        simp [htext]
      · simp [hid]
    | some text =>
      rw [Lib.Table.lookup_insert_if, ih]
      by_cases hid : id = last
      · subst hid
        simp [htext]
      · simp [hid]

theorem lookup_gather_bodies (db : SearchDb) (rows : List AttachmentRow) (g : Gathered)
    (results : List (TantivyResult ρ)) (id : MessageId) :
    (results.foldl (gather db rows) g).bodies.lookup id =
      if id ∈ results.map TantivyResult.messageId then none else g.bodies.lookup id := by
  induction results generalizing g with
  | nil => rfl
  | cons result results ih =>
    rw [foldl_cons, ih, gather, Lib.Table.lookup_erase_if]
    by_cases hrest : id ∈ results.map TantivyResult.messageId
    · simp [hrest]
    · by_cases hid : id = result.messageId
      · simp [hid]
      · simp [hid]

/-- The last hit of an id is the one whose inputs stand; it only has the body if it is the first as well. -/
theorem lookup_gather_inputs (db : SearchDb) (rows : List AttachmentRow) (g : Gathered)
    (results : List (TantivyResult ρ)) (id : MessageId) :
    (results.foldl (gather db rows) g).inputs.lookup id =
      match (results.filter (fun r => r.messageId = id)).getLast? with
      | none => g.inputs.lookup id
      | some last => some ⟨last.subject.getD "", last.fromName.getD "",
          (if (results.filter (fun r => r.messageId = id)).length = 1 then g.bodies.lookup id
            else none).getD "", fragmentsOf db rows last.accountId id⟩ := by
  induction results using List.reverseRecOn with
  | nil => rfl
  | append_singleton results last ih =>
    rw [foldl_concat, gather, Lib.Table.lookup_insert_if, lookup_gather_bodies, filter_append]
    by_cases hid : id = last.messageId
    · subst hid
      rw [if_pos rfl, filter_cons_of_pos (by simp), filter_nil, getLast?_concat,
        length_append, length_singleton]
      have hmem : last.messageId ∈ results.map TantivyResult.messageId ↔
          (results.filter (fun r => r.messageId = last.messageId)).length + 1 ≠ 1 := by
        simp
      by_cases hin : last.messageId ∈ results.map TantivyResult.messageId
      · rw [if_pos hin, if_neg (hmem.mp hin)]
      · rw [if_neg hin, if_pos (not_not.mp (fun h => hin (hmem.mpr h)))]
    · have hne : ¬ last.messageId = id := fun h => hid h.symm
      rw [if_neg hid, filter_cons_of_neg (by simpa using hne), filter_nil, append_nil, ih]

theorem fragmentsOf_batch (db : SearchDb) {pairs : List (AccountId × MessageId)} {account : AccountId}
    {message : MessageId} (h : (account, message) ∈ pairs) :
    fragmentsOf db (selectAttachmentFragmentsBatch db pairs) account message =
      fragmentsOf db db.attachments account message := by
  rw [fragmentsOf, selectAttachmentFragmentsBatch, filter_filter]
  congr 1
  refine filter_congr ?_
  intro row _
  by_cases hrow : row.accountId = account ∧ row.messageId = message
  · simp [hrow, h]
  · simp [hrow]

/-- The last hit with the message id of a hit: its texts and attachments go in for all of them, and the body
if there is only this one. -/
def gatheredFor (db : SearchDb) (bodyRead : Option (Table MessageId MessageBody))
    (results : List (TantivyResult ρ)) (last : TantivyResult ρ) : AttributionInputs where
  subject := last.subject.getD ""
  fromName := last.fromName.getD ""
  bodyText := (if (results.filter (fun r => r.messageId = last.messageId)).length = 1 then
    storedText bodyRead last.messageId else none).getD ""
  attachments := fragmentsOf db db.attachments last.accountId last.messageId

theorem lookup_attributionInputs (db : SearchDb) (bodyRead : Option (Table MessageId MessageBody))
    {results : List (TantivyResult ρ)} {h : TantivyResult ρ} (hh : h ∈ results) :
    ∃ last, (results.filter (fun r => r.messageId = h.messageId)).getLast? = some last ∧
      (attributionInputs db bodyRead results).lookup h.messageId =
        some (gatheredFor db bodyRead results last) := by
  have hmem : h ∈ results.filter (fun r => r.messageId = h.messageId) := by simpa using hh
  cases hlast : (results.filter (fun r => r.messageId = h.messageId)).getLast? with
  | none =>
    rw [getLast?_eq_none_iff.mp hlast] at hmem
    cases hmem
  | some last =>
    have hin := mem_filter.mp (mem_of_getLast? hlast)
    have hid : last.messageId = h.messageId := by simpa using hin.2
    refine ⟨last, rfl, ?_⟩
    have hpair : (last.accountId, h.messageId) ∈ results.map (fun r => (r.accountId, r.messageId)) :=
      mem_map.mpr ⟨last, hin.1, by rw [hid]⟩
    rw [attributionInputs, lookup_gather_inputs, hlast, lookup_bodyByMid,
      if_pos (mem_map_of_mem hh), gatheredFor, hid]
    dsimp only
    rw [fragmentsOf_batch db hpair]

end Results

end Ratatoskr.Search
