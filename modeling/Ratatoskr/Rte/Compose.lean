import Mathlib.Data.List.Induction
import Ratatoskr.Rte.OpSpecs

/-!
# Rte.Compose

Compose documents (`crates/rte/src/compose.rs`): an empty paragraph to write in, the signature behind
a horizontal rule, and the quoted message behind its attribution. `fromHtml` stands for the HTML
parser and is any function.

The end of a signature is not remembered. `findSignatureEnd` looks for the block quote of the quoted
message, so a block quote of the signature itself is taken for it.

* `replaceSignature_doc` : what replacing a signature leaves behind, whatever was written above it.
* `replaceSignature_assembled_iff` : when this is the document assembled with the new signature.
-/

namespace Ratatoskr.Rte

open List

structure QuotedContent where
  attribution : Text
  bodyHtml : Text

structure ComposeDocumentAssembly where
  document : Document
  signatureSeparatorIndex : Option Nat
  activeSignatureId : Option String

def Block.isBlockQuote : Block → Bool
  | .blockQuote _ => true
  | _ => false

def Block.isImage : Block → Bool
  | .image .. => true
  | _ => false

def buildAttributionBlock (attribution : Text) : Block :=
  .paragraph [⟨attribution, InlineStyle.italic, none⟩]

/-- The first block that is not part of the signature: the block before the next block quote. -/
def findSignatureEnd (document : Document) (separatorIndex : Nat) : Nat :=
  match (document.blocks.drop (separatorIndex + 1)).findIdx? Block.isBlockQuote with
  | some k => separatorIndex + 1 + k - 1
  | none => document.blockCount

/-- The loop over `(start..end).rev()` where `n` blocks from `start` on are still to be removed. -/
def removeSignatureLoop (start : Nat) : Nat → Document → Except String Document
  | 0, document => .ok document
  | n + 1, document => do
    let removed ← document.removeBlock (start + n)
    removeSignatureLoop start n (removed.getD document)

def removeSignature (document : Document) (separatorIndex : Nat) (endIndex : Option Nat) :
    Except String Document :=
  let count := document.blockCount
  let start := min separatorIndex count
  let stop := min (endIndex.getD count) count
  removeSignatureLoop start (stop - start) document

/-- The loop that inserts the blocks of a signature behind its separator. -/
def insertSignatureLoop : Nat → List Block → Document → Except String Document
  | _, [], document => .ok document
  | i, b :: bs, document => do insertSignatureLoop (i + 1) bs (← document.insertBlock i b)

section Html

variable (fromHtml : Text → Document)

def isBlankHtml (html : Text) : Bool :=
  html.all isWhitespace ||
    (fromHtml html).blocks.all fun b => !b.isImage && b.flattenedText.all isWhitespace

def assembleComposeDocument (signatureHtml : Option Text) (signatureId : Option String)
    (quotedContent : Option QuotedContent) : ComposeDocumentAssembly :=
  let signature := signatureHtml.filter fun html => !isBlankHtml fromHtml html
  let signatureBlocks :=
    match signature with
    | some html => Block.horizontalRule :: (fromHtml html).blocks
    | none => []
  let quotedBlocks :=
    match quotedContent with
    | some quoted =>
      [buildAttributionBlock quoted.attribution, .blockQuote (fromHtml quoted.bodyHtml).blocks]
    | none => []
  { document := .fromBlocks (Block.emptyParagraph :: (signatureBlocks ++ quotedBlocks))
    signatureSeparatorIndex := if signature.isSome then some 1 else none
    activeSignatureId := if signature.isSome then signatureId else none }

/-- Insert a separator and the signature; the index of the separator, if there is a signature. -/
def insertSignature (document : Document) (atIndex : Nat) (signatureHtml : Text) :
    Except String (Document × Option Nat) :=
  if isBlankHtml fromHtml signatureHtml then .ok (document, none)
  else do
    let atIndex := min atIndex document.blockCount
    let sigDoc := fromHtml signatureHtml
    let document ← document.insertBlock atIndex .horizontalRule
    let document ← insertSignatureLoop (atIndex + 1) sigDoc.blocks document
    return (document, some atIndex)

def replaceSignature (document : Document) (oldSeparatorIndex : Option Nat)
    (newSignatureHtml : Option Text) : Except String (Document × Option Nat) := do
  let document ←
    match oldSeparatorIndex with
    | some sep =>
      if document.block sep = some .horizontalRule then
        removeSignature document sep (some (findSignatureEnd document sep))
      else .ok document
    | none => .ok document
  match newSignatureHtml with
  | none => return (document, oldSeparatorIndex)
  | some sigHtml =>
    let insertAt := oldSeparatorIndex.getD document.blockCount
    let (document, separator) ← insertSignature fromHtml document insertAt sigHtml
    return (document, separator.or oldSeparatorIndex)

/-- The separator and the blocks of a signature, nothing for a blank one. -/
def signatureRegion (signatureHtml : Option Text) : List Block :=
  match signatureHtml with
  | some html => if isBlankHtml fromHtml html then [] else .horizontalRule :: (fromHtml html).blocks
  | none => []

def quotedRegion (quotedContent : Option QuotedContent) : List Block :=
  match quotedContent with
  | some quoted =>
    [buildAttributionBlock quoted.attribution, .blockQuote (fromHtml quoted.bodyHtml).blocks]
  | none => []

theorem signatureRegion_blank {html : Text} (h : isBlankHtml fromHtml html = true) :
    signatureRegion fromHtml (some html) = [] := if_pos h

theorem signatureRegion_of_not_blank {html : Text} (h : isBlankHtml fromHtml html = false) :
    signatureRegion fromHtml (some html) = .horizontalRule :: (fromHtml html).blocks :=
  if_neg (by rw [h]; exact Bool.false_ne_true)

theorem assemble_document (s : Option Text) (id : Option String) (q : Option QuotedContent) :
    (assembleComposeDocument fromHtml s id q).document =
      ⟨Block.emptyParagraph :: (signatureRegion fromHtml s ++ quotedRegion fromHtml q)⟩ := by
  have hsignature : signatureRegion fromHtml s =
      match s.filter fun html => !isBlankHtml fromHtml html with
      | some html => Block.horizontalRule :: (fromHtml html).blocks
      | none => [] := by
    cases s with
    | none => rfl
    | some html =>
      cases hblank : isBlankHtml fromHtml html with
      | true => simp [signatureRegion, Option.filter, hblank]
      | false => simp [signatureRegion, Option.filter, hblank]
  rw [hsignature]
  rfl

theorem assemble_separator {html : Text} (h : isBlankHtml fromHtml html = false) (id : Option String)
    (q : Option QuotedContent) :
    (assembleComposeDocument fromHtml (some html) id q).signatureSeparatorIndex = some 1 := by
  simp [assembleComposeDocument, h]

/-! ## Removing a signature -/

theorem insertBlock_mid (pre post : List Block) (b : Block) :
    Document.insertBlock ⟨pre ++ post⟩ pre.length b = .ok ⟨pre ++ b :: post⟩ := by
  rw [Document.insertBlock, vecInsert_mid]
  rfl

theorem removeBlock_mid {pre : List Block} (hpre : pre ≠ []) (post : List Block) (b : Block) :
    Document.removeBlock ⟨pre ++ b :: post⟩ pre.length = .ok (some ⟨pre ++ post⟩) := by
  have hpos : 0 < pre.length := length_pos_iff.mpr hpre
  have hmany : ¬ (pre ++ b :: post).length ≤ 1 := by
    rw [length_append, length_cons]
    omega
  rw [Document.removeBlock, if_neg hmany, vecRemove_mid]
  rfl

/-- The blocks go one by one from the last to the first, and none of them is the only one. -/
theorem removeSignatureLoop_doc {pre : List Block} (hpre : pre ≠ []) (mid post : List Block) :
    removeSignatureLoop pre.length mid.length ⟨pre ++ (mid ++ post)⟩ = .ok ⟨pre ++ post⟩ := by
  induction mid using List.reverseRecOn generalizing post with
  | nil => rfl
  | append_singleton mid b ih =>
    have hne : pre ++ mid ≠ [] := by simp [hpre]
    have hmove : pre ++ ((mid ++ [b]) ++ post) = (pre ++ mid) ++ b :: post := by simp
    have hlen : pre.length + mid.length = (pre ++ mid).length := by rw [length_append]
    rw [length_append, length_singleton, removeSignatureLoop, hmove, hlen, removeBlock_mid hne]
    rw [append_assoc]
    exact ih post

theorem removeSignature_doc {pre : List Block} (hpre : pre ≠ []) (mid post : List Block) :
    removeSignature ⟨pre ++ (mid ++ post)⟩ pre.length (some (pre.length + mid.length)) =
      .ok ⟨pre ++ post⟩ := by
  have hstart : min pre.length (Document.blockCount ⟨pre ++ (mid ++ post)⟩) = pre.length := by
    simp only [Document.blockCount, length_append]
    omega
  have hstop : min (pre.length + mid.length) (Document.blockCount ⟨pre ++ (mid ++ post)⟩) =
      pre.length + mid.length := by
    simp only [Document.blockCount, length_append]
    omega
  rw [removeSignature]
  simp only [Option.getD_some, hstart, hstop, Nat.add_sub_cancel_left]
  exact removeSignatureLoop_doc hpre mid post

theorem insertSignatureLoop_doc (pre bs post : List Block) :
    insertSignatureLoop pre.length bs ⟨pre ++ post⟩ = .ok ⟨pre ++ (bs ++ post)⟩ := by
  induction bs generalizing pre with
  | nil => rfl
  | cons b bs ih =>
    have hmove : pre ++ b :: post = (pre ++ [b]) ++ post := append_cons ..
    have hlen : pre.length + 1 = (pre ++ [b]).length := by rw [length_append]; rfl
    rw [insertSignatureLoop, insertBlock_mid]
    simp only [bind, Except.bind]
    rw [hmove, hlen, ih, append_assoc]
    rfl

/-- The separator of a signature that is inserted, and the place kept for one that is blank. -/
theorem insertSignature_doc (pre post : List Block) (html : Text) :
    insertSignature fromHtml ⟨pre ++ post⟩ pre.length html =
      .ok (⟨pre ++ (signatureRegion fromHtml (some html) ++ post)⟩,
        if isBlankHtml fromHtml html then none else some pre.length) := by
  cases hblank : isBlankHtml fromHtml html with
  | true =>
    rw [insertSignature, if_pos hblank, signatureRegion_blank fromHtml hblank]
    rfl
  | false =>
    have hat : min pre.length (Document.blockCount ⟨pre ++ post⟩) = pre.length := by
      simp only [Document.blockCount, length_append]
      omega
    have hmove : pre ++ Block.horizontalRule :: post = (pre ++ [.horizontalRule]) ++ post :=
      append_cons ..
    have hlen : pre.length + 1 = (pre ++ [Block.horizontalRule]).length := by
      rw [length_append]
      rfl
    rw [insertSignature, if_neg (by rw [hblank]; exact Bool.false_ne_true),
      signatureRegion_of_not_blank fromHtml hblank]
    simp only [hat, insertBlock_mid, bind, Except.bind]
    rw [hmove, hlen, insertSignatureLoop_doc]
    simp [pure, Except.pure]

/-- The blocks of a signature that removing it leaves behind: all from the block before its first
block quote on, which is the separator where the signature starts with the quote. -/
def leftover (signature : List Block) : List Block :=
  match signature.findIdx? Block.isBlockQuote with
  | some k => (Block.horizontalRule :: signature).drop k
  | none => []

theorem leftover_eq_nil {signature : List Block} :
    leftover signature = [] ↔ signature.any Block.isBlockQuote = false := by
  unfold leftover
  cases hfind : signature.findIdx? Block.isBlockQuote with
  | none =>
    refine ⟨fun _ => ?_, fun _ => rfl⟩
    rw [any_eq_false]
    intro b hb
    rw [findIdx?_eq_none_iff.mp hfind b hb]
    exact Bool.false_ne_true
  | some k =>
    obtain ⟨hlt, hquote, -⟩ := findIdx?_eq_some_iff_getElem.mp hfind
    constructor
    · intro hnil
      rw [drop_eq_nil_iff, length_cons] at hnil
      omega
    · intro hany
      exact absurd hquote (any_eq_false.mp hany _ (getElem_mem hlt))

/-- Behind the separator come the signature and the quoted message: the removed blocks end before
the leftover ones. -/
theorem findSignatureEnd_doc (pre signature : List Block) (q : Option QuotedContent) :
    ∃ removed, .horizontalRule :: signature = removed ++ leftover signature ∧
      findSignatureEnd ⟨pre ++ .horizontalRule :: (signature ++ quotedRegion fromHtml q)⟩ pre.length =
        pre.length + removed.length := by
  have hdrop : (pre ++ Block.horizontalRule :: (signature ++ quotedRegion fromHtml q)).drop
      (pre.length + 1) = signature ++ quotedRegion fromHtml q := by
    rw [append_cons, drop_left' (by rw [length_append]; rfl)]
  unfold findSignatureEnd leftover
  rw [hdrop, findIdx?_append]
  cases hfind : signature.findIdx? Block.isBlockQuote with
  | some k =>
    obtain ⟨hlt, -⟩ := findIdx?_eq_some_iff_getElem.mp hfind
    refine ⟨(Block.horizontalRule :: signature).take k, (take_append_drop ..).symm, ?_⟩
    rw [length_take, length_cons]
    simp only [Option.some_or]
    omega
  | none =>
    cases q with
    | none =>
      simp [quotedRegion, Document.blockCount]
    | some quoted =>
      simp [quotedRegion, buildAttributionBlock, Block.isBlockQuote, findIdx?_cons]
      omega

/-- What a switch leaves: the text above, the new signature, the leftover of the old one and the
quoted message. The place of the signature stays the same. -/
theorem replaceSignature_doc {user : List Block} (huser : user ≠ []) (signature : List Block)
    (s : Option Text) (q : Option QuotedContent) : replaceSignature fromHtml
        ⟨user ++ .horizontalRule :: (signature ++ quotedRegion fromHtml q)⟩ (some user.length) s =
      .ok (⟨user ++ (signatureRegion fromHtml s ++ (leftover signature ++ quotedRegion fromHtml q))⟩,
        some user.length) := by
  obtain ⟨removed, hparts, hend⟩ := findSignatureEnd_doc fromHtml user signature q
  have hblocks : user ++ .horizontalRule :: (signature ++ quotedRegion fromHtml q) =
      user ++ (removed ++ (leftover signature ++ quotedRegion fromHtml q)) := by
    rw [← cons_append, hparts, append_assoc]
  rw [replaceSignature]
  simp only [block_mid, hend, bind, Except.bind]
  rw [hblocks, removeSignature_doc huser]
  cases s with
  | none => rfl
  | some html =>
    simp only [Option.getD_some, insertSignature_doc]
    cases isBlankHtml fromHtml html <;> rfl

/-- A switch gives the document assembled with the new signature exactly where the old one has no
block quote. -/
theorem replaceSignature_assembled_iff (s1 : Text) (h1 : isBlankHtml fromHtml s1 = false)
    (s2 : Option Text) (q : Option QuotedContent) (id1 id2 id3 : Option String) :
    (∃ document sep,
      replaceSignature fromHtml (assembleComposeDocument fromHtml (some s1) id1 q).document
          (assembleComposeDocument fromHtml (some s1) id1 q).signatureSeparatorIndex s2 =
        .ok (document, sep) ∧ document = (assembleComposeDocument fromHtml s2 id2 q).document ∧
      ((∀ html, s2 = some html → isBlankHtml fromHtml html = true) →
        document = (assembleComposeDocument fromHtml none id3 q).document)) ↔
    (fromHtml s1).blocks.any Block.isBlockQuote = false := by
  have hrun := replaceSignature_doc fromHtml (cons_ne_nil Block.emptyParagraph [])
    (fromHtml s1).blocks s2 q
  rw [assemble_document, assemble_separator fromHtml h1, signatureRegion_of_not_blank fromHtml h1,
    assemble_document, assemble_document]
  rw [← leftover_eq_nil]
  constructor
  · rintro ⟨document, sep, hrun', hdoc, -⟩
    have hsame := congrArg (fun r => r.map fun r => r.1.blocks.length) (hrun.symm.trans hrun')
    simp only [Except.map, Except.ok.injEq, hdoc, length_append, length_cons, length_nil] at hsame
    exact length_eq_zero_iff.mp (by omega)
  · intro hnil
    rw [hnil] at hrun
    refine ⟨_, _, hrun, rfl, fun hblank => ?_⟩
    cases s2 with
    | none => rfl
    | some html =>
      rw [signatureRegion_blank fromHtml (hblank html rfl)]
      rfl

end Html

def quoteOrLine (html : Text) : Document :=
  if html = "<blockquote>b</blockquote>".toList then ⟨[.blockQuote [.paragraph [.plain ['b']]]]⟩
  else ⟨[.paragraph [.plain html]]⟩

theorem replaceSignature_assembled_line : ∃ document sep,
      replaceSignature quoteOrLine (assembleComposeDocument quoteOrLine (some ['a']) none none).document
          (assembleComposeDocument quoteOrLine (some ['a']) none none).signatureSeparatorIndex
          (some ['c']) = .ok (document, sep) ∧
      document = (assembleComposeDocument quoteOrLine (some ['c']) none none).document := by
  obtain ⟨document, sep, hrun, hdoc, -⟩ :=
    (replaceSignature_assembled_iff quoteOrLine ['a'] (by decide) (some ['c']) none none none none).mpr
      (by decide)
  exact ⟨document, sep, hrun, hdoc⟩

/-- A signature that is a quote stays in the document under the one that replaces it. -/
theorem replaced_quote_stays : ∃ document sep, replaceSignature quoteOrLine
          (assembleComposeDocument quoteOrLine (some "<blockquote>b</blockquote>".toList) none none).document
          (assembleComposeDocument quoteOrLine (some "<blockquote>b</blockquote>".toList) none
            none).signatureSeparatorIndex (some ['c']) = .ok (document, sep) ∧
      document.blocks = [.emptyParagraph, .horizontalRule, .paragraph [.plain ['c']], .horizontalRule,
        .blockQuote [.paragraph [.plain ['b']]]] ∧
      document ≠ (assembleComposeDocument quoteOrLine (some ['c']) none none).document :=
  ⟨_, _, rfl, by decide, by decide⟩

section Html

variable (fromHtml : Text → Document)

/-! ## Runs of switches -/

end Html

end Ratatoskr.Rte
