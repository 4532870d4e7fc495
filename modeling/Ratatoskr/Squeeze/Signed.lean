import Mathlib.Data.List.Infix

/-!
# Squeeze.Signed

The look for signature marks before an attachment is packed again (`squeeze/src/signed.rs`, `detect.rs`,
`lib.rs`). What the two crates that read PDF and ZIP do is a parameter, the ways of packing are one as well.

* `compress_unchanged_iff`: what the look finds is left as it is, and nothing else surely is.
-/

namespace Ratatoskr.Squeeze

open List

abbrev Bytes := List UInt8

def ascii (text : String) : Bytes := text.toList.map fun c => c.toNat.toUInt8

inductive OoxmlKind where
  | docx | xlsx | pptx
  deriving DecidableEq

inductive OdfKind where
  | odt | ods | odp
  deriving DecidableEq

inductive Format where
  | jpeg | png | webP | gif | bmp | tiff | heic | pdf | svg | unsupported
  | ooxml (kind : OoxmlKind)
  | odf (kind : OdfKind)
  deriving DecidableEq

def trimLeadingWhitespaceAndBom (data : Bytes) : Bytes :=
  (if [0xEF, 0xBB, 0xBF] <+: data then data.drop 3 else data).dropWhile (· ∈ ascii " \t\n\r")

def detectFromMagic (data : Bytes) : Format :=
  if data.length < 4 then .unsupported
  else if [0xFF, 0xD8, 0xFF] <+: data then .jpeg
  else if [0x89, 0x50, 0x4E, 0x47] <+: data then .png
  else if ascii "%PDF" <+: data then .pdf
  else if ascii "RIFF" <+: data ∧ ascii "WEBP" <+: data.drop 8 then .webP
  else if ascii "GIF8" <+: data then .gif
  else if ascii "BM" <+: data then .bmp
  else if [0x49, 0x49, 0x2A, 0x00] <+: data ∨ [0x4D, 0x4D, 0x00, 0x2A] <+: data then .tiff
  else if ascii "<svg" <+: data then .svg
  else if 10 ≤ data.length ∧ ascii "<svg" <+: trimLeadingWhitespaceAndBom data then .svg
  else .unsupported

def toAsciiLowercase (text : String) : String := String.ofList (text.toList.map Char.toLower)

def detect (mimeType : String) (data : Bytes) : Format :=
  match toAsciiLowercase mimeType with
  | "image/jpeg" | "image/jpg" => .jpeg
  | "image/png" => .png
  | "image/webp" => .webP
  | "image/gif" => .gif
  | "image/bmp" | "image/x-bmp" | "image/x-ms-bmp" => .bmp
  | "image/tiff" => .tiff
  | "image/heic" | "image/heif" => .heic
  | "application/pdf" => .pdf
  | "application/vnd.openxmlformats-officedocument.wordprocessingml.document"
  | "application/vnd.ms-word.document.macroenabled.12" => .ooxml .docx
  | "application/vnd.openxmlformats-officedocument.spreadsheetml.sheet"
  | "application/vnd.ms-excel.sheet.macroenabled.12" => .ooxml .xlsx
  | "application/vnd.openxmlformats-officedocument.presentationml.presentation"
  | "application/vnd.ms-powerpoint.presentation.macroenabled.12" => .ooxml .pptx
  | "application/vnd.oasis.opendocument.text" => .odf .odt
  | "application/vnd.oasis.opendocument.spreadsheet" => .odf .ods
  | "application/vnd.oasis.opendocument.presentation" => .odf .odp
  | "image/svg+xml" => .svg
  | _ => detectFromMagic data

inductive SignedMarker where
  | pdfTypeSig | pdfByteRange | pdfDocTimeStamp | ooxmlXmlSignatures | odfDocumentSignatures

def windows (size : Nat) (data : Bytes) : List Bytes :=
  (data.tails.map (·.take size)).filter (·.length = size)

def containsSubsequence (haystack needle : Bytes) : Bool :=
  if needle = [] ∨ haystack.length < needle.length then false
  else (windows needle.length haystack).any (· = needle)

def detectPdfSignature (data : Bytes) : Option SignedMarker :=
  if containsSubsequence data (ascii "/ByteRange[") || containsSubsequence data (ascii "/ByteRange ") then
    some .pdfByteRange
  else if containsSubsequence data (ascii "/Type /Sig") || containsSubsequence data (ascii "/Type/Sig") ||
      containsSubsequence data (ascii "/Type\n/Sig") || containsSubsequence data (ascii "/Type\r/Sig") ||
      containsSubsequence data (ascii "/Type\t/Sig") then
    if containsSubsequence data (ascii "DocTimeStamp") then some .pdfDocTimeStamp else some .pdfTypeSig
  else none

/-- The crate that reads archives. `open` gives what reading each entry and its name gives, none where it
fails; it lists every entry of the central directory. -/
structure Zip where
  openArchive : Bytes → Option (List (Option (Option String)))
  centralDirectory : Bytes → List String
  lists : ∀ data, ∀ name ∈ centralDirectory data,
    ∃ entries, openArchive data = some entries ∧ some (some name) ∈ entries

def entryMarker (name : String) : Option SignedMarker :=
  if "_xmlsignatures/".toList <+: name.toList then some .ooxmlXmlSignatures
  else if name = "META-INF/documentsignatures.xml" ∨ name = "META-INF/macrosignatures.xml" then
    some .odfDocumentSignatures
  else none

def detectArchiveSignature (zip : Zip) (data : Bytes) : Option SignedMarker := do
  let archive ← zip.openArchive data
  archive.findSome? fun entry => do
    let name ← entry
    entryMarker (← name)

def detectSignature (zip : Zip) (format : Format) (data : Bytes) : Option SignedMarker :=
  match format with
  | .pdf => detectPdfSignature data
  | .ooxml _ | .odf _ => detectArchiveSignature zip data
  | _ => none

inductive CompressOutput where
  | unchanged
  | compressed (data : Bytes)

structure CompressResult where
  originalSize : Nat
  compressedSize : Nat
  output : CompressOutput
  newMimeType : Option String

def CompressResult.intoBytes (result : CompressResult) (original : Bytes) : Bytes :=
  match result.output with
  | .compressed data => data
  | .unchanged => original

def unchanged (input : Bytes) : CompressResult := ⟨input.length, input.length, .unchanged, none⟩

inductive SqueezeError where
  | imageDecode | imageEncode | pdfParse | pdfWrite | archiveRead | archiveWrite | io

inductive ArchiveKind where
  | docx | xlsx | pptx | odt | ods | odp

/-- The ways of packing under one configuration: `repack` reads a PDF and writes it anew, `worthwhile` says
of two sizes whether enough is saved, the others are the strategies for images, archives and SVG. -/
structure Strategies where
  heic : Bool
  repack : Bytes → Except SqueezeError Bytes
  worthwhile : Nat → Nat → Bool
  compressImage : Bytes → Format → Except SqueezeError CompressResult
  compressArchive : Bytes → ArchiveKind → Except SqueezeError CompressResult
  compressSvg : Bytes → Except SqueezeError CompressResult

def compressPdf (strategies : Strategies) (input : Bytes) : Except SqueezeError CompressResult := do
  let output ← strategies.repack input
  if strategies.worthwhile input.length output.length then
    pure ⟨input.length, output.length, .compressed output, none⟩
  else
    pure (unchanged input)

def compress (zip : Zip) (strategies : Strategies) (input : Bytes) (mimeType : String) :
    Except SqueezeError CompressResult :=
  let format := detect mimeType input
  if (detectSignature zip format input).isSome then .ok (unchanged input)
  else match format with
    | .jpeg | .png | .webP | .gif | .bmp | .tiff => strategies.compressImage input format
    | .heic => if strategies.heic then strategies.compressImage input format else .ok (unchanged input)
    | .pdf => compressPdf strategies input
    | .ooxml .docx => strategies.compressArchive input .docx
    | .ooxml .xlsx => strategies.compressArchive input .xlsx
    | .ooxml .pptx => strategies.compressArchive input .pptx
    | .odf .odt => strategies.compressArchive input .odt
    | .odf .ods => strategies.compressArchive input .ods
    | .odf .odp => strategies.compressArchive input .odp
    | .svg => strategies.compressSvg input
    | .unsupported => .ok (unchanged input)

/-! ## What is signed -/

/-- NUL, tab, line feed, form feed, carriage return and space. -/
def pdfWhiteSpace : Bytes := [0, 9, 10, 12, 13, 32]

/-- A token of a plain signature: white space of any length stands between its two names. -/
def PdfToken (data : Bytes) : Prop :=
  ∃ run : Bytes, (∀ byte ∈ run, byte ∈ pdfWhiteSpace) ∧
    (ascii "/ByteRange" ++ run ++ ascii "[" <:+: data ∨ ascii "/Type" ++ run ++ ascii "/Sig" <:+: data ∨
      ascii "/Type" ++ run ++ ascii "/DocTimeStamp" <:+: data)

/-- The spellings the look knows. -/
def knownTokens : List Bytes :=
  ["/ByteRange[", "/ByteRange ", "/Type /Sig", "/Type/Sig", "/Type\n/Sig", "/Type\r/Sig", "/Type\t/Sig"].map ascii

def ArchiveEntry (name : String) : Prop :=
  "_xmlsignatures/".toList <+: name.toList ∨ name = "META-INF/documentsignatures.xml" ∨
    name = "META-INF/macrosignatures.xml"

def Format.IsArchive : Format → Prop
  | .ooxml _ | .odf _ => True
  | _ => False

/-- The attachment comes back byte for byte, whatever packing would do to it. -/
def Kept (zip : Zip) (mimeType : String) (input : Bytes) : Prop :=
  ∀ strategies, ∃ result, compress zip strategies input mimeType = .ok result ∧
    result.output = .unchanged ∧ result.intoBytes input = input

theorem containsSubsequence_iff {haystack needle : Bytes} (hneedle : needle ≠ []) :
    containsSubsequence haystack needle = true ↔ needle <:+: haystack := by
  have hwindow : needle ∈ windows needle.length haystack ↔ needle <:+: haystack := by
    simp only [windows, mem_filter, mem_map, mem_tails, decide_true, and_true, infix_iff_prefix_suffix,
      prefix_iff_eq_take]
    exact exists_congr fun tail => by rw [and_comm, eq_comm]
  rw [containsSubsequence]
  split
  · next h =>
    have hshort : haystack.length < needle.length := h.resolve_left hneedle
    exact iff_of_false (by simp) fun hin => absurd hin.length_le (by omega)
  · simp [hwindow]

theorem detectPdfSignature_isSome (data : Bytes) :
    (detectPdfSignature data).isSome = true ↔ ∃ token ∈ knownTokens, token <:+: data := by
  have hany : (detectPdfSignature data).isSome = knownTokens.any (containsSubsequence data) := by
    simp only [detectPdfSignature, knownTokens, map_cons]
    split <;> grind
  rw [hany, any_eq_true]
  refine exists_congr fun token => and_congr_right fun htoken => containsSubsequence_iff ?_
  rintro rfl
  revert htoken
  decide

theorem detectArchiveSignature_isSome {zip : Zip} {data : Bytes} {name : String}
    (hlisted : name ∈ zip.centralDirectory data) (hname : ArchiveEntry name) :
    (detectArchiveSignature zip data).isSome = true := by
  obtain ⟨entries, hopen, hmem⟩ := zip.lists data name hlisted
  have hmarker : (entryMarker name).isSome = true := by
    rw [entryMarker]
    split
    · rfl
    · next h => rw [if_pos (hname.resolve_left h), Option.isSome_some]
  rw [detectArchiveSignature, hopen, Option.bind_eq_bind, Option.bind_some, findSome?_isSome_iff]
  exact ⟨_, hmem, hmarker⟩

theorem kept_of_signature {zip : Zip} {mimeType : String} {input : Bytes}
    (h : (detectSignature zip (detect mimeType input) input).isSome = true) : Kept zip mimeType input :=
  fun _ => ⟨unchanged input, if_pos h, rfl, rfl⟩

/-- A PDF whose mark is not found is packed again as soon as packing saves something. -/
theorem not_kept_of_pdf {zip : Zip} {mimeType : String} {input : Bytes} (hpdf : detect mimeType input = .pdf)
    (h : ¬ (detectPdfSignature input).isSome = true) : ¬ Kept zip mimeType input := by
  intro hkept
  obtain ⟨result, hresult, houtput, -⟩ := hkept
    ⟨false, fun _ => .ok [], fun _ _ => true, fun _ _ => .error .io, fun _ _ => .error .io, fun _ => .error .io⟩
  simp only [compress, hpdf, detectSignature, h] at hresult
  cases hresult
  cases houtput

theorem compress_unchanged_iff (zip : Zip) (mimeType : String) (input : Bytes) :
    ((detect mimeType input = .pdf → PdfToken input → Kept zip mimeType input) ↔
      (detect mimeType input = .pdf → PdfToken input → ∃ token ∈ knownTokens, token <:+: input)) ∧
    ((detect mimeType input).IsArchive → (∃ name ∈ zip.centralDirectory input, ArchiveEntry name) →
      Kept zip mimeType input) := by
  refine ⟨forall_congr' fun hpdf => forall_congr' fun _ => ?_, fun harchive ⟨name, hlisted, hname⟩ => ?_⟩
  · rw [← detectPdfSignature_isSome]
    refine ⟨fun hkept => by_contra fun h => not_kept_of_pdf hpdf h hkept, fun h => kept_of_signature ?_⟩
    rwa [hpdf]
  · have hsome := detectArchiveSignature_isSome hlisted hname
    apply kept_of_signature
    cases hformat : detect mimeType input <;> simp_all [Format.IsArchive, detectSignature]

/-- A line feed before the bracket hides the signature. -/
theorem hidden_signature :
    detect "application/pdf" (ascii "%PDF-1.7\n<</ByteRange\n[0 9 9 9]>>") = .pdf ∧
    PdfToken (ascii "%PDF-1.7\n<</ByteRange\n[0 9 9 9]>>") ∧
    ¬ Kept ⟨fun _ => none, fun _ => [], by simp⟩ "application/pdf" (ascii "%PDF-1.7\n<</ByteRange\n[0 9 9 9]>>") :=
  ⟨by decide +kernel,
    ⟨ascii "\n", by decide +kernel, .inl ⟨ascii "%PDF-1.7\n<<", ascii "0 9 9 9]>>", by decide +kernel⟩⟩,
    not_kept_of_pdf (by decide +kernel) (by decide +kernel)⟩

end Ratatoskr.Squeeze
