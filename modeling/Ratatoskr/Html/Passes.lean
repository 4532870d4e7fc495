import Ratatoskr.Html.Sanitizer

/-!
# Html.Passes

What all passes of the sanitizer do to one element.

* `get_filterMap`, `get_set` : the value of an attribute after an operation on all of them.
* `sanitizeElement`, `sanitized_eq` : the passes over a document are one pass.
* `sanitize_cases` : which elements it takes out, and the source and the style of those that it keeps.
-/

namespace Ratatoskr.Html

open List
open Lib (Markup Verdict)

namespace Attributes

theorem lookup_filterMap (f : String → Text → Option Text) {entries : List (String × Text)}
    (h : (entries.map Prod.fst).Nodup) (name : String) :
    (entries.filterMap fun e => (f e.1 e.2).map (e.1, ·)).lookup name =
      (entries.lookup name).bind (f name) := by
  induction entries with
  | nil => rfl
  | cons e entries ih =>
    obtain ⟨n, value⟩ := e
    obtain ⟨hnew, hrest⟩ := nodup_cons.mp h
    have ih := ih hrest
    by_cases hn : name = n
    · subst hn
      have hnone : entries.lookup name = none := by
        rw [lookup_eq_none_iff]
        intro e he
        exact bne_iff_ne.mpr fun heq => hnew (mem_map.mpr ⟨e, he, heq.symm⟩)
      cases hf : f name value with
      | none => simp [hf, ih, hnone]
      | some w => simp [hf]
    · have hne : (name == n) = false := beq_false_of_ne hn
      cases hf : f n value with
      | none => simp [hf, ih, lookup_cons, hne]
      | some w => simp [hf, ih, lookup_cons, hne]

theorem get_filterMap (f : String → Text → Option Text) (a : Attributes) (name : String) :
    (a.filterMap f).get name = (a.get name).bind (f name) := lookup_filterMap f a.distinct name

theorem get_remove (a : Attributes) (name n : String) :
    (a.remove name).get n = if n = name then none else a.get n := by
  rw [remove, get_filterMap]
  split
  · exact Option.bind_fun_none _
  · exact Option.bind_fun_some _

theorem get_of_not_mem {a : Attributes} {name : String} (h : name ∉ a.names) : a.get name = none := by
  rw [get, lookup_eq_none_iff]
  intro e he
  exact bne_iff_ne.mpr fun heq => h (mem_map.mpr ⟨e, he, heq.symm⟩)

theorem get_isSome {a : Attributes} {name : String} (h : name ∈ a.names) :
    ∃ value, a.get name = some value := by
  cases hget : a.get name with
  | some value => exact ⟨value, rfl⟩
  | none =>
    obtain ⟨e, he, rfl⟩ := mem_map.mp h
    have hne := lookup_eq_none_iff.mp hget e he
    simp at hne

theorem get_set (a : Attributes) (name : String) (value : Text) (n : String) :
    (a.set name value).get n = if n = name then some value else a.get n := by
  unfold set
  split
  · rename_i hmem
    rw [get_filterMap]
    split
    · rename_i heq
      obtain ⟨old, hold⟩ := get_isSome (heq ▸ hmem)
      rw [hold]
      rfl
    · exact Option.bind_fun_some _
  · rename_i hmem
    have hnone := get_of_not_mem hmem
    simp only [get, lookup_append] at hnone ⊢
    split
    · rename_i heq
      rw [heq, hnone]
      simp
    · rename_i hne
      have hbeq : (n == name) = false := beq_false_of_ne hne
      simp [lookup_cons, hbeq]

end Attributes

def stripImports (style : Text) : Text :=
  if contains "@import".toList (toAsciiLowercase style) then replaceAll importRe [] style.length style
  else style

def stripUrls (style : Text) : Text :=
  if isMatch cssUrlHttpRe style then replaceAll cssUrlHttpReplaceRe "none".toList style.length style
  else style

namespace Libraries

variable (lib : Libraries)

/-- The loop over the names, for the value of one of them. -/
def cleanValue (tagName name : String) (value : Text) : Option Text :=
  if eventHandlerRe name.toList then none
  else if isUrlName name && (jsUrlRe value || lib.isForbiddenData tagName name value) then none
  else some (if name = "style" then stripImports value else value)

theorem get_rewriteStyle (found : Text → Bool) (without : Text → Text) (a : Attributes) (n : String) :
    (rewriteStyle found without a).get n =
      if n = "style" then (a.get n).map fun style => if found style then without style else style
      else a.get n := by
  unfold rewriteStyle
  cases hget : a.get "style" with
  | none =>
    dsimp only
    split
    · rename_i hn
      rw [hn, hget]
      rfl
    · rfl
  | some style =>
    dsimp only
    by_cases hfound : found style = true
    · rw [if_pos hfound, Attributes.get_set]
      split
      · rename_i hn
        rw [hn, hget, Option.map_some, if_pos hfound]
      · rfl
    · rw [if_neg hfound]
      split
      · rename_i hn
        rw [hn, hget, Option.map_some, if_neg hfound]
      · rfl

theorem get_checkUrl (unwanted : Text → Bool) (name : String) (a : Attributes) (n : String) :
    (checkUrl unwanted name a).get n =
      if n = name then (a.get n).filter fun value => !(isUrlName name && unwanted value) else a.get n := by
  unfold checkUrl
  by_cases hn : n = name
  · subst hn
    cases hget : a.get n with
    | none => cases isUrlName n <;> simp [hget]
    | some value =>
      cases isUrlName n <;> cases hbad : unwanted value <;>
        simp [hget, hbad, Attributes.get_remove, Option.filter]
  · split
    · rw [Attributes.get_remove, if_neg hn]
    · rfl

theorem get_cleanAttribute (tagName : String) (a : Attributes) (name n : String) :
    (lib.cleanAttribute tagName a name).get n =
      if n = name then (a.get n).bind (lib.cleanValue tagName n) else a.get n := by
  unfold cleanAttribute
  by_cases hn : n = name
  · subst hn
    rw [if_pos rfl]
    by_cases hevent : eventHandlerRe n.toList = true
    · rw [if_pos hevent, Attributes.get_remove, if_pos rfl]
      cases a.get n with
      | none => rfl
      | some value => exact (if_pos hevent).symm
    · rw [if_neg hevent]
      have hurls : (checkUrl (lib.isForbiddenData tagName n) n (checkUrl jsUrlRe n a)).get n =
          (a.get n).filter fun value =>
            !(isUrlName n && (jsUrlRe value || lib.isForbiddenData tagName n value)) := by
        rw [get_checkUrl, if_pos rfl, get_checkUrl, if_pos rfl]
        cases a.get n with
        | none => rfl
        | some value =>
          cases hjs : jsUrlRe value <;> cases hdata : lib.isForbiddenData tagName n value <;>
            cases hname : isUrlName n <;> simp [hdata]
      have hvalue : (if n = "style" then
            cleanStyle (checkUrl (lib.isForbiddenData tagName n) n (checkUrl jsUrlRe n a))
          else checkUrl (lib.isForbiddenData tagName n) n (checkUrl jsUrlRe n a)).get n =
          ((a.get n).filter fun value =>
            !(isUrlName n && (jsUrlRe value || lib.isForbiddenData tagName n value))).map fun value =>
              if n = "style" then stripImports value else value := by
        split
        · rename_i hstyle
          rw [cleanStyle, get_rewriteStyle, if_pos hstyle, hurls]
          rfl
        · rw [hurls, Option.map_id']
      refine hvalue.trans ?_
      cases a.get n with
      | none => rfl
      | some value =>
        rw [Option.bind_some, cleanValue, if_neg hevent]
        by_cases hbad : (isUrlName n && (jsUrlRe value || lib.isForbiddenData tagName n value)) = true
        · rw [if_pos hbad, Option.filter_some_neg (by simp [hbad])]
          rfl
        · rw [if_neg hbad, Option.filter_some_pos (by simp [hbad])]
          rfl
  · split
    · rw [Attributes.get_remove, if_neg hn]
    split
    · rename_i hname
      rw [cleanStyle, get_rewriteStyle, if_neg (hname ▸ hn), get_checkUrl, if_neg hn, get_checkUrl,
        if_neg hn]
    · rw [get_checkUrl, if_neg hn, get_checkUrl, if_neg hn]

theorem get_cleanAttributes (tagName : String) (a : Attributes) (n : String) :
    (a.names.foldl (lib.cleanAttribute tagName) a).get n = (a.get n).bind (lib.cleanValue tagName n) := by
  have hloop : ∀ (names : List String) (b : Attributes), names.Nodup →
      (names.foldl (lib.cleanAttribute tagName) b).get n =
        if n ∈ names then (b.get n).bind (lib.cleanValue tagName n) else b.get n := by
    intro names
    induction names with
    | nil => exact fun b _ => rfl
    | cons name names ih =>
      intro b hnodup
      obtain ⟨hnew, hrest⟩ := nodup_cons.mp hnodup
      rw [foldl_cons, ih _ hrest, get_cleanAttribute]
      by_cases hn : n = name
      · rw [if_neg (hn ▸ hnew), if_pos hn, if_pos (hn ▸ mem_cons_self ..)]
      · simp [hn]
  rw [hloop a.names a a.distinct]
  split
  · rfl
  · rename_i hn
    rw [Attributes.get_of_not_mem hn]
    rfl

/-! ## All passes on one element -/

def passElement (pass : Pass) (handler : Element → Verdict Element) (e : Element) : Verdict Element :=
  if lib.fails pass then .keep e else handler e

def sanitizeElement (e : Element) : Verdict Element :=
  (lib.passElement .dangerous lib.dangerousElement e).andThen fun e =>
    (lib.passElement .amp ampElement e).andThen fun e =>
      (lib.passElement .images imagesElement e).andThen lib.whitelistElement

theorem rewriteStr_eq (pass : Pass) (handler : Element → Verdict Element) (html : Document) :
    lib.rewriteStr pass handler html = html.rewrite (lib.passElement pass handler) := by
  unfold rewriteStr passElement
  cases lib.fails pass with
  | true => exact (Markup.rewrite_keep html).symm
  | false => rfl

theorem sanitized_eq {html : Document} (h : html ≠ .nil) :
    sanitizeHtmlBodyWithImagePolicy lib html .stripRemote =
      (lib.inlineCss html).rewrite lib.sanitizeElement := by
  have hpasses : lib.whitelistSanitize (lib.stripRemoteImages (lib.stripAmpElements
      (lib.stripDangerousElements (lib.inlineCss html)))) =
      (lib.inlineCss html).rewrite lib.sanitizeElement := by
    rw [whitelistSanitize, stripRemoteImages, stripAmpElements, stripDangerousElements, rewriteStr_eq,
      rewriteStr_eq, rewriteStr_eq, Markup.rewrite_rewrite, Markup.rewrite_rewrite, Markup.rewrite_rewrite]
    rfl
  cases html with
  | nil => exact absurd rfl h
  | text s rest => exact hpasses
  | element a content rest => exact hpasses

/-- The `src` that the second pass leaves. -/
def keptSrc (e : Element) : Option Text :=
  (e.attributes.get "src").filter fun raw =>
    lib.fails .dangerous || !(jsUrlRe raw || lib.isForbiddenData e.tagName "src" raw)

/-- The element is an image whose `src` is taken for a remote one. -/
def caught (e : Element) : Bool :=
  !lib.fails .images && e.tagName = "img" && (lib.keptSrc e).any isRemoteSrc

/-- The text of a style without what the expressions find in it. -/
def leftStyle (style : Text) : Text :=
  let style := if lib.fails .dangerous then style else stripImports style
  if lib.fails .images then style else stripUrls style

def hidesContent (e : Element) : Bool :=
  (!lib.fails .dangerous && decide (e.tagName ∈ removeTagsWithContent)) ||
    (!lib.fails .amp && decide (e.tagName ∈ ampRemoveTags)) || e.tagName = "script" || e.tagName = "style"

theorem dangerous_cases (e : Element) :
    (lib.fails .dangerous = false ∧ e.tagName ∈ removeTagsWithContent ∧
      lib.passElement .dangerous lib.dangerousElement e = .remove) ∨
    (e.tagName ∈ removeTagsKeepContent ∧ lib.passElement .dangerous lib.dangerousElement e = .unwrap) ∨
    ((lib.fails .dangerous = false → e.tagName ∉ removeTagsWithContent) ∧
      ∃ e', lib.passElement .dangerous lib.dangerousElement e = .keep e' ∧ e'.tagName = e.tagName ∧
        e'.attributes.get "src" = lib.keptSrc e ∧
        e'.attributes.get "style" = (e.attributes.get "style").map fun style =>
          if lib.fails .dangerous then style else stripImports style) := by
  unfold passElement keptSrc
  cases hfails : lib.fails .dangerous with
  | true =>
    refine .inr (.inr ⟨fun h => (Bool.noConfusion h), e, rfl, rfl, ?_, ?_⟩)
    · cases e.attributes.get "src" with
      | none => rfl
      | some raw => rfl
    · simp
  | false =>
    unfold dangerousElement
    simp only [true_and]
    by_cases hcontent : e.tagName ∈ removeTagsWithContent
    · exact .inl ⟨hcontent, if_pos hcontent⟩
    rw [if_neg hcontent]
    by_cases hkeep : e.tagName ∈ removeTagsKeepContent
    · exact .inr (.inl ⟨hkeep, if_pos hkeep⟩)
    rw [if_neg hkeep]
    refine .inr (.inr ⟨fun _ => hcontent, _, rfl, rfl, ?_, ?_⟩)
    · have hname : eventHandlerRe "src".toList = false ∧ isUrlName "src" = true := by decide
      rw [get_cleanAttributes]
      cases e.attributes.get "src" with
      | none => rfl
      | some raw =>
        rw [Option.bind_some, cleanValue, Option.filter_some]
        cases jsUrlRe raw || lib.isForbiddenData e.tagName "src" raw with
        | true => rfl
        | false => rfl
    · have hname : eventHandlerRe "style".toList = false ∧ isUrlName "style" = false := by decide
      rw [get_cleanAttributes]
      cases e.attributes.get "style" with
      | none => rfl
      | some style =>
        rfl

theorem amp_cases (e : Element) :
    (lib.fails .amp = false ∧ e.tagName ∈ ampRemoveTags ∧ lib.passElement .amp ampElement e = .remove) ∨
    ((lib.fails .amp = false → e.tagName ∉ ampRemoveTags) ∧
      ∃ e', lib.passElement .amp ampElement e = .keep e' ∧ e'.tagName = e.tagName ∧
        e'.attributes.get "src" = e.attributes.get "src" ∧
        e'.attributes.get "style" = e.attributes.get "style") := by
  unfold passElement
  cases hfails : lib.fails .amp with
  | true => exact .inr ⟨fun h => (Bool.noConfusion h), e, rfl, rfl, rfl, rfl⟩
  | false =>
    unfold ampElement
    simp only [Bool.false_eq_true, if_false, true_and]
    by_cases hamp : e.tagName ∈ ampRemoveTags
    · exact .inl ⟨hamp, if_pos hamp⟩
    rw [if_neg hamp]
    refine .inr ⟨fun _ => hamp, ?_⟩
    split
    · refine ⟨_, rfl, rfl, ?_, ?_⟩
      · rw [Attributes.get_remove, if_neg (by decide), Attributes.get_remove, if_neg (by decide)]
      · rw [Attributes.get_remove, if_neg (by decide), Attributes.get_remove, if_neg (by decide)]
    · exact ⟨e, rfl, rfl, rfl, rfl⟩

theorem get_blockSrc (a : Attributes) :
    (blockSrc a).get "src" = (if (a.get "src").any isRemoteSrc then none else a.get "src") ∧
      (blockSrc a).get "style" =
        if (a.get "src").any isRemoteSrc then some blockedStyle else a.get "style" := by
  unfold blockSrc
  cases hget : a.get "src" with
  | none => exact ⟨hget, rfl⟩
  | some src =>
    dsimp only
    rw [Option.any_some]
    by_cases hremote : isRemoteSrc src = true
    · rw [if_pos hremote, if_pos hremote, if_pos hremote]
      refine ⟨?_, ?_⟩
      · rw [Attributes.get_set, if_neg (by decide), Attributes.get_set, if_neg (by decide),
          Attributes.get_set, if_neg (by decide), Attributes.get_remove, if_pos rfl]
      · rw [Attributes.get_set, if_pos rfl]
    · rw [if_neg hremote, if_neg hremote, if_neg hremote]
      exact ⟨hget, rfl⟩

theorem get_blockStyle (a : Attributes) (n : String) :
    (blockStyle a).get n = if n = "style" then (a.get n).map stripUrls else a.get n :=
  get_rewriteStyle _ _ a n

theorem stripUrls_blockedStyle : stripUrls blockedStyle = blockedStyle := if_neg (by decide)

theorem images_cases (e : Element) :
    ∃ e', lib.passElement .images imagesElement e = .keep e' ∧ e'.tagName = e.tagName ∧
      e'.attributes.get "src" =
        (if !lib.fails .images && e.tagName = "img" && (e.attributes.get "src").any isRemoteSrc then none
        else e.attributes.get "src") ∧
      e'.attributes.get "style" =
        (if !lib.fails .images && e.tagName = "img" && (e.attributes.get "src").any isRemoteSrc then
          some blockedStyle
        else (e.attributes.get "style").map fun style =>
          if lib.fails .images then style else stripUrls style) := by
  unfold passElement
  cases hfails : lib.fails .images with
  | true => exact ⟨e, rfl, rfl, rfl, by simp⟩
  | false =>
    simp only [Bool.not_false, Bool.true_and]
    have hfirst : ∀ a : Attributes, a = (if e.tagName = "img" then blockSrc e.attributes else e.attributes) →
        a.get "src" = (if e.tagName = "img" && (e.attributes.get "src").any isRemoteSrc then none
          else e.attributes.get "src") ∧
        a.get "style" = if e.tagName = "img" && (e.attributes.get "src").any isRemoteSrc then
          some blockedStyle else e.attributes.get "style" := by
      rintro a rfl
      by_cases himg : e.tagName = "img"
      · simp only [himg]
        exact get_blockSrc e.attributes
      · simp [himg]
    obtain ⟨hsrc, hstyle⟩ := hfirst _ rfl
    refine ⟨_, rfl, rfl, ?_, ?_⟩
    · rw [← hsrc]
      split
      · rw [get_blockStyle, if_neg (by decide)]
      · rfl
    · generalize he : (e.tagName = "img" && (e.attributes.get "src").any isRemoteSrc : Bool) = hit at hstyle ⊢
      split
      · rw [get_blockStyle, hstyle]
        cases hit with
        | true => exact congrArg some stripUrls_blockedStyle
        | false => rfl
      · rename_i hnone
        have hget : e.attributes.get "style" = none := by simpa using hnone
        rw [hstyle, hget]
        cases hit <;> rfl

theorem whitelist_cases (e : Element) :
    ((e.tagName = "script" ∨ e.tagName = "style") ∧ lib.whitelistElement e = .remove) ∨
    (¬ (e.tagName = "script" ∨ e.tagName = "style") ∧ e.tagName ∉ tags ∧ lib.whitelistElement e = .unwrap) ∨
    (¬ (e.tagName = "script" ∨ e.tagName = "style") ∧ e.tagName ∈ tags ∧
      ∃ e', lib.whitelistElement e = .keep e' ∧ e'.tagName = e.tagName ∧
        (e.tagName = "img" → e'.attributes.get "src" =
          (e.attributes.get "src").bind fun raw => some (lib.decode raw) |>.filter keepsUrl) ∧
        e'.attributes.get "style" = (e.attributes.get "style").map lib.decode) := by
  unfold whitelistElement
  by_cases hcontent : e.tagName = "script" ∨ e.tagName = "style"
  · exact .inl ⟨hcontent, if_pos hcontent⟩
  rw [if_neg hcontent]
  by_cases htag : e.tagName ∈ tags
  · rw [if_pos htag]
    have hrel : ∀ (a : Attributes) (n : String), n ≠ "rel" →
        (if e.tagName = "a" then a.set "rel" "noopener noreferrer".toList else a).get n = a.get n := by
      intro a n hn
      split
      · rw [Attributes.get_set, if_neg hn]
      · rfl
    refine .inr (.inr ⟨hcontent, htag, _, rfl, rfl, ?_, ?_⟩)
    · intro himg
      have hallowed : "src" ∈ tagAttributes "img" ∧ isUrlName "src" = true := by decide
      rw [hrel _ _ (by decide), Attributes.get_filterMap]
      refine congrArg _ (funext fun raw => ?_)
      rw [whitelistAttribute, himg, Option.filter_some]
      cases keepsUrl (lib.decode raw) <;> rfl
    · have hallowed : "style" ∈ genericAttributes ∧ isUrlName "style" = false := by decide
      rw [hrel _ _ (by decide), Attributes.get_filterMap]
      cases e.attributes.get "style" with
      | none => rfl
      | some style =>
        rfl
  · rw [if_neg htag]
    exact .inr (.inl ⟨hcontent, htag, rfl⟩)

/-- No allowed element is one that a pass takes out, and none that loses its tag loses its content. -/
theorem tags_apart : (∀ t ∈ tags, t ∉ removeTagsWithContent ∧ t ∉ removeTagsKeepContent ∧ t ∉ ampRemoveTags) ∧
    ∀ t ∈ removeTagsKeepContent, t ∉ removeTagsWithContent ∧ t ∉ ampRemoveTags ∧ t ≠ "script" ∧
      t ≠ "style" := by
  decide

theorem sanitize_cases (e : Element) : (lib.hidesContent e = true ∧ lib.sanitizeElement e = .remove) ∨
    (lib.hidesContent e = false ∧ e.tagName ∉ tags ∧ lib.sanitizeElement e = .unwrap) ∨
    (lib.hidesContent e = false ∧ e.tagName ∈ tags ∧ ∃ e', lib.sanitizeElement e = .keep e' ∧
      e'.tagName = e.tagName ∧
      (e.tagName = "img" → e'.attributes.get "src" =
        (if lib.caught e then none else lib.keptSrc e).bind fun raw =>
          some (lib.decode raw) |>.filter keepsUrl) ∧
      e'.attributes.get "style" =
        if lib.caught e then some (lib.decode blockedStyle)
        else (e.attributes.get "style").map fun style => lib.decode (lib.leftStyle style)) := by
  unfold sanitizeElement hidesContent
  rcases lib.dangerous_cases e with ⟨hfails, hmem, hpass⟩ | ⟨hmem, hpass⟩ |
    ⟨hmem, e1, hpass, htag1, hsrc1, hstyle1⟩
  · exact .inl ⟨by simp [hfails, hmem], by rw [hpass]; rfl⟩
  · obtain ⟨h1, h2, h3, h4⟩ := tags_apart.2 e.tagName hmem
    refine .inr (.inl ⟨by simp [h1, h2, h3, h4], ?_, by rw [hpass]; rfl⟩)
    exact fun h => (tags_apart.1 e.tagName h).2.1 hmem
  · rw [hpass, Verdict.andThen_keep]
    have hcontent : (!lib.fails .dangerous && decide (e.tagName ∈ removeTagsWithContent)) = false := by
      cases hfails : lib.fails .dangerous with
      | true => rfl
      | false => simp [hmem hfails]
    rw [hcontent]
    rcases lib.amp_cases e1 with ⟨hfails, hamp, hpass2⟩ | ⟨hamp, e2, hpass2, htag2, hsrc2, hstyle2⟩
    · exact .inl ⟨by simp [hfails, htag1 ▸ hamp], by rw [hpass2]; rfl⟩
    rw [hpass2, Verdict.andThen_keep]
    obtain ⟨e3, hpass3, htag3, hsrc3, hstyle3⟩ := lib.images_cases e2
    rw [hpass3]
    have hampFalse : (!lib.fails .amp && decide (e.tagName ∈ ampRemoveTags)) = false := by
      cases hfails : lib.fails .amp with
      | true => rfl
      | false =>
        have hnot := hamp hfails
        rw [htag1] at hnot
        simp [hnot]
    have htag : e3.tagName = e.tagName := htag3.trans (htag2.trans htag1)
    rw [hampFalse]
    rw [htag2, htag1, hsrc2, hsrc1] at hsrc3 hstyle3
    rw [hstyle2, hstyle1] at hstyle3
    rcases lib.whitelist_cases e3 with ⟨hout, hpass4⟩ | ⟨hin, hnot, hpass4⟩ |
      ⟨hin, hmem4, e4, hpass4, htag4, hsrc4, hstyle4⟩
    · rw [htag] at hout
      exact .inl ⟨by simpa using hout, hpass4⟩
    · rw [htag] at hin hnot
      exact .inr (.inl ⟨by simpa using hin, hnot, hpass4⟩)
    · rw [htag] at hin hmem4 hsrc4
      refine .inr (.inr ⟨by simpa using hin, hmem4, e4, hpass4, htag4.trans htag, ?_, ?_⟩)
      · intro himg
        rw [hsrc4 himg, hsrc3]
        rfl
      · rw [hstyle4, hstyle3]
        unfold caught leftStyle
        split
        · rfl
        · rw [Option.map_map, Option.map_map]
          rfl

theorem removes_eq (e : Element) : (lib.sanitizeElement e).removes = lib.hidesContent e := by
  rcases lib.sanitize_cases e with ⟨hhides, h⟩ | ⟨hhides, -, h⟩ | ⟨hhides, -, e', h, -⟩
  · rw [hhides, h]
    rfl
  · rw [hhides, h]
    rfl
  · rw [hhides, h]
    rfl

end Libraries

end Ratatoskr.Html
