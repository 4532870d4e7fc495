import Ratatoskr.Import.Pieces

/-!
# Import.Lists

Recipient lists as they are written, and what `parse_recipient_list` makes of them.

* `found_item` : how an address in its surroundings is found.
* `addresses_listed` : the address found of each item, whatever stands in its local part.
* `pieces_listed` : with local parts of local characters, every item is a piece.
* `parseRecipientList_listed_iff` : the lists that are read as they are written.
* `quoted_keeps_quote` : two that are not.
-/

namespace Ratatoskr.Import

open List
open Lib (byteLength)
open Rte (isWhitespace)
open Threading (trim trimStart trimEnd splitWords Trimmed)

/-- `char::to_lowercase`, of which only the ASCII letters and the `@` matter. -/
structure Lowercase where
  lower : Char → Text
  ascii : ∀ c, c.toNat < 128 → lower c = [c.toLower]
  at_sign : ∀ c, '@' ∈ lower c → c = '@'

/-- The characters of a local part: those of an atom, and the dot. -/
def isAtext (c : Char) : Bool :=
  c.isAlphanum || c ∈ ['.', '!', '#', '$', '%', '&', '\'', '*', '+', '-', '/', '=', '?', '^', '_', '\x60',
    '\x7b', '|', '\x7d', '~']

structure Address where
  stem : Text
  host : Text
  tld : Text
  stem_ne : stem ≠ []
  stem_atext : ∀ c ∈ stem, isAtext c = true
  host_ne : host ≠ []
  host_domain : ∀ c ∈ host, isDomain c = true
  tld_common : (commonTlds.any fun common => eqIgnoreAsciiCase tld common) = true

def Address.domain (address : Address) : Text := address.host ++ '.' :: address.tld

def Address.text (address : Address) : Text := address.stem ++ '@' :: address.domain

/-- Letters and spaces, and what else has no meaning in a list. -/
def isNameChar (c : Char) : Bool := c = ' ' || (!isNameEdge c && c ≠ '@')

structure Name where
  text : Text
  plain : ∀ c ∈ text, isNameChar c = true

/-- The words of a name with one blank between them; a name without words is none. -/
def Name.own (name : Name) : Option Text :=
  match splitWords [] name.text with
  | [] => none
  | words => some ([' '].intercalate words)

inductive Shape where
  /-- `Name <addr>` -/
  | named (name : Name)
  /-- `"Name" <addr>` -/
  | quotedName (name : Name)
  /-- `addr` -/
  | bare
  /-- `'addr'` -/
  | quoted

structure Item where
  shape : Shape
  address : Address

inductive Mark where
  | comma
  | semicolon
  | newline
  | tab

def Mark.char : Mark → Char
  | .comma => ','
  | .semicolon => ';'
  | .newline => '\n'
  | .tab => '\t'

structure Separator where
  before : Nat
  mark : Mark
  after : Nat

def Separator.text (sep : Separator) : Text :=
  List.replicate sep.before ' ' ++ sep.mark.char :: List.replicate sep.after ' '

def Shape.name : Shape → Option Name
  | .named name => some name
  | .quotedName name => some name
  | .bare => none
  | .quoted => none

def Shape.opening : Shape → Text
  | .named name => name.text ++ [' ', '<']
  | .quotedName name => '"' :: name.text ++ ['"', ' ', '<']
  | .bare => []
  | .quoted => ['\'']

def Shape.closing : Shape → Text
  | .named _ => ['>']
  | .quotedName _ => ['>']
  | .bare => []
  | .quoted => ['\'']

def Item.text (item : Item) : Text := item.shape.opening ++ item.address.text ++ item.shape.closing

/-- The items behind the first one, each with the separator in front of it. -/
def renderRest : List (Separator × Item) → Text
  | [] => []
  | (sep, item) :: rest => sep.text ++ item.text ++ renderRest rest

/-- A list of recipients; the first one has no separator in front of it. -/
def render : List (Separator × Item) → Text
  | [] => []
  | (_, item) :: rest => item.text ++ renderRest rest

def Item.recipient (item : Item) : ParsedRecipient :=
  ⟨item.address.text.map Char.toLower, item.shape.name.bind Name.own⟩

theorem splitWords_blanks {blanks : Text} (h : ∀ c ∈ blanks, isWhitespace c = true) (s : Text) :
    splitWords [] (blanks ++ s) = splitWords [] s := by
  induction blanks with
  | nil => rfl
  | cons c blanks ih =>
    rw [cons_append, splitWords, if_pos (h c mem_cons_self)]
    exact ih fun d hd => h d (mem_cons_of_mem _ hd)

theorem splitWords_append_blanks {blanks : Text} (h : ∀ c ∈ blanks, isWhitespace c = true) (word s : Text) :
    splitWords word (s ++ blanks) = splitWords word s := by
  induction s generalizing word with
  | nil =>
    rw [nil_append, splitWords]
    cases blanks with
    | nil => rfl
    | cons c blanks =>
      have hrest : splitWords [] blanks = [] := by
        have hblanks := splitWords_blanks (fun d hd => h d (mem_cons_of_mem _ hd)) []
        rwa [append_nil] at hblanks
      rw [splitWords, if_pos (h c mem_cons_self), hrest]
  | cons c s ih =>
    rw [cons_append, splitWords, splitWords, ih, ih]

theorem splitWords_trim (s : Text) : splitWords [] (trim s) = splitWords [] s := by
  have hstart := takeWhile_append_dropWhile (p := isWhitespace) (l := s)
  have hend := rdropWhile_append_rtakeWhile (p := isWhitespace) (l := s.dropWhile isWhitespace)
  conv_rhs =>
    rw [← hstart, ← hend, splitWords_blanks fun _ hc => mem_takeWhile_imp hc,
      splitWords_append_blanks fun _ hc => mem_rtakeWhile_imp hc]
  rfl

variable {s : Text}

theorem mem_splitWords {word : Text} (hword : ∀ c ∈ word, isWhitespace c = false) {w : Text}
    (h : w ∈ splitWords word s) : w ≠ [] ∧ ∀ c ∈ w, isWhitespace c = false := by
  induction s generalizing word with
  | nil =>
    rw [splitWords] at h
    split at h
    · exact absurd h not_mem_nil
    · next hne =>
      rw [mem_singleton.mp h]
      exact ⟨hne, hword⟩
  | cons c s ih =>
    rw [splitWords] at h
    split at h
    · have hnil : ∀ c ∈ ([] : Text), isWhitespace c = false := fun _ hc => absurd hc not_mem_nil
      split at h
      · exact ih hnil h
      next hne =>
      rcases mem_cons.mp h with rfl | h
      · exact ⟨hne, hword⟩
      · exact ih hnil h
    · next hc =>
      refine ih (fun d hd => ?_) h
      rcases mem_append.mp hd with hd | hd
      · exact hword d hd
      · rw [mem_singleton.mp hd]
        exact Bool.eq_false_iff.mpr hc

variable {c : Char}

theorem trim_of_ends {a b : Text} {d : Char} (hc : isWhitespace c = false) (hd : isWhitespace d = false)
    (hstart : s = c :: a) (hend : s = b ++ [d]) : trim s = s := by
  have hstartDark : trimStart s = s := by
    rw [hstart]
    exact dropWhile_cons_of_neg (by simp [hc])
  rw [trim, hstartDark, hend]
  exact rdropWhile_concat_neg _ _ _ (by simp [hd])

theorem intercalate_start {w : Text} {words : List Text} (hne : w ≠ [])
    (hdark : ∀ c ∈ w, isWhitespace c = false) :
    ∃ c a, [' '].intercalate (w :: words) = c :: a ∧ isWhitespace c = false := by
  cases w with
  | nil => exact absurd rfl hne
  | cons c w =>
    have hc := hdark c mem_cons_self
    cases words with
    | nil => exact ⟨c, w, intercalate_singleton, hc⟩
    | cons w' words => exact ⟨c, _, intercalate_cons_cons, hc⟩

theorem intercalate_end {words : List Text} (hwords : words ≠ [])
    (hdark : ∀ w ∈ words, w ≠ [] ∧ ∀ c ∈ w, isWhitespace c = false) :
    ∃ b d, [' '].intercalate words = b ++ [d] ∧ isWhitespace d = false := by
  induction words with
  | nil => exact absurd rfl hwords
  | cons w words ih =>
    cases words with
    | nil =>
      obtain ⟨hne, hall⟩ := hdark w mem_cons_self
      refine ⟨w.dropLast, w.getLast hne, ?_, hall _ (getLast_mem hne)⟩
      rw [intercalate_singleton, dropLast_concat_getLast]
    | cons w' words =>
      obtain ⟨b, d, hjoin, hd⟩ := ih (cons_ne_nil _ _) fun v hv => hdark v (mem_cons_of_mem _ hv)
      refine ⟨w ++ [' '] ++ b, d, ?_, hd⟩
      rw [intercalate_cons_cons, hjoin, append_assoc, append_assoc, append_assoc]

theorem cleanText_squash (s : Text) : cleanText (squash s) =
      match splitWords [] s with
      | [] => none | words => some ([' '].intercalate words) := by
  have hdark : ∀ w ∈ splitWords [] s, w ≠ [] ∧ ∀ c ∈ w, isWhitespace c = false := fun w hw =>
    mem_splitWords (fun _ hc => absurd hc not_mem_nil) hw
  rw [squash, cleanText]
  cases hwords : splitWords [] s with
  | nil => rfl
  | cons w words =>
    rw [hwords] at hdark
    obtain ⟨hne, hall⟩ := hdark w mem_cons_self
    obtain ⟨c, a, hstart, hc⟩ := @intercalate_start w words hne hall
    obtain ⟨b, d, hend, hd⟩ := intercalate_end (cons_ne_nil w words) hdark
    rw [trim_of_ends hc hd hstart hend]
    exact if_neg (by rw [hstart]; exact cons_ne_nil _ _)

/-! ## Addresses -/

theorem isAlpha_of_toLower (h : c.toLower.isAlpha = true) : c.isAlpha = true :=
  Lib.toLower_ind (P := fun c d => d.isAlpha = true → c.isAlpha = true) (fun _ h => h) (by decide +kernel) c h

theorem isAlpha_of_tld {tld : Text} (h : (commonTlds.any fun common => eqIgnoreAsciiCase tld common) = true) :
    tld ≠ [] ∧ ∀ c ∈ tld, c.isAlpha = true := by
  have hall : ∀ common ∈ commonTlds, common ≠ [] ∧
      (common.map Char.toLower).all (fun c => c.isAlpha = true) = true := by decide +kernel
  obtain ⟨common, hcommon, heq⟩ := any_eq_true.mp h
  have heq : tld.map Char.toLower = common.map Char.toLower := of_decide_eq_true heq
  obtain ⟨hne, halpha⟩ := hall common hcommon
  constructor
  · rintro rfl
    exact hne (map_eq_nil_iff.mp heq.symm)
  · intro c hc
    exact isAlpha_of_toLower (Lib.forall_mem_of_all halpha _ (heq ▸ mem_map_of_mem hc))

theorem isDomain_of_isAlpha (h : c.isAlpha = true) : isDomain c = true := by
  rw [isDomain, Char.isAlphanum, h]
  rfl

namespace Address

variable (address : Address)

theorem domain_all : ∀ c ∈ address.domain, isDomain c = true := by
  intro c hc
  rcases mem_append.mp hc with hc | hc
  · exact address.host_domain c hc
  · rcases mem_cons.mp hc with rfl | hc
    · rfl
    · exact isDomain_of_isAlpha ((isAlpha_of_tld address.tld_common).2 c hc)

theorem domainOf_domain : domainOf address.domain = address.domain := by
  have halpha := (isAlpha_of_tld address.tld_common).2
  have hsuffix : address.domain.rtakeWhile (· ≠ '.') = address.tld := by
    rw [Address.domain, Lib.rtakeWhile_append_cons address.host (by simp), rtakeWhile_eq_self_iff]
    intro c hc
    refine decide_eq_true fun hdot => ?_
    have hc := halpha c hc
    rw [hdot] at hc
    exact absurd hc (by decide)
  rw [domainOf, hsuffix, if_neg fun h => h.2 address.tld_common]

theorem domain_kept : address.domain.rdropWhile isTrailing = address.domain := by
  obtain ⟨hne, halpha⟩ := isAlpha_of_tld address.tld_common
  have hlast := halpha _ (getLast_mem hne)
  have hcut : address.domain = (address.host ++ '.' :: address.tld.dropLast) ++ [address.tld.getLast hne] := by
    rw [append_assoc, cons_append, dropLast_concat_getLast, Address.domain]
  rw [hcut, rdropWhile_concat_neg]
  intro htrailing
  generalize address.tld.getLast hne = c at hlast htrailing
  simp only [isTrailing, Bool.or_eq_true, decide_eq_true_eq] at htrailing
  rcases htrailing with ((((((((rfl | rfl) | rfl) | rfl) | rfl) | rfl) | rfl) | rfl) | rfl) | rfl <;>
    exact absurd hlast (by decide)

end Address

/-- ASCII without blanks and without an `@`. -/
def Plain (s : Text) : Prop := ∀ c ∈ s, c.toNat < 128 ∧ isWhitespace c = false ∧ c ≠ '@'

theorem Plain.lowered (h : Plain s) : Plain (s.map Char.toLower) := by
  intro c hc
  obtain ⟨d, hd, rfl⟩ := mem_map.mp hc
  have hall : ∀ n, n < 128 → isWhitespace (Char.ofNat n) = false → Char.ofNat n ≠ '@' →
      (Char.ofNat n).toLower.toNat < 128 ∧ isWhitespace (Char.ofNat n).toLower = false ∧
        (Char.ofNat n).toLower ≠ '@' := by decide +kernel
  obtain ⟨hlt, hdark, hat⟩ := h d hd
  have hd := hall d.toNat hlt
  rw [Char.ofNat_toNat] at hd
  exact hd hdark hat

theorem plain_of_isLocal (h : ∀ c ∈ s, isLocal c = true) : Plain s := by
  have hall : ∀ n, n < 128 → isLocal (Char.ofNat n) = true →
      isWhitespace (Char.ofNat n) = false ∧ Char.ofNat n ≠ '@' := by decide +kernel
  have hlt : ∀ c, isLocal c = true → c.toNat < 128 := by
    intro c hc
    simp only [isLocal, Bool.or_eq_true, decide_eq_true_eq] at hc
    rcases hc with (((((hc | rfl) | rfl) | rfl) | rfl) | rfl) | rfl
    · exact lt_of_isAlphanum hc
    all_goals decide
  intro c hc
  have hchar := hall c.toNat (hlt c (h c hc))
  rw [Char.ofNat_toNat] at hchar
  exact ⟨hlt c (h c hc), hchar (h c hc)⟩

variable {stem : Text}

theorem normalizeEmail_plain (case : Lowercase) {domain : Text} (hstem : Plain stem)
    (hdomain : Plain domain) : normalizeEmail case.lower (stem ++ '@' :: domain) =
      stem.map Char.toLower ++ '@' :: domain.map Char.toLower := by
  have hplain : ∀ s, Plain s → normalizeEmail case.lower s = s.map Char.toLower := by
    intro s hs
    induction s with
    | nil => rfl
    | cons c s ih =>
      obtain ⟨hlt, hdark, -⟩ := hs c mem_cons_self
      have hrest := ih fun d hd => hs d (mem_cons_of_mem _ hd)
      rw [normalizeEmail] at hrest ⊢
      rw [filter_cons_of_pos (by simp [hdark]), flatMap_cons, case.ascii c hlt, hrest]
      rfl
  have happend : ∀ s t, normalizeEmail case.lower (s ++ t) =
      normalizeEmail case.lower s ++ normalizeEmail case.lower t := fun s t => by
    rw [normalizeEmail, filter_append, flatMap_append]
    rfl
  have hat : normalizeEmail case.lower ['@'] = ['@'] := by
    have h := case.ascii '@' (by decide)
    simp [normalizeEmail, h, isWhitespace]
  rw [← singleton_append, happend, happend, hat, hplain _ hstem, hplain _ hdomain]
  rfl

theorem isValidEmail_plain (case : Lowercase) {domain : Text} (hstem : Plain stem) (hdomain : Plain domain)
    (hstemNe : stem ≠ []) (hdomainNe : domain ≠ []) :
    isValidEmail case.lower (stem ++ '@' :: domain) = true := by
  have hlowered := hdomain.lowered
  rw [isValidEmail, normalizeEmail_plain case hstem hdomain,
    Lib.splitFirst_append fun c hc => (hstem.lowered c hc).2.2]
  have hnone : '@' ∉ domain.map Char.toLower := fun hmem => (hlowered _ hmem).2.2 rfl
  simpa [hstemNe, hdomainNe] using hnone

theorem domain_plain (address : Address) : Plain address.domain :=
  plain_of_isLocal fun c hc => isLocal_of_isDomain (address.domain_all c hc)

theorem domain_ne (address : Address) : address.domain ≠ [] :=
  fun h => address.host_ne (append_eq_nil_iff.mp h).1

/-- The domain of an item, wherever it stands with another character behind it. -/
theorem domainAt_item (case : Lowercase) (address : Address) {seen rest : Text}
    (hstem : seen.rtakeWhile isLocal = stem) (hrest : rest.takeWhile isDomain = []) :
    domainAt case.lower seen (address.domain ++ rest) = if stem = [] then none else some address.domain := by
  have hdomain : (address.domain ++ rest).takeWhile isDomain = address.domain := by
    rw [takeWhile_append_of_pos address.domain_all, hrest, append_nil]
  have hlocal : ∀ c ∈ stem, isLocal c = true := fun c hc => mem_rtakeWhile_imp (hstem ▸ hc)
  rw [domainAt, hdomain, address.domainOf_domain, address.domain_kept, hstem]
  by_cases hne : stem = []
  · rw [if_neg fun h => h.1 hne, if_pos hne]
  · have hvalid := isValidEmail_plain case (plain_of_isLocal hlocal) (domain_plain address) hne
      (domain_ne address)
    rw [if_pos ⟨hne, domain_ne address, hvalid⟩, if_neg hne]

theorem found_pass (lower : Char → Text) {a : Text} (h : '@' ∉ a) (seen gap rest : Text) :
    found lower seen gap 0 (a ++ rest) = found lower (seen ++ a) (gap ++ a) 0 rest := by
  induction a generalizing seen gap with
  | nil => simp
  | cons c a ih =>
    have hc : c ≠ '@' := fun hc => h (hc ▸ mem_cons_self)
    have hnone : addressAt lower seen gap c (a ++ rest) = none := if_neg fun h => hc h.1
    have hrest := ih (fun hmem => h (mem_cons_of_mem _ hmem)) (seen ++ [c]) (gap ++ [c])
    rw [← append_cons, ← append_cons] at hrest
    rw [cons_append, found, hnone]
    exact hrest

/-- An item is found with what stands in front of its `@` of local characters. -/
theorem found_item (case : Lowercase) (address : Address) {seen gap lead rest : Text}
    (hat : '@' ∉ lead) (hstem : (seen ++ lead ++ address.stem).rtakeWhile isLocal = stem)
    (hlead : stem.length ≤ (gap ++ lead ++ address.stem).length) (hrest : rest.takeWhile isDomain = []) :
    found case.lower seen gap 0 (lead ++ address.text ++ rest) =
      if stem = [] then
        found case.lower (seen ++ lead ++ address.text) (gap ++ lead ++ address.text) 0 rest
      else
        ((gap ++ lead ++ address.stem).rdropWhile isLocal, stem ++ '@' :: address.domain) ::
          found case.lower (seen ++ lead ++ address.text) [] 0 rest := by
  have hfront : '@' ∉ lead ++ address.stem := by
    intro hmem
    rcases mem_append.mp hmem with hmem | hmem
    · exact hat hmem
    · exact absurd (address.stem_atext _ hmem) (by decide)
  have hdomain := domainAt_item case address hstem hrest
  have hcut : lead ++ address.text ++ rest = (lead ++ address.stem) ++ '@' :: (address.domain ++ rest) := by
    simp [Address.text]
  have hwhole : ∀ s : Text,
      s ++ lead ++ address.text = s ++ (lead ++ address.stem) ++ ['@'] ++ address.domain := by
    simp [Address.text]
  rw [hcut, found_pass case.lower hfront, found, addressAt]
  rw [← append_assoc seen, ← append_assoc gap, hstem, if_pos ⟨rfl, hlead⟩, hdomain]
  by_cases hne : stem = []
  · have hnoat : '@' ∉ address.domain := fun hmem => (domain_plain address _ hmem).2.2 rfl
    rw [if_pos hne, if_pos hne, hwhole, hwhole, ← append_assoc seen, ← append_assoc gap]
    exact found_pass case.lower hnoat _ _ _
  · rw [if_neg hne, if_neg hne, hwhole, ← append_assoc seen]
    dsimp only
    rw [found_skip]

/-! ## Lists of items -/

theorem Mark.edge (mark : Mark) : isLocal mark.char = false ∧ isDomain mark.char = false ∧ mark.char ≠ '@' := by
  cases mark <;> decide

theorem Separator.text_end (sep : Separator) : ∃ a c, sep.text = a ++ [c] ∧ isLocal c = false := by
  rw [Separator.text]
  cases sep.after with
  | zero => exact ⟨_, _, rfl, sep.mark.edge.1⟩
  | succ n =>
    refine ⟨List.replicate sep.before ' ' ++ sep.mark.char :: List.replicate n ' ', ' ', ?_, by decide⟩
    rw [append_assoc, cons_append, replicate_succ']

theorem Separator.text_start (sep : Separator) (rest : Text) : (sep.text ++ rest).takeWhile isDomain = [] := by
  rw [Separator.text]
  cases sep.before with
  | zero => exact takeWhile_cons_of_neg (by simp [sep.mark.edge.2.1])
  | succ n => rfl

theorem Separator.no_at (sep : Separator) : '@' ∉ sep.text := by
  intro hmem
  rcases mem_append.mp hmem with hmem | hmem
  · exact absurd (eq_of_mem_replicate hmem) (by decide)
  · rcases mem_cons.mp hmem with hmem | hmem
    · exact sep.mark.edge.2.2 hmem.symm
    · exact absurd (eq_of_mem_replicate hmem) (by decide)

theorem Name.no_at (name : Name) : '@' ∉ name.text := fun hmem => absurd (name.plain _ hmem) (by decide)

theorem Shape.opening_no_at (shape : Shape) : '@' ∉ shape.opening := by
  cases shape with
  | named name => simpa [Shape.opening] using name.no_at
  | quotedName name => simpa [Shape.opening] using name.no_at
  | bare => exact not_mem_nil
  | quoted => decide

theorem Shape.closing_no_at (shape : Shape) : '@' ∉ shape.closing := by
  cases shape <;> simp [Shape.closing]

theorem closing_rest (shape : Shape) (l : List (Separator × Item)) :
    (shape.closing ++ renderRest l).takeWhile isDomain = [] := by
  have hrest : (renderRest l).takeWhile isDomain = [] := by
    cases l with
    | nil => rfl
    | cons p l =>
      rw [renderRest, append_assoc]
      exact p.1.text_start _
  cases shape with
  | named name => rfl
  | quotedName name => rfl
  | bare => exact hrest
  | quoted => rfl

def Item.foundAddress (item : Item) : Option Text :=
  let stem := (item.shape.opening ++ item.address.stem).rtakeWhile isLocal
  if stem = [] then none else some (stem ++ '@' :: item.address.domain)

theorem stem_behind_separator (seen closing : Text) (sep : Separator) (item : Item) :
    (seen ++ (closing ++ sep.text ++ item.shape.opening) ++ item.address.stem).rtakeWhile isLocal =
      (item.shape.opening ++ item.address.stem).rtakeWhile isLocal := by
  obtain ⟨a, c, hsep, hc⟩ := sep.text_end
  have hcut : seen ++ (closing ++ sep.text ++ item.shape.opening) ++ item.address.stem =
      (seen ++ closing ++ a) ++ c :: (item.shape.opening ++ item.address.stem) := by
    rw [hsep]
    simp
  rw [hcut, Lib.rtakeWhile_append_cons _ hc]

theorem lead_no_at (shape : Shape) (sep : Separator) (item : Item) :
    '@' ∉ shape.closing ++ sep.text ++ item.shape.opening := by
  intro hmem
  rcases mem_append.mp hmem with hmem | hmem
  · rcases mem_append.mp hmem with hmem | hmem
    · exact shape.closing_no_at hmem
    · exact sep.no_at hmem
  · exact item.shape.opening_no_at hmem

theorem stem_length_le (item : Item) (gap lead : Text) :
    ((item.shape.opening ++ item.address.stem).rtakeWhile isLocal).length ≤
      (gap ++ (lead ++ item.shape.opening) ++ item.address.stem).length := by
  have hle := (rtakeWhile_suffix isLocal (item.shape.opening ++ item.address.stem)).length_le
  simp only [length_append] at hle ⊢
  omega

theorem render_cut (shape : Shape) (sep : Separator) (item : Item) (rest : List (Separator × Item)) :
    shape.closing ++ renderRest ((sep, item) :: rest) =
      (shape.closing ++ sep.text ++ item.shape.opening) ++ item.address.text ++
        (item.shape.closing ++ renderRest rest) := by
  simp [renderRest, Item.text]

/-- The addresses behind an item, one for each item whose `@` has a local character in front of it. -/
theorem addresses_rest (case : Lowercase) (shape : Shape) (l : List (Separator × Item)) (seen gap : Text) :
    (found case.lower seen gap 0 (shape.closing ++ renderRest l)).map Prod.snd =
      l.filterMap fun p => p.2.foundAddress := by
  induction l generalizing shape seen gap with
  | nil =>
    rw [found_pass case.lower shape.closing_no_at]
    rfl
  | cons p rest ih =>
    obtain ⟨sep, item⟩ := p
    rw [render_cut, found_item case item.address (lead_no_at shape sep item)
      (stem_behind_separator seen _ sep item) (stem_length_le item gap _) (closing_rest item.shape rest),
      filterMap_cons]
    rw [Item.foundAddress]
    by_cases hstem : (item.shape.opening ++ item.address.stem).rtakeWhile isLocal = []
    · rw [if_pos hstem, if_pos hstem]
      exact ih item.shape _ _
    · rw [if_neg hstem, if_neg hstem, map_cons, ih]

theorem addresses_listed (case : Lowercase) (l : List (Separator × Item)) :
    (pieces case.lower (render l)).map Prod.snd = l.filterMap fun p => p.2.foundAddress := by
  cases l with
  | nil => rfl
  | cons p rest =>
    obtain ⟨sep, item⟩ := p
    have hcut : render ((sep, item) :: rest) =
        ([] ++ item.shape.opening) ++ item.address.text ++ (item.shape.closing ++ renderRest rest) := by
      simp [render, Item.text]
    have hat : '@' ∉ [] ++ item.shape.opening := item.shape.opening_no_at
    rw [hcut, pieces, found_item case item.address hat rfl (stem_length_le item [] [])
      (closing_rest item.shape rest), filterMap_cons]
    rw [Item.foundAddress, nil_append, nil_append]
    by_cases hstem : (item.shape.opening ++ item.address.stem).rtakeWhile isLocal = []
    · rw [if_pos hstem, if_pos hstem]
      exact addresses_rest case item.shape rest _ _
    · rw [if_neg hstem, if_neg hstem, map_cons, addresses_rest]

def Item.Clean (item : Item) : Prop := item.shape ≠ .quoted ∧ ∀ c ∈ item.address.stem, isLocal c = true

/-- The openings without a quote of their own end in an angle bracket, if they are any. -/
theorem Shape.opening_end {shape : Shape} (h : shape ≠ .quoted) :
    shape.opening = [] ∨ ∃ a, shape.opening = a ++ ['<'] := by
  cases shape with
  | named name => exact .inr ⟨name.text ++ [' '], by simp [Shape.opening]⟩
  | quotedName name => exact .inr ⟨'"' :: name.text ++ ['"', ' '], by simp [Shape.opening]⟩
  | bare => exact .inl rfl
  | quoted => exact absurd rfl h

variable {item : Item}

theorem Item.Clean.stem_eq (h : item.Clean) :
    (item.shape.opening ++ item.address.stem).rtakeWhile isLocal = item.address.stem := by
  have hself : item.address.stem.rtakeWhile isLocal = item.address.stem := rtakeWhile_eq_self_iff.mpr h.2
  rcases Shape.opening_end h.1 with hnone | ⟨a, ha⟩
  · rw [hnone, nil_append, hself]
  · rw [ha, append_assoc, singleton_append, Lib.rtakeWhile_append_cons a (by decide), hself]

/-- What stands in front of an item: nothing, or what ends in a separator. -/
def Parted (pre : Text) : Prop := pre.rdropWhile isLocal = pre

theorem parted_separator (closing : Text) (sep : Separator) : Parted (closing ++ sep.text) := by
  obtain ⟨a, c, hsep, hc⟩ := sep.text_end
  rw [hsep, ← append_assoc]
  exact rdropWhile_concat_neg _ _ _ (by simp [hc])

theorem Item.Clean.gap_eq (h : item.Clean) {pre : Text} (hpre : Parted pre) :
    (pre ++ item.shape.opening ++ item.address.stem).rdropWhile isLocal = pre ++ item.shape.opening := by
  rw [Lib.rdropWhile_append_of_pos _ h.2]
  rcases Shape.opening_end h.1 with hnone | ⟨a, ha⟩
  · rw [hnone, append_nil]
    exact hpre
  · rw [ha, ← append_assoc]
    exact rdropWhile_concat_neg _ _ _ (by decide)

def piecesRest (shape : Shape) : List (Separator × Item) → List (Text × Text)
  | [] => []
  | (sep, item) :: rest =>
    (shape.closing ++ sep.text ++ item.shape.opening, item.address.text) :: piecesRest item.shape rest

theorem found_rest (case : Lowercase) (shape : Shape) (l : List (Separator × Item))
    (h : ∀ p ∈ l, p.2.Clean) (seen : Text) :
    found case.lower seen [] 0 (shape.closing ++ renderRest l) = piecesRest shape l := by
  induction l generalizing shape seen with
  | nil =>
    rw [found_pass case.lower shape.closing_no_at]
    rfl
  | cons p rest ih =>
    obtain ⟨sep, item⟩ := p
    have hclean : item.Clean := h _ mem_cons_self
    rw [render_cut, found_item case item.address (lead_no_at shape sep item)
      (stem_behind_separator seen _ sep item) (stem_length_le item [] _) (closing_rest item.shape rest),
      hclean.stem_eq, if_neg item.address.stem_ne, nil_append, hclean.gap_eq (parted_separator ..),
      ih item.shape fun p hp => h p (mem_cons_of_mem _ hp)]
    rfl

theorem pieces_listed (case : Lowercase) (sep : Separator) (item : Item) (rest : List (Separator × Item))
    (hitem : item.Clean) (h : ∀ p ∈ rest, p.2.Clean) : pieces case.lower (render ((sep, item) :: rest)) =
      (item.shape.opening, item.address.text) :: piecesRest item.shape rest := by
  have hcut : render ((sep, item) :: rest) =
      ([] ++ item.shape.opening) ++ item.address.text ++ (item.shape.closing ++ renderRest rest) := by
    simp [render, Item.text]
  have hat : '@' ∉ [] ++ item.shape.opening := item.shape.opening_no_at
  have hgap := @Item.Clean.gap_eq _ hitem [] rfl
  rw [nil_append] at hgap
  rw [hcut, pieces, found_item case item.address hat rfl (stem_length_le item [] [])
    (closing_rest item.shape rest)]
  simp only [nil_append]
  rw [hitem.stem_eq, if_neg item.address.stem_ne, hgap, found_rest case item.shape rest h]
  rfl

/-! ## Names in a list -/

/-- A name that can be cut behind so many bytes, if it is longer. -/
def CutAt (n : Nat) (name : Text) : Prop :=
  n < byteLength name → ∃ front behind, name = front ++ behind ∧ byteLength front = n

def Sliceable (name : Text) : Prop := CutAt 2 name ∧ CutAt 3 name

variable {name : Text}

theorem headerOk_iff {header : Text} (h : ':' ∉ name) :
    HeaderOk header name ↔ CutAt (byteLength header) name := by
  refine forall_congr' fun _ => ?_
  constructor
  · rintro ⟨front, behind, hname, hfront, -⟩
    exact ⟨front, behind, hname, hfront⟩
  · rintro ⟨front, behind, rfl, hfront⟩
    refine ⟨front, behind, rfl, hfront, fun _ hcolon => ?_⟩
    have hmem := (dropWhile_suffix isWhitespace).subset (mem_of_mem_head? hcolon)
    exact absurd (mem_append_right _ hmem) h

theorem withoutHeader_same {header : Text} (h : ':' ∉ name) : withoutHeader header name = name := by
  rw [withoutHeader]
  cases hsplit : Lib.splitBytes (byteLength header) name with
  | none => rfl
  | some parts =>
    obtain ⟨rfl, -⟩ := Lib.splitBytes_eq_some.mp hsplit
    refine if_neg fun hheader => ?_
    have hmem := (dropWhile_suffix isWhitespace).subset (mem_of_mem_head? hheader.2)
    exact h (mem_append_right _ hmem)

theorem nameOk_iff (h : ':' ∉ name) : NameOk headers name ↔ Sliceable name := by
  simp only [headers, map_cons, NameOk, withoutHeader_same h, headerOk_iff h]
  rw [Sliceable]
  have hto : byteLength "To".toList = 2 := rfl
  have hcc : byteLength "Cc".toList = 2 := rfl
  have hbcc : byteLength "Bcc".toList = 3 := rfl
  tauto

theorem withoutHeaders_same {headers : List Text} (h : ':' ∉ name) : withoutHeaders headers name = name := by
  induction headers with
  | nil => rfl
  | cons header headers ih =>
    rw [withoutHeaders, foldl_cons, withoutHeader_same h]
    exact ih

theorem unquoted_same (h : ∀ c ∈ name, isQuote c = false) : unquoted name = name := by
  have hhead : (name.head?.any isQuote) = false := by
    cases name with
    | nil => rfl
    | cons c name => exact h c mem_cons_self
  have hlast : (name.getLast?.any isQuote) = false := by
    cases hc : name.getLast? with
    | none => rfl
    | some c => exact h c (mem_of_getLast? hc)
  rw [unquoted, hhead]
  simp [hlast]

theorem trim_edges {p : Char → Bool} {a b : Text} (ha : ∀ c ∈ a, p c = true) (hb : ∀ c ∈ b, p c = true)
    (m : Text) : ((a ++ (m ++ b)).dropWhile p).rdropWhile p = (m.dropWhile p).rdropWhile p := by
  rw [dropWhile_append_of_pos ha, dropWhile_append]
  split
  · next hnone =>
    have hb : b.dropWhile p = [] := dropWhile_eq_nil_iff.mpr hb
    rw [hb, List.isEmpty_iff.mp hnone]
  · exact Lib.rdropWhile_append_of_pos _ hb

theorem dropWhile_agree {p q : Char → Bool} (h : ∀ c ∈ s, p c = q c) : s.dropWhile p = s.dropWhile q := by
  induction s with
  | nil => rfl
  | cons c s ih =>
    rw [dropWhile_cons, dropWhile_cons, h c mem_cons_self, ih fun d hd => h d (mem_cons_of_mem _ hd)]

theorem Name.edge (name : Name) : ∀ c ∈ name.text, isNameEdge c = isWhitespace c := by
  intro c hc
  rcases (Bool.or_eq_true ..).mp (name.plain c hc) with hblank | hplain
  · rw [of_decide_eq_true hblank]
    rfl
  have hedge : isNameEdge c = false := by
    cases hc : isNameEdge c with
    | false => rfl
    | true => simp [hc] at hplain
  rw [hedge]
  simp only [isNameEdge, Bool.or_eq_false_iff] at hedge
  tauto

theorem Name.not_edge (name : Name) (hedge : isNameEdge c = true) (hblank : c ≠ ' ') : c ∉ name.text := by
  intro hc
  have hplain := name.plain c hc
  simp [isNameChar, hedge, hblank] at hplain

theorem Name.trimmed (name : Name) {pre open' close : Text} (hpre : ∀ c ∈ pre, isNameEdge c = true)
    (hopen : ∀ c ∈ open', isNameEdge c = true) (hclose : ∀ c ∈ close, isNameEdge c = true) :
    trimmedName (pre ++ (open' ++ name.text ++ close)) = trim name.text := by
  have hcut : pre ++ (open' ++ name.text ++ close) = (pre ++ open') ++ (name.text ++ close) := by simp
  have hfront : ∀ c ∈ pre ++ open', isNameEdge c = true := by
    intro c hc
    rcases mem_append.mp hc with hc | hc
    · exact hpre c hc
    · exact hopen c hc
  have hback : ∀ c ∈ (name.text.dropWhile isWhitespace).reverse, isNameEdge c = isWhitespace c := fun c hc =>
    name.edge c ((dropWhile_suffix _).subset (mem_reverse.mp hc))
  rw [trimmedName, hcut, trim_edges hfront hclose, dropWhile_agree name.edge, List.rdropWhile,
    dropWhile_agree hback]
  exact (Threading.trimmed_trim name.text).trim_eq

theorem trimmedName_edges (h : ∀ c ∈ s, isNameEdge c = true) : trimmedName s = [] := by
  rw [trimmedName, dropWhile_eq_nil_iff.mpr h]
  rfl

theorem nameText_sub (gap : Text) : ∀ c ∈ nameText gap, c ∈ gap := by
  intro c hc
  have hc := (rtakeWhile_suffix ..).subset hc
  split at hc
  · exact (rtakeWhile_suffix ..).subset (Lib.rdropWhile_subset _ (dropLast_subset _ hc))
  · exact (rtakeWhile_suffix ..).subset hc

theorem nameText_named {mid : Text} (hbreak : ∀ c ∈ mid, isLineBreak c = false) (hclose : '>' ∉ mid)
    (pre : Text) : ∃ left, (∀ c ∈ left, c ∈ pre) ∧ nameText (pre ++ (mid ++ ['<'])) = left ++ mid := by
  have hline : (pre ++ (mid ++ ['<'])).rtakeWhile (fun c => !isLineBreak c) =
      (pre.rtakeWhile fun c => !isLineBreak c) ++ mid ++ ['<'] := by
    rw [Lib.rtakeWhile_append_of_pos pre, append_assoc]
    intro c hc
    rcases mem_append.mp hc with hc | hc
    · rw [hbreak c hc]
      rfl
    · rw [mem_singleton.mp hc]
      rfl
  have hangle : ((pre.rtakeWhile fun c => !isLineBreak c) ++ mid ++ ['<']).rdropWhile (· ≠ '<') =
      (pre.rtakeWhile fun c => !isLineBreak c) ++ mid ++ ['<'] := rdropWhile_concat_neg _ _ _ (by simp)
  have hmid : ∀ c ∈ mid, decide (c ≠ '>') = true := fun c hc => decide_eq_true fun h => hclose (h ▸ hc)
  refine ⟨(pre.rtakeWhile fun c => !isLineBreak c).rtakeWhile (· ≠ '>'), fun c hc => ?_, ?_⟩
  · exact (rtakeWhile_suffix ..).subset ((rtakeWhile_suffix ..).subset hc)
  · rw [nameText, hline, if_pos (mem_append_right _ mem_cons_self), hangle, dropLast_concat,
      Lib.rtakeWhile_append_of_pos _ hmid]

theorem Shape.opening_named {shape : Shape} {name : Name} (h : shape.name = some name) :
    ∃ open' close, shape.opening = open' ++ name.text ++ close ++ ['<'] ∧
      (∀ c ∈ open', c = '"') ∧ ∀ c ∈ close, c = '"' ∨ c = ' ' := by
  cases shape with
  | named own =>
    obtain rfl : own = name := Option.some.inj h
    exact ⟨[], [' '], by simp [Shape.opening], by simp, by simp⟩
  | quotedName own =>
    obtain rfl : own = name := Option.some.inj h
    exact ⟨['"'], ['"', ' '], by simp [Shape.opening], by simp, by simp⟩
  | bare => cases h
  | quoted => cases h

theorem trimmedName_item {pre : Text} (hpre : ∀ c ∈ pre, isNameEdge c = true) {shape : Shape} {name : Name}
    (h : shape.name = some name) : trimmedName (nameText (pre ++ shape.opening)) = trim name.text := by
  obtain ⟨open', close, hopening, hopen, hclose⟩ := Shape.opening_named h
  have hopenEdge : ∀ c ∈ open', isNameEdge c = true := fun c hc => by
    rw [hopen c hc]
    rfl
  have hcloseEdge : ∀ c ∈ close, isNameEdge c = true := fun c hc => by
    rcases hclose c hc with rfl | rfl <;> rfl
  have hnone : ∀ d, isNameEdge d = true → d ≠ ' ' → d ≠ '"' → d ∉ open' ++ name.text ++ close := by
    intro d hedge hblank hquote hd
    rcases mem_append.mp hd with hd | hd
    · rcases mem_append.mp hd with hd | hd
      · exact hquote (hopen d hd)
      · exact name.not_edge hedge hblank hd
    · rcases hclose d hd with rfl | rfl
      · exact hquote rfl
      · exact hblank rfl
  have hbreak : ∀ c ∈ open' ++ name.text ++ close, isLineBreak c = false := by
    intro c hc
    cases hbreak : isLineBreak c with
    | false => rfl
    | true =>
      simp only [isLineBreak, Bool.or_eq_true, decide_eq_true_eq] at hbreak
      rcases hbreak with rfl | rfl
      · exact absurd hc (hnone '\n' rfl (by decide) (by decide))
      · exact absurd hc (hnone '\r' rfl (by decide) (by decide))
  obtain ⟨left, hleft, htext⟩ := nameText_named hbreak (hnone '>' rfl (by decide) (by decide)) pre
  rw [hopening, htext]
  exact name.trimmed (fun c hc => hpre c (hleft c hc)) hopenEdge hcloseEdge

theorem Name.trim_sub (name : Name) : ∀ c ∈ trim name.text, c ∈ name.text := fun _ hc =>
  (dropWhile_suffix _).subset (Lib.rdropWhile_subset _ hc)

theorem Name.no_colon (name : Name) : ':' ∉ trim name.text := fun hc =>
  name.not_edge (c := ':') rfl (by decide) (name.trim_sub _ hc)

theorem mem_intercalate {words : List Text} (h : c ∈ [' '].intercalate words) :
    c = ' ' ∨ ∃ w ∈ words, c ∈ w := by
  induction words with
  | nil => exact absurd h not_mem_nil
  | cons w words ih =>
    cases words with
    | nil => exact .inr ⟨w, mem_cons_self, by rwa [intercalate_singleton] at h⟩
    | cons w' words =>
      rw [intercalate_cons_cons] at h
      rcases mem_append.mp h with h | h
      · rcases mem_append.mp h with h | h
        · exact .inr ⟨w, mem_cons_self, h⟩
        · exact .inl (mem_singleton.mp h)
      · rcases ih h with h | ⟨v, hv, hc⟩
        · exact .inl h
        · exact .inr ⟨v, mem_cons_of_mem _ hv, hc⟩

theorem splitWords_sub {word w : Text} (h : w ∈ splitWords word s) : ∀ c ∈ w, c ∈ word ∨ c ∈ s := by
  intro c hc
  induction s generalizing word with
  | nil =>
    rw [splitWords] at h
    split at h
    · exact absurd h not_mem_nil
    · rw [mem_singleton.mp h] at hc
      exact .inl hc
  | cons d s ih =>
    rw [splitWords] at h
    split at h
    · split at h
      · exact .inr (mem_cons_of_mem _ ((ih h).resolve_left not_mem_nil))
      · rcases mem_cons.mp h with rfl | h
        · exact .inl hc
        · exact .inr (mem_cons_of_mem _ ((ih h).resolve_left not_mem_nil))
    · rcases ih h with hword | hs
      · rcases mem_append.mp hword with hword | hd
        · exact .inl hword
        · exact .inr (mem_singleton.mp hd ▸ mem_cons_self)
      · exact .inr (mem_cons_of_mem _ hs)

theorem not_isValidEmail (case : Lowercase) (h : '@' ∉ s) : isValidEmail case.lower s = false := by
  have hnone : '@' ∉ normalizeEmail case.lower s := by
    intro hmem
    obtain ⟨c, hc, hat⟩ := mem_flatMap.mp hmem
    exact h (case.at_sign c hat ▸ (mem_filter.mp hc).1)
  have hsplit : Lib.splitFirst '@' (normalizeEmail case.lower s) = none := by
    have hall : ∀ c ∈ normalizeEmail case.lower s, decide (c ≠ '@') = true := fun c hc =>
      decide_eq_true fun (heq : c = '@') => hnone (heq ▸ hc)
    rw [Lib.splitFirst, dropWhile_eq_nil_iff.mpr hall]
  rw [isValidEmail, hsplit]

theorem cleaned_item {gap : Text} {name : Name} (htrimmed : trimmedName (nameText gap) = trim name.text)
    (h : Sliceable (trim name.text)) : cleanDisplayName (nameText gap) = some name.own := by
  have hquotes : ∀ c ∈ trim name.text, isQuote c = false := by
    intro c hc
    cases hquote : isQuote c with
    | false => rfl
    | true =>
      simp only [isQuote, Bool.or_eq_true, decide_eq_true_eq] at hquote
      rcases hquote with rfl | rfl
      · exact absurd (name.trim_sub _ hc) (name.not_edge rfl (by decide))
      · exact absurd (name.trim_sub _ hc) (name.not_edge rfl (by decide))
  have hok : NameOk headers (trimmedName (nameText gap)) := htrimmed ▸ (nameOk_iff name.no_colon).mpr h
  rw [cleanDisplayName_ok hok, htrimmed, withoutHeaders_same name.no_colon, unquoted_same hquotes,
    cleanText_squash, splitWords_trim]
  rfl

theorem Name.own_no_at {name : Name} {own : Text} (h : name.own = some own) : '@' ∉ own := by
  intro hat
  rw [Name.own] at h
  cases hwords : splitWords [] name.text with
  | nil =>
    rw [hwords] at h
    cases h
  | cons first words =>
    rw [hwords] at h
    cases h
    rcases mem_intercalate hat with heq | ⟨w, hw, hc⟩
    · exact absurd heq (by decide)
    · exact name.no_at ((splitWords_sub (hwords ▸ hw) _ hc).resolve_left not_mem_nil)

theorem displayNameOf_named (case : Lowercase) {pre : Text} (hpre : ∀ c ∈ pre, isNameEdge c = true)
    {shape : Shape} {name : Name} (h : shape.name = some name) (hslice : Sliceable (trim name.text)) :
    displayNameOf case.lower (pre ++ shape.opening) = some name.own := by
  have hgap : pre ++ shape.opening ≠ [] := by
    obtain ⟨open', close, hopening, -⟩ := Shape.opening_named h
    rw [hopening]
    simp
  rw [displayNameOf, if_neg hgap, cleaned_item (trimmedName_item hpre h) hslice]
  cases hown : name.own with
  | none => rfl
  | some own => simp [not_isValidEmail case (Name.own_no_at hown)]

theorem displayNameOf_bare (case : Lowercase) {pre : Text} (hpre : ∀ c ∈ pre, isNameEdge c = true) :
    displayNameOf case.lower pre = some none := by
  rw [displayNameOf]
  split
  · rfl
  · have htrimmed := trimmedName_edges fun c hc => hpre c (nameText_sub pre c hc)
    rw [cleanDisplayName_ok (htrimmed ▸ nameOk_nil headers), htrimmed]
    rfl

/-! ## The lists that are read -/

def Item.Readable (item : Item) : Prop := item.Clean ∧ ∀ name ∈ item.shape.name, Sliceable (trim name.text)

theorem Item.Readable.recipientOf (h : item.Readable) (case : Lowercase) {pre : Text}
    (hpre : ∀ c ∈ pre, isNameEdge c = true) :
    Import.recipientOf case.lower (pre ++ item.shape.opening, item.address.text) = some item.recipient := by
  have hemail : normalizeEmail case.lower item.address.text = item.address.text.map Char.toLower := by
    rw [Address.text, normalizeEmail_plain case (plain_of_isLocal h.1.2) (domain_plain item.address),
      map_append]
    rfl
  have hname : displayNameOf case.lower (pre ++ item.shape.opening) = some (item.shape.name.bind Name.own) := by
    cases hshape : item.shape.name with
    | some name => exact displayNameOf_named case hpre hshape (h.2 name hshape)
    | none =>
      have hbare : item.shape.opening = [] := by
        cases hkind : item.shape with
        | named name => simp [hkind, Shape.name] at hshape
        | quotedName name => simp [hkind, Shape.name] at hshape
        | bare => rfl
        | quoted => exact absurd hkind h.1.1
      rw [hbare, append_nil]
      exact displayNameOf_bare case hpre
  rw [Import.recipientOf, hname, hemail]
  rfl

theorem lead_edges (shape : Shape) (sep : Separator) :
    ∀ c ∈ shape.closing ++ sep.text, isNameEdge c = true := by
  intro c hc
  rcases mem_append.mp hc with hc | hc
  · cases shape <;> simp [Shape.closing] at hc <;> rw [hc] <;> rfl
  rcases mem_append.mp hc with hc | hc
  · rw [eq_of_mem_replicate hc]
    rfl
  · rcases mem_cons.mp hc with rfl | hc
    · cases sep.mark <;> rfl
    · rw [eq_of_mem_replicate hc]
      rfl

theorem mapM_rest (case : Lowercase) (shape : Shape) (l : List (Separator × Item)) (h : ∀ p ∈ l, p.2.Readable) :
    (piecesRest shape l).mapM (recipientOf case.lower) = some (l.map fun p => p.2.recipient) := by
  induction l generalizing shape with
  | nil => rfl
  | cons p rest ih =>
    obtain ⟨sep, item⟩ := p
    have hitem : item.Readable := h _ mem_cons_self
    rw [piecesRest, mapM_cons, hitem.recipientOf case (lead_edges shape sep),
      ih item.shape fun p hp => h p (mem_cons_of_mem _ hp)]
    rfl

theorem addressed_listed (case : Lowercase) (l : List (Separator × Item)) :
    addressed case.lower (pieces case.lower (render l)) = pieces case.lower (render l) := by
  refine filter_eq_self.mpr fun piece hpiece => ?_
  have hfound : piece.2 ∈ l.filterMap fun p => p.2.foundAddress :=
    addresses_listed case l ▸ mem_map_of_mem hpiece
  obtain ⟨⟨sep, item⟩, -, haddress⟩ := mem_filterMap.mp hfound
  rw [Item.foundAddress] at haddress
  split at haddress
  · cases haddress
  next hne =>
  have hstem : Plain ((item.shape.opening ++ item.address.stem).rtakeWhile isLocal) :=
    plain_of_isLocal fun _ hc => mem_rtakeWhile_imp hc
  have hdomain := domain_plain item.address
  rw [← Option.some.inj haddress, normalizeEmail_plain case hstem hdomain]
  exact isValidEmail_plain case hstem.lowered hdomain.lowered (by simpa using hne)
    (by simpa using domain_ne item.address)

theorem eq_some_of_filterMap {α β : Type} {f : α → Option β} {g : α → β} {l : List α}
    (h : l.filterMap f = l.map g) : ∀ a ∈ l, f a = some (g a) :=
  filterMap_eq_map_iff_forall_eq_some.mp h

theorem Item.clean_of_found (case : Lowercase)
    (h : item.foundAddress.map (normalizeEmail case.lower) = some (item.address.text.map Char.toLower)) :
    item.Clean := by
  have hlength : ((item.shape.opening ++ item.address.stem).rtakeWhile isLocal).length =
      item.address.stem.length := by
    rw [Item.foundAddress] at h
    split at h
    · cases h
    have hstem : Plain ((item.shape.opening ++ item.address.stem).rtakeWhile isLocal) :=
      plain_of_isLocal fun _ hc => mem_rtakeWhile_imp hc
    rw [Option.map_some, normalizeEmail_plain case hstem (domain_plain item.address), Address.text,
      map_append] at h
    have hcancel := congrArg List.length (append_cancel_right (Option.some.inj h))
    rwa [length_map, length_map] at hcancel
  have hlocal : ∀ c ∈ item.address.stem, isLocal c = true := by
    by_contra hbad
    push Not at hbad
    obtain ⟨c, hc, hnot⟩ := hbad
    obtain ⟨a, b, hcut⟩ := append_of_mem hc
    rw [hcut, ← append_assoc, Lib.rtakeWhile_append_cons _ (by simpa using hnot)] at hlength
    have hle := (rtakeWhile_suffix isLocal b).length_le
    simp only [length_append, length_cons] at hlength
    omega
  refine ⟨fun hquoted => ?_, hlocal⟩
  have hall : ∀ c ∈ Shape.quoted.opening ++ item.address.stem, isLocal c = true := by
    intro c hc
    rcases mem_append.mp hc with hc | hc
    · rw [mem_singleton.mp hc]
      rfl
    · exact hlocal c hc
  rw [hquoted, rtakeWhile_eq_self_iff.mpr hall] at hlength
  simp [Shape.opening] at hlength

theorem sliceable_rest (shape : Shape) (l : List (Separator × Item))
    (h : ∀ piece ∈ piecesRest shape l, NameOk headers (trimmedName (nameText piece.1))) :
    ∀ p ∈ l, ∀ name ∈ p.2.shape.name, Sliceable (trim name.text) := by
  induction l generalizing shape with
  | nil => exact fun _ hp => absurd hp not_mem_nil
  | cons p rest ih =>
    obtain ⟨sep, item⟩ := p
    obtain ⟨hitem, hrest⟩ := forall_mem_cons.mp h
    refine forall_mem_cons.mpr ⟨fun name hname => ?_, ih item.shape hrest⟩
    rw [trimmedName_item (lead_edges shape sep) hname] at hitem
    exact (nameOk_iff name.no_colon).mp hitem

/-- A list is read as it was written exactly when every item is readable. -/
theorem parseRecipientList_listed_iff (case : Lowercase) (l : List (Separator × Item)) :
    parseRecipientList case.lower (render l) = some (l.map fun p => p.2.recipient) ↔
      ∀ p ∈ l, p.2.shape ≠ .quoted ∧ (∀ c ∈ p.2.address.stem, isLocal c = true) ∧
        ∀ name ∈ p.2.shape.name, Sliceable (trim name.text) := by
  constructor
  · intro hread
    have hparse := hread
    rw [parseRecipientList_eq, addressed_listed] at hparse
    have hemails := Lib.mapM_eq_some_map (g := fun piece => normalizeEmail case.lower piece.2)
      (k := ParsedRecipient.email) (fun _ _ hr => by
        obtain ⟨_, -, rfl⟩ := Option.map_eq_some_iff.mp hr
        rfl) hparse
    have hclean : ∀ p ∈ l, p.2.Clean := by
      have hfound : (l.filterMap fun p => p.2.foundAddress.map (normalizeEmail case.lower)) =
          l.map fun p => p.2.address.text.map Char.toLower := by
        have hmap : (l.map fun p => p.2.recipient).map ParsedRecipient.email =
            l.map fun p => p.2.address.text.map Char.toLower := by
          rw [map_map]
          rfl
        rw [← hmap, hemails, ← map_filterMap, ← addresses_listed case l, map_map]
        rfl
      exact fun p hp => Item.clean_of_found case (eq_some_of_filterMap hfound p hp)
    have hok : ListOk case.lower (render l) := (parseRecipientList_isSome case.lower _).mp (by rw [hread]; rfl)
    rw [ListOk, addressed_listed] at hok
    cases l with
    | nil => exact fun _ hp => absurd hp not_mem_nil
    | cons p rest =>
      obtain ⟨sep, item⟩ := p
      obtain ⟨hitem, hrest⟩ := forall_mem_cons.mp hclean
      rw [pieces_listed case sep item rest hitem hrest] at hok
      obtain ⟨hfirst, hbehind⟩ := forall_mem_cons.mp hok
      refine forall_mem_cons.mpr ⟨⟨hitem.1, hitem.2, fun name hname => ?_⟩, fun p hp => ?_⟩
      · have htrimmed := @trimmedName_item [] (fun _ hc => absurd hc not_mem_nil) _ _ hname
        rw [nil_append] at htrimmed
        rw [htrimmed] at hfirst
        exact (nameOk_iff name.no_colon).mp hfirst
      · exact ⟨(hrest p hp).1, (hrest p hp).2, sliceable_rest item.shape rest hbehind p hp⟩
  · intro h
    have hreadable : ∀ p ∈ l, p.2.Readable := fun p hp => ⟨⟨(h p hp).1, (h p hp).2.1⟩, (h p hp).2.2⟩
    rw [parseRecipientList_eq, addressed_listed]
    cases l with
    | nil => rfl
    | cons p rest =>
      obtain ⟨sep, item⟩ := p
      obtain ⟨hitem, hrest⟩ := forall_mem_cons.mp hreadable
      have hfirst := @Item.Readable.recipientOf _ hitem case [] fun _ hc => absurd hc not_mem_nil
      rw [nil_append] at hfirst
      rw [pieces_listed case sep item rest hitem.1 fun p hp => (hrest p hp).1, mapM_cons, hfirst,
        mapM_rest case item.shape rest hrest]
      rfl

/-- The lower case of the ASCII letters, and every other character as it is. -/
def asciiCase : Lowercase where
  lower c := [c.toLower]
  ascii _ _ := rfl
  at_sign c h := by
    by_cases hup : 'A'.val ≤ c.val ∧ c.val ≤ 'Z'.val
    · have hall : ∀ n, 65 ≤ n → n ≤ 90 → (Char.ofNat n).toLower ≠ '@' := by decide +kernel
      have h65 : 65 ≤ c.toNat := hup.1
      have h90 : c.toNat ≤ 90 := hup.2
      have hc := hall c.toNat h65 h90
      rw [Char.ofNat_toNat] at hc
      exact absurd (mem_singleton.mp h).symm hc
    · rw [show c.toLower = c from dif_neg hup] at h
      exact (mem_singleton.mp h).symm

def zoeAddress : Address where
  stem := ['z', 'o', 'e']
  host := ['x']
  tld := ['c', 'o', 'm']
  stem_ne := by decide
  stem_atext := Lib.forall_mem_of_all (by decide)
  host_ne := by decide
  host_domain := Lib.forall_mem_of_all (by decide)
  tld_common := by decide +kernel

def zoeName : Name where
  text := ['Z', 'o', 'ë']
  plain := Lib.forall_mem_of_all (by decide)

/-- In single quotes the opening quote stays in the address, and behind `Zo` a header word of three
letters ends inside the `ë`. -/
theorem quoted_keeps_quote :
    parseRecipientList asciiCase.lower (render [(⟨0, .comma, 0⟩, ⟨.quoted, zoeAddress⟩)]) =
        some [⟨'\'' :: zoeAddress.text, none⟩] ∧
      (Item.mk .quoted zoeAddress).recipient = ⟨zoeAddress.text, none⟩ ∧
      parseRecipientList asciiCase.lower (render [(⟨0, .comma, 0⟩, ⟨.named zoeName, zoeAddress⟩)]) = none := by
  decide +kernel

end Ratatoskr.Import
