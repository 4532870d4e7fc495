import Ratatoskr.Import.Recipients
import Ratatoskr.Lib.Traced

/-!
# Import.Pieces

What `parse_recipient_list` does to the text: it is cut into addresses and the texts in front of them.

* `candidateAt_eq` : the address around an `@`, and that none of its slices panics.
* `findSpans_found` : all addresses, none begun inside the one before.
* `parseRecipientList_eq` : each address gets its name from the text in front of it.
* `parseRecipientList_isSome` : the header words of the names decide whether the list is read.
-/

namespace Ratatoskr.Import

open List
open Lib (byteLength byteLength_cons byteIs scanBack scanOn slice sliceFrom sliceTo rfind indicesOf)
open Rte (isWhitespace)
open Threading (trim trimStart splitWords)

variable {c : Char}

theorem size_of_lt (h : c.toNat < 128) : c.utf8Size = 1 := by
  have hall : ∀ n, n < 128 → (Char.ofNat n).utf8Size = 1 := by decide +kernel
  have hc := hall c.toNat h
  rwa [Char.ofNat_toNat] at hc

theorem lt_of_isAlphanum (h : c.isAlphanum = true) : c.toNat < 128 := by
  delta Char.isAlphanum Char.isAlpha Char.isUpper Char.isLower Char.isDigit at h
  simp only [Bool.or_eq_true, Bool.and_eq_true, decide_eq_true_eq] at h
  rcases h with (⟨-, h⟩ | ⟨-, h⟩) | ⟨-, h⟩
  all_goals
    have hle := UInt32.le_iff_toNat_le.mp h
    simp at hle
    omega

theorem isLocal_of_isDomain (h : isDomain c = true) : isLocal c = true := by
  simp only [isDomain, isLocal, Bool.or_eq_true, decide_eq_true_eq] at h ⊢
  tauto

theorem isLocal_single (c : Char) (h : isLocal c = true) : c.utf8Size = 1 := by
  simp only [isLocal, Bool.or_eq_true, decide_eq_true_eq] at h
  rcases h with (((((h | rfl) | rfl) | rfl) | rfl) | rfl) | rfl
  · exact size_of_lt (lt_of_isAlphanum h)
  all_goals rfl

theorem isDomain_single (c : Char) (h : isDomain c = true) : c.utf8Size = 1 :=
  isLocal_single c (isLocal_of_isDomain h)

theorem taken_front (p : Char → Bool) (s : Text) : s.takeWhile p <+: s := takeWhile_prefix p

theorem dropped_front (p : Char → Bool) (s : Text) : s.rdropWhile p <+: s := rdropWhile_prefix p s

/-- The top-level domain at the start of a suffix, with a name glued to it. -/
def gluedTld (suffix : Text) : Option Text :=
  commonTlds.find? fun tld =>
    tld.length < suffix.length && eqIgnoreAsciiCase (suffix.take tld.length) tld &&
      suffix[tld.length]?.any Char.isUpper

def domainOf (domain : Text) : Text :=
  let suffix := domain.rtakeWhile (· ≠ '.')
  if '.' ∈ domain ∧ ¬commonTlds.any fun tld => eqIgnoreAsciiCase suffix tld then
    match gluedTld suffix with
    | some tld => domain.take (domain.length - suffix.length + tld.length)
    | none => domain
  else domain

theorem single_of_mem_tlds {tld : Text} (h : tld ∈ commonTlds) : ∀ c ∈ tld, c.utf8Size = 1 := by
  have hall : ∀ tld ∈ commonTlds, tld.all (fun c => c.utf8Size = 1) = true := by decide +kernel
  exact Lib.forall_mem_of_all (hall tld h)

theorem gluedEnd_eq {suffix : Text} (hs : ∀ c ∈ suffix, c.utf8Size = 1) (start stop : Nat) {tlds : List Text}
    (htlds : ∀ tld ∈ tlds, ∀ c ∈ tld, c.utf8Size = 1) : gluedEnd suffix start stop tlds =
      some (match tlds.find? fun tld =>
          tld.length < suffix.length && eqIgnoreAsciiCase (suffix.take tld.length) tld &&
            suffix[tld.length]?.any Char.isUpper with
        | some tld => start + tld.length
        | none => stop) := by
  induction tlds with
  | nil => rfl
  | cons tld tlds ih =>
    have ih := ih fun tld htld => htlds tld (mem_cons_of_mem _ htld)
    rw [gluedEnd, Lib.byteLength_of_single (htlds tld mem_cons_self), Lib.byteLength_of_single hs]
    by_cases hlength : tld.length < suffix.length
    · rw [Lib.sliceTo_of_single hs hlength.le, Lib.byteIs_of_single hs, find?_cons]
      simp only [hlength, decide_true, Bool.true_and, Option.bind_eq_bind, Option.bind_some]
      cases hglued : eqIgnoreAsciiCase (suffix.take tld.length) tld && suffix[tld.length]?.any Char.isUpper with
      | true => rfl
      | false => exact ih
    · rw [ih]
      simp [hlength]

theorem trimGluedNameSuffix_eq (a : Text) {domain : Text} (hd : ∀ c ∈ domain, isDomain c = true) (b : Text) :
    trimGluedNameSuffix (a ++ (domain ++ b)) (byteLength a) (byteLength (a ++ domain)) =
      some (byteLength a + byteLength (domainOf domain)) := by
  have hsingle : ∀ c ∈ domain, c.utf8Size = 1 := fun c hc => isDomain_single c (hd c hc)
  rw [trimGluedNameSuffix, Lib.slice_append]
  simp only [Option.bind_eq_bind, Option.bind_some]
  rcases Lib.rfind_cases (· = '.') domain with ⟨front, dot, suffix, rfl, hdot, hbehind, hat⟩ | ⟨hnone, hat⟩
  · have hdot : dot = '.' := by simpa using hdot
    subst hdot
    have hcut : (front ++ '.' :: suffix).rtakeWhile (· ≠ '.') = suffix := by
      rw [Lib.rtakeWhile_append_cons front (by simp), rtakeWhile_eq_self_iff]
      intro c hc
      simpa using hbehind c hc
    have hsuffix : ∀ c ∈ suffix, c.utf8Size = 1 := fun c hc =>
      hsingle c (mem_append_right _ (mem_cons_of_mem _ hc))
    have hstart : byteLength (a ++ (front ++ ['.'])) = byteLength a + byteLength front + 1 := by
      rw [Lib.byteLength_append, Lib.byteLength_concat front rfl, Nat.add_assoc]
    have hslice : slice (a ++ (front ++ '.' :: suffix ++ b)) (byteLength a + byteLength front + 1)
        (byteLength (a ++ (front ++ '.' :: suffix))) = some suffix := by
      have hslice := Lib.slice_append (a ++ (front ++ ['.'])) suffix b
      rw [hstart] at hslice
      simpa using hslice
    rw [hat, domainOf, hcut]
    simp only [hslice, Option.bind_some]
    by_cases hknown : (commonTlds.any fun tld => eqIgnoreAsciiCase suffix tld) = true
    · rw [if_pos hknown, if_neg fun h => h.2 hknown, Lib.byteLength_append]
    rw [if_neg hknown, if_pos ⟨mem_append_right _ mem_cons_self, hknown⟩,
      gluedEnd_eq hsuffix _ _ fun tld => single_of_mem_tlds, gluedTld]
    cases hfound : commonTlds.find? fun tld =>
        tld.length < suffix.length && eqIgnoreAsciiCase (suffix.take tld.length) tld &&
          suffix[tld.length]?.any Char.isUpper with
    | none => exact congrArg some (Lib.byteLength_append ..)
    | some tld =>
      have htld := find?_some hfound
      simp only [Bool.and_eq_true, decide_eq_true_eq] at htld
      have hfront : ∀ c ∈ front, c.utf8Size = 1 := fun c hc => hsingle c (mem_append_left _ hc)
      have htotal : (front ++ '.' :: suffix).length = front.length + 1 + suffix.length := by
        rw [length_append, length_cons, Nat.add_assoc, Nat.add_comm 1]
      have hkept : front.length + 1 + suffix.length - suffix.length + tld.length =
        front.length + 1 + tld.length := by
        rw [Nat.add_sub_cancel]
      have htake : byteLength ((front ++ '.' :: suffix).take (front.length + 1 + tld.length)) =
          front.length + 1 + tld.length := by
        rw [Lib.byteLength_of_single fun c hc => hsingle c (mem_of_mem_take hc), length_take,
          htotal]
        exact Nat.min_eq_left (Nat.add_le_add_left htld.1.1.le _)
      dsimp only
      rw [htotal, hkept, htake, Lib.byteLength_of_single hfront, Nat.add_assoc, Nat.add_assoc, Nat.add_assoc]
  · have hnot : '.' ∉ domain := fun hmem => by simpa using hnone '.' hmem
    rw [hat, domainOf, if_neg fun h => hnot h.1, Lib.byteLength_append]

theorem domainOf_nil : domainOf [] = [] := by
  rw [domainOf, if_neg fun h => not_mem_nil h.1]

theorem domainOf_front (domain : Text) : domainOf domain <+: domain := by
  rw [domainOf]
  split
  · split
    · exact take_prefix ..
    · exact prefix_refl _
  · exact prefix_refl _

theorem scanDomainEnd_eq (a b : Text) : scanDomainEnd (a ++ b) (byteLength a) =
      some (if b.takeWhile isDomain = [] then none
        else some (byteLength a + byteLength (domainOf (b.takeWhile isDomain)))) := by
  have hstop := Lib.scanOn_append isDomain_single a b (n := byteLength (a ++ b)) (by simp)
  have hinput : a ++ b = a ++ (b.takeWhile isDomain ++ b.dropWhile isDomain) := by
    rw [takeWhile_append_dropWhile]
  rw [scanDomainEnd, hstop]
  by_cases hnone : b.takeWhile isDomain = []
  · rw [if_pos hnone, hnone, Lib.byteLength_nil, if_pos (Nat.add_zero _)]
  have hpos := Lib.byteLength_pos hnone
  rw [if_neg hnone, if_neg (by omega), ← Lib.byteLength_append, hinput]
  rw [trimGluedNameSuffix_eq a (fun _ hc => mem_takeWhile_imp hc)]
  rfl

/-! ## Spans -/

theorem trimEmailEnd_eq (a : Text) (address b : Text) {fuel : Nat} (h : byteLength address < fuel) :
    trimEmailEnd (a ++ (address ++ b)) (byteLength a) fuel (byteLength (a ++ address)) =
      some (byteLength (a ++ address.rdropWhile isTrailing)) := by
  induction address using List.reverseRecOn generalizing b fuel with
  | nil =>
    obtain ⟨fuel, rfl⟩ := Nat.exists_eq_add_one.mpr (Nat.zero_lt_of_lt h)
    rw [trimEmailEnd, append_nil, if_neg (Nat.lt_irrefl _), rdropWhile_nil, append_nil]
  | append_singleton address c ih =>
    obtain ⟨fuel, rfl⟩ := Nat.exists_eq_add_one.mpr (Nat.zero_lt_of_lt h)
    have hsize := c.utf8Size_pos
    have hlength : byteLength (a ++ (address ++ [c])) = byteLength (a ++ address) + c.utf8Size := by
      simp [byteLength_cons, Nat.add_assoc]
    have hslice := Lib.sliceTo_append (a ++ (address ++ [c])) b
    have hlast : (a ++ (address ++ [c])).getLast? = some c := by
      rw [← append_assoc, getLast?_concat]
    rw [append_assoc] at hslice
    rw [trimEmailEnd, if_pos (by rw [hlength, Lib.byteLength_append]; omega), hslice]
    simp only [Option.bind_eq_bind, Option.bind_some, hlast]
    rw [Lib.byteLength_append, byteLength_cons] at h
    cases hc : isTrailing c with
    | false =>
      rw [rdropWhile_concat_neg _ _ _ (by simp [hc])]
      rfl
    | true =>
      rw [rdropWhile_concat_pos _ _ _ hc, hlength, Nat.add_sub_cancel, append_assoc]
      exact ih (c :: b) (by omega)

theorem trimEmailSpan_eq (a address b : Text) :
    trimEmailSpan (a ++ (address ++ b)) (byteLength a) (byteLength (a ++ address)) =
      some ⟨byteLength a, byteLength (a ++ address.rdropWhile isTrailing)⟩ := by
  have hfuel : byteLength address < byteLength (a ++ address) + 1 := by
    rw [Lib.byteLength_append]
    omega
  rw [trimEmailSpan, trimEmailEnd_eq a address b hfuel]
  rfl

/-- The domain behind an `@`, if there is an address around it. -/
def domainAt (lower : Char → Text) (seen rest : Text) : Option Text :=
  let domain := domainOf (rest.takeWhile isDomain)
  let kept := domain.rdropWhile isTrailing
  if seen.rtakeWhile isLocal ≠ [] ∧ domain ≠ [] ∧
      isValidEmail lower (seen.rtakeWhile isLocal ++ '@' :: kept) then some kept
  else none

theorem domainAt_front {lower : Char → Text} {seen rest kept : Text}
    (h : domainAt lower seen rest = some kept) : kept <+: rest ∧ ∀ c ∈ kept, isDomain c = true := by
  rw [domainAt] at h
  split at h
  · cases h
    have hkept := (dropped_front isTrailing (domainOf (rest.takeWhile isDomain))).trans
      (domainOf_front _)
    exact ⟨hkept.trans (taken_front _ rest), fun c hc => mem_takeWhile_imp (hkept.subset hc)⟩
  · cases h

theorem scanLocalStart_eq (seen rest : Text) : scanLocalStart (seen ++ rest) (byteLength seen) =
      if seen.rtakeWhile isLocal = [] then none else some (byteLength (seen.rdropWhile isLocal)) := by
  have hback := Lib.scanBack_append isLocal_single seen rest
  have hlength := congrArg byteLength (rdropWhile_append_rtakeWhile (p := isLocal) (l := seen))
  rw [Lib.byteLength_append] at hlength
  rw [scanLocalStart, show scanBack isLocal (seen ++ rest) (byteLength seen) =
    byteLength (seen.rdropWhile isLocal) by omega]
  by_cases hnone : seen.rtakeWhile isLocal = []
  · rw [hnone, Lib.byteLength_nil] at hlength
    split
    · rfl
    · exact if_neg (by omega)
  · have hpos := Lib.byteLength_pos hnone
    rw [if_neg hnone, if_neg (by omega), if_pos (by omega)]

theorem candidateAt_eq (lower : Char → Text) (seen rest : Text) :
    candidateAt lower (seen ++ '@' :: rest) (byteLength seen) =
      some ((domainAt lower seen rest).map fun kept =>
        ⟨byteLength (seen.rdropWhile isLocal), byteLength seen + 1 + byteLength kept⟩) := by
  rw [candidateAt, scanLocalStart_eq, domainAt]
  have hseen := rdropWhile_append_rtakeWhile (p := isLocal) (l := seen)
  generalize seen.rtakeWhile isLocal = stem at hseen ⊢
  generalize seen.rdropWhile isLocal = before at hseen ⊢
  have hlength : byteLength seen = byteLength before + byteLength stem := by
    rw [← hseen, Lib.byteLength_append]
  by_cases hstem : stem = []
  · rw [if_pos hstem, if_neg fun h => h.1 hstem]
    rfl
  have hpos := Lib.byteLength_pos hstem
  have hat := Lib.byteLength_concat seen (c := '@') rfl
  have hdomain := scanDomainEnd_eq (seen ++ ['@']) rest
  rw [hat, append_assoc, singleton_append] at hdomain
  rw [if_neg hstem]
  simp only [Option.bind_eq_bind, hdomain, Option.bind_some]
  by_cases hempty : rest.takeWhile isDomain = []
  · rw [if_pos hempty, hempty, if_neg fun h => h.2.1 rfl]
    rfl
  rw [if_neg hempty]
  have hfront := (domainOf_front (rest.takeWhile isDomain)).trans (taken_front _ rest)
  generalize domainOf (rest.takeWhile isDomain) = domain at hfront ⊢
  obtain ⟨tail, rfl⟩ := hfront
  dsimp only
  by_cases hdomain : domain = []
  · rw [if_pos (by rw [hdomain, Lib.byteLength_nil]; omega), if_neg fun h => h.2.1 hdomain]
    rfl
  have hdomainPos := Lib.byteLength_pos hdomain
  -- the loop stops at the `@`, if not before
  have hspan := trimEmailSpan_eq before (stem ++ '@' :: domain) tail
  have hcut : ∀ d tail : Text, before ++ ((stem ++ '@' :: d) ++ tail) = seen ++ '@' :: (d ++ tail) :=
    fun d tail => by simp [← hseen]
  have hend : ∀ d : Text,
      byteLength (before ++ (stem ++ '@' :: d)) = byteLength seen + 1 + byteLength d := fun d => by
      rw [← hat, ← Lib.byteLength_append]
      simp [← hseen]
  rw [Lib.rdropWhile_append_cons stem (c := '@') rfl domain, hcut, hend, hend] at hspan
  obtain ⟨extra, hextra⟩ := rdropWhile_prefix isTrailing domain
  generalize domain.rdropWhile isTrailing = kept at hspan hextra ⊢
  have hslice := Lib.slice_append before (stem ++ '@' :: kept) (extra ++ tail)
  rw [hcut, hend, ← append_assoc, hextra] at hslice
  rw [if_neg (by omega), hspan]
  simp only [Option.bind_some, hslice]
  rw [if_pos (by omega)]
  by_cases hvalid : isValidEmail lower (stem ++ '@' :: kept) = true
  · rw [if_pos hvalid, if_pos ⟨hstem, hdomain, hvalid⟩]
    rfl
  · rw [if_neg hvalid, if_neg fun h => hvalid h.2.2]
    rfl

/-- The domain of an address around an `@` in front of `rest`, if the address begins in `gap`. -/
def addressAt (lower : Char → Text) (seen gap : Text) (c : Char) (rest : Text) : Option Text :=
  if c = '@' ∧ (seen.rtakeWhile isLocal).length ≤ gap.length then domainAt lower seen rest else none

/-- The addresses in `rest`, each with the text between it and the one before. `seen` is what stands in
front of `rest`, `gap` its part behind the last address, and so many characters of `rest` are in that. -/
def found (lower : Char → Text) : Text → Text → Nat → Text → List (Text × Text)
  | _, _, _, [] => []
  | seen, gap, ahead + 1, c :: rest => found lower (seen ++ [c]) gap ahead rest
  | seen, gap, 0, c :: rest =>
    match addressAt lower seen gap c rest with
    | none => found lower (seen ++ [c]) (gap ++ [c]) 0 rest
    | some kept =>
      (gap.rdropWhile isLocal, seen.rtakeWhile isLocal ++ '@' :: kept) ::
        found lower (seen ++ [c]) [] kept.length rest

theorem found_skip (lower : Char → Text) (seen gap a rest : Text) :
    found lower seen gap a.length (a ++ rest) = found lower (seen ++ a) gap 0 rest := by
  induction a generalizing seen with
  | nil => rw [length_nil, nil_append, append_nil]
  | cons c a ih => rw [length_cons, cons_append, found, ih, append_assoc, singleton_append]

/-- Where the found addresses stand, the first text beginning at an offset. -/
def spansOf : Nat → List (Text × Text) → List Span
  | _, [] => []
  | i, (gap, address) :: rest =>
    ⟨i + byteLength gap, i + byteLength gap + byteLength address⟩ ::
      spansOf (i + byteLength gap + byteLength address) rest

def joined (pieces : List (Text × Text)) : Text := pieces.flatMap fun piece => piece.1 ++ piece.2

def EndsAt (spans : List Span) (i : Nat) : Prop :=
  ∀ start, (spans.getLast?.any fun last => start < last.stop) = decide (start < i)

theorem endsAt_nil : EndsAt [] 0 := fun start => by simp

theorem endsAt_concat (spans : List Span) (span : Span) : EndsAt (spans ++ [span]) span.stop := fun start => by
  rw [getLast?_concat]
  rfl

theorem stem_in_gap {front gap : Text} (h : ((front ++ gap).rtakeWhile isLocal).length ≤ gap.length) :
    gap = gap.rdropWhile isLocal ++ (front ++ gap).rtakeWhile isLocal ∧
      (front ++ gap).rdropWhile isLocal = front ++ gap.rdropWhile isLocal := by
  have hstem := Lib.rtakeWhile_append_of_le h
  have hgap := rdropWhile_append_rtakeWhile (p := isLocal) (l := gap)
  have hseen := rdropWhile_append_rtakeWhile (p := isLocal) (l := front ++ gap)
  rw [hstem] at hseen ⊢
  refine ⟨hgap.symm, append_cancel_right (hseen.trans ?_)⟩
  rw [append_assoc, hgap]

theorem stem_before_gap {front gap : Text} (h : gap.length < ((front ++ gap).rtakeWhile isLocal).length) :
    byteLength ((front ++ gap).rdropWhile isLocal) < byteLength front := by
  have hseen := congrArg byteLength (rdropWhile_append_rtakeWhile (p := isLocal) (l := front ++ gap))
  obtain ⟨more, hmore⟩ := suffix_of_suffix_length_le (suffix_append front gap)
    (rtakeWhile_suffix isLocal (front ++ gap)) h.le
  have hne : more ≠ [] := by
    rintro rfl
    rw [← hmore] at h
    exact absurd h (Nat.lt_irrefl _)
  have hpos := Lib.byteLength_pos hne
  rw [← hmore, Lib.byteLength_append, Lib.byteLength_append, Lib.byteLength_append] at hseen
  omega

theorem findSpans_found (lower : Char → Text) (front gap rest : Text) (spans : List Span)
    (hspans : EndsAt spans (byteLength front)) :
    findSpans lower (front ++ (gap ++ rest)) (indicesOf (· = '@') (byteLength (front ++ gap)) rest) spans =
        some (spans ++ spansOf (byteLength front) (found lower (front ++ gap) gap 0 rest)) ∧
      ∃ tail, gap ++ rest = joined (found lower (front ++ gap) gap 0 rest) ++ tail := by
  induction hn : rest.length using Nat.strong_induction_on generalizing front gap rest spans with
  | _ n ih =>
    cases rest with
    | nil =>
      refine ⟨?_, gap, by simp [found, joined]⟩
      simp [found, spansOf, indicesOf, findSpans]
    | cons c rest =>
      subst hn
      have hnext := ih rest.length (Nat.lt_succ_self _) front (gap ++ [c]) rest spans hspans rfl
      rw [append_assoc, ← append_assoc front gap [c]] at hnext
      have hlength : byteLength (front ++ gap ++ [c]) = byteLength (front ++ gap) + c.utf8Size := by
        simp [byteLength_cons, Nat.add_assoc]
      rw [hlength] at hnext
      rw [found]
      by_cases hat : c = '@'
      · subst hat
        have hindices : indicesOf (· = '@') (byteLength (front ++ gap)) ('@' :: rest) =
            byteLength (front ++ gap) :: indicesOf (· = '@') (byteLength (front ++ gap) + 1) rest := rfl
        have hcandidate := candidateAt_eq lower (front ++ gap) rest
        rw [append_assoc] at hcandidate
        rw [hindices, findSpans, hcandidate, addressAt]
        cases hdomain : domainAt lower (front ++ gap) rest with
        | none =>
          rw [ite_self]
          exact hnext
        | some kept =>
          have hlast := hspans (byteLength ((front ++ gap).rdropWhile isLocal))
          simp only [Option.bind_eq_bind, Option.bind_some, Option.map_some, hlast]
          by_cases hgap : ((front ++ gap).rtakeWhile isLocal).length ≤ gap.length
          · obtain ⟨hsplit, hbefore⟩ := stem_in_gap hgap
            obtain ⟨⟨rest, rfl⟩, hkept⟩ := domainAt_front hdomain
            generalize (front ++ gap).rtakeWhile isLocal = stem at hsplit hgap ⊢
            generalize gap.rdropWhile isLocal = before at hsplit hbefore ⊢
            have hcut : front ++ (gap ++ '@' :: (kept ++ rest)) = (front ++ (gap ++ '@' :: kept)) ++ rest := by
              simp
            have hnoat : ∀ d ∈ kept, decide (d = '@') = false := fun d hd => by
              have hdom := hkept d hd
              cases hat : decide (d = '@') with
              | false => rfl
              | true =>
                rw [of_decide_eq_true hat] at hdom
                exact absurd hdom (by decide)
            have hstop : byteLength (front ++ gap) + 1 + byteLength kept =
                byteLength (front ++ (gap ++ '@' :: kept)) := by
              rw [← Lib.byteLength_concat (front ++ gap) (c := '@') rfl, ← Lib.byteLength_append]
              simp
            have hshorter : rest.length < ('@' :: (kept ++ rest)).length := by
              rw [length_cons, length_append]
              omega
            have hnext := ih rest.length hshorter (front ++ (gap ++ '@' :: kept)) [] rest
              (spans ++ [⟨byteLength (front ++ before), byteLength (front ++ (gap ++ '@' :: kept))⟩])
              (endsAt_concat _ _) rfl
            rw [hbefore, hcut, if_neg (by simp), Lib.indicesOf_skip hnoat, hstop]
            rw [if_pos ⟨trivial, hgap⟩]
            rw [nil_append, append_nil] at hnext
            obtain ⟨hrun, tail, htail⟩ := hnext
            have hjoin : front ++ gap ++ ['@'] ++ kept = front ++ (gap ++ '@' :: kept) := by simp
            have hwhole : front ++ (gap ++ '@' :: kept) = front ++ before ++ (stem ++ '@' :: kept) := by
              rw [hsplit]
              simp
            dsimp only
            rw [found_skip, hjoin]
            refine ⟨?_, tail, ?_⟩
            · rw [hrun, spansOf, ← Lib.byteLength_append, ← Lib.byteLength_append, ← hwhole,
                append_assoc spans, singleton_append]
            · rw [joined, flatMap_cons, ← joined, append_assoc, ← htail, hsplit]
              simp
          · have hbefore := stem_before_gap (Nat.lt_of_not_le hgap)
            rw [if_pos (decide_eq_true hbefore), if_neg fun h => hgap h.2]
            exact hnext
      · have hnone : addressAt lower (front ++ gap) gap c rest = none := if_neg fun h => hat h.1
        rw [hnone, indicesOf, if_neg (by simpa using hat)]
        exact hnext

/-! ## Recipients -/

/-- The part of the text in front of an address that the name is read from. -/
def nameText (gap : Text) : Text :=
  let line := gap.rtakeWhile fun c => !isLineBreak c
  let front := if '<' ∈ line then (line.rdropWhile (· ≠ '<')).dropLast else line
  front.rtakeWhile (· ≠ '>')

def displayNameOf (lower : Char → Text) (gap : Text) : Option (Option Text) :=
  if gap = [] then some none
  else (cleanDisplayName (nameText gap)).map fun cleaned => cleaned.filter fun name => !isValidEmail lower name

theorem afterLast_eq {p : Char → Bool} (hp : ∀ c, p c = true → c.utf8Size = 1) (name : Text) :
    afterLast p name = some (name.rtakeWhile fun c => !p c) := by
  rw [afterLast]
  rcases Lib.rfind_cases p name with ⟨a, c, b, rfl, hc, hbehind, hat⟩ | ⟨hnone, hat⟩
  · have hall : ∀ d ∈ b, (!p d) = true := fun d hd => by rw [hbehind d hd]; rfl
    rw [hat, Lib.rtakeWhile_append_cons a (by rw [hc]; rfl), rtakeWhile_eq_self_iff.mpr hall]
    dsimp only
    rw [Lib.sliceFrom_after, if_pos (hp c hc)]
  · have hall : ∀ d ∈ name, (!p d) = true := fun d hd => by rw [hnone d hd]; rfl
    rw [hat, rtakeWhile_eq_self_iff.mpr hall]

theorem beforeLast_eq (d : Char) (name : Text) :
    beforeLast (· = d) name = some (if d ∈ name then (name.rdropWhile (· ≠ d)).dropLast else name) := by
  rw [beforeLast]
  rcases Lib.rfind_cases (· = d) name with ⟨a, c, b, rfl, hc, hbehind, hat⟩ | ⟨hnone, hat⟩
  · have hc : c = d := by simpa using hc
    subst hc
    have hall : b.rdropWhile (· ≠ c) = [] := rdropWhile_eq_nil_iff.mpr fun e he => by
      simpa using hbehind e he
    rw [hat, if_pos (mem_append_right _ mem_cons_self), Lib.rdropWhile_append_cons a (by simp), hall,
      dropLast_concat]
    exact Lib.sliceTo_append ..
  · rw [hat, if_neg fun hmem => by simpa using hnone d hmem]

theorem extractDisplayName_eq (lower : Char → Text) (front gap rest : Text) :
    extractDisplayName lower (front ++ (gap ++ rest)) (byteLength front) (byteLength (front ++ gap)) =
      displayNameOf lower gap := by
  rw [extractDisplayName, displayNameOf]
  by_cases hgap : gap = []
  · rw [if_pos hgap, if_pos (by rw [hgap, append_nil])]
  have hpos := Lib.byteLength_pos hgap
  have hbreak : ∀ c, isLineBreak c = true → c.utf8Size = 1 := by
    intro c hc
    simp only [isLineBreak, Bool.or_eq_true, decide_eq_true_eq] at hc
    rcases hc with rfl | rfl <;> rfl
  have hclose : ∀ c, decide (c = '>') = true → c.utf8Size = 1 := by
    intro c hc
    rw [of_decide_eq_true hc]
    rfl
  rw [if_neg hgap, if_neg (by rw [Lib.byteLength_append]; omega), Lib.slice_append]
  simp only [Option.bind_eq_bind, Option.bind_some, afterLast_eq hbreak, beforeLast_eq, afterLast_eq hclose]
  rw [nameText, Option.map_eq_bind]
  simp only [decide_not]
  rfl

def recipientOf (lower : Char → Text) (piece : Text × Text) : Option ParsedRecipient :=
  (displayNameOf lower piece.1).map fun displayName => ⟨normalizeEmail lower piece.2, displayName⟩

def addressed (lower : Char → Text) (pieces : List (Text × Text)) : List (Text × Text) :=
  pieces.filter fun piece => isValidEmail lower (normalizeEmail lower piece.2)

theorem recipientsOf_eq (lower : Char → Text) (front : Text) (pieces : List (Text × Text)) (tail : Text)
    (recipients : List ParsedRecipient) :
    recipientsOf lower (front ++ (joined pieces ++ tail)) (spansOf (byteLength front) pieces) (byteLength front)
        recipients = ((addressed lower pieces).mapM (recipientOf lower)).map (recipients ++ ·) := by
  induction pieces generalizing front recipients with
  | nil => simp [spansOf, recipientsOf, addressed]
  | cons piece pieces ih =>
    obtain ⟨gap, address⟩ := piece
    have hjoined : joined ((gap, address) :: pieces) ++ tail = gap ++ (address ++ (joined pieces ++ tail)) := by
      simp [joined]
    have hstop : byteLength front + byteLength gap + byteLength address =
        byteLength (front ++ (gap ++ address)) := by
      simp [Nat.add_assoc]
    have hslice := Lib.slice_append (front ++ gap) address (joined pieces ++ tail)
    have hnext := ih (front ++ (gap ++ address))
    rw [← hstop, append_assoc front, append_assoc gap] at hnext
    rw [Lib.byteLength_append, append_assoc, Lib.byteLength_append, Lib.byteLength_append] at hslice
    have hname := extractDisplayName_eq lower front gap (address ++ (joined pieces ++ tail))
    rw [Lib.byteLength_append] at hname
    rw [hjoined, spansOf, recipientsOf]
    simp only [hslice, hname, hnext, Option.bind_eq_bind, Option.bind_some]
    by_cases hvalid : isValidEmail lower (normalizeEmail lower address) = true
    · have hcons : addressed lower ((gap, address) :: pieces) = (gap, address) :: addressed lower pieces :=
        filter_cons_of_pos hvalid
      rw [if_pos hvalid, hcons, mapM_cons, recipientOf]
      cases displayNameOf lower gap with
      | none => rfl
      | some displayName =>
        cases (addressed lower pieces).mapM (recipientOf lower) with
        | none => rfl
        | some rest => simp
    · have hcons : addressed lower ((gap, address) :: pieces) = addressed lower pieces :=
        filter_cons_of_neg hvalid
      rw [if_neg hvalid, hcons]

/-- The addresses of a text, each behind the text between it and the one before. -/
def pieces (lower : Char → Text) (input : Text) : List (Text × Text) := found lower [] [] 0 input

theorem parseRecipientList_eq (lower : Char → Text) (input : Text) :
    parseRecipientList lower input = (addressed lower (pieces lower input)).mapM (recipientOf lower) := by
  obtain ⟨hspans, tail, htail⟩ := findSpans_found lower [] [] input [] endsAt_nil
  have hrecipients := recipientsOf_eq lower [] (pieces lower input) tail []
  simp only [nil_append, Lib.byteLength_nil] at hspans htail hrecipients
  rw [parseRecipientList, findEmailSpans, hspans]
  rw [pieces, ← htail] at hrecipients
  exact hrecipients.trans Option.map_id'

/-- The slices at a header word: behind it, and where it has its colon one byte further. -/
def HeaderOk (header name : Text) : Prop :=
  byteLength header < byteLength name → ∃ front behind, name = front ++ behind ∧
    byteLength front = byteLength header ∧
      (eqIgnoreAsciiCase front header = true → (trimStart behind).head? = some ':' →
        ∀ c ∈ behind.head?, c.utf8Size = 1)

/-- The name without the header word, where the word stands with its colon. -/
def withoutHeader (header name : Text) : Text :=
  match Lib.splitBytes (byteLength header) name with
  | some (front, behind) =>
    if eqIgnoreAsciiCase front header = true ∧ (trimStart behind).head? = some ':' then trim behind.tail
    else name
  | none => name

variable {header name : Text}

theorem withoutHeader_short (h : ¬byteLength header < byteLength name) :
    withoutHeader header name = name := by
  rw [withoutHeader]
  cases hslice : Lib.splitBytes (byteLength header) name with
  | none => rfl
  | some parts =>
    obtain ⟨front, behind⟩ := parts
    obtain ⟨rfl, hfront⟩ := Lib.splitBytes_eq_some.mp hslice
    rw [Lib.byteLength_append] at h
    cases behind with
    | nil => exact if_neg fun h => absurd h.2 (Option.some_ne_none ':').symm
    | cons c behind =>
      have hpos := Lib.byteLength_pos (cons_ne_nil c behind)
      omega

theorem stripHeader_ok (h : HeaderOk header name) :
    stripHeader name header = some (withoutHeader header name) := by
  rw [stripHeader, withoutHeader]
  by_cases hlength : byteLength header < byteLength name
  · obtain ⟨front, behind, rfl, hfront, hcolon⟩ := h hlength
    rw [if_pos hlength, ← hfront, Lib.sliceTo_append, Lib.sliceFrom_append, Lib.splitBytes_append]
    simp only [Option.bind_eq_bind, Option.bind_some]
    by_cases hheader : eqIgnoreAsciiCase front header = true
    · by_cases hhead : (trimStart behind).head? = some ':'
      · rw [if_pos hheader, if_pos hhead, if_pos ⟨hheader, hhead⟩]
        cases behind with
        | nil => cases hhead
        | cons c behind =>
          rw [Lib.sliceFrom_after, if_pos (hcolon hheader hhead c rfl)]
          rfl
      · rw [if_pos hheader, if_neg hhead, if_neg fun h => hhead h.2]
    · rw [if_neg hheader, if_neg fun h => hheader h.1]
  · rw [if_neg hlength]
    exact congrArg some (withoutHeader_short hlength).symm

theorem stripHeader_panic (h : ¬HeaderOk header name) : stripHeader name header = none := by
  have hlength : byteLength header < byteLength name := by
    by_contra hshort
    exact h fun hlong => absurd hlong hshort
  rw [stripHeader, if_pos hlength]
  cases hslice : Lib.splitBytes (byteLength header) name with
  | none =>
    rw [sliceTo, hslice]
    rfl
  | some parts =>
    obtain ⟨front, behind⟩ := parts
    obtain ⟨rfl, hfront⟩ := Lib.splitBytes_eq_some.mp hslice
    have hbad : eqIgnoreAsciiCase front header = true ∧ (trimStart behind).head? = some ':' ∧
        ∃ c ∈ behind.head?, c.utf8Size ≠ 1 := by
      by_contra hok
      refine h fun _ => ⟨front, behind, rfl, hfront, fun hheader hhead c hc => ?_⟩
      by_contra hsize
      exact hok ⟨hheader, hhead, c, hc, hsize⟩
    obtain ⟨hheader, hhead, c, hc, hsize⟩ := hbad
    rw [← hfront, Lib.sliceTo_append, Lib.sliceFrom_append]
    simp only [Option.bind_eq_bind, Option.bind_some]
    rw [if_pos hheader, if_pos hhead]
    cases behind with
    | nil => cases hhead
    | cons d behind =>
      obtain rfl : d = c := by simpa using hc
      rw [Lib.sliceFrom_after, if_neg hsize]
      rfl

def NameOk : List Text → Text → Prop
  | [], _ => True
  | header :: headers, name => HeaderOk header name ∧ NameOk headers (withoutHeader header name)

def withoutHeaders (headers : List Text) (name : Text) : Text :=
  headers.foldl (fun name header => withoutHeader header name) name

theorem stripHeaders_ok {headers : List Text} (h : NameOk headers name) :
    headers.foldlM stripHeader name = some (withoutHeaders headers name) := by
  induction headers generalizing name with
  | nil => rfl
  | cons header headers ih =>
    rw [foldlM_cons, stripHeader_ok h.1]
    exact ih h.2

theorem stripHeaders_panic {headers : List Text} (h : ¬NameOk headers name) :
    headers.foldlM stripHeader name = none := by
  induction headers generalizing name with
  | nil => exact absurd trivial h
  | cons header headers ih =>
    rw [foldlM_cons]
    by_cases hheader : HeaderOk header name
    · rw [stripHeader_ok hheader]
      exact ih fun hrest => h ⟨hheader, hrest⟩
    · rw [stripHeader_panic hheader]
      rfl

theorem isQuote_single (h : isQuote c = true) : c.utf8Size = 1 := by
  simp only [isQuote, Bool.or_eq_true, decide_eq_true_eq] at h
  rcases h with rfl | rfl <;> rfl

theorem withoutOpeningQuote_eq (s : Text) :
    withoutOpeningQuote s = some (if s.head?.any isQuote then s.tail else s) := by
  rw [withoutOpeningQuote]
  cases s with
  | nil => rfl
  | cons c s =>
    rw [head?_cons, Option.any_some]
    by_cases hc : isQuote c = true
    · have hslice := Lib.sliceFrom_after [] c s
      rw [if_pos (isQuote_single hc)] at hslice
      rw [if_pos hc, if_pos hc]
      exact hslice
    · rw [if_neg hc, if_neg hc]

theorem withoutClosingQuote_eq (s : Text) :
    withoutClosingQuote s = some (if s.getLast?.any isQuote then s.dropLast else s) := by
  rw [withoutClosingQuote]
  induction s using List.reverseRecOn with
  | nil => rfl
  | append_singleton s c _ =>
    rw [getLast?_concat, dropLast_concat, Option.any_some]
    by_cases hc : isQuote c = true
    · rw [if_pos hc, if_pos hc, Lib.byteLength_concat s (isQuote_single hc), Nat.add_sub_cancel,
        Lib.sliceTo_append]
    · rw [if_neg hc, if_neg hc]

def trimmedName (name : Text) : Text := trim ((name.dropWhile isNameEdge).rdropWhile isNameEdge)

def unquoted (s : Text) : Text :=
  let s := if s.head?.any isQuote then s.tail else s
  if s.getLast?.any isQuote then s.dropLast else s

theorem cleanDisplayName_ok (h : NameOk headers (trimmedName name)) : cleanDisplayName name =
      some (cleanText (squash (unquoted (withoutHeaders headers (trimmedName name))))) := by
  rw [cleanDisplayName, ← trimmedName, stripHeaders_ok h]
  simp only [withoutOpeningQuote_eq, withoutClosingQuote_eq]
  rfl

theorem cleanDisplayName_panic (h : ¬NameOk headers (trimmedName name)) : cleanDisplayName name = none := by
  rw [cleanDisplayName, ← trimmedName, stripHeaders_panic h]
  rfl

theorem nameOk_nil (headers : List Text) : NameOk headers [] := by
  induction headers with
  | nil => trivial
  | cons header headers ih =>
    exact ⟨fun h => absurd h (Nat.not_lt_zero _), by rwa [withoutHeader_short (Nat.not_lt_zero _)]⟩

def ListOk (lower : Char → Text) (input : Text) : Prop :=
  ∀ piece ∈ addressed lower (pieces lower input), NameOk headers (trimmedName (nameText piece.1))

theorem displayNameOf_isSome (lower : Char → Text) (gap : Text) :
    (displayNameOf lower gap).isSome = true ↔ NameOk headers (trimmedName (nameText gap)) := by
  rw [displayNameOf]
  by_cases hgap : gap = []
  · rw [hgap]
    exact ⟨fun _ => nameOk_nil headers, fun _ => rfl⟩
  · rw [if_neg hgap]
    by_cases h : NameOk headers (trimmedName (nameText gap))
    · simp [cleanDisplayName_ok h, h]
    · simp [cleanDisplayName_panic h, h]

/-- The list is read exactly when every name in front of an address can be cleaned. -/
theorem parseRecipientList_isSome (lower : Char → Text) (input : Text) :
    (parseRecipientList lower input).isSome = true ↔ ListOk lower input := by
  rw [parseRecipientList_eq, Lib.mapM_isSome]
  exact forall₂_congr fun piece _ => by
    rw [recipientOf, Option.isSome_map, displayNameOf_isSome]

end Ratatoskr.Import
