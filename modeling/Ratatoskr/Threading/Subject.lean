import Mathlib.Data.List.DropRight
import Mathlib.Logic.Relation
import Ratatoskr.Threading.Text

/-!
# Threading.Subject

The normal form of a subject. A round of the loop takes a tag, a mark or both off; the subject only gets
shorter, so the loop ends where neither is left. What a round takes off is decided by the first character,
so it makes no difference whether a tag and a mark go in one round or in two.

* `normalizeLoop_final` : the loop ends in a subject that no round changes.
* `final_of_round` : one round less gives the same end.
* `normalizeSubject_canonical` : the normal form is normal, and nothing the loop strips changes it.
-/

namespace Ratatoskr.Threading

open List
open Rte (isWhitespace)

variable {s t lead : List Char} {c : Char}

def Trimmed (s : List Char) : Prop := trimStart s = s ∧ trimEnd s = s

theorem trimStart_idem (s : List Char) : trimStart (trimStart s) = trimStart s :=
  dropWhile_idempotent _ s

theorem trimStart_suffix (s : List Char) : trimStart s <:+ s := dropWhile_suffix _

theorem trimEnd_front (s : List Char) : trimEnd s <+: s := rdropWhile_prefix _ s

theorem trimEnd_of_suffix (hs : trimEnd s = s) (ht : t <:+ s) : trimEnd t = t := by
  refine (rdropWhile_eq_self_iff ..).mpr fun hne => ?_
  have hlast := (rdropWhile_eq_self_iff ..).mp hs (ht.ne_nil hne)
  rwa [ht.getLast hne]

theorem trimStart_of_front (hs : trimStart s = s) (ht : t <+: s) : trimStart t = t := by
  cases t with
  | nil => rfl
  | cons c t =>
    obtain ⟨rest, rfl⟩ := ht
    have hc : isWhitespace c = false := by
      by_contra hc
      have hlen := congrArg List.length hs
      rw [trimStart, cons_append, dropWhile_cons_of_pos (by simpa using hc)] at hlen
      have hle := (dropWhile_suffix isWhitespace (l := t ++ rest)).length_le
      rw [length_cons] at hlen
      omega
    exact dropWhile_cons_of_neg (by rw [hc]; exact Bool.false_ne_true)

theorem trimmed_trim (s : List Char) : Trimmed (trim s) :=
  ⟨trimStart_of_front (trimStart_idem s) (trimEnd_front _), rdropWhile_idempotent _ _⟩

theorem Trimmed.trim_eq (h : Trimmed s) : trim s = s := by
  rw [trim, h.1, h.2]

theorem Trimmed.trimStart (h : Trimmed s) (ht : t <:+ s) : Trimmed (trimStart t) :=
  ⟨trimStart_idem t, trimEnd_of_suffix h.2 ((trimStart_suffix t).trans ht)⟩

theorem trimStart_blanks {blanks : List Char} (h : blanks.all isWhitespace = true) (s : List Char) :
    trimStart (blanks ++ s) = trimStart s :=
  dropWhile_append_of_pos (all_eq_true.mp h)

theorem trimEnd_append (core : List Char) (hc : isWhitespace c = false) (s : List Char) :
    trimEnd (core ++ c :: s) = core ++ c :: trimEnd s := by
  induction s using List.reverseRecOn with
  | nil =>
    exact rdropWhile_concat_neg _ _ _ (by rw [hc]; exact Bool.false_ne_true)
  | append_singleton s d ih =>
    have hmove : core ++ c :: (s ++ [d]) = (core ++ c :: s) ++ [d] := by simp
    rw [hmove]
    by_cases hd : isWhitespace d = true
    · exact (rdropWhile_concat_pos _ _ _ hd).trans
        (ih.trans (congrArg (core ++ c :: ·) (rdropWhile_concat_pos _ _ _ hd).symm))
    · refine (rdropWhile_concat_neg _ _ _ hd).trans (hmove.symm.trans ?_)
      exact congrArg (core ++ c :: ·) (rdropWhile_concat_neg _ _ _ hd).symm

theorem trimEnd_cons_blank (hc : isWhitespace c = true) (s : List Char) :
    trimEnd (c :: s) = if trimEnd s = [] then [] else c :: trimEnd s := by
  rw [trimEnd, trimEnd, reverse_cons, dropWhile_append, dropWhile_cons_of_pos hc]
  cases hs : s.reverse.dropWhile isWhitespace with
  | nil => rfl
  | cons d t => simp

theorem trimStart_trimEnd (s : List Char) : trimStart (trimEnd s) = trimEnd (trimStart s) := by
  induction s with
  | nil => rfl
  | cons c s ih =>
    by_cases hc : isWhitespace c = true
    · have hstart : ∀ t, trimStart (c :: t) = trimStart t := fun t => dropWhile_cons_of_pos hc
      rw [hstart, ← ih, trimEnd_cons_blank hc]
      by_cases hs : trimEnd s = []
      · rw [if_pos hs, hs]
      · rw [if_neg hs, hstart]
    · have hstart : ∀ t, trimStart (c :: t) = c :: t := fun t => dropWhile_cons_of_neg hc
      have hend : trimEnd (c :: s) = c :: trimEnd s :=
        trimEnd_append [] (Bool.eq_false_iff.mpr hc) s
      rw [hstart, hend, hstart]

def round (s : List Char) : Option (List Char) :=
  match stripReply ((stripTag s).getD s) with
  | some rest => some rest
  | none => stripTag s

theorem normalizeLoop_succ (n : Nat) (s : List Char) :
    normalizeLoop (n + 1) s = match round s with
      | some t => normalizeLoop n t | none => s := by
  rw [normalizeLoop, round]
  cases hreply : stripReply ((stripTag s).getD s) with
  | some rest => rfl
  | none => cases hs : stripTag s <;> rfl

theorem stripTag_some (h : stripTag s = some t) :
    ∃ rest, s = '[' :: rest ∧ ∃ t', t' <:+ rest ∧ t = trimStart t' := by
  unfold stripTag at h
  split at h
  · rename_i rest
    split at h
    · cases h
      exact ⟨rest, rfl, _, (drop_suffix _ _).trans (dropWhile_suffix _), rfl⟩
    · cases h
  · cases h

theorem stripLead_some (h : stripLead lead s = some t) :
    (s.take lead.length).map Char.toLower = lead ∧ t = trimStart (s.drop lead.length) := by
  unfold stripLead at h
  split at h
  · rename_i hlead
    cases h
    exact ⟨hlead, rfl⟩
  · cases h

def marks : List (List Char) := [['r', 'e', ':'], ['f', 'w', 'd', ':'], ['f', 'w', ':']]

theorem stripReply_some (h : stripReply s = some t) :
    ∃ lead ∈ marks, (s.take lead.length).map Char.toLower = lead ∧ t = trimStart (s.drop lead.length) := by
  simp only [stripReply, Option.or_eq_some_iff] at h
  rcases h with h | ⟨-, h | ⟨-, h⟩⟩
  · exact ⟨_, by simp [marks], stripLead_some h⟩
  · exact ⟨_, by simp [marks], stripLead_some h⟩
  · exact ⟨_, by simp [marks], stripLead_some h⟩

theorem stripTag_of_mark (h : stripReply s = some t) : stripTag s = none := by
  obtain ⟨lead, hlead, hs, -⟩ := stripReply_some h
  cases htag : stripTag s with
  | none => rfl
  | some t' =>
    obtain ⟨rest, rfl, -⟩ := stripTag_some htag
    simp only [marks, mem_cons, not_mem_nil, or_false] at hlead
    rcases hlead with rfl | rfl | rfl <;> cases hs

theorem stripTag_suffix (h : stripTag s = some t) : t.length < s.length ∧ t <:+ s := by
  obtain ⟨rest, rfl, t', hsuffix, rfl⟩ := stripTag_some h
  have hrest : trimStart t' <:+ rest := (trimStart_suffix t').trans hsuffix
  exact ⟨Nat.lt_succ_of_le hrest.length_le, hrest.trans (suffix_cons ..)⟩

theorem stripReply_suffix (h : stripReply s = some t) :
    t.length < s.length ∧ ∃ t', t' <:+ s ∧ t = trimStart t' := by
  obtain ⟨lead, hlead, hs, rfl⟩ := stripReply_some h
  have hpos : 0 < lead.length := by
    simp only [marks, mem_cons, not_mem_nil, or_false] at hlead
    rcases hlead with rfl | rfl | rfl <;> exact Nat.zero_lt_succ _
  have hlen := congrArg List.length hs
  rw [length_map, length_take] at hlen
  have hle := (trimStart_suffix (s.drop lead.length)).length_le
  rw [length_drop] at hle
  exact ⟨by omega, _, drop_suffix .., rfl⟩

theorem round_suffix (h : round s = some t) : t.length < s.length ∧ ∃ t', t' <:+ s ∧ t = trimStart t' := by
  unfold round at h
  split at h
  · rename_i rest hreply
    cases h
    obtain ⟨hlt, t', hsuffix, rfl⟩ := stripReply_suffix hreply
    cases htag : stripTag s with
    | none =>
      rw [htag] at hlt hsuffix
      exact ⟨hlt, t', hsuffix, rfl⟩
    | some u =>
      obtain ⟨hlt', hsuffix'⟩ := stripTag_suffix htag
      rw [htag] at hlt hsuffix
      exact ⟨Nat.lt_trans hlt hlt', t', hsuffix.trans hsuffix', rfl⟩
  · obtain ⟨rest, rfl, t', hsuffix, rfl⟩ := stripTag_some h
    exact ⟨(stripTag_suffix h).1, t', hsuffix.trans (suffix_cons ..), rfl⟩

theorem Trimmed.round (h : Trimmed s) (hround : round s = some t) : Trimmed t := by
  obtain ⟨-, t', hsuffix, rfl⟩ := round_suffix hround
  exact h.trimStart hsuffix

/-! ## The end of the loop -/

def Rounds : List Char → List Char → Prop := Relation.ReflTransGen fun s t => round s = some t

/-- With fuel for every character, the loop ends in a subject that no round changes. -/
theorem normalizeLoop_final {n : Nat} (h : s.length ≤ n) :
    Rounds s (normalizeLoop n s) ∧ round (normalizeLoop n s) = none := by
  induction n generalizing s with
  | zero =>
    obtain rfl : s = [] := length_eq_zero_iff.mp (Nat.le_zero.mp h)
    exact ⟨.refl, rfl⟩
  | succ n ih =>
    rw [normalizeLoop_succ]
    cases hround : round s with
    | none => exact ⟨.refl, hround⟩
    | some t =>
      have hlt := (round_suffix hround).1
      obtain ⟨hrounds, hfinal⟩ := ih (s := t) (by omega)
      exact ⟨.head hround hrounds, hfinal⟩

theorem normalizeLoop_nil (n : Nat) : normalizeLoop n [] = [] := by
  cases n with
  | zero => rfl
  | succ n =>
    rfl

theorem normalizeLoop_fuel {n m : Nat} (hn : s.length ≤ n) (hm : s.length ≤ m) :
    normalizeLoop n s = normalizeLoop m s := by
  induction n generalizing s m with
  | zero =>
    obtain rfl : s = [] := length_eq_zero_iff.mp (Nat.le_zero.mp hn)
    rw [normalizeLoop_nil, normalizeLoop_nil]
  | succ n ih =>
    cases m with
    | zero =>
      obtain rfl : s = [] := length_eq_zero_iff.mp (Nat.le_zero.mp hm)
      rw [normalizeLoop_nil, normalizeLoop_nil]
    | succ m =>
      rw [normalizeLoop_succ, normalizeLoop_succ]
      cases hround : round s with
      | none => rfl
      | some t =>
        have hlt := (round_suffix hround).1
        exact ih (by omega) (by omega)

def final (s : List Char) : List Char := normalizeLoop s.length s

theorem round_final (s : List Char) : round (final s) = none :=
  (normalizeLoop_final (Nat.le_refl _)).2

theorem final_of_round_none (h : round s = none) : final s = s := by
  cases s with
  | nil => rfl
  | cons c s => rw [final, length_cons, normalizeLoop_succ, h]

theorem final_of_round (h : round s = some t) : final s = final t := by
  have hlt := (round_suffix h).1
  obtain ⟨m, hm⟩ : ∃ m, s.length = m + 1 := ⟨s.length - 1, by omega⟩
  rw [final, hm, normalizeLoop_succ, h]
  exact normalizeLoop_fuel (by omega) (Nat.le_refl _)

theorem Trimmed.rounds (h : Trimmed s) (hrounds : Rounds s t) : Trimmed t := by
  induction hrounds with
  | refl => exact h
  | tail _ hround ih => exact ih.round hround

theorem Trimmed.final (h : Trimmed s) : Trimmed (final s) :=
  h.rounds (normalizeLoop_final (Nat.le_refl _)).1

def IsMark (core : List Char) : Prop := core.map Char.toLower ∈ marks

/-- A tag in brackets: it ends with its first `]`. -/
def IsTag (core : List Char) : Prop := ∃ body, ']' ∉ body ∧ core = '[' :: (body ++ [']'])

def IsLead (lead : List Char) : Prop :=
  ∃ before core after, before.all isWhitespace = true ∧ after.all isWhitespace = true ∧
    (IsMark core ∨ IsTag core) ∧ lead = before ++ core ++ after

theorem stripReply_mark {core : List Char} (h : IsMark core) (s : List Char) :
    stripReply (core ++ s) = some (trimStart s) := by
  simp only [IsMark, marks, mem_cons, not_mem_nil, or_false, map_eq_cons_iff, map_eq_nil_iff] at h
  rcases h with ⟨r, _, rfl, hr, e, _, rfl, he, c, _, rfl, hc, rfl⟩ |
    ⟨f, _, rfl, hf, w, _, rfl, hw, d, _, rfl, hd, c, _, rfl, hc, rfl⟩ |
    ⟨f, _, rfl, hf, w, _, rfl, hw, c, _, rfl, hc, rfl⟩
  · simp [stripReply, stripLead, hr, he, hc]
  · simp [stripReply, stripLead, hf, hw, hd, hc]
  · simp [stripReply, stripLead, hf, hw, hc]

theorem stripTag_tag {core : List Char} (h : IsTag core) (s : List Char) :
    stripTag (core ++ s) = some (trimStart s) := by
  obtain ⟨body, hbody, rfl⟩ := h
  have hdrop : (body ++ [']'] ++ s).dropWhile (· ≠ ']') = ']' :: s := by
    rw [append_assoc, dropWhile_append_of_pos (by
      intro c hc
      have hne : c ≠ ']' := fun heq => hbody (heq ▸ hc)
      simpa using hne)]
    exact dropWhile_cons_of_neg (by simp)
  rw [cons_append, stripTag, if_pos (by simp), hdrop]
  rfl

theorem final_core {core : List Char} (h : IsMark core ∨ IsTag core) (s : List Char) :
    final (core ++ s) = final (trimStart s) := by
  rcases h with h | h
  · have hreply := stripReply_mark h s
    refine final_of_round ?_
    rw [round, stripTag_of_mark hreply, Option.getD_none, hreply]
  have htag := stripTag_tag h s
  cases hreply : stripReply (trimStart s) with
  | none =>
    refine final_of_round ?_
    rw [round, htag, Option.getD_some, hreply]
  | some rest =>
    -- the mark behind the tag goes in the same round, and in the next one without the tag
    have hboth : round (core ++ s) = some rest := by
      rw [round, htag, Option.getD_some, hreply]
    have hmark : round (trimStart s) = some rest := by
      rw [round, stripTag_of_mark hreply, Option.getD_none, hreply]
    rw [final_of_round hboth, final_of_round hmark]

theorem not_isWhitespace_of_toLower {d : Char} (h : c.toLower = d) (hd : isWhitespace d = false) :
    isWhitespace c = false := by
  by_contra hc
  have hupper : ¬ (c.val ≥ 65 ∧ c.val ≤ 90) := by
    rintro ⟨hlow, hhigh⟩
    have h65 : 65 ≤ c.toNat := hlow
    have h90 : c.toNat ≤ 90 := hhigh
    have hrange : ∀ n, 65 ≤ n → n ≤ 90 → isWhitespace (Char.ofNat n) = false := by decide +kernel
    rw [← Char.ofNat_toNat c, hrange c.toNat h65 h90] at hc
    exact hc rfl
  have hsame : c.toLower = c := dif_neg hupper
  rw [← h, hsame] at hd
  exact hc hd

theorem core_ends {core : List Char} (h : IsMark core ∨ IsTag core) :
    (∃ c rest, core = c :: rest ∧ isWhitespace c = false) ∧
      ∃ rest c, core = rest ++ [c] ∧ isWhitespace c = false := by
  rcases h with h | ⟨body, -, rfl⟩
  · simp only [IsMark, marks, mem_cons, not_mem_nil, or_false, map_eq_cons_iff, map_eq_nil_iff] at h
    rcases h with ⟨r, _, rfl, hr, e, _, rfl, -, c, _, rfl, hc, rfl⟩ |
      ⟨f, _, rfl, hf, w, _, rfl, -, d, _, rfl, -, c, _, rfl, hc, rfl⟩ |
      ⟨f, _, rfl, hf, w, _, rfl, -, c, _, rfl, hc, rfl⟩
    · exact ⟨⟨r, _, rfl, not_isWhitespace_of_toLower hr (by decide)⟩,
        [r, e], c, rfl, not_isWhitespace_of_toLower hc (by decide)⟩
    · exact ⟨⟨f, _, rfl, not_isWhitespace_of_toLower hf (by decide)⟩,
        [f, w, d], c, rfl, not_isWhitespace_of_toLower hc (by decide)⟩
    · exact ⟨⟨f, _, rfl, not_isWhitespace_of_toLower hf (by decide)⟩,
        [f, w], c, rfl, not_isWhitespace_of_toLower hc (by decide)⟩
  · exact ⟨⟨'[', _, rfl, by decide⟩, '[' :: body, ']', rfl, by decide⟩

theorem trim_lead (h : IsLead lead) (s : List Char) : final (trim (lead ++ s)) = final (trim s) := by
  obtain ⟨before, core, after, hbefore, hafter, hcore, rfl⟩ := h
  obtain ⟨⟨c, rest, hfirst, hc⟩, rest', d, hlast, hd⟩ := core_ends hcore
  have hstart : trimStart (before ++ core ++ after ++ s) = core ++ (after ++ s) := by
    rw [append_assoc, append_assoc, trimStart_blanks hbefore, hfirst]
    exact dropWhile_cons_of_neg (by rw [hc]; exact Bool.false_ne_true)
  have hend : trimEnd (core ++ (after ++ s)) = core ++ trimEnd (after ++ s) := by
    rw [hlast, append_assoc, append_assoc]
    exact trimEnd_append _ hd _
  have hback : trimStart (trimEnd (after ++ s)) = trim s := by
    rw [trimStart_trimEnd, trimStart_blanks hafter]
    rfl
  rw [trim, hstart, hend, final_core hcore, hback]

def core (s : List Char) : List Char := trim (final (trim s))

theorem normalizeSubject_eq (s : String) : normalizeSubject (some s) = String.ofList (core s.toList) := rfl

theorem core_eq (s : List Char) : core s = final (trim s) := (trimmed_trim s).final.trim_eq

theorem core_core (s : List Char) : core (core s) = core s := by
  have htrimmed : trim (core s) = core s := by
    rw [core_eq]
    exact (trimmed_trim s).final.trim_eq
  have hround : round (core s) = none := by
    rw [core_eq]
    exact round_final _
  rw [core_eq (core s), htrimmed, final_of_round_none hround]

theorem core_leads {leads : List (List Char)} (h : ∀ lead ∈ leads, IsLead lead) (s : List Char) :
    core (leads.flatten ++ s) = core s := by
  induction leads with
  | nil => rfl
  | cons lead leads ih =>
    rw [flatten_cons, append_assoc, core, trim_lead (h lead (mem_cons_self ..))]
    exact ih fun l hl => h l (mem_cons_of_mem _ hl)

/-- The loop ends, the normal form is normal, and marks and tags before a subject do not change it. -/
theorem normalizeSubject_canonical (s : String) :
    (∃ r, Rounds (trim s.toList) r ∧ round r = none ∧ normalizeSubject (some s) = String.ofList (trim r)) ∧
    normalizeSubject (some (normalizeSubject (some s))) = normalizeSubject (some s) ∧
    ∀ leads : List (List Char), (∀ lead ∈ leads, IsLead lead) →
      normalizeSubject (some (String.ofList (leads.flatten ++ s.toList))) = normalizeSubject (some s) := by
  refine ⟨⟨_, (normalizeLoop_final (Nat.le_refl _)).1, round_final _, rfl⟩, ?_, ?_⟩
  · rw [normalizeSubject_eq, normalizeSubject_eq, String.toList_ofList, core_core]
  · intro leads h
    rw [normalizeSubject_eq, normalizeSubject_eq, String.toList_ofList, core_leads h]

end Ratatoskr.Threading
