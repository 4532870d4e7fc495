import Ratatoskr.Threading.Arena

/-!
# Threading.Headers

What the reference headers say, without the arena: `parents` gives each Message-ID the parent it ends
up with, `lastWith` the message that is kept for it.

* `Sim` : an arena whose containers have these parents and messages.
* `sim_linkMessages` : the arena that `build_threads` links is one, for every list of messages.
* `Sim.rooted_iff` : the walk up from a container ends iff the walk up from its Message-ID does.
-/

namespace Ratatoskr.Threading

open Lib (climb Rooted)
open Arena (Wf maxDepth)

abbrev Parents := String → Option String

/-- `c` gets the parent `p`, unless `c` is among the first `maxDepth` ids of the walk up from `p`. -/
def attach (par : Parents) (p c : String) : Parents :=
  if ∃ k, k < maxDepth ∧ climb par k p = some c then par else Function.update par c (some p)

/-- Along a reference chain, only ids without a parent get one. -/
def attachRefs : Parents → Option String → List String → Parents
  | par, _, [] => par
  | par, none, ref :: refs => attachRefs par (some ref) refs
  | par, some p, ref :: refs =>
    attachRefs (if par ref = none then attach par p ref else par) (some ref) refs

/-- The last reference becomes the parent of the message, whatever it had before. -/
def addParents (par : Parents) (m : ThreadableMessage) : Parents :=
  match (refIds m).getLast? with
  | none => par
  | some p =>
    if p = m.messageId then attachRefs par none (refIds m)
    else attach (attachRefs par none (refIds m)) p m.messageId

def parents (messages : List ThreadableMessage) : Parents :=
  messages.foldl addParents (fun _ => none)

/-- The last message of the list with the given Message-ID. -/
def lastWith (messages : List ThreadableMessage) (messageId : String) : Option ThreadableMessage :=
  messages.reverse.find? (fun m => m.messageId = messageId)

theorem lastWith_append (messages : List ThreadableMessage) (m : ThreadableMessage) :
    lastWith (messages ++ [m]) = Function.update (lastWith messages) m.messageId (some m) := by
  funext messageId
  rw [lastWith, Function.update_apply]
  by_cases h : m.messageId = messageId
  · simp [h]
  · rw [if_neg (fun heq => h heq.symm)]
    simp [h, lastWith]

variable {messages : List ThreadableMessage}

theorem lastWith_messageId {messageId : String}
    {m : ThreadableMessage} (h : lastWith messages messageId = some m) : m.messageId = messageId := by
  have := List.find?_some h
  simpa using this

theorem lastWith_mem {messageId : String}
    {m : ThreadableMessage} (h : lastWith messages messageId = some m) : m ∈ messages :=
  List.mem_reverse.mp (List.mem_of_find?_eq_some h)

structure Sim (a : Arena) (par : Parents) (last : String → Option ThreadableMessage) : Prop where
  wf : Wf a
  parent : ∀ i m, a.name i = some m → par m = (a.parent i).bind a.name
  message : ∀ i m, a.name i = some m → a.message i = last m
  absent : ∀ m, (∀ i, a.name i ≠ some m) → par m = none ∧ last m = none

section Sim

variable {a : Arena} {par : Parents} {last : String → Option ThreadableMessage}

variable {i : Nat}

theorem Sim.climb (h : Sim a par last) {m : String} (hi : a.name i = some m) (k : Nat) :
    climb par k m = (Lib.climb a.parent k i).bind a.name := by
  induction k generalizing i m with
  | zero => exact hi.symm
  | succ k ih =>
    rw [Lib.climb_succ', Lib.climb_succ', h.parent i m hi]
    cases hp : a.parent i with
    | none => rfl
    | some p =>
      obtain ⟨q, hq⟩ := Arena.exists_name (h.wf.range i p hp)
      simp only [Option.bind_some, hq]
      exact ih hq

theorem Sim.climb_iff (h : Sim a par last) {j : Nat} {m n : String} (hi : a.name i = some m)
    (hj : a.name j = some n) (k : Nat) : Lib.climb par k m = some n ↔ Lib.climb a.parent k i = some j := by
  rw [h.climb hi, Option.bind_eq_some_iff]
  constructor
  · rintro ⟨j', hj', hn⟩
    obtain rfl := h.wf.name_inj hn hj
    exact hj'
  · intro hk
    exact ⟨j, hk, hj⟩

theorem Sim.rooted_iff (h : Sim a par last) {m : String} (hi : a.name i = some m) :
    Rooted par m ↔ Rooted a.parent i := by
  constructor
  · intro hr
    induction hr generalizing i with
    | @root m hm =>
      apply Rooted.root
      rw [h.parent i m hi, Option.bind_eq_none_iff] at hm
      cases hp : a.parent i with
      | none => rfl
      | some p =>
        obtain ⟨q, hq⟩ := Arena.exists_name (h.wf.range i p hp)
        rw [hm p hp] at hq
        cases hq
    | @step m q hm _ ih =>
      rw [h.parent i m hi, Option.bind_eq_some_iff] at hm
      obtain ⟨p, hp, hq⟩ := hm
      exact .step hp (ih hq)
  · intro hr
    induction hr generalizing m with
    | @root i hp =>
      apply Rooted.root
      rw [h.parent i m hi, hp]
      rfl
    | @step i p hp _ ih =>
      obtain ⟨q, hq⟩ := Arena.exists_name (h.wf.range i p hp)
      refine .step ?_ (ih hq)
      rw [h.parent i m hi, hp]
      exact hq

theorem Sim.getOrCreate (h : Sim a par last) (m : String) : Sim (a.getOrCreate m).1 par last := by
  have hext := Arena.getOrCreate_spec h.wf m
  generalize a.getOrCreate m = r at hext
  obtain ⟨a', i⟩ := r
  -- names of parents are old names
  have hbind : ∀ k, (a.parent k).bind a'.name = (a.parent k).bind a.name := by
    intro k
    cases hp : a.parent k with
    | none => rfl
    | some p =>
      obtain ⟨q, hq⟩ := Arena.exists_name (h.wf.range k p hp)
      simp only [Option.bind_some, hq]
      exact (hext.name p q).mpr (.inl hq)
  have hcases : ∀ k n, a'.name k = some n →
      a.name k = some n ∨ (a.parent k = none ∧ a.message k = none ∧ ∀ j, a.name j ≠ some n) := by
    intro k n hk
    by_cases hold : a.name k = some n
    · exact .inl hold
    right
    have hnone : a.name k = none := by
      by_contra hne
      obtain ⟨n', hn'⟩ := Option.ne_none_iff_exists'.mp hne
      have := (hext.name k n').mpr (.inl hn')
      rw [hk] at this
      cases this
      exact hold hn'
    have hge : ¬ k < a.containers.length := by
      intro hlt
      obtain ⟨n', hn'⟩ := Arena.exists_name hlt
      rw [hnone] at hn'
      cases hn'
    refine ⟨?_, ?_, ?_⟩
    · by_contra hne
      obtain ⟨p, hp⟩ := Option.ne_none_iff_exists'.mp hne
      exact hge (Arena.lt_of_parent hp)
    · by_contra hne
      obtain ⟨x, hx⟩ := Option.ne_none_iff_exists'.mp hne
      exact hge (Arena.lt_of_message hx)
    · intro j hj
      -- the name would belong to two containers
      have h1 := (hext.name j n).mpr (.inl hj)
      obtain rfl := hext.wf.name_inj h1 hk
      exact hold hj
  refine ⟨hext.wf, ?_, ?_, ?_⟩
  · intro k n hk
    rw [hext.parent, hbind]
    rcases hcases k n hk with hold | ⟨hp, -, hnew⟩
    · exact h.parent k n hold
    · rw [hp]
      exact (h.absent n hnew).1
  · intro k n hk
    rw [hext.message]
    rcases hcases k n hk with hold | ⟨-, hx, hnew⟩
    · exact h.message k n hold
    · rw [hx]
      exact (h.absent n hnew).2.symm
  · intro n hn
    exact h.absent n (fun k hk => hn k ((hext.name k n).mpr (.inl hk)))

theorem Sim.link (h : Sim a par last) {j : Nat} {p c : String} (hi : a.name i = some p)
    (hj : a.name j = some c) : Sim (a.linkParentChild i j) (attach par p c) last := by
  have hanc : (∃ k, k < maxDepth ∧ Lib.climb par k p = some c) ↔
      ∃ k, k < maxDepth ∧ Lib.climb a.parent k i = some j := by
    simp [h.climb_iff hi hj]
  rcases Arena.link_cases h.wf (Arena.lt_of_name hi) (Arena.lt_of_name hj) with
    ⟨hex, heq⟩ | ⟨hno, hpar, heq⟩ | ⟨hno, -, hr⟩
  · rw [heq, attach, if_pos (hanc.mpr hex)]
    exact h
  · have hsame : Function.update par c (some p) = par := by
      rw [Function.update_eq_self_iff, h.parent j c hj, hpar]
      exact hi.symm
    rw [heq, attach, if_neg (fun hex => hno (hanc.mp hex)), hsame]
    exact h
  · rw [attach, if_neg (fun hex => hno (hanc.mp hex))]
    refine ⟨hr.wf h.wf (Arena.lt_of_name hi), ?_, ?_, ?_⟩
    · intro k n hk
      rw [hr.name] at hk ⊢
      rw [hr.parent, Function.update_apply, Function.update_apply]
      by_cases hkj : k = j
      · subst hkj
        obtain rfl : n = c := Option.some.inj (hk.symm.trans hj)
        rw [if_pos rfl, if_pos rfl]
        exact hi.symm
      · have hnc : n ≠ c := by
          rintro rfl
          exact hkj (h.wf.name_inj hk hj)
        rw [if_neg hkj, if_neg hnc]
        exact h.parent k n hk
    · intro k n hk
      rw [hr.name] at hk
      rw [hr.message]
      exact h.message k n hk
    · intro n hn
      rw [hr.name] at hn
      have hnc : n ≠ c := by
        rintro rfl
        exact hn j hj
      rw [Function.update_of_ne hnc]
      exact h.absent n hn

theorem Sim.setMessage (h : Sim a par last) {m : ThreadableMessage}
    (hi : a.name i = some m.messageId) : Sim (a.modify i (fun c => { c with message := some m })) par
      (Function.update last m.messageId (some m)) := by
  have hlen := Arena.lt_of_name hi
  have hname : ∀ k, (a.modify i (fun c => { c with message := some m })).name k = a.name k :=
    fun k => Arena.name_modify (fun _ => rfl)
  have hparent : ∀ k, (a.modify i (fun c => { c with message := some m })).parent k = a.parent k :=
    fun k => Arena.parent_modify (fun _ => rfl)
  refine ⟨Arena.wf_setMessage h.wf i m, ?_, ?_, ?_⟩
  · intro k n hk
    rw [hname] at hk
    rw [hparent, h.parent k n hk]
    simp [hname]
  · intro k n hk
    rw [hname] at hk
    rw [Arena.message_modify_message hlen, Function.update_apply]
    by_cases hki : i = k
    · subst hki
      rw [hi] at hk
      cases hk
      rw [if_pos rfl, if_pos rfl]
    · have hne : n ≠ m.messageId := by
        rintro rfl
        exact hki (h.wf.name_inj hi hk)
      rw [if_neg hki, if_neg hne]
      exact h.message k n hk
  · intro n hn
    have hold : ∀ k, a.name k ≠ some n := fun k hk => hn k (by rw [hname, hk])
    have hne : n ≠ m.messageId := by
      rintro rfl
      exact hold i hi
    rw [Function.update_of_ne hne]
    exact h.absent n hold

/-! ## Whole messages -/

def KeepsNames (a a' : Arena) : Prop := ∀ k n, a.name k = some n → a'.name k = some n

theorem KeepsNames.map {a' : Arena} (h : KeepsNames a a') {i : Option Nat} {m : Option String}
    (hi : i.map a.name = m.map some) : i.map a'.name = m.map some := by
  cases i with
  | none => exact hi
  | some i =>
    cases m with
    | none => cases hi
    | some m =>
      simp only [Option.map_some, Option.some.injEq] at hi ⊢
      exact h i m hi

/-- One reference: the container before it, if there is one, may become its parent. -/
theorem Sim.linkRef (h : Sim a par last) {p : Nat} {pid ref : String} (hp : a.name p = some pid)
    (hi : a.name i = some ref) : Sim (if (a.parent i).isNone then a.linkParentChild p i else a)
      (if par ref = none then attach par pid ref else par) last ∧
    KeepsNames a (if (a.parent i).isNone then a.linkParentChild p i else a) := by
  have hnone : (a.parent i).isNone = true ↔ par ref = none := by
    rw [h.parent i ref hi, Option.isNone_iff_eq_none, Option.bind_eq_none_iff]
    constructor
    · intro hpar q hq
      rw [hpar] at hq
      cases hq
    · intro hall
      by_contra hne
      obtain ⟨q, hq⟩ := Option.ne_none_iff_exists'.mp hne
      obtain ⟨n, hn⟩ := Arena.exists_name (h.wf.range i q hq)
      rw [hall q hq] at hn
      cases hn
  by_cases hpar : par ref = none
  · rw [if_pos hpar, if_pos (hnone.mpr hpar)]
    refine ⟨h.link hp hi, ?_⟩
    intro k n hk
    rw [(Arena.wf_link h.wf (Arena.lt_of_name hp) (Arena.lt_of_name hi)).2.name]
    exact hk
  · rw [if_neg hpar, if_neg (fun hex => hpar (hnone.mp hex))]
    exact ⟨h, fun _ _ hk => hk⟩

/-- After the chain, the last container walked is the one of the last reference. -/
theorem Sim.linkRefs (h : Sim a par last) (prev : Option Nat) (prevId : Option String)
    (hprev : prev.map a.name = prevId.map some) (refs : List String) :
    Sim (linkRefs a prev refs).1 (attachRefs par prevId refs) last ∧
    (linkRefs a prev refs).2.map (linkRefs a prev refs).1.name = (refs.getLast?.or prevId).map some ∧
    KeepsNames a (linkRefs a prev refs).1 := by
  induction refs generalizing a par prev prevId with
  | nil =>
    exact ⟨h, hprev, fun _ _ hk => hk⟩
  | cons ref refs ih =>
    have hext := Arena.getOrCreate_spec h.wf ref
    have hsim := h.getOrCreate ref
    rw [Threading.linkRefs]
    generalize a.getOrCreate ref = r at hext hsim
    obtain ⟨a₁, i⟩ := r
    have hi : a₁.name i = some ref := (hext.name i ref).mpr (.inr ⟨rfl, rfl⟩)
    have hkeep : KeepsNames a a₁ := fun k n hk => (hext.name k n).mpr (.inl hk)
    have hprev₁ := hkeep.map hprev
    have hlast : ((ref :: refs).getLast?.or prevId) = refs.getLast?.or (some ref) := by
      rw [List.getLast?_cons]
      cases refs.getLast? <;> rfl
    rw [hlast]
    cases prev with
    | none =>
      cases prevId with
      | some q => cases hprev
      | none =>
        obtain ⟨h1, h2, h3⟩ := ih hsim (some i) (some ref) (by simp [hi])
        exact ⟨h1, h2, fun k n hk => h3 k n (hkeep k n hk)⟩
    | some p =>
      cases prevId with
      | none => cases hprev
      | some q =>
        have hp : a₁.name p = some q := by simpa using hprev₁
        obtain ⟨hs₂, hkeep₂⟩ := hsim.linkRef hp hi
        obtain ⟨h1, h2, h3⟩ := ih hs₂ (some i) (some ref)
          (by simpa using hkeep₂ i ref hi)
        exact ⟨h1, h2, fun k n hk => h3 k n (hkeep₂ k n (hkeep k n hk))⟩

theorem Sim.addMessage (h : Sim a par last) (m : ThreadableMessage) :
    Sim (addMessage a m) (addParents par m) (Function.update last m.messageId (some m)) := by
  have hext := Arena.getOrCreate_spec h.wf m.messageId
  have hsim := h.getOrCreate m.messageId
  rw [Threading.addMessage, addParents]
  generalize a.getOrCreate m.messageId = r at hext hsim
  obtain ⟨a₁, i⟩ := r
  have hi : a₁.name i = some m.messageId := (hext.name i _).mpr (.inr ⟨rfl, rfl⟩)
  have hset := hsim.setMessage hi
  have hi₂ : (a₁.modify i (fun c => { c with message := some m })).name i = some m.messageId := by
    rw [Arena.name_modify]
    · exact hi
    · exact fun _ => rfl
  obtain ⟨hlink, hprev, hkeep⟩ := hset.linkRefs none none rfl (refIds m)
  have hi₃ := hkeep i _ hi₂
  simp only
  generalize Threading.linkRefs _ none (refIds m) = r₂ at hlink hprev hi₃
  obtain ⟨a₃, prev⟩ := r₂
  cases prev with
  | none =>
    cases hlast : (refIds m).getLast? with
    | some q =>
      rw [hlast] at hprev
      cases hprev
    | none =>
      rw [List.getLast?_eq_none_iff] at hlast
      rw [hlast] at hlink
      exact hlink
  | some p =>
    cases hlast : (refIds m).getLast? with
    | none =>
      rw [hlast] at hprev
      cases hprev
    | some q =>
      rw [hlast] at hprev
      have hp : a₃.name p = some q := by simpa using hprev
      by_cases hq : q = m.messageId
      · have hpi : p = i := hlink.wf.name_inj (hq ▸ hp) hi₃
        simp only [hq, hpi, ne_eq]
        exact hlink
      · have hpi : p ≠ i := by
          rintro rfl
          exact hq (Option.some.inj (hp.symm.trans hi₃))
        simp only [hq, hpi, ne_eq, if_false]
        exact hlink.link hp hi₃

end Sim

theorem sim_new : Sim Arena.new (fun _ => none) (lastWith []) := by
  refine ⟨Arena.wf_new, ?_, ?_, ?_⟩
  · intro i m hi
    cases hi
  · intro i m hi
    cases hi
  · intro m _
    exact ⟨rfl, rfl⟩

theorem sim_linkMessages (messages : List ThreadableMessage) :
    Sim (linkMessages messages) (parents messages) (lastWith messages) := by
  induction messages using List.reverseRecOn with
  | nil => exact sim_new
  | append_singleton messages m ih =>
    rw [linkMessages, parents, List.foldl_append, List.foldl_append, lastWith_append]
    exact ih.addMessage m

end Ratatoskr.Threading
