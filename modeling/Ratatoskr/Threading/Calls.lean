import Ratatoskr.Threading.Collect

/-!
# Threading.Calls

The calls of `link_parent_child` that `build_threads` makes, each with the arena it is made in, and whether
the links stay a forest after every one of them.

* `Trace` : a list of calls leads from one arena to another; nothing else changes a link.
* `Trace.forest_iff` : all calls leave a forest iff none of them makes a container the child of one that
  hangs `maxDepth` or more steps below it.
* `long_chain_loops` : such a call, for every reference chain of `maxDepth` ids.
-/

namespace Ratatoskr.Threading

open List
open Lib (climb Rooted Linked)
open Arena

structure Forest (a : Arena) : Prop where
  linked : Linked a.parent a.children
  rooted : ∀ i, Rooted a.parent i

/-- `arena.link_parent_child(parentIdx, childIdx)`. -/
structure Call where
  arena : Arena
  parentIdx : Nat
  childIdx : Nat

def Call.after (c : Call) : Arena := c.arena.linkParentChild c.parentIdx c.childIdx

/-- The child is none of the ancestors that `is_ancestor` does not look at. -/
def Call.InSight (c : Call) : Prop :=
  ∀ k, maxDepth ≤ k → climb c.arena.parent k c.parentIdx ≠ some c.childIdx

/-- The calls of `linkRefs`. -/
def refCalls : Arena → Option Nat → List String → List Call
  | _, _, [] => []
  | a, prev, ref :: refs =>
    let (a, idx) := a.getOrCreate ref
    match prev with
    | some p =>
      if (a.parent idx).isNone then ⟨a, p, idx⟩ :: refCalls (a.linkParentChild p idx) (some idx) refs
      else refCalls a (some idx) refs
    | none => refCalls a (some idx) refs

/-- The calls of `addMessage`. -/
def messageCalls (a : Arena) (m : ThreadableMessage) : List Call :=
  let (a, idx) := a.getOrCreate m.messageId
  let a := a.modify idx (fun c => { c with message := some m })
  let (b, prev) := linkRefs a none (refIds m)
  refCalls a none (refIds m) ++
    match prev with
    | some p => if p ≠ idx then [⟨b, p, idx⟩] else []
    | none => []

def linkCalls : Arena → List ThreadableMessage → List Call
  | _, [] => []
  | a, m :: messages => messageCalls a m ++ linkCalls (addMessage a m) messages

/-- The call of `mergeRoot`. -/
def mergeCall (st : Arena × SubjectMap) (root : Nat) : Option Call :=
  let (a, map) := st
  let normalized := normalizeSubject (a.getSubjectForContainer root)
  if normalized = "" then none
  else
    match map.lookup normalized with
    | none => none
    | some existing =>
      let existingHasMsg := (a.message existing).isSome
      let rootHasMsg := (a.message root).isSome
      if !existingHasMsg && rootHasMsg then some ⟨a, existing, root⟩
      else if !rootHasMsg && existingHasMsg then some ⟨a, root, existing⟩
      else
        let existingDate : Int := ((a.message existing).map (·.date)).getD 0
        let rootDate : Int := ((a.message root).map (·.date)).getD 0
        if existingDate ≤ rootDate then some ⟨a, existing, root⟩ else some ⟨a, root, existing⟩

def mergeCalls : Arena × SubjectMap → List Nat → List Call
  | _, [] => []
  | st, root :: roots => (mergeCall st root).toList ++ mergeCalls (mergeRoot st root) roots

/-- The calls of `build_threads`, in order. -/
def calls (messages : List ThreadableMessage) : List Call :=
  let a := linkMessages messages
  linkCalls Arena.new messages ++ mergeCalls (a, []) a.roots

structure SameLinks (a b : Arena) : Prop where
  wf : Wf b
  parent : b.parent = a.parent

inductive Trace : Arena → List Call → Arena → Prop
  | done {a b : Arena} : SameLinks a b → Trace a [] b
  | call {a b : Arena} {c : Call} {rest : List Call} : SameLinks a c.arena →
      c.parentIdx < c.arena.containers.length → c.childIdx < c.arena.containers.length →
      Trace c.after rest b → Trace a (c :: rest) b

section Trace

variable {a b d : Arena} {xs ys : List Call}

theorem SameLinks.refl (h : Wf a) : SameLinks a a := ⟨h, rfl⟩

theorem SameLinks.trans (h₁ : SameLinks a b) (h₂ : SameLinks b d) : SameLinks a d :=
  ⟨h₂.wf, h₂.parent.trans h₁.parent⟩

theorem SameLinks.forest (h : SameLinks a b) (hf : Forest a) : Forest b := by
  refine ⟨h.wf.linked, fun i => ?_⟩
  rw [h.parent]
  exact hf.rooted i

theorem Trace.after_links (h₁ : SameLinks a b) (h : Trace b xs d) : Trace a xs d := by
  cases h with
  | done h => exact .done (h₁.trans h)
  | call h hp hc rest => exact .call (h₁.trans h) hp hc rest

theorem Trace.wf (h : Trace a xs b) : Wf b := by
  induction h with
  | done h => exact h.wf
  | call _ _ _ _ ih => exact ih

theorem Trace.append (h₁ : Trace a xs b) (h₂ : Trace b ys d) : Trace a (xs ++ ys) d := by
  induction h₁ with
  | done h => exact h₂.after_links h
  | call h hp hc _ ih => exact .call h hp hc (ih h₂)

theorem Trace.single {c : Call} (h : Wf c.arena) (hp : c.parentIdx < c.arena.containers.length)
    (hc : c.childIdx < c.arena.containers.length) : Trace c.arena [c] c.after :=
  .call (.refl h) hp hc (.done (.refl (wf_link h hp hc).1))

end Trace

variable {a : Arena}

theorem getOrCreate_links (h : Wf a) (m : String) :
    SameLinks a (a.getOrCreate m).1 ∧ a.containers.length ≤ (a.getOrCreate m).1.containers.length ∧
      (a.getOrCreate m).2 < (a.getOrCreate m).1.containers.length := by
  have hext := getOrCreate_spec h m
  refine ⟨⟨hext.wf, hext.parent⟩, ?_, lt_of_name ((hext.name _ m).mpr (.inr ⟨rfl, rfl⟩))⟩
  by_contra hlt
  -- the last container would have lost its name
  have hlt := Nat.lt_of_not_le hlt
  obtain ⟨n, hn⟩ := exists_name hlt
  exact absurd (lt_of_name ((hext.name _ n).mpr (.inl hn))) (Nat.lt_irrefl _)

theorem trace_refCalls (h : Wf a) {prev : Option Nat}
    (hprev : ∀ p, prev = some p → p < a.containers.length) (refs : List String) :
    Trace a (refCalls a prev refs) (linkRefs a prev refs).1 ∧
    a.containers.length ≤ (linkRefs a prev refs).1.containers.length ∧
    ∀ p, (linkRefs a prev refs).2 = some p → p < (linkRefs a prev refs).1.containers.length := by
  induction refs generalizing a prev with
  | nil => exact ⟨.done (.refl h), Nat.le_refl _, hprev⟩
  | cons ref refs ih =>
    obtain ⟨hsame, hle, hidx⟩ := getOrCreate_links h ref
    rw [refCalls, linkRefs]
    generalize a.getOrCreate ref = r at hsame hle hidx
    obtain ⟨a₁, idx⟩ := r
    have hnext : ∀ {a' : Arena}, idx < a'.containers.length →
        ∀ p, some idx = some p → p < a'.containers.length := by
      intro a' hlt p hp
      cases hp
      exact hlt
    cases prev with
    | none =>
      obtain ⟨htrace, hle', hlast⟩ := ih hsame.wf (hnext hidx)
      exact ⟨htrace.after_links hsame, Nat.le_trans hle hle', hlast⟩
    | some p =>
      have hp : p < a₁.containers.length := Nat.lt_of_lt_of_le (hprev p rfl) hle
      simp only
      split
      · obtain ⟨hwf, hnodes⟩ := wf_link hsame.wf hp hidx
        obtain ⟨htrace, hle', hlast⟩ := ih hwf (hnext (by rw [hnodes.length]; exact hidx))
        rw [hnodes.length] at hle'
        exact ⟨.call hsame hp hidx htrace, Nat.le_trans hle hle', hlast⟩
      · obtain ⟨htrace, hle', hlast⟩ := ih hsame.wf (hnext hidx)
        exact ⟨htrace.after_links hsame, Nat.le_trans hle hle', hlast⟩

theorem trace_messageCalls (h : Wf a) (m : ThreadableMessage) :
    Trace a (messageCalls a m) (addMessage a m) := by
  obtain ⟨hsame, -, hidx⟩ := getOrCreate_links h m.messageId
  rw [messageCalls, addMessage]
  generalize a.getOrCreate m.messageId = r at hsame hidx
  obtain ⟨a₁, idx⟩ := r
  simp only at hsame hidx ⊢
  have hset : SameLinks a₁ (a₁.modify idx (fun c => { c with message := some m })) :=
    ⟨wf_setMessage hsame.wf idx m, funext fun k => parent_modify (fun _ => rfl)⟩
  have hidx : idx < (a₁.modify idx (fun c => { c with message := some m })).containers.length := by
    rw [Arena.length_modify]
    exact hidx
  generalize a₁.modify idx (fun c => { c with message := some m }) = a₂ at hset hidx
  have hnone : ∀ p, (none : Option Nat) = some p → p < a₂.containers.length := by
    intro p hp
    cases hp
  obtain ⟨htrace, hle, hlast⟩ := trace_refCalls hset.wf hnone (refIds m)
  have hwf := htrace.wf
  generalize linkRefs a₂ none (refIds m) = r at htrace hle hlast hwf
  obtain ⟨b, prev⟩ := r
  refine (htrace.after_links (hsame.trans hset)).append ?_
  cases prev with
  | none => exact .done (.refl hwf)
  | some p =>
    simp only
    split
    · exact .single (c := ⟨b, p, idx⟩) hwf (hlast p rfl) (Nat.lt_of_lt_of_le hidx hle)
    · exact .done (.refl hwf)

theorem trace_linkCalls (h : Wf a) (messages : List ThreadableMessage) :
    Trace a (linkCalls a messages) (messages.foldl addMessage a) := by
  induction messages generalizing a with
  | nil => exact .done (.refl h)
  | cons m messages ih =>
    have hfirst := trace_messageCalls h m
    exact hfirst.append (ih hfirst.wf)

theorem mergeCall_eq (a : Arena) (map : SubjectMap) (root : Nat) :
    (mergeCall (a, map) root = none ∧ (mergeRoot (a, map) root).1 = a) ∨
    ∃ c, mergeCall (a, map) root = some c ∧ (mergeRoot (a, map) root).1 = c.after ∧ c.arena = a ∧
      ∃ s e, map.lookup s = some e ∧
        (c.parentIdx = e ∧ c.childIdx = root ∨ c.parentIdx = root ∧ c.childIdx = e) := by
  unfold mergeCall mergeRoot
  simp only
  split
  · exact .inl ⟨rfl, rfl⟩
  cases hs : map.lookup (normalizeSubject (a.getSubjectForContainer root)) with
  | none => exact .inl ⟨rfl, rfl⟩
  | some e =>
    right
    simp only
    split
    · exact ⟨_, rfl, rfl, rfl, _, e, hs, .inl ⟨rfl, rfl⟩⟩
    split
    · exact ⟨_, rfl, rfl, rfl, _, e, hs, .inr ⟨rfl, rfl⟩⟩
    · split
      · exact ⟨_, rfl, rfl, rfl, _, e, hs, .inl ⟨rfl, rfl⟩⟩
      · exact ⟨_, rfl, rfl, rfl, _, e, hs, .inr ⟨rfl, rfl⟩⟩

theorem trace_mergeCalls {a₀ : Arena} {map : SubjectMap} {rest : List Nat}
    (h : Merging a₀ a map rest) (hnodup : rest.Nodup) :
    Trace a (mergeCalls (a, map) rest) (rest.foldl mergeRoot (a, map)).1 := by
  induction rest generalizing a map with
  | nil => exact .done (.refl h.trees.wf)
  | cons root rest ih =>
    have hnext := ih (merging_step h hnodup) (nodup_cons.mp hnodup).2
    have hlt : ∀ {i}, i ∈ a.roots → i < a.containers.length := fun hi => (mem_roots.mp hi).1
    have hroot := hlt (h.todo root (mem_cons_self ..))
    refine Trace.append ?_ hnext
    rcases mergeCall_eq a map root with ⟨hnone, heq⟩ | ⟨c, hc, heq, rfl, s, e, hs, hends⟩
    · rw [hnone, heq]
      exact .done (.refl h.trees.wf)
    · have he := hlt (h.root s e hs).1
      rw [hc, heq]
      rcases hends with ⟨hp, hch⟩ | ⟨hp, hch⟩
      · exact .single h.trees.wf (hp ▸ he) (hch ▸ hroot)
      · exact .single h.trees.wf (hp ▸ hroot) (hch ▸ he)

/-- The calls account for every link of the arena that `build_threads` collects from. -/
theorem trace_calls (messages : List ThreadableMessage) :
    Trace Arena.new (calls messages) (mergeSubjects (linkMessages messages)) := by
  have hlink := trace_linkCalls wf_new messages
  refine hlink.append (trace_mergeCalls ⟨SameTrees.refl hlink.wf, fun i hi => hi, ?_, ?_⟩ nodup_roots)
  · intro s i hs
    cases hs
  · intro s t i hs
    cases hs

/-! ## Forests -/

/-- A call leaves a forest iff the child is none of the ancestors that are not looked at. -/
theorem Call.forest_iff {c : Call} (h : Forest c.arena) (hwf : Wf c.arena)
    (hp : c.parentIdx < c.arena.containers.length) (hc : c.childIdx < c.arena.containers.length) :
    Forest c.after ↔ c.InSight := by
  unfold Call.after Call.InSight
  rcases link_cases hwf hp hc with ⟨⟨k, hk, hclimb⟩, heq⟩ | ⟨-, hpar, heq⟩ | ⟨hno, -, hr⟩
  · rw [heq]
    refine iff_of_true h ?_
    intro j hj hclimb'
    have hjk := (h.rooted _).climb_inj hclimb hclimb'
    omega
  · rw [heq]
    refine iff_of_true h ?_
    intro j _ hclimb
    -- the child would be its own ancestor
    apply (h.rooted c.childIdx).climb_ne j
    rw [Lib.climb_succ', hpar]
    exact hclimb
  · have hforest : Forest (c.arena.linkParentChild c.parentIdx c.childIdx) ↔
        ∀ i, Rooted (c.arena.linkParentChild c.parentIdx c.childIdx).parent i :=
      ⟨Forest.rooted, fun hall => ⟨(hr.wf hwf hp).linked, hall⟩⟩
    rw [hforest, hr.parent, Lib.rooted_update_iff h.rooted]
    refine ⟨fun hall k _ => hall k, fun hfar k => ?_⟩
    rcases Nat.lt_or_ge k maxDepth with hk | hk
    · exact fun hclimb => hno ⟨k, hk, hclimb⟩
    · exact hfar k hk

theorem Trace.forest_iff {b : Arena} {cs : List Call} (h : Trace a cs b) (ha : Forest a) :
    (∀ c ∈ cs, Forest c.after) ↔ ∀ c ∈ cs, c.InSight := by
  induction h with
  | done => simp
  | @call a b c rest hsame hp hc _ ih =>
    have hfirst := Call.forest_iff (hsame.forest ha) hsame.wf hp hc
    rw [forall_mem_cons, forall_mem_cons, hfirst]
    exact and_congr_right fun hsight => ih (hfirst.mpr hsight)

theorem Trace.forest {b : Arena} {cs : List Call} (h : Trace a cs b) (ha : Forest a)
    (hcs : ∀ c ∈ cs, Forest c.after) : Forest b := by
  induction h with
  | done hsame => exact hsame.forest ha
  | call _ _ _ _ ih => exact ih (hcs _ (mem_cons_self ..)) (fun c hc => hcs c (mem_cons_of_mem _ hc))

theorem forest_new : Forest Arena.new := ⟨wf_new.linked, fun _ => .root rfl⟩

theorem calls_keep_forest_iff (messages : List ThreadableMessage) :
    (∀ c ∈ calls messages, Forest c.after) ↔ ∀ c ∈ calls messages, c.InSight :=
  (trace_calls messages).forest_iff forest_new

theorem rooted_of_forests {messages : List ThreadableMessage} (h : ∀ c ∈ calls messages, Forest c.after)
    (messageId : String) : Rooted (parents messages) messageId := by
  have hsim := sim_linkMessages messages
  have hforest := (trace_calls messages).forest forest_new h
  by_cases hex : ∃ i, (linkMessages messages).name i = some messageId
  · obtain ⟨i, hi⟩ := hex
    exact (hsim.rooted_iff hi).mpr (((mergeSubjects_spec hsim.wf).rooted i).mp (hforest.rooted i))
  · exact .root (hsim.absent messageId (fun i hi => hex ⟨i, hi⟩)).1

theorem climb_attachRefs {par : Parents} {p q : String} {n : Nat} {ids : List String} (hnodup : ids.Nodup)
    (hwalk : climb par n p = some q) (hfree : ∀ x ∈ ids, par x = none ∧ ∀ k, climb par k p ≠ some x) :
    climb (attachRefs par (some p) ids) (n + ids.length) (ids.getLast?.getD p) = some q ∧
      ∀ x, x ∉ ids → attachRefs par (some p) ids x = par x := by
  induction ids generalizing par p n with
  | nil => exact ⟨hwalk, fun _ _ => rfl⟩
  | cons r ids ih =>
    obtain ⟨hr, hoff⟩ := hfree r (mem_cons_self ..)
    obtain ⟨hnot, hnodup⟩ := nodup_cons.mp hnodup
    have hattach : attach par p r = Function.update par r (some p) :=
      if_neg (fun hex => hoff hex.choose hex.choose_spec.2)
    have hup : ∀ k, climb (Function.update par r (some p)) (k + 1) r = climb par k p := by
      intro k
      rw [Lib.climb_succ', Function.update_self]
      exact Lib.climb_update (fun j _ => hoff j)
    simp only [attachRefs, hr, if_true, hattach]
    obtain ⟨h1, h2⟩ := ih hnodup
      ((hup n).trans hwalk : climb (Function.update par r (some p)) (n + 1) r = some q) (by
        intro x hx
        have hxr : x ≠ r := fun heq => hnot (heq ▸ hx)
        obtain ⟨hx0, hxoff⟩ := hfree x (mem_cons_of_mem _ hx)
        refine ⟨by rw [Function.update_of_ne hxr, hx0], fun k => ?_⟩
        cases k with
        | zero => exact fun heq => hxr (Option.some.inj heq).symm
        | succ k =>
          rw [hup]
          exact hxoff k)
    refine ⟨?_, ?_⟩
    · rw [getLast?_cons]
      rwa [Nat.add_right_comm] at h1
    · intro x hx
      rw [h2 x (fun hmem => hx (mem_cons_of_mem _ hmem))]
      refine Function.update_of_ne ?_ ..
      rintro rfl
      exact hx (mem_cons_self ..)

/-- A message with a chain of `maxDepth` new ids and one with the first of them that answers it. -/
theorem long_chain_loops {m₁ m₂ : ThreadableMessage} {ids : List String}
    (href : refIds m₁ = m₂.messageId :: ids) (hans : refIds m₂ = [m₁.messageId])
    (hnodup : (m₂.messageId :: ids ++ [m₁.messageId]).Nodup) (hlong : maxDepth ≤ ids.length + 1) :
    ¬ Rooted (parents [m₁, m₂]) m₂.messageId := by
  obtain ⟨hfirst, hrest⟩ := nodup_cons.mp hnodup
  obtain ⟨hids, -, hlast⟩ := nodup_append.mp hrest
  have hz : m₁.messageId ∉ ids := fun hmem => hlast _ hmem _ (mem_singleton_self _) rfl
  have hne : m₂.messageId ≠ m₁.messageId := fun heq => hfirst (by simp [heq])
  have hfirst : m₂.messageId ∉ ids := fun hmem => hfirst (mem_append_left _ hmem)
  -- the chain of the first message
  have hstart : climb (fun _ => none : Parents) 0 m₂.messageId = some m₂.messageId := rfl
  obtain ⟨hwalk, hframe⟩ := climb_attachRefs hids hstart (by
      intro x hx
      refine ⟨rfl, fun k hk => ?_⟩
      obtain rfl := Lib.root_unique hk rfl (Lib.climb_zero m₂.messageId) rfl
      exact hfirst hx)
  rw [Nat.zero_add] at hwalk
  have hroot := hframe _ hfirst
  generalize hpar : attachRefs (fun _ => none) (some m₂.messageId) ids = par at hwalk hframe hroot
  generalize hl : ids.getLast?.getD m₂.messageId = last at hwalk
  have hlast : last ≠ m₁.messageId := by
    rintro rfl
    rw [← hl] at hz hne
    cases hids' : ids.getLast? with
    | none =>
      rw [hids'] at hne
      exact hne rfl
    | some x =>
      rw [hids'] at hz
      exact hz (mem_of_getLast? hids')
  have hoff : ∀ k, climb par k last ≠ some m₁.messageId := fun k hk =>
    hne (Lib.root_unique hwalk hroot hk (hframe _ hz))
  have h₁ : addParents (fun _ => none) m₁ = Function.update par m₁.messageId (some last) := by
    have hattach : attach par last m₁.messageId = Function.update par m₁.messageId (some last) :=
      if_neg (fun hex => hoff hex.choose hex.choose_spec.2)
    rw [addParents, href, getLast?_cons, hl]
    simp [attachRefs, hpar, hlast, hattach]
  -- its own id is `maxDepth` steps below the first one
  have hup : climb (Function.update par m₁.messageId (some last)) (ids.length + 1) m₁.messageId =
      some m₂.messageId := by
    rw [Lib.climb_succ', Function.update_self, Option.bind_some, Lib.climb_update (fun k _ => hoff k),
      hwalk]
  have hroot₂ : Function.update par m₁.messageId (some last) m₂.messageId = none := by
    rw [Function.update_of_ne hne, hroot]
  generalize Function.update par m₁.messageId (some last) = par₂ at h₁ hup hroot₂
  have hrooted : Rooted par₂ m₁.messageId := Lib.rooted_of_climb hup (.root hroot₂)
  have h₂ : addParents par₂ m₂ = Function.update par₂ m₂.messageId (some m₁.messageId) := by
    have hattach : attach par₂ m₁.messageId m₂.messageId =
        Function.update par₂ m₂.messageId (some m₁.messageId) := by
      refine if_neg ?_
      rintro ⟨k, hk, hclimb⟩
      have := hrooted.climb_inj hclimb hup
      omega
    rw [addParents, hans]
    simp [attachRefs, hne.symm, hattach]
  intro hr
  apply hr.climb_ne (ids.length + 1)
  rw [parents, foldl_cons, foldl_cons, foldl_nil, h₁, h₂, Lib.climb_succ',
    Function.update_self, Option.bind_some, Lib.climb_update, hup]
  intro k hk hclimb
  exact absurd (hrooted.climb_inj hclimb hup) (Nat.ne_of_lt hk)

def chainIds : List Char := (List.range 100).map (fun i => Char.ofNat (256 + i))

def chainMail : ThreadableMessage :=
  ⟨"1", "z", none, some (String.ofList (chainIds.flatMap (fun c => ['<', c, '>']))), none, 1000⟩

def chainAnswer : ThreadableMessage := ⟨"2", String.ofList [Char.ofNat 256], none, some "<z>", none, 2000⟩

theorem longChain_keeps_no_forest : ¬ ∀ c ∈ calls [chainMail, chainAnswer], Forest c.after := by
  intro h
  have hscan : scanBrackets none (trim (chainIds.flatMap (fun c => ['<', c, '>']))) =
      chainIds.map (fun c => [c]) := by decide +kernel
  have hcons : chainIds = Char.ofNat 256 :: chainIds.drop 1 := by decide +kernel
  have hnodup : ((chainIds ++ ['z']).map (fun c => String.ofList [c])).Nodup := by
    refine List.Nodup.map ?_ (by decide +kernel)
    intro c d hcd
    exact singleton_inj.mp (String.ofList_injective hcd)
  have href : refIds chainMail =
      chainAnswer.messageId :: (chainIds.drop 1).map (fun c => String.ofList [c]) := by
    have hmap : refIds chainMail = chainIds.map (fun c => String.ofList [c]) := by
      rw [refIds, chainMail, parseReferences]
      simp only [String.toList_ofList, hscan]
      rw [if_pos (by decide), map_map]
      rfl
    rw [hmap, hcons, map_cons]
    rfl
  have hans : refIds chainAnswer = [chainMail.messageId] := by decide
  have hlong : maxDepth ≤ ((chainIds.drop 1).map (fun c => String.ofList [c])).length + 1 := by
    decide +kernel
  rw [map_append, hcons, map_cons] at hnodup
  exact long_chain_loops href hans hnodup hlong (rooted_of_forests h _)

end Ratatoskr.Threading
