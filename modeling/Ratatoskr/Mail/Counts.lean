import Ratatoskr.Mail.DriveEnd
import Ratatoskr.Mail.Rollups

/-!
# Mail.Counts

The counts of a thread: number of messages, flags and last date. They do not depend on the order of the
messages, and both ways to an aggregate give them: the queries over the stored messages and the loop over
the messages of a drive.
-/

namespace Ratatoskr.Mail

open List

structure Fact where
  date : Int
  isRead : Bool
  isStarred : Bool
  hasAttachments : Bool
  deriving DecidableEq

structure Counts where
  messageCount : Nat
  isRead : Bool
  isStarred : Bool
  hasAttachments : Bool
  lastDate : Int

def ThreadAggregate.counts (a : ThreadAggregate) : Counts :=
  ⟨a.messageCount, a.isRead, a.isStarred, a.hasAttachments, a.lastDate⟩

def countsOf (facts : List Fact) : Option Counts :=
  (facts.map Fact.date).max?.map (fun lastDate =>
    ⟨facts.length, facts.all Fact.isRead, facts.any Fact.isStarred, facts.any Fact.hasAttachments, lastDate⟩)

theorem max?_perm {xs ys : List Int} (h : xs.Perm ys) : xs.max? = ys.max? := by
  refine Option.ext fun d => ?_
  rw [max?_eq_some_iff, max?_eq_some_iff]
  simp [h.mem_iff]

theorem countsOf_perm {xs ys : List Fact} (h : xs.Perm ys) : countsOf xs = countsOf ys := by
  rw [countsOf, countsOf, max?_perm (h.map Fact.date), h.length_eq, h.all_eq, h.any_eq, h.any_eq]

theorem countsOf_count {facts : List Fact} {c : Counts} (h : countsOf facts = some c) :
    c.messageCount = facts.length := by
  rw [countsOf, Option.map_eq_some_iff] at h
  obtain ⟨d, -, rfl⟩ := h
  rfl

def Message.fact (m : Message) (attached : Bool) : Fact :=
  ⟨m.columns.date, m.columns.isRead, m.columns.isStarred, attached⟩

def View.fact (v : View) : Fact := v.message.fact v.attached

theorem latest_spec {vs : List View} {w : View} (h : latest vs = some w) :
    w ∈ vs ∧ ∀ v ∈ vs, v.message.columns.date ≤ w.message.columns.date := by
  induction vs generalizing w with
  | nil => cases h
  | cons v vs ih =>
    rw [latest] at h
    cases hrest : latest vs with
    | none =>
      rw [hrest] at h
      cases h
      have hnil : vs = [] := (latest_eq_none_iff vs).mp hrest
      subst hnil
      simp
    | some u =>
      rw [hrest] at h
      obtain ⟨hmem, hmax⟩ := ih hrest
      dsimp only at h
      split at h
      · rename_i hlt
        cases h
        refine ⟨mem_cons_of_mem _ hmem, ?_⟩
        rw [forall_mem_cons]
        exact ⟨hlt.le, hmax⟩
      · rename_i hge
        cases h
        refine ⟨mem_cons_self, ?_⟩
        rw [forall_mem_cons]
        exact ⟨le_refl _, fun x hx => (hmax x hx).trans (not_lt.mp hge)⟩

theorem countsOf_views (vs : List View) (c : Counts) : countsOf ((plain vs).map View.fact) = some c ↔
      ∃ d, computeThreadAggregate vs = .ok d ∧ d.counts = c := by
  unfold computeThreadAggregate
  generalize plain vs = ms
  dsimp only
  cases hl : latest ms with
  | none =>
    have hnil : ms = [] := (latest_eq_none_iff ms).mp hl
    subst hnil
    simp [countsOf]
  | some last =>
    cases he : earliest ms with
    | none =>
      have hnil : ms = [] := (earliest_eq_none_iff ms).mp he
      subst hnil
      cases hl
    | some first =>
      obtain ⟨hmem, hmax⟩ := latest_spec hl
      have hdate : ((ms.map View.fact).map Fact.date).max? = some last.message.columns.date := by
        rw [max?_eq_some_iff, map_map]
        refine ⟨mem_map_of_mem hmem, ?_⟩
        intro d hd
        obtain ⟨v, hv, rfl⟩ := mem_map.mp hd
        exact hmax v hv
      rw [countsOf, hdate, Option.map_some, Option.some_inj, length_map, all_map, any_map, any_map]
      constructor
      · rintro rfl
        exact ⟨_, rfl, rfl⟩
      · rintro ⟨d, hd, rfl⟩
        cases hd
        rfl

def MessageMeta.fact (m : MessageMeta) : Fact := ⟨m.date, m.isRead, m.isStarred, m.hasAttachments⟩

theorem addMessages_spec (rest : List MessageMeta) (st : Int × ThreadAggregate) :
    (rest.foldl addMessage st).2.counts =
      ⟨st.2.messageCount, st.2.isRead && rest.all MessageMeta.isRead,
        st.2.isStarred || rest.any MessageMeta.isStarred,
        st.2.hasAttachments || rest.any MessageMeta.hasAttachments,
        (rest.map MessageMeta.date).foldl max st.2.lastDate⟩ := by
  induction rest generalizing st with
  | nil => simp [ThreadAggregate.counts]
  | cons m rest ih =>
    have hdate : (if st.2.lastDate < m.date then m.date else st.2.lastDate) = max st.2.lastDate m.date := by
      split
      · rename_i hlt
        exact (max_eq_right hlt.le).symm
      · rename_i hge
        exact (max_eq_left (not_lt.mp hge)).symm
    rw [foldl_cons, ih, addMessage, map_cons, foldl_cons, all_cons, any_cons, any_cons, ← hdate]
    simp only [Bool.and_assoc, Bool.or_assoc]

theorem countsOf_computeFromMessages (first : MessageMeta) (rest : List MessageMeta) :
    countsOf ((first :: rest).map MessageMeta.fact) = some (computeFromMessages first rest).counts := by
  have hdates : ((first :: rest).map MessageMeta.fact).map Fact.date =
      first.date :: rest.map MessageMeta.date := by
    rw [map_map]
    rfl
  rw [computeFromMessages, addMessages_spec, countsOf, hdates, max?_cons', length_map, all_map, any_map, any_map]
  rfl

/-! ## A thread row -/

/-- The row has the counts and the folders that its messages give. -/
def Right (db : Tables) (thread : ThreadId) (row : Thread) : Prop :=
  ∃ a d, row.aggregate = some a ∧ computeThreadAggregate (views db thread) = .ok d ∧
    a.counts = d.counts ∧ row.folders = derivedFolders db.imapFolders (views db thread)

theorem right_iff (db : Tables) (thread : ThreadId) (row : Thread) :
    Right db thread row ↔ ∃ a, row.aggregate = some a ∧
      countsOf ((plain (views db thread)).map View.fact) = some a.counts ∧
      row.folders = derivedFolders db.imapFolders (views db thread) := by
  constructor
  · rintro ⟨a, d, ha, hd, heq, hf⟩
    exact ⟨a, ha, (countsOf_views _ _).mpr ⟨d, hd, heq.symm⟩, hf⟩
  · rintro ⟨a, ha, hc, hf⟩
    obtain ⟨d, hd, heq⟩ := (countsOf_views _ _).mp hc
    exact ⟨a, d, ha, hd, heq.symm, hf⟩

end Ratatoskr.Mail
