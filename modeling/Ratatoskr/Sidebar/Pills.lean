import Ratatoskr.Lib.Sized
import Ratatoskr.Sidebar.Navigation

/-!
# Sidebar.Pills

Every pill of an account scope counts the unread threads of its list, as long as the list reads. The count
of a folder tells threads apart by the text `account_id/id`, its list by the two columns: the two agree iff
no two threads of the folder share the text.

`listed` is the condition of an entry. `selects_listed` says that its list follows it, `unread_of_mem` that
its pill does.
-/

namespace Ratatoskr.Sidebar

open List
open Lib.Relation
open SmartFolder (AccountScope)

variable {result : Except String (List DbThread)} {n : Nat} {db : Tables}
  {selection : SidebarSelection} {id : FolderId} {scope : AccountScope} {g : LabelGroupRow}

def folderListed (db : Tables) (scope : AccountScope) (labelId : Option FolderId) (t : ThreadRow) : Bool :=
  inScope scope t &&
    if isAllAccountsInbox scope labelId then broadInboxExclusionClause db t
    else
      match labelId with
      | some lid => inFolder db lid t
      | none => true

def listed (db : Tables) (scope : AccountScope) : SidebarSelection → ThreadRow → Bool
  | .bundle _, _ => false
  | .featureView _, _ => false
  | .smartFolder _, _ => false
  | .labelGroup group, t => inScope scope t && userVisibleLabelGroupRendered db (fun lg => lg.id = group) t
  | .virtualView .starred, t => inScope scope t && t.isStarred = some 1
  | .virtualView .snoozed, t => inScope scope t && t.isSnoozed = some 1
  | .virtualView .allMail, t => folderListed db scope none t
  | selection, t => folderListed db scope selection.folderIdForThreadQuery t

def unreadSynced (threads : List Thread) : Nat :=
  (threads.filter fun t => !t.isLocalDraft).countP fun t => !t.isRead

section Lists

variable {db : Tables} {limit : Int} (hlimit : (db.threads.length : Int) ≤ limit)

include hlimit

theorem selects_scoped (scope : AccountScope) (labelId : Option FolderId) :
    Selects db (folderListed db scope labelId) (getThreadsScoped db scope labelId (some limit) none) := by
  unfold getThreadsScoped
  by_cases hinbox : isAllAccountsInbox scope labelId = true
  · rw [if_pos hinbox]
    have hlisted : folderListed db scope labelId =
        fun t => inScope scope t && broadInboxExclusionClause db t := by
      funext t
      unfold folderListed
      rw [if_pos hinbox]
    rw [hlisted]
    exact selects_threads hlimit _
  · rw [if_neg hinbox]
    cases labelId with
    | none =>
      have hlisted : folderListed db scope none = inScope scope := by
        funext t
        rw [folderListed, if_neg hinbox, Bool.and_true]
      rw [hlisted]
      exact selects_threads hlimit _
    | some lid =>
      have hlisted : folderListed db scope (some lid) = fun t => inScope scope t && inFolder db lid t := by
        funext t
        rw [folderListed, if_neg hinbox]
      rw [hlisted]
      exact selects_folder hlimit _ _

end Lists

theorem unreadSynced_fromDbThread (threads : List DbThread) :
    unreadSynced (threads.map Thread.fromDbThread) = threads.countP fun t => !t.isRead := by
  have hsynced : (threads.map Thread.fromDbThread).filter (fun t => !t.isLocalDraft) =
      threads.map Thread.fromDbThread := by
    refine filter_eq_self.mpr fun t ht => ?_
    obtain ⟨_, _, rfl⟩ := mem_map.mp ht
    rfl
  rw [unreadSynced, hsynced, countP_map]
  rfl

theorem map_ok_iff :
    (∃ loaded, result.map (List.map Thread.fromDbThread) = .ok loaded ∧ n = unreadSynced loaded) ↔
      ∃ threads, result = .ok threads ∧ n = threads.countP fun t => !t.isRead := by
  cases result with
  | error e =>
    constructor
    · rintro ⟨loaded, h, _⟩
      cases h
    · rintro ⟨threads, h, _⟩
      cases h
  | ok threads =>
    constructor
    · rintro ⟨loaded, h, hn⟩
      cases h
      rw [unreadSynced_fromDbThread] at hn
      exact ⟨threads, rfl, hn⟩
    · rintro ⟨threads', h, hn⟩
      cases h
      exact ⟨_, rfl, by rw [unreadSynced_fromDbThread]; exact hn⟩

theorem unreadSynced_drafts (threads : List DbThread) (drafts : List LocalDraftSummary) :
    unreadSynced (byLastMessage (threads.map Thread.fromDbThread ++ drafts.map Thread.fromLocalDraft)) =
      threads.countP fun t => !t.isRead := by
  have hperm : (byLastMessage (threads.map Thread.fromDbThread ++ drafts.map Thread.fromLocalDraft)).Perm
      (threads.map Thread.fromDbThread ++ drafts.map Thread.fromLocalDraft) := perm_insertionSort _ _
  have hdrafts : (drafts.map Thread.fromLocalDraft).filter (fun t => !t.isLocalDraft) = [] := by
    rw [filter_map]
    exact map_eq_nil_iff.mpr (filter_eq_nil_iff.mpr fun d _ => Bool.not_eq_true _ ▸ rfl)
  rw [unreadSynced, (hperm.filter _).countP_eq, filter_append, hdrafts, append_nil]
  exact unreadSynced_fromDbThread threads

theorem loadThreadsScoped_iff (db : Tables) (scope : AccountScope) (limit : Int) (labelId : Option FolderId) :
    (∃ loaded, loadThreadsScoped db scope limit labelId = .ok loaded ∧ n = unreadSynced loaded) ↔
      ∃ threads, getThreadsScoped db scope labelId (some limit) none = .ok threads ∧
        n = threads.countP fun t => !t.isRead := by
  unfold loadThreadsScoped
  by_cases hdraft : labelId = some "DRAFT"
  · subst hdraft
    have hnot : isAllAccountsInbox scope (some "DRAFT") = false := by
      exact Bool.and_eq_false_iff.mpr (.inr rfl)
    have hsame : getThreadsScoped db scope (some "DRAFT") (some limit) none =
        getDraftThreadsSynced db scope (some limit) none := by
      rw [getThreadsScoped, hnot]
      rfl
    rw [hsame, getDraftsView]
    cases hsynced : getDraftThreadsSynced db scope (some limit) none with
    | error e =>
      constructor
      · rintro ⟨loaded, h, _⟩
        cases h
      · rintro ⟨threads, h, _⟩
        cases h
    | ok threads =>
      constructor
      · rintro ⟨loaded, h, hn⟩
        cases h
        rw [unreadSynced_drafts] at hn
        exact ⟨threads, rfl, hn⟩
      · rintro ⟨threads', h, hn⟩
        cases h
        exact ⟨_, rfl, by rw [unreadSynced_drafts]; exact hn⟩
  · rw [if_neg hdraft]
    exact map_ok_iff

theorem Selects.unread_iff {p : ThreadRow → Bool} (h : Selects db p result) :
    (∃ threads, result = .ok threads ∧ n = threads.countP fun t => !t.isRead) ↔
      (∀ t ∈ db.threads, p t = true → t.readable = true) ∧
        n = db.threads.countP fun t => p t && unreadRow t := by
  constructor
  · rintro ⟨threads, hresult, hn⟩
    have hreadable := h.readable hresult
    obtain ⟨threads', hresult', _, hcount⟩ := h.ok hreadable
    rw [hresult] at hresult'
    cases hresult'
    exact ⟨hreadable, hn.trans hcount⟩
  · rintro ⟨hreadable, hn⟩
    obtain ⟨threads, hresult, _, hcount⟩ := h.ok hreadable
    exact ⟨threads, hresult, hn.trans hcount.symm⟩

/-- The selections whose list is one of threads, with a query of its own. -/
def SidebarSelection.listsThreads : SidebarSelection → Bool
  | .bundle _ => false
  | .featureView _ => false
  | .smartFolder _ => false
  | _ => true

/-- An entry's list loads with `n` unread threads iff its threads read and `n` of them are unread. -/
theorem load_unread_iff {limit : Int} (hlimit : (db.threads.length : Int) ≤ limit)
    (bundleView : Bundle → Except String (List Thread)) (scope : AccountScope)
    (hselection : selection.listsThreads = true) :
    (∃ loaded, loadPersonalScopeThreads db bundleView scope limit selection = .ok loaded ∧
        n = unreadSynced loaded) ↔
      (∀ t ∈ db.threads, listed db scope selection t = true → t.readable = true) ∧
        n = db.threads.countP fun t => listed db scope selection t && unreadRow t := by
  have hscoped : ∀ labelId,
      (∃ loaded, loadThreadsScoped db scope limit labelId = .ok loaded ∧ n = unreadSynced loaded) ↔
        (∀ t ∈ db.threads, folderListed db scope labelId t = true → t.readable = true) ∧
          n = db.threads.countP fun t => folderListed db scope labelId t && unreadRow t := fun labelId =>
    (loadThreadsScoped_iff db scope limit labelId).trans (selects_scoped hlimit scope labelId).unread_iff
  have hflag : ∀ flagCol : ThreadRow → Option Int, Selects db (fun t => inScope scope t && flagCol t = some 1)
      (getFlagThreads db scope flagCol (some limit) none) := fun flagCol => selects_threads hlimit _
  cases selection with
  | bundle _ => cases hselection
  | featureView _ => cases hselection
  | smartFolder _ => cases hselection
  | inbox => exact hscoped _
  | folder f => exact hscoped _
  | providerFolder id => exact hscoped _
  | labelGroup group => exact map_ok_iff.trans (selects_threads hlimit _).unread_iff
  | virtualView v =>
    cases v with
    | starred => exact map_ok_iff.trans (hflag ThreadRow.isStarred).unread_iff
    | snoozed => exact map_ok_iff.trans (hflag ThreadRow.isSnoozed).unread_iff
    | allMail => exact hscoped none

/-! ## Pills -/

theorem countP_join_folder (db : Tables) (condition : ThreadRow → Bool) (folder : FolderId) :
    ((join db.threads db.threadFolders folderOf).countP fun row =>
        condition row.1 && row.2.folderId = folder) =
      db.threads.countP fun t => condition t && inFolder db folder t := by
  rw [countP_eq_length_filter, ← length_map Prod.fst, join_folder_fst, countP_eq_length_filter]

theorem unreadOf_append (a b : List FolderUnreadCount) (id : FolderId) :
    unreadOf (a ++ b) id = if id ∈ a.map FolderUnreadCount.folderId then unreadOf a id else unreadOf b id := by
  induction a with
  | nil => rfl
  | cons row rows ih =>
    by_cases hrow : row.folderId = id
    · have hmem : id ∈ (row :: rows).map FolderUnreadCount.folderId := by
        rw [map_cons, hrow]
        exact mem_cons_self
      simp [unreadOf, hrow]
    · have hmem : id ∈ (row :: rows).map FolderUnreadCount.folderId ↔
          id ∈ rows.map FolderUnreadCount.folderId := by
        rw [map_cons, mem_cons, or_iff_right (Ne.symm hrow)]
      rw [if_congr hmem rfl rfl]
      simpa [unreadOf, hrow] using ih

theorem unreadOf_of_lookup (counts : List (FolderId × Nat)) (id : FolderId) :
    unreadOf (counts.map fun count => ⟨count.1, count.2⟩) id = (counts.lookup id).getD 0 := by
  induction counts with
  | nil => rfl
  | cons count counts ih =>
    obtain ⟨folder, count⟩ := count
    by_cases hid : id = folder
    · subst hid
      simp [unreadOf]
    · have hne : (id == folder) = false := beq_eq_false_iff_ne.mpr hid
      rw [lookup_cons, hne]
      simpa [unreadOf, Ne.symm hid] using ih

theorem unreadOf_set_same (folder : FolderId) (count : Nat) (counts : List FolderUnreadCount) :
    unreadOf (setUnreadCount folder count counts) folder = count := by
  induction counts with
  | nil => simp [setUnreadCount, unreadOf]
  | cons row rows ih =>
    by_cases hrow : row.folderId = folder
    · simp [setUnreadCount, unreadOf, hrow]
    · simpa [setUnreadCount, unreadOf, hrow] using ih

theorem unreadOf_set_other {folder : FolderId} (hid : id ≠ folder) (count : Nat)
    (counts : List FolderUnreadCount) :
    unreadOf (setUnreadCount folder count counts) id = unreadOf counts id := by
  induction counts with
  | nil => simp [setUnreadCount, unreadOf, Ne.symm hid]
  | cons row rows ih =>
    by_cases hrow : row.folderId = folder
    · simp [setUnreadCount, unreadOf, hrow, Ne.symm hid]
    · by_cases hrowId : row.folderId = id
      · simp [setUnreadCount, unreadOf, hid, hrowId]
      · simpa [setUnreadCount, unreadOf, hrow, hrowId] using ih

theorem unreadOf_system (db : Tables) (scope : AccountScope) (hid : id ∈ systemFolderIds) :
    unreadOf (getSystemFolderUnreadCounts db scope) id =
      db.threads.countP fun t => inScope scope t && unreadRow t && inFolder db id t := by
  rw [getSystemFolderUnreadCounts, unreadOf_of_lookup, lookup_countBy, countP_filter]
  rw [← countP_join_folder]
  refine countP_congr fun row _ => ?_
  simp only [Bool.and_eq_true, decide_eq_true_eq, contains_iff_mem]
  constructor
  · rintro ⟨hfolder, hrow, _⟩
    exact ⟨hrow, hfolder⟩
  · rintro ⟨hrow, hfolder⟩
    exact ⟨hfolder, hrow, hfolder ▸ hid⟩

theorem mem_systemFolderIds_of_count
    (h : id ∈ (getSystemFolderUnreadCounts db scope).map FolderUnreadCount.folderId) :
    id ∈ systemFolderIds := by
  rw [getSystemFolderUnreadCounts, map_map, countBy, map_map] at h
  obtain ⟨row, hrow, rfl⟩ := mem_map.mp h
  have hmem := (mem_filter.mp ((groupBy_sublist _).subset hrow)).2
  simp only [Bool.and_eq_true, contains_iff_mem] at hmem
  exact hmem.2

/-- The list of counts before the inbox of all accounts is put in. -/
def narrowCounts (db : Tables) (scope : AccountScope) : List FolderUnreadCount :=
  getSystemFolderUnreadCounts db scope ++
    [getFlagFolderUnreadCount db scope "STARRED", getFlagFolderUnreadCount db scope "SNOOZED",
      getAllMailUnreadCount db scope]

theorem unreadOf_narrow_system (db : Tables) (scope : AccountScope) (hid : id ∈ systemFolderIds) :
    unreadOf (narrowCounts db scope) id =
      db.threads.countP fun t => inScope scope t && unreadRow t && inFolder db id t := by
  rw [← unreadOf_system db scope hid, narrowCounts, unreadOf_append]
  split
  · rfl
  rename_i hnot
  have hflags : ∀ f ∈ systemFolderIds, f ≠ "STARRED" ∧ f ≠ "SNOOZED" ∧ f ≠ "all-mail" := by decide
  obtain ⟨h1, h2, h3⟩ := hflags id hid
  have hnone : unreadOf (getSystemFolderUnreadCounts db scope) id = 0 := by
    rw [unreadOf, find?_eq_none.mpr]
    · rfl
    · intro row hrow heq
      exact hnot (mem_map.mpr ⟨row, hrow, of_decide_eq_true heq⟩)
  rw [hnone]
  simp [unreadOf, getFlagFolderUnreadCount, getAllMailUnreadCount, Ne.symm h1, Ne.symm h2, Ne.symm h3]

theorem unreadOf_narrow_virtual (db : Tables) (scope : AccountScope) (hid : id ∉ systemFolderIds) :
    unreadOf (narrowCounts db scope) id =
      unreadOf [getFlagFolderUnreadCount db scope "STARRED", getFlagFolderUnreadCount db scope "SNOOZED",
        getAllMailUnreadCount db scope] id := by
  rw [narrowCounts, unreadOf_append, if_neg fun h => hid (mem_systemFolderIds_of_count h)]

theorem getUnreadCountsByFolder_eq (db : Tables) (scope : AccountScope) (id : FolderId) :
    unreadOf (getUnreadCountsByFolder db scope) id =
      if isAllAccountsInbox scope (some id) then broadInboxUnreadCount db scope
      else unreadOf (narrowCounts db scope) id := by
  cases scope with
  | single account => rfl
  | multiple accounts => rfl
  | all =>
    by_cases hid : id = "INBOX"
    · subst hid
      exact unreadOf_set_same _ _ _
    · have hnot : isAllAccountsInbox .all (some id) = false := by
        refine Bool.and_eq_false_iff.mpr (.inr (decide_eq_false ?_))
        exact fun h => hid (Option.some.inj h)
      rw [hnot]
      exact unreadOf_set_other hid _ _

theorem countP_unread_comm (db : Tables) (p q : ThreadRow → Bool) :
    (db.threads.countP fun t => p t && unreadRow t && q t) =
      db.threads.countP fun t => p t && q t && unreadRow t :=
  countP_congr fun t _ => by rw [Bool.and_assoc, Bool.and_comm (unreadRow t), Bool.and_assoc]

theorem unread_folder (db : Tables) (scope : AccountScope) (hid : id ∈ systemFolderIds) :
    unreadOf (getUnreadCountsByFolder db scope) id =
      db.threads.countP fun t => folderListed db scope (some id) t && unreadRow t := by
  rw [getUnreadCountsByFolder_eq]
  unfold folderListed
  by_cases hinbox : isAllAccountsInbox scope (some id) = true
  · simp only [hinbox]
    exact countP_unread_comm db (inScope scope) (broadInboxExclusionClause db)
  · simp only [hinbox]
    rw [unreadOf_narrow_system db scope hid]
    exact countP_unread_comm db (inScope scope) (inFolder db id)

theorem unread_universal (db : Tables) (scope : AccountScope) {id : String}
    (hid : id ∈ sidebarUniversalFolders) : unreadOf (getUnreadCountsByFolder db scope) id =
      db.threads.countP fun t => listed db scope (universalFolderSelection id) t && unreadRow t := by
  have hvirtual : ∀ id : String, id ∉ systemFolderIds → id ≠ "INBOX" →
      unreadOf (getUnreadCountsByFolder db scope) id =
        unreadOf [getFlagFolderUnreadCount db scope "STARRED", getFlagFolderUnreadCount db scope "SNOOZED",
          getAllMailUnreadCount db scope] id := by
    intro id hsystem hinbox
    have hnot : ¬ isAllAccountsInbox scope (some id) = true := by
      unfold isAllAccountsInbox
      simp [hinbox]
    rw [getUnreadCountsByFolder_eq, if_neg hnot, unreadOf_narrow_virtual db scope hsystem]
  simp only [sidebarUniversalFolders, mem_cons, not_mem_nil, or_false] at hid
  obtain rfl | rfl | rfl | rfl | rfl | rfl | rfl | rfl | rfl := hid
  · exact unread_folder db scope (by decide)
  · rw [hvirtual "STARRED" (by decide) (by decide)]
    exact countP_unread_comm db (inScope scope) fun t => t.isStarred = some 1
  · rw [hvirtual "SNOOZED" (by decide) (by decide)]
    exact countP_unread_comm db (inScope scope) fun t => t.isSnoozed = some 1
  · exact unread_folder db scope (by decide)
  · exact unread_folder db scope (by decide)
  · exact unread_folder db scope (by decide)
  · exact unread_folder db scope (by decide)
  · exact unread_folder db scope (by decide)
  · rw [hvirtual "all-mail" (by decide) (by decide)]
    have hlisted : ∀ t, listed db scope (.virtualView .allMail) t = inScope scope t := by
      intro t
      unfold listed folderListed
      simp [isAllAccountsInbox]
    simp only [universalFolderSelection, hlisted]
    rfl

/-- The folders of an account are in its scope alone, where no inbox is broad. -/
theorem unread_accountFolder (db : Tables) (account : AccountId) (id : FolderId) :
    ((getFolderUnreadCounts db account).lookup id).getD 0 =
      db.threads.countP fun t => listed db (.single account) (.providerFolder id) t && unreadRow t := by
  have hlisted : ∀ t, listed db (.single account) (.providerFolder id) t =
      (inScope (.single account) t && inFolder db id t) := fun t => rfl
  simp only [hlisted]
  rw [← countP_unread_comm, ← countP_join_folder, getFolderUnreadCounts, lookup_countBy, countP_filter]
  refine countP_congr fun row _ => ?_
  simp only [inScope, accountScopeClause, Bool.and_eq_true]
  tauto

theorem nodup_pairs (db : Tables) (p : ThreadRow × LabelGroupRow → Bool) :
    (((join db.threads db.labelGroups fun _ _ => true).filter p).map
      fun row => (row.1.accountId, row.1.id, row.2.id)).Nodup := by
  have hjoin : (join db.threads db.labelGroups fun _ _ => true).Nodup := by
    have hproduct : (join db.threads db.labelGroups fun _ _ => true) = db.threads ×ˢ db.labelGroups := by
      rw [join, filter_true]
      rfl
    rw [hproduct]
    exact db.threads_nodup.product db.labelGroups_nodup
  refine (hjoin.filter p).map_on ?_
  rintro ⟨t, g⟩ h1 ⟨u, g'⟩ h2 heq
  obtain ⟨ht, hg, _⟩ := mem_join.mp (mem_filter.mp h1).1
  obtain ⟨hu, hg', _⟩ := mem_join.mp (mem_filter.mp h2).1
  simp only [Prod.mk.injEq] at heq
  have htu : t = u := db.eq_of_key ht hu (Prod.ext heq.1 heq.2.1)
  have hgg : g = g' := inj_on_of_nodup_map db.labelGroups_key hg hg' heq.2.2
  rw [htu, hgg]

theorem lookup_labelGroupUnreadCounts (db : Tables) (condition : ThreadRow → Bool) (hg : g ∈ db.labelGroups) :
    ((labelGroupUnreadCounts db condition).lookup g.id).getD 0 = db.threads.countP fun t =>
        condition t && userVisibleLabelGroupRendered db (fun lg => lg.id = g.id) t := by
  have hunique : ∀ t, ∀ x ∈ db.labelGroups, ∀ y ∈ db.labelGroups,
      (true && (decide (x.id = g.id) && (condition t &&
        userVisibleLabelGroupRendered db (fun lg => lg.id = x.id) t))) = true →
      (true && (decide (y.id = g.id) && (condition t &&
        userVisibleLabelGroupRendered db (fun lg => lg.id = y.id) t))) = true → x = y := by
    intro t x hx y hy hxg hyg
    simp only [Bool.true_and, Bool.and_eq_true, decide_eq_true_eq] at hxg hyg
    exact inj_on_of_nodup_map db.labelGroups_key hx hy (hxg.1.trans hyg.1.symm)
  rw [labelGroupUnreadCounts, groupBy_of_nodup (nodup_pairs db _), lookup_countBy, countP_filter]
  rw [countP_eq_length_filter, ← length_map Prod.fst]
  rw [join_filter_fst db.labelGroups_nodup hunique, ← countP_eq_length_filter]
  refine countP_congr fun t _ => ?_
  simp only [any_eq_true, Bool.true_and, Bool.and_eq_true, decide_eq_true_eq]
  constructor
  · rintro ⟨x, _, hid, hcondition, hrendered⟩
    exact ⟨hcondition, hid ▸ hrendered⟩
  · rintro ⟨hcondition, hrendered⟩
    exact ⟨g, hg, rfl, hcondition, hrendered⟩

theorem unread_labelGroup (db : Tables) (scope : AccountScope) (hg : g ∈ db.labelGroups) :
    ((loadLabelGroupUnreadCounts db scope).lookup g.id).getD 0 =
      db.threads.countP fun t => listed db scope (.labelGroup g.id) t && unreadRow t := by
  rw [loadLabelGroupUnreadCounts, lookup_labelGroupUnreadCounts db _ hg]
  refine countP_congr fun t _ => ?_
  simp only [listed, inScope, Bool.and_eq_true]
  tauto

/-- Every pill but a smart folder's: the entry selects a list of threads and counts its unread ones. -/
theorem unread_of_mem {smart : List (String × Nat)} {entry : NavigationFolder}
    (h : entry ∈ getNavigationState db smart scope) (hsmart : ∀ id, entry.id ≠ .smartFolder id) :
    entry.selection.listsThreads = true ∧
      entry.unreadCount = db.threads.countP fun t => listed db scope entry.selection t && unreadRow t := by
  simp only [getNavigationState, mem_append] at h
  obtain ((huniversal | hsmartFolder) | hgroup) | haccount := h
  · obtain ⟨id, hid, rfl⟩ := mem_map.mp huniversal
    have hlists : ∀ id ∈ sidebarUniversalFolders, (universalFolderSelection id).listsThreads = true := by decide
    exact ⟨hlists id hid, unread_universal db scope hid⟩
  · obtain ⟨folder, _, rfl⟩ := mem_map.mp hsmartFolder
    exact absurd rfl (hsmart folder.1)
  · obtain ⟨g, hg, rfl⟩ := mem_map.mp hgroup
    exact ⟨rfl, unread_labelGroup db scope ((perm_insertionSort _ _).mem_iff.mp hg)⟩
  · cases scope with
    | single account =>
      obtain ⟨folder, _, rfl⟩ := mem_map.mp haccount
      exact ⟨rfl, unread_accountFolder db account folder.id⟩
    | multiple accounts => cases haccount
    | all => cases haccount

/-! ## Counts -/

def joinedKey (t : ThreadRow) : String := t.accountId ++ "/" ++ t.id

def JoinedApart (db : Tables) (scope : AccountScope) (folder : FolderId) : Prop :=
  ∀ t ∈ db.threads, ∀ u ∈ db.threads, inScope scope t = true → inScope scope u = true →
    inFolder db folder t = true → inFolder db folder u = true → joinedKey t = joinedKey u → t = u

theorem nodup_map_filter_iff (db : Tables) (p : ThreadRow → Bool) :
    ((db.threads.filter p).map joinedKey).Nodup ↔
      ∀ t ∈ db.threads, ∀ u ∈ db.threads, p t = true → p u = true → joinedKey t = joinedKey u → t = u := by
  constructor
  · intro h t ht u hu hpt hpu heq
    exact inj_on_of_nodup_map h (mem_filter.mpr ⟨ht, hpt⟩) (mem_filter.mpr ⟨hu, hpu⟩) heq
  · intro h
    refine (db.threads_nodup.filter p).map_on ?_
    intro t ht u hu heq
    obtain ⟨ht1, ht2⟩ := mem_filter.mp ht
    obtain ⟨hu1, hu2⟩ := mem_filter.mp hu
    exact h t ht1 u hu1 ht2 hu2 heq

/-- The count of a folder by the text is that of its threads iff the text tells them apart. -/
theorem count_folder_iff (db : Tables) (scope : AccountScope) (folder : FolderId) :
    countDistinct (fun row => row.1.accountId ++ "/" ++ row.1.id)
        ((join db.threads db.threadFolders folderOf).filter fun row =>
          inScope scope row.1 && row.2.folderId = folder) =
      (db.threads.countP fun t => inScope scope t && inFolder db folder t) ↔ JoinedApart db scope folder := by
  have hrows := join_folder_fst db (inScope scope) folder
  have hlength := congrArg List.length hrows
  rw [length_map, ← countP_eq_length_filter (l := db.threads)] at hlength
  have hkeys : (((join db.threads db.threadFolders folderOf).filter fun row =>
        inScope scope row.1 && row.2.folderId = folder).map fun row => row.1.accountId ++ "/" ++ row.1.id) =
      (db.threads.filter fun t => inScope scope t && inFolder db folder t).map joinedKey := by
    rw [← hrows, map_map]
    rfl
  rw [← hlength, countDistinct_eq_length_iff, hkeys, nodup_map_filter_iff]
  simp only [Bool.and_eq_true]
  constructor
  · intro h t ht u hu hst hsu hft hfu heq
    exact h t ht u hu ⟨hst, hft⟩ ⟨hsu, hfu⟩ heq
  · rintro h t ht u hu ⟨hst, hft⟩ ⟨hsu, hfu⟩ heq
    exact h t ht u hu hst hsu hft hfu heq

theorem count_scoped_iff (db : Tables) (scope : AccountScope) (labelId : Option FolderId) :
    getThreadCountScoped db scope labelId = db.threads.countP (folderListed db scope labelId) ↔
      ∀ folder, labelId = some folder → isAllAccountsInbox scope (some folder) = false →
        JoinedApart db scope folder := by
  unfold getThreadCountScoped
  by_cases hinbox : isAllAccountsInbox scope labelId = true
  · rw [if_pos hinbox]
    constructor
    · rintro _ folder rfl hnot
      rw [hinbox] at hnot
      cases hnot
    · intro _
      refine countP_congr fun t _ => ?_
      unfold folderListed
      rw [if_pos hinbox]
  · rw [if_neg hinbox]
    cases labelId with
    | none =>
      constructor
      · rintro _ folder hnone
        cases hnone
      · intro _
        refine countP_congr fun t _ => ?_
        unfold folderListed
        rw [if_neg hinbox, Bool.and_true]
    | some lid =>
      have hlisted : folderListed db scope (some lid) = fun t => inScope scope t && inFolder db lid t := by
        funext t
        unfold folderListed
        rw [if_neg hinbox]
      rw [hlisted, count_folder_iff]
      constructor
      · rintro h folder hfolder _
        cases hfolder
        exact h
      · intro h
        exact h lid rfl (Bool.not_eq_true _ ▸ hinbox)

/-- In the scope of one account the text of a thread ends with its id, after one same start. -/
theorem joinedApart_single (db : Tables) (account : AccountId) (folder : FolderId) :
    JoinedApart db (.single account) folder := by
  intro t ht u hu hst hsu _ _ heq
  simp only [inScope, accountScopeClause, Bool.and_eq_true, decide_eq_true_eq] at hst hsu
  refine db.eq_of_key ht hu (Prod.ext (hst.1.trans hsu.1.symm) ?_)
  rw [joinedKey, joinedKey, hst.1, hsu.1] at heq
  exact (String.append_right_inj _).mp heq

structure PillsCountLists (db : Tables) (smart : List (String × Nat))
    (bundleView : Bundle → Except String (List Thread)) (scope : AccountScope) (limit : Int) : Prop where
  pills : ∀ entry ∈ getNavigationState db smart scope, (∀ id, entry.id ≠ .smartFolder id) →
    ∃ loaded, loadPersonalScopeThreads db bundleView scope limit entry.selection = .ok loaded ∧
      entry.unreadCount = unreadSynced loaded
  counts : ∀ labelId, ∃ threads, getThreadsScoped db scope labelId (some limit) none = .ok threads ∧
    getThreadCountScoped db scope labelId = threads.length

/-- The threads of the scope read, and in a folder the text tells them apart. -/
structure Countable (db : Tables) (scope : AccountScope) : Prop where
  readable : ∀ t ∈ db.threads, inScope scope t = true → t.readable = true
  apart : ∀ folder, isAllAccountsInbox scope (some folder) = false → JoinedApart db scope folder

theorem inScope_of_listed {t : ThreadRow} (h : listed db scope selection t = true) :
    inScope scope t = true := by
  cases selection with
  | bundle _ => cases h
  | featureView _ => cases h
  | smartFolder _ => cases h
  | inbox => exact (Bool.and_eq_true_iff.mp h).1
  | folder _ => exact (Bool.and_eq_true_iff.mp h).1
  | providerFolder _ => exact (Bool.and_eq_true_iff.mp h).1
  | labelGroup _ => exact (Bool.and_eq_true_iff.mp h).1
  | virtualView v => cases v <;> exact (Bool.and_eq_true_iff.mp h).1

theorem pills_count_lists_iff (db : Tables) (smart : List (String × Nat))
    (bundleView : Bundle → Except String (List Thread)) (scope : AccountScope) (limit : Int)
    (hlimit : (db.threads.length : Int) ≤ limit) :
    PillsCountLists db smart bundleView scope limit ↔ Countable db scope := by
  constructor
  · intro h
    have hreadable : ∀ t ∈ db.threads, inScope scope t = true → t.readable = true := by
      obtain ⟨threads, hthreads, _⟩ := h.counts none
      intro t ht hscope
      refine (selects_scoped hlimit scope none).readable hthreads t ht ?_
      unfold folderListed
      simp [hscope, isAllAccountsInbox]
    refine ⟨hreadable, fun folder hfolder => ?_⟩
    obtain ⟨threads, hthreads, hcount⟩ := h.counts (some folder)
    obtain ⟨threads', hthreads', hlength, _⟩ := (selects_scoped hlimit scope (some folder)).ok
      fun t ht hlisted => hreadable t ht (Bool.and_eq_true_iff.mp hlisted).1
    rw [hthreads] at hthreads'
    cases hthreads'
    exact (count_scoped_iff db scope (some folder)).mp (hcount.trans hlength) folder rfl hfolder
  · intro h
    constructor
    · intro entry hentry hsmart
      obtain ⟨hlists, hunread⟩ := unread_of_mem hentry hsmart
      refine (load_unread_iff hlimit bundleView scope hlists).mpr ⟨?_, hunread⟩
      exact fun t ht hlisted => h.readable t ht (inScope_of_listed hlisted)
    · intro labelId
      obtain ⟨threads, hthreads, hlength, _⟩ := (selects_scoped hlimit scope labelId).ok
        fun t ht hlisted => h.readable t ht (Bool.and_eq_true_iff.mp hlisted).1
      refine ⟨threads, hthreads, ?_⟩
      rw [hlength]
      exact (count_scoped_iff db scope labelId).mpr fun folder _ hnot => h.apart folder hnot

def plainThread (account : AccountId) (id : ThreadId) : ThreadRow where
  accountId := account
  id := id
  lastMessageAt := some 0
  messageCount := some 1
  isRead := some 0
  isStarred := some 0
  isImportant := some 0
  hasAttachments := some 0
  isSnoozed := some 0
  isPinned := some 0
  isMuted := some 0
  namespaceKind := none
  namespaceId := none
  isChatThread := 0

/-- Sent mail of the accounts `a` and `a/b`. -/
def slashedTables : Tables where
  threads := [plainThread "a" "b/c", plainThread "a/b" "c"]
  threadFolders := [⟨"a", "b/c", "SENT"⟩, ⟨"a/b", "c", "SENT"⟩]
  messages := []
  folders := [⟨"a", "SENT", "Sent", 1, 0⟩, ⟨"a/b", "SENT", "Sent", 1, 0⟩]
  labelGroups := []
  labelGroupMembers := []
  threadLabels := []
  pendingIntents := []
  localDrafts := []
  threads_key := by decide
  threadFolders_key := by decide
  labelGroups_key := by decide

theorem single_account_counts : PillsCountLists slashedTables [] (fun _ => .ok []) (.single "a") 2 :=
  (pills_count_lists_iff slashedTables [] (fun _ => .ok []) (.single "a") 2 (by decide)).mpr
    ⟨by decide, fun folder _ => joinedApart_single slashedTables "a" folder⟩

theorem slashed_count_is_short : ¬ PillsCountLists slashedTables [] (fun _ => .ok []) .all 2 := by
  intro h
  obtain ⟨threads, hthreads, hcount⟩ := h.counts (some "SENT")
  have hlist : (getThreadsScoped slashedTables .all (some "SENT") (some 2) none).map List.length = .ok 2 := by
    decide
  have hone : getThreadCountScoped slashedTables .all (some "SENT") = 1 := by decide
  rw [hthreads] at hlist
  have htwo : threads.length = 2 := Except.ok.inj hlist
  omega

end Ratatoskr.Sidebar
