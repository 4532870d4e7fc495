import Ratatoskr.Html.Sanitizer
import Ratatoskr.Lib.Slices
import Ratatoskr.Lib.Traced
import Ratatoskr.Sidebar.Scoped

/-!
# Sidebar.Drafts

The drafts list with the bodies of the local drafts (`get_drafts_view` in `scoped_queries.rs`). A snippet of
more than 200 bytes is cut at byte 197, wherever that is.

* `snippet_isSome_iff`, `snippet_of_text` : when a body has a snippet, and what it is.
* `drafts_view_iff` : when the list is given, what is in it, and when it is as long as the count.
-/

namespace Ratatoskr.Sidebar

open List
open Lib (byteLength sliceTo splitBytes_eq_some)
open Lib.Relation
open SmartFolder (AccountScope)

/-- `replace(old, " ")` -/
def replaced (old : String) (text : List Char) : List Char :=
  Html.replaceAll (Lib.after old.toList) [' '] text.length text

def stripTags : Bool → List Char → List Char
  | _, [] => []
  | inTag, c :: text =>
    if c = '<' then stripTags true text
    else if c = '>' then stripTags false text
    else if inTag then stripTags inTag text
    else c :: stripTags inTag text

def bodyText (html : List Char) : List Char :=
  let text := replaced "&nbsp;" (replaced "<br />" (replaced "<br/>" (replaced "<br>" html)))
  [' '].intercalate (Threading.splitWords [] (stripTags false text))

/-- `none` is the panic of the slice. -/
def snippet (html : List Char) : Option (List Char) :=
  let trimmed := bodyText html
  if 200 < byteLength trimmed then (sliceTo trimmed 197).map (· ++ "...".toList) else some trimmed

/-- The text is short, or a character ends at byte 197 of it. -/
def SnippetFits (html : List Char) : Prop :=
  byteLength (bodyText html) ≤ 200 ∨ ∃ front rest, bodyText html = front ++ rest ∧ byteLength front = 197

theorem sliceTo_isSome_iff {text : List Char} {n : Nat} :
    (sliceTo text n).isSome ↔ ∃ front rest, text = front ++ rest ∧ byteLength front = n := by
  rw [sliceTo, Option.isSome_map, Option.isSome_iff_exists]
  constructor
  · rintro ⟨⟨front, rest⟩, h⟩
    exact ⟨front, rest, splitBytes_eq_some.mp h⟩
  · rintro ⟨front, rest, h⟩
    exact ⟨(front, rest), splitBytes_eq_some.mpr h⟩

theorem snippet_isSome_iff {html : List Char} : (snippet html).isSome ↔ SnippetFits html := by
  rw [snippet, SnippetFits, ← sliceTo_isSome_iff]
  split
  · rw [Option.isSome_map]
    exact ⟨.inr, fun h => h.resolve_left (by omega)⟩
  · exact iff_of_true rfl (.inl (by omega))

theorem snippet_of_text {html text : List Char} (h : snippet html = some text) :
    text = bodyText html ∨ ∃ front, front <+: bodyText html ∧ text = front ++ "...".toList := by
  rw [snippet] at h
  split at h
  · obtain ⟨front, hfront, rfl⟩ := Option.map_eq_some_iff.mp h
    obtain ⟨⟨_, rest⟩, hsplit, rfl⟩ := Option.map_eq_some_iff.mp hfront
    exact .inr ⟨_, ⟨rest, (splitBytes_eq_some.mp hsplit).1.symm⟩, rfl⟩
  · cases h
    exact .inl rfl

structure LocalDraft extends LocalDraftRow where
  subject : Option String
  bodyHtml : Option (List Char)
  fromEmail : Option String

/-- The tables, with the other columns of `local_drafts`. -/
structure DraftTables extends Tables where
  drafts : List LocalDraft
  drafts_rows : localDrafts = drafts.map LocalDraft.toLocalDraftRow

namespace DraftTables

structure LocalDraftSummary extends Sidebar.LocalDraftSummary where
  subject : Option String
  snippet : Option (List Char)
  fromEmail : Option String

structure DraftsView where
  syncedThreads : List DbThread
  localDrafts : List LocalDraftSummary

variable (db : DraftTables) (scope : AccountScope) (limit offset : Option Int)

def draftRows : List LocalDraft :=
  db.drafts.filter fun d => accountScopeClause scope d.accountId && d.syncStatus.any (· ≠ "synced")

def draftPage : List LocalDraft :=
  page (limit.getD 50) (offset.getD 0) ((db.draftRows scope).insertionSort fun a b => b.updatedAt ≤ a.updatedAt)

def summarize (d : LocalDraft) : Option LocalDraftSummary :=
  match d.bodyHtml with
  | none => some ⟨⟨d.id, d.accountId, d.updatedAt⟩, d.subject, none, d.fromEmail⟩
  | some html =>
    (Sidebar.snippet html).map fun text =>
      ⟨⟨d.id, d.accountId, d.updatedAt⟩, d.subject, some text, d.fromEmail⟩

def getLocalDraftSummaries : Option (List LocalDraftSummary) :=
  (db.draftPage scope limit offset).mapM summarize

def getDraftsView : Option (Except String DraftsView) :=
  match getDraftThreadsSynced db.toTables scope limit offset with
  | .error e => some (.error e)
  | .ok syncedThreads =>
    (db.getLocalDraftSummaries scope limit offset).map fun drafts => .ok ⟨syncedThreads, drafts⟩

def countLocalDrafts : Nat := (db.draftRows scope).length

def getDraftCountWithLocal : Nat :=
  getThreadCountScoped db.toTables scope (some "DRAFT") + db.countLocalDrafts scope

/-- The rows that `get_draft_threads_synced` reads. -/
def syncedPage : List (ThreadRow × Option MessageRow) :=
  page (limit.getD 50) (offset.getD 0)
    (((groupBy (fun row => row.1.1.key) (folderRows db.toTables (inScope scope) "DRAFT")).map
      fun row => (row.1.1, row.2)).insertionSort fun a b => newestFirst a.1 b.1 = true)

def draftThreads : List ThreadRow :=
  db.threads.filter fun t => inScope scope t && inFolder db.toTables "DRAFT" t

variable {db scope limit offset}

theorem summarize_isSome_iff {d : LocalDraft} :
    (summarize d).isSome ↔ ∀ html ∈ d.bodyHtml, SnippetFits html := by
  rw [summarize]
  cases d.bodyHtml with
  | none => exact iff_of_true rfl nofun
  | some html =>
    rw [Option.isSome_map, snippet_isSome_iff]
    exact ⟨fun h _ heq => Option.some.inj heq ▸ h, fun h => h html rfl⟩

theorem synced_ok_iff : (∃ threads, getDraftThreadsSynced db.toTables scope limit offset = .ok threads) ↔
      ∀ row ∈ db.syncedPage scope limit offset, row.1.readable = true := by
  constructor
  · rintro ⟨threads, h⟩
    exact readable_of_mapM h
  · intro h
    obtain ⟨threads, hok, -⟩ := mapM_fromRow_ok h
    exact ⟨threads, hok⟩

theorem getDraftsView_isSome_iff : (db.getDraftsView scope limit offset).isSome ↔
      ((∀ row ∈ db.syncedPage scope limit offset, row.1.readable = true) →
        ∀ d ∈ db.draftPage scope limit offset, ∀ html ∈ d.bodyHtml, SnippetFits html) := by
  rw [← synced_ok_iff, getDraftsView]
  cases getDraftThreadsSynced db.toTables scope limit offset with
  | error e => exact iff_of_true rfl nofun
  | ok threads =>
    rw [Option.isSome_map, getLocalDraftSummaries, Lib.mapM_isSome]
    exact ⟨fun h _ d hd => summarize_isSome_iff.mp (h d hd),
      fun h d hd => summarize_isSome_iff.mpr (h ⟨_, rfl⟩ d hd)⟩

theorem mem_of_mapM {α β : Type} {f : α → Option β} {l : List α} {out : List β} (h : l.mapM f = some out) :
    ∀ b ∈ out, ∃ a ∈ l, f a = some b := by
  have hmap := Lib.mapM_eq_some_map (g := f) (k := some) (fun _ _ h => h.symm) h
  intro b hb
  obtain ⟨a, ha, heq⟩ := mem_map.mp (hmap ▸ mem_map_of_mem (f := some) hb)
  exact ⟨a, ha, heq⟩

/-- A row of the list is that of a draft, and its snippet is the text or a beginning of it. -/
def SummaryOf (d : LocalDraft) (s : LocalDraftSummary) : Prop :=
  s.toLocalDraftSummary = ⟨d.id, d.accountId, d.updatedAt⟩ ∧ s.subject = d.subject ∧ s.fromEmail = d.fromEmail ∧
    (s.snippet.isSome ↔ d.bodyHtml.isSome) ∧
    ∀ html ∈ d.bodyHtml, ∀ text ∈ s.snippet,
      text = bodyText html ∨ ∃ front, front <+: bodyText html ∧ text = front ++ "...".toList

theorem summaryOf {d : LocalDraft} {s : LocalDraftSummary} (h : summarize d = some s) : SummaryOf d s := by
  rw [summarize] at h
  split at h
  · rename_i hbody
    cases h
    exact ⟨rfl, rfl, rfl, by rw [hbody], fun html hhtml => by rw [hbody] at hhtml; cases hhtml⟩
  · rename_i html hbody
    obtain ⟨text, htext, rfl⟩ := Option.map_eq_some_iff.mp h
    refine ⟨rfl, rfl, rfl, by rw [hbody]; exact iff_of_true rfl rfl, ?_⟩
    intro html' hhtml text' htext'
    cases hbody.symm.trans hhtml
    cases htext'
    exact snippet_of_text htext

section Complete

variable {view : DraftsView} {n : Int}

theorem view_parts (h : db.getDraftsView scope limit offset = some (.ok view)) :
    getDraftThreadsSynced db.toTables scope limit offset = .ok view.syncedThreads ∧
      db.getLocalDraftSummaries scope limit offset = some view.localDrafts := by
  rw [getDraftsView] at h
  split at h
  · cases h
  rename_i hsynced
  obtain ⟨drafts, hdrafts, heq⟩ := Option.map_eq_some_iff.mp h
  cases heq
  exact ⟨hsynced, hdrafts⟩

theorem synced_length (hn : ((db.draftThreads scope).length : Int) ≤ n) {threads : List DbThread}
    (h : getDraftThreadsSynced db.toTables scope (some n) none = .ok threads) :
    threads.length = (db.draftThreads scope).length := by
  let rows := (groupBy (fun row => row.1.1.key) (folderRows db.toTables (inScope scope) "DRAFT")).map
    fun row => (row.1.1, row.2)
  have hlength : rows.length = (db.draftThreads scope).length := by
    rw [← length_map Prod.fst, draftThreads, ← groups_thread]
  have hsorted : (rows.insertionSort fun a b => newestFirst a.1 b.1 = true).Perm rows := perm_insertionSort _ _
  have hpage : page n 0 (rows.insertionSort fun a b => newestFirst a.1 b.1 = true) = _ :=
    page_all (by rw [hsorted.length_eq, hlength]; exact hn)
  change (page n 0 _).mapM DbThread.fromRow = _ at h
  rw [hpage] at h
  obtain ⟨threads', hthreads, hcount, -⟩ := mapM_fromRow_ok (readable_of_mapM h)
  cases h.symm.trans hthreads
  rw [hcount, hsorted.length_eq, hlength]

theorem local_length (hn : ((db.draftRows scope).length : Int) ≤ n) {drafts : List LocalDraftSummary}
    (h : db.getLocalDraftSummaries scope (some n) none = some drafts) :
    drafts.length = (db.draftRows scope).length := by
  have hmap := congrArg length (Lib.mapM_eq_some_map (g := summarize) (k := some) (fun _ _ h => h.symm) h)
  have hperm : ((db.draftRows scope).insertionSort fun a b => b.updatedAt ≤ a.updatedAt).Perm
    (db.draftRows scope) :=
    perm_insertionSort _ _
  rw [length_map, length_map] at hmap
  rw [hmap, draftPage, Option.getD_none, page_all (by rw [hperm.length_eq]; exact hn),
    hperm.length_eq]

/-- The count takes two threads for one where account and id, with `/` between, are the same text. -/
theorem threadCount_eq_iff :
    getThreadCountScoped db.toTables scope (some "DRAFT") = (db.draftThreads scope).length ↔
      ((db.draftThreads scope).map fun t => t.accountId ++ "/" ++ t.id).Nodup := by
  have hinbox : isAllAccountsInbox scope (some "DRAFT") = false := by cases scope <;> rfl
  have hrows := join_folder_fst db.toTables (inScope scope) "DRAFT"
  rw [getThreadCountScoped, hinbox]
  simp only [Bool.false_eq_true, if_false]
  rw [draftThreads, ← hrows, length_map, countDistinct_eq_length_iff, map_map]
  rfl

end Complete

/-- Without the texts it is the view that the pills are compared with. -/
theorem view_rows {view : DraftsView} (h : db.getDraftsView scope limit offset = some (.ok view)) :
    Sidebar.getDraftsView db.toTables scope limit offset =
      .ok ⟨view.syncedThreads, view.localDrafts.map LocalDraftSummary.toLocalDraftSummary⟩ := by
  obtain ⟨hsynced, hlocal⟩ := view_parts h
  have hmap := Lib.mapM_eq_some_map (g := fun d : LocalDraft => ⟨d.id, d.accountId, d.updatedAt⟩)
    (k := LocalDraftSummary.toLocalDraftSummary) (fun _ _ h => (summaryOf h).1) hlocal
  have hrows : ((db.localDrafts.filter fun d => accountScopeClause scope d.accountId &&
      d.syncStatus.any (· ≠ "synced")).insertionSort fun a b => b.updatedAt ≤ a.updatedAt) =
        ((db.draftRows scope).insertionSort fun a b => b.updatedAt ≤ a.updatedAt).map
          LocalDraft.toLocalDraftRow := by
    rw [db.drafts_rows, filter_map]
    exact (map_insertionSort (r := fun a b : LocalDraft => b.updatedAt ≤ a.updatedAt)
      (s := fun a b : LocalDraftRow => b.updatedAt ≤ a.updatedAt) _ _ fun _ _ _ _ => Iff.rfl).symm
  rw [Sidebar.getDraftsView, hsynced]
  simp only [Sidebar.getLocalDraftSummaries]
  rw [hrows, page_map, map_map, hmap]
  rfl

end DraftTables

open DraftTables

/-- The list is given unless a draft on the page has a character across byte 197 of a long text. It consists of the
drafts, and is as long as the count where no two threads are one to the count. -/
theorem drafts_view_iff (db : DraftTables) (scope : AccountScope) (limit offset : Option Int) :
    ((db.getDraftsView scope limit offset).isSome ↔
      ((∀ row ∈ db.syncedPage scope limit offset, row.1.readable = true) →
        ∀ d ∈ db.draftPage scope limit offset, ∀ html ∈ d.bodyHtml, SnippetFits html)) ∧
    (∀ view, db.getDraftsView scope limit offset = some (.ok view) →
      ∀ s ∈ view.localDrafts, ∃ d ∈ db.draftPage scope limit offset, SummaryOf d s) ∧
    ∀ (n : Int) view, ((db.draftThreads scope).length : Int) ≤ n → ((db.draftRows scope).length : Int) ≤ n →
      db.getDraftsView scope (some n) none = some (.ok view) →
        (view.syncedThreads.length + view.localDrafts.length = db.getDraftCountWithLocal scope ↔
          ((db.draftThreads scope).map fun t => t.accountId ++ "/" ++ t.id).Nodup) := by
  refine ⟨getDraftsView_isSome_iff, ?_, ?_⟩
  · intro view hview s hs
    obtain ⟨d, hd, hsummary⟩ := mem_of_mapM (view_parts hview).2 s hs
    exact ⟨d, hd, summaryOf hsummary⟩
  · intro n view hthreads hrows hview
    obtain ⟨hsynced, hlocal⟩ := view_parts hview
    rw [synced_length hthreads hsynced, local_length hrows hlocal, getDraftCountWithLocal, countLocalDrafts,
      ← threadCount_eq_iff]
    omega

def apostrophes : DraftTables where
  threads := []
  threadFolders := []
  messages := []
  folders := []
  labelGroups := []
  labelGroupMembers := []
  threadLabels := []
  pendingIntents := []
  localDrafts := [⟨"d1", "acct", 0, some "pending"⟩]
  threads_key := nodup_nil
  threadFolders_key := nodup_nil
  labelGroups_key := nodup_nil
  drafts := [⟨⟨"d1", "acct", 0, some "pending"⟩, none, some (replicate 67 '’'), none⟩]
  drafts_rows := rfl

theorem apostrophes_panic : ¬ (apostrophes.getDraftsView .all none none).isSome := by
  decide +kernel

end Ratatoskr.Sidebar
