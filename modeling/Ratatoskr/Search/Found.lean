import Ratatoskr.Lib.Best
import Ratatoskr.Search.Attribution

/-!
# Search.Found

The two paths of a search with free text (`core/src/search_pipeline.rs`): the hits get their attribution,
the best hit of a thread id stands for its thread, and what a card shows comes from the thread's row. The hits
are what the index returns, best first or not. The candidates of the combined path are what the operators select
in SQL; the index keeps to them. A `HashMap` yields its values in any order.

What a search owes its hits: one result for every thread of an account that has a hit and a row, ranked by
the account's best message in the thread and attributed from that message. Thread ids and message ids are
not an account's own, and the pipeline groups by the one and gathers by the other. `Unmixed` is when that
makes no difference.
-/

namespace Ratatoskr.Search

open List
open Lib (Table)
open Mail (AccountId MessageId ThreadId MessageBody)

structure UnifiedSearchResult (ρ : Type) where
  threadId : ThreadId
  accountId : AccountId
  subject : Option String
  snippet : Option String
  fromName : Option String
  fromAddress : Option String
  date : Option Int
  isRead : Bool
  isStarred : Bool
  hasAttachments : Bool
  messageCount : Option Int
  rank : ρ
  matchKind : Option MatchKind
  alsoMatched : List MatchKind

/-- The order in which a `HashMap` is read. -/
structure Iteration (α : Type) where
  order : List α → List α
  perm : ∀ l, (order l).Perm l

section Pipeline

variable {ρ : Type} [LinearOrder ρ]

/-- The entry of a thread id is modified by a hit that ranks higher. -/
def keepBest (best : Table ThreadId (TantivyResult ρ)) (result : TantivyResult ρ) :
    Table ThreadId (TantivyResult ρ) :=
  match best.lookup result.threadId with
  | some existing =>
    if existing.rank < result.rank then best.insert result.threadId result else best
  | none => best.insert result.threadId result

def bestByThread (results : List (TantivyResult ρ)) : List (TantivyResult ρ) :=
  (results.foldl keepBest ∅).rows.map Prod.snd

def groupByThread (it : Iteration (TantivyResult ρ)) (results : List (TantivyResult ρ)) :
    List (TantivyResult ρ) :=
  (it.order (bestByThread results)).mergeSort (fun a b => b.rank ≤ a.rank)

def tantivyResultToUnified (r : TantivyResult ρ) : UnifiedSearchResult ρ where
  threadId := r.threadId
  accountId := r.accountId
  subject := r.subject
  snippet := r.snippet
  fromName := r.fromName
  fromAddress := r.fromAddress
  date := some r.date
  isRead := false
  isStarred := false
  hasAttachments := false
  messageCount := none
  rank := r.rank
  matchKind := some r.matchKind
  alsoMatched := r.alsoMatched

def enrichFromSql (result : UnifiedSearchResult ρ) (thread : DbThread) : UnifiedSearchResult ρ :=
  { result with
    subject := thread.subject
    snippet := thread.snippet
    fromName := thread.fromName
    fromAddress := thread.fromAddress
    date := thread.lastMessageAt
    isRead := thread.isRead
    isStarred := thread.isStarred
    hasAttachments := thread.hasAttachments
    messageCount := some thread.messageCount }

/-- The requested keys joined with `threads`: a row for each that exists. -/
def fetchThreadRowsForResults (db : SearchDb) (results : List (UnifiedSearchResult ρ)) :
    Table (AccountId × ThreadId) DbThread :=
  db.threads.restrict (fun key _ => key ∈ results.map (fun r => (r.accountId, r.threadId)))

def hydrate (threads : Table (AccountId × ThreadId) DbThread) (r : UnifiedSearchResult ρ) :
    Option (UnifiedSearchResult ρ) :=
  (threads.lookup (r.accountId, r.threadId)).map (enrichFromSql r)

def searchTantivyOnly (it : Iteration (TantivyResult ρ)) (engine : Engine) (db : SearchDb)
    (bodyRead : Option (Table MessageId MessageBody)) (freeText : String) (hits : List (TantivyResult ρ)) :
    List (UnifiedSearchResult ρ) :=
  let results := enrichWithAttribution engine db bodyRead freeText hits
  let grouped := (groupByThread it results).map tantivyResultToUnified
  let threads := fetchThreadRowsForResults db grouped
  (grouped.filterMap (hydrate threads)).mergeSort (fun a b => b.rank ≤ a.rank)

/-- `thread_filter`: the index returns hits of the candidates only. -/
def filterThreads (candidatePairs : List (AccountId × ThreadId)) (hits : List (TantivyResult ρ)) :
    List (TantivyResult ρ) :=
  hits.filter (fun h => (h.accountId, h.threadId) ∈ candidatePairs)

def searchCombined (it : Iteration (TantivyResult ρ)) (engine : Engine) (db : SearchDb)
    (bodyRead : Option (Table MessageId MessageBody)) (freeText : String)
    (candidatePairs : List (AccountId × ThreadId)) (hits : List (TantivyResult ρ)) :
    List (UnifiedSearchResult ρ) :=
  if candidatePairs = [] then []
  else
    let results := enrichWithAttribution engine db bodyRead freeText (filterThreads candidatePairs hits)
    let grouped := (groupByThread it results).map tantivyResultToUnified
    let hydrated := fetchThreadRowsForResults db grouped
    (grouped.filterMap (hydrate hydrated)).mergeSort (fun a b => b.rank ≤ a.rank)

end Pipeline

section Matches

variable {ρ : Type} (engine : Engine) (db : SearchDb)
  (bodyRead : Option (Table MessageId MessageBody)) (freeText : String)
variable {h b : TantivyResult ρ}

def ownInputs (h : TantivyResult ρ) : AttributionInputs where
  subject := h.subject.getD ""
  fromName := h.fromName.getD ""
  bodyText := (storedText bodyRead h.messageId).getD ""
  attachments := fragmentsOf db db.attachments h.accountId h.messageId

/-- The hit with what is found in it; a blank text finds nothing. -/
def ownMatch (h : TantivyResult ρ) : TantivyResult ρ :=
  if engine.trim freeText = "" then h
  else attributed engine (engine.trim freeText) (ownInputs db bodyRead h) h

def pipelineMatch (hits : List (TantivyResult ρ)) (h : TantivyResult ρ) : TantivyResult ρ :=
  if engine.trim freeText = "" then h
  else
    match (attributionInputs db bodyRead hits).lookup h.messageId with
    | none => h
    | some input => attributed engine (engine.trim freeText) input h

theorem enrichWithAttribution_eq (hits : List (TantivyResult ρ)) :
    enrichWithAttribution engine db bodyRead freeText hits =
      hits.map (pipelineMatch engine db bodyRead freeText hits) := by
  rw [enrichWithAttribution, enrichMatchKinds]
  by_cases hblank : engine.trim freeText = ""
  · have hid : ∀ h ∈ hits, pipelineMatch engine db bodyRead freeText hits h = h := by
      intro h _
      rw [pipelineMatch, if_pos hblank]
    rw [if_pos (.inl hblank), map_congr_left hid]
    exact (map_id' hits).symm
  · by_cases hnil : hits = []
    · rw [if_pos (.inr hnil), hnil]
      rfl
    · rw [if_neg (not_or.mpr ⟨hblank, hnil⟩), if_neg hblank]
      refine map_congr_left ?_
      intro h _
      exact (if_neg hblank).symm

theorem attributed_frame (query : String) (input : AttributionInputs) (h : TantivyResult ρ) :
    (attributed engine query input h).accountId = h.accountId ∧
      (attributed engine query input h).threadId = h.threadId ∧
      (attributed engine query input h).rank = h.rank := by
  rw [attributed]
  split
  · exact ⟨rfl, rfl, rfl⟩
  · exact ⟨rfl, rfl, rfl⟩

theorem pipelineMatch_frame (hits : List (TantivyResult ρ)) (h : TantivyResult ρ) :
    (pipelineMatch engine db bodyRead freeText hits h).accountId = h.accountId ∧
      (pipelineMatch engine db bodyRead freeText hits h).threadId = h.threadId ∧
      (pipelineMatch engine db bodyRead freeText hits h).rank = h.rank := by
  rw [pipelineMatch]
  split
  · exact ⟨rfl, rfl, rfl⟩
  · split
    · exact ⟨rfl, rfl, rfl⟩
    · exact attributed_frame ..

variable {engine db bodyRead freeText}

theorem pipelineMatch_eq_ownMatch {hits : List (TantivyResult ρ)}
    (hown : engine.trim freeText ≠ "" →
      (attributionInputs db bodyRead hits).lookup h.messageId = some (ownInputs db bodyRead h)) :
    pipelineMatch engine db bodyRead freeText hits h = ownMatch engine db bodyRead freeText h := by
  rw [pipelineMatch, ownMatch]
  by_cases hblank : engine.trim freeText = ""
  · rw [if_pos hblank, if_pos hblank]
  · rw [if_neg hblank, if_neg hblank, hown hblank]

def card (db : SearchDb) (h : TantivyResult ρ) : Option (UnifiedSearchResult ρ) :=
  hydrate db.threads (tantivyResultToUnified h)

theorem card_eq_some {r : UnifiedSearchResult ρ} (hc : card db h = some r) :
    r.accountId = h.accountId ∧ r.threadId = h.threadId ∧
      r.rank = h.rank ∧ (db.threads.lookup (h.accountId, h.threadId)).isSome := by
  rw [card, hydrate, Option.map_eq_some_iff] at hc
  obtain ⟨row, hrow, rfl⟩ := hc
  have hlookup : db.threads.lookup (h.accountId, h.threadId) = some row := hrow
  exact ⟨rfl, rfl, rfl, by rw [hlookup]; rfl⟩

theorem card_of_row (hrow : (db.threads.lookup (h.accountId, h.threadId)).isSome) :
    ∃ r, card db h = some r := by
  obtain ⟨row, hlookup⟩ := Option.isSome_iff_exists.mp hrow
  exact ⟨enrichFromSql (tantivyResultToUnified h) row, Option.map_eq_some_iff.mpr ⟨row, hlookup, rfl⟩⟩

variable {hits : List (TantivyResult ρ)}

/-- The other hits of a message id leave the inputs of a hit alone exactly when the last of them says the
same and the hit has no body to lose. -/
theorem gatheredFor_eq_ownInputs {last : TantivyResult ρ} (hid : last.messageId = b.messageId) :
    gatheredFor db bodyRead hits last = ownInputs db bodyRead b ↔
      last.subject.getD "" = b.subject.getD "" ∧ last.fromName.getD "" = b.fromName.getD "" ∧
      fragmentsOf db db.attachments last.accountId b.messageId =
        fragmentsOf db db.attachments b.accountId b.messageId ∧
      ((hits.filter (fun h => h.messageId = b.messageId)).length = 1 ∨
        (storedText bodyRead b.messageId).getD "" = "") := by
  have hbody : (if (hits.filter (fun h => h.messageId = b.messageId)).length = 1 then
        storedText bodyRead b.messageId else none).getD "" = (storedText bodyRead b.messageId).getD "" ↔
      ((hits.filter (fun h => h.messageId = b.messageId)).length = 1 ∨
        (storedText bodyRead b.messageId).getD "" = "") := by
    split
    · rename_i hone
      simp [hone]
    · rename_i hmany
      rw [Option.getD_none, or_iff_right hmany, eq_comm]
  rw [gatheredFor, ownInputs, AttributionInputs.mk.injEq, hid, hbody]
  constructor
  · rintro ⟨hsubject, hfrom, htext, hfragments⟩
    exact ⟨hsubject, hfrom, hfragments, htext⟩
  · rintro ⟨hsubject, hfrom, hfragments, htext⟩
    exact ⟨hsubject, hfrom, htext, hfragments⟩

/-- The inputs that are gathered for a hit are its own when the last hit of its id says so. -/
theorem inputs_eq_ownInputs (hb : b ∈ hits) :
    (attributionInputs db bodyRead hits).lookup b.messageId = some (ownInputs db bodyRead b) ↔
      ∀ last, (hits.filter (fun h => h.messageId = b.messageId)).getLast? = some last →
        gatheredFor db bodyRead hits last = ownInputs db bodyRead b := by
  obtain ⟨last, hlast, hlookup⟩ := lookup_attributionInputs db bodyRead hb
  rw [hlookup, hlast]
  simp

end Matches

section Found

variable {ρ : Type} [LinearOrder ρ]
variable {b : TantivyResult ρ}

/-! ## Groups -/

theorem lookup_keepBest (hits : List (TantivyResult ρ)) (thread : ThreadId) :
    (hits.foldl keepBest ∅).lookup thread =
      (hits.filter (fun h => h.threadId = thread)).argmax TantivyResult.rank := by
  induction hits using List.reverseRecOn with
  | nil => rfl
  | append_singleton hits h ih =>
    rw [foldl_concat, filter_append]
    by_cases hthread : h.threadId = thread
    · subst hthread
      rw [filter_cons_of_pos (by simp), filter_nil, argmax_concat, ← ih, keepBest]
      cases hbest : (hits.foldl keepBest ∅).lookup h.threadId with
      | none => exact AList.lookup_insert ..
      | some existing =>
        dsimp only
        split
        · exact AList.lookup_insert ..
        · exact hbest
    · rw [filter_cons_of_neg (by simpa using hthread), filter_nil, append_nil, ← ih, keepBest]
      split
      · split
        · exact AList.lookup_insert_ne (fun heq => hthread heq.symm)
        · rfl
      · exact AList.lookup_insert_ne (fun heq => hthread heq.symm)

/-- The first of the highest ranked hits of its thread id. -/
def Leads (hits : List (TantivyResult ρ)) (b : TantivyResult ρ) : Prop :=
  (hits.filter (fun h => h.threadId = b.threadId)).argmax TantivyResult.rank = some b

variable {hits : List (TantivyResult ρ)}

theorem Leads.mem (h : Leads hits b) : b ∈ hits :=
  (mem_filter.mp (argmax_mem h)).1

theorem leads_of_argmax {thread : ThreadId}
    (h : (hits.filter (fun h => h.threadId = thread)).argmax TantivyResult.rank = some b) :
    b.threadId = thread ∧ Leads hits b := by
  have hthread : b.threadId = thread := by
    simpa using (mem_filter.mp (argmax_mem h)).2
  refine ⟨hthread, ?_⟩
  rw [Leads, hthread]
  exact h

theorem exists_leads {h : TantivyResult ρ} (hh : h ∈ hits) : ∃ b, b.threadId = h.threadId ∧ Leads hits b := by
  cases hb : (hits.filter (fun other => other.threadId = h.threadId)).argmax TantivyResult.rank with
  | none =>
    have hmem : h ∈ hits.filter (fun other => other.threadId = h.threadId) := by simpa using hh
    rw [argmax_eq_none.mp hb] at hmem
    cases hmem
  | some b => exact ⟨b, leads_of_argmax hb⟩

theorem Leads.unique {c : TantivyResult ρ} (hb : Leads hits b)
    (hc : Leads hits c) (h : b.threadId = c.threadId) : b = c := by
  rw [Leads, h, hc] at hb
  exact Option.some.inj hb.symm

theorem mem_bestByThread : b ∈ bestByThread hits ↔ Leads hits b := by
  rw [bestByThread, mem_map]
  constructor
  · rintro ⟨⟨thread, c⟩, hrow, rfl⟩
    rw [Lib.Table.mem_rows, lookup_keepBest] at hrow
    exact (leads_of_argmax hrow).2
  · intro h
    refine ⟨(b.threadId, b), ?_, rfl⟩
    rw [Lib.Table.mem_rows, lookup_keepBest]
    exact h

theorem bestByThread_nodup (hits : List (TantivyResult ρ)) :
    ((bestByThread hits).map TantivyResult.threadId).Nodup := by
  have hkeys : ∀ row ∈ (hits.foldl keepBest ∅).rows, row.2.threadId = row.1 := by
    rintro ⟨thread, b⟩ hrow
    rw [Lib.Table.mem_rows, lookup_keepBest] at hrow
    exact (leads_of_argmax hrow).1
  have hsame : (bestByThread hits).map TantivyResult.threadId =
      (hits.foldl keepBest ∅).rows.map Prod.fst := by
    rw [bestByThread, map_map]
    exact map_congr_left hkeys
  rw [hsame]
  exact Lib.Table.rows_keys_nodup _

variable {engine : Engine} {db : SearchDb} {bodyRead : Option (Table MessageId MessageBody)}
  {freeText : String}

theorem leads_pipelineMatch : Leads (hits.map (pipelineMatch engine db bodyRead freeText hits)) b ↔
      ∃ h, Leads hits h ∧ pipelineMatch engine db bodyRead freeText hits h = b := by
  have hgroup : ∀ thread : ThreadId,
      ((hits.map (pipelineMatch engine db bodyRead freeText hits)).filter
        (fun h => h.threadId = thread)).argmax TantivyResult.rank =
      ((hits.filter (fun h => h.threadId = thread)).argmax TantivyResult.rank).map
        (pipelineMatch engine db bodyRead freeText hits) := by
    intro thread
    have hthreads : (fun h : TantivyResult ρ => decide (h.threadId = thread)) ∘
        pipelineMatch engine db bodyRead freeText hits = fun h => decide (h.threadId = thread) := by
      funext h
      rw [Function.comp_apply, (pipelineMatch_frame engine db bodyRead freeText hits h).2.1]
    rw [filter_map, hthreads]
    exact Lib.argmax_map (fun h => (pipelineMatch_frame engine db bodyRead freeText hits h).2.2) _
  constructor
  · intro h
    rw [Leads, hgroup, Option.map_eq_some_iff] at h
    obtain ⟨c, hc, rfl⟩ := h
    exact ⟨c, (leads_of_argmax hc).2, rfl⟩
  · rintro ⟨h, hh, rfl⟩
    rw [Leads, hgroup, (pipelineMatch_frame engine db bodyRead freeText hits h).2.1, hh, Option.map_some]

variable (engine db bodyRead freeText)

theorem searchTantivyOnly_perm (it : Iteration (TantivyResult ρ)) (hits : List (TantivyResult ρ)) :
    (searchTantivyOnly it engine db bodyRead freeText hits).Perm
      ((bestByThread (hits.map (pipelineMatch engine db bodyRead freeText hits))).filterMap (card db)) := by
  refine (mergeSort_perm _ _).trans ?_
  have hrows : ∀ r ∈ (groupByThread it (enrichWithAttribution engine db bodyRead freeText hits)).map
        tantivyResultToUnified,
      hydrate (fetchThreadRowsForResults db ((groupByThread it
        (enrichWithAttribution engine db bodyRead freeText hits)).map tantivyResultToUnified)) r =
      hydrate db.threads r := by
    intro r hr
    have hkey : (r.accountId, r.threadId) ∈ ((groupByThread it
        (enrichWithAttribution engine db bodyRead freeText hits)).map tantivyResultToUnified).map
          (fun r => (r.accountId, r.threadId)) := mem_map_of_mem hr
    rw [hydrate, hydrate, fetchThreadRowsForResults, Lib.Table.lookup_restrict]
    cases db.threads.lookup (r.accountId, r.threadId) with
    | none => rfl
    | some row => rw [Option.filter_some, if_pos (decide_eq_true hkey)]
  rw [filterMap_congr hrows, filterMap_map, enrichWithAttribution_eq]
  exact ((mergeSort_perm _ _).trans (it.perm _)).filterMap _

theorem searchCombined_eq (it : Iteration (TantivyResult ρ))
    (candidatePairs : List (AccountId × ThreadId)) (hits : List (TantivyResult ρ)) :
    searchCombined it engine db bodyRead freeText candidatePairs hits =
      searchTantivyOnly it engine db bodyRead freeText (filterThreads candidatePairs hits) := by
  rw [searchCombined]
  split
  · rename_i hnone
    have hfilter : filterThreads candidatePairs hits = [] := by
      rw [hnone]
      exact filter_eq_nil_iff.mpr (fun h _ => by simp)
    rw [hfilter]
    exact (searchTantivyOnly_perm engine db bodyRead freeText it []).eq_nil.symm
  · rfl

/-- The first of the highest ranked hits of an account in a thread. -/
def bestHit (hits : List (TantivyResult ρ)) (account : AccountId) (thread : ThreadId) :
    Option (TantivyResult ρ) :=
  (hits.filter (fun h => h.accountId = account ∧ h.threadId = thread)).argmax TantivyResult.rank

/-- The results are the threads that have a hit and a row, each with the match of its own best message. -/
structure Complete (hits : List (TantivyResult ρ)) (results : List (UnifiedSearchResult ρ)) : Prop where
  once : ∀ account thread,
    results.countP (fun r => r.accountId = account ∧ r.threadId = thread) =
      if (∃ h ∈ hits, h.accountId = account ∧ h.threadId = thread) ∧
        (db.threads.lookup (account, thread)).isSome then 1 else 0
  best : ∀ r ∈ results, ∃ h, bestHit hits r.accountId r.threadId = some h ∧ r.rank = h.rank ∧
    card db (ownMatch engine db bodyRead freeText h) = some r ∧
    (engine.trim freeText ≠ "" →
      (attributionInputs db bodyRead hits).lookup h.messageId = some (ownInputs db bodyRead h))

/-- The best hit of a thread id is of every account whose thread it is; and other hits with its message id
change nothing of its inputs. -/
structure Unmixed (hits : List (TantivyResult ρ)) : Prop where
  threads : ∀ h ∈ hits, (db.threads.lookup (h.accountId, h.threadId)).isSome →
    ∀ b, Leads hits b → b.threadId = h.threadId → b.accountId = h.accountId
  messages : engine.trim freeText ≠ "" → ∀ b, Leads hits b →
    (db.threads.lookup (b.accountId, b.threadId)).isSome →
      ∀ last, (hits.filter (fun h => h.messageId = b.messageId)).getLast? = some last →
        last.subject.getD "" = b.subject.getD "" ∧ last.fromName.getD "" = b.fromName.getD "" ∧
        fragmentsOf db db.attachments last.accountId b.messageId =
          fragmentsOf db db.attachments b.accountId b.messageId ∧
        ((hits.filter (fun h => h.messageId = b.messageId)).length = 1 ∨
          (storedText bodyRead b.messageId).getD "" = "")

variable {engine db bodyRead freeText} {hits : List (TantivyResult ρ)}

theorem mem_searchTantivyOnly {it : Iteration (TantivyResult ρ)} {r : UnifiedSearchResult ρ} :
    r ∈ searchTantivyOnly it engine db bodyRead freeText hits ↔
      ∃ b, Leads hits b ∧ card db (pipelineMatch engine db bodyRead freeText hits b) = some r := by
  rw [(searchTantivyOnly_perm engine db bodyRead freeText it hits).mem_iff, mem_filterMap]
  constructor
  · rintro ⟨c, hc, hr⟩
    obtain ⟨b, hb, rfl⟩ := leads_pipelineMatch.mp (mem_bestByThread.mp hc)
    exact ⟨b, hb, hr⟩
  · rintro ⟨b, hb, hr⟩
    exact ⟨_, mem_bestByThread.mpr (leads_pipelineMatch.mpr ⟨b, hb, rfl⟩), hr⟩

theorem countP_searchTantivyOnly (it : Iteration (TantivyResult ρ)) (account : AccountId)
    (thread : ThreadId) : (searchTantivyOnly it engine db bodyRead freeText hits).countP
        (fun r => r.accountId = account ∧ r.threadId = thread) =
      if ∃ b ∈ bestByThread (hits.map (pipelineMatch engine db bodyRead freeText hits)),
        ((card db b).map fun r => decide (r.accountId = account ∧ r.threadId = thread)).getD false = true
      then 1 else 0 := by
  rw [(searchTantivyOnly_perm engine db bodyRead freeText it hits).countP_eq, countP_filterMap]
  refine Lib.countP_of_nodup (bestByThread_nodup _) (k := thread) ?_
  intro b hb
  cases hc : card db b with
  | none =>
    rw [hc] at hb
    cases hb
  | some r =>
    rw [hc] at hb
    have hpair : r.accountId = account ∧ r.threadId = thread := by simpa using hb
    rw [← (card_eq_some hc).2.1, hpair.2]

theorem Leads.bestHit (h : Leads hits b) : Search.bestHit hits b.accountId b.threadId = some b := by
  have hboth : hits.filter (fun h => h.accountId = b.accountId ∧ h.threadId = b.threadId) =
      (hits.filter (fun h => h.threadId = b.threadId)).filter (fun h => h.accountId = b.accountId) := by
    rw [filter_filter]
    refine filter_congr ?_
    intro h _
    simp
  rw [Search.bestHit, hboth]
  exact Lib.argmax_filter h (by simp)

theorem complete_iff (it : Iteration (TantivyResult ρ)) : Complete engine db bodyRead freeText hits
        (searchTantivyOnly it engine db bodyRead freeText hits) ↔
      Unmixed engine db bodyRead freeText hits := by
  constructor
  · intro hcomplete
    have hfound : ∀ h ∈ hits, (db.threads.lookup (h.accountId, h.threadId)).isSome →
        ∃ b, Leads hits b ∧ b.accountId = h.accountId ∧ b.threadId = h.threadId := by
      intro h hh hrow
      have hone := hcomplete.once h.accountId h.threadId
      rw [if_pos ⟨⟨h, hh, rfl, rfl⟩, hrow⟩] at hone
      have hpos : 0 < (searchTantivyOnly it engine db bodyRead freeText hits).countP
          (fun r => r.accountId = h.accountId ∧ r.threadId = h.threadId) := by
        rw [hone]
        exact Nat.one_pos
      obtain ⟨r, hr, hpair⟩ := countP_pos_iff.mp hpos
      obtain ⟨b, hb, hc⟩ := mem_searchTantivyOnly.mp hr
      obtain ⟨haccount, hthread, -, -⟩ := card_eq_some hc
      obtain ⟨hba, hbt, -⟩ := pipelineMatch_frame engine db bodyRead freeText hits b
      have hsame : r.accountId = h.accountId ∧ r.threadId = h.threadId := by simpa using hpair
      exact ⟨b, hb, by rw [← hba, ← haccount, hsame.1], by rw [← hbt, ← hthread, hsame.2]⟩
    constructor
    · intro h hh hrow b hb hthread
      obtain ⟨c, hc, hca, hct⟩ := hfound h hh hrow
      rw [hb.unique hc (hthread.trans hct.symm), hca]
    · intro hquery b hb hrow last hlast
      obtain ⟨hba, hbt, -⟩ := pipelineMatch_frame engine db bodyRead freeText hits b
      obtain ⟨r, hc⟩ := card_of_row (h := pipelineMatch engine db bodyRead freeText hits b)
        (by rw [hba, hbt]; exact hrow)
      obtain ⟨haccount, hthread, -, -⟩ := card_eq_some hc
      obtain ⟨h, hbest, -, -, hinputs⟩ := hcomplete.best r (mem_searchTantivyOnly.mpr ⟨b, hb, hc⟩)
      rw [haccount, hthread, hba, hbt, hb.bestHit] at hbest
      cases hbest
      have hid : last.messageId = b.messageId := by
        simpa using (mem_filter.mp (mem_of_getLast? hlast)).2
      exact (gatheredFor_eq_ownInputs hid).mp ((inputs_eq_ownInputs hb.mem).mp (hinputs hquery) last hlast)
  · intro hunmixed
    constructor
    · intro account thread
      rw [countP_searchTantivyOnly]
      refine if_congr ?_ rfl rfl
      constructor
      · rintro ⟨c, hc, hcard⟩
        obtain ⟨b, hb, rfl⟩ := leads_pipelineMatch.mp (mem_bestByThread.mp hc)
        obtain ⟨hba, hbt, -⟩ := pipelineMatch_frame engine db bodyRead freeText hits b
        cases hr : card db (pipelineMatch engine db bodyRead freeText hits b) with
        | none =>
          rw [hr] at hcard
          cases hcard
        | some r =>
          rw [hr] at hcard
          have hpair : r.accountId = account ∧ r.threadId = thread := by simpa using hcard
          obtain ⟨haccount, hthread, -, hrow⟩ := card_eq_some hr
          rw [← haccount, ← hthread, hpair.1, hpair.2] at hrow
          exact ⟨⟨b, hb.mem, by rw [← hba, ← haccount, hpair.1], by rw [← hbt, ← hthread, hpair.2]⟩, hrow⟩
      · rintro ⟨⟨h, hh, rfl, rfl⟩, hrow⟩
        obtain ⟨b, hthread, hb⟩ := exists_leads hh
        have haccount := hunmixed.threads h hh hrow b hb hthread
        obtain ⟨hba, hbt, -⟩ := pipelineMatch_frame engine db bodyRead freeText hits b
        obtain ⟨r, hc⟩ := card_of_row (h := pipelineMatch engine db bodyRead freeText hits b)
          (by rw [hba, hbt, haccount, hthread]; exact hrow)
        obtain ⟨hra, hrt, -, -⟩ := card_eq_some hc
        refine ⟨_, mem_bestByThread.mpr (leads_pipelineMatch.mpr ⟨b, hb, rfl⟩), ?_⟩
        rw [hc, Option.map_some, hra, hrt, hba, hbt, haccount, hthread]
        simp
    · intro r hr
      obtain ⟨b, hb, hc⟩ := mem_searchTantivyOnly.mp hr
      obtain ⟨haccount, hthread, hrank, hrow⟩ := card_eq_some hc
      obtain ⟨hba, hbt, hbr⟩ := pipelineMatch_frame engine db bodyRead freeText hits b
      rw [hba] at haccount
      rw [hbt] at hthread
      rw [hba, hbt] at hrow
      have hinputs : engine.trim freeText ≠ "" →
          (attributionInputs db bodyRead hits).lookup b.messageId = some (ownInputs db bodyRead b) := by
        intro hquery
        rw [inputs_eq_ownInputs hb.mem]
        intro last hlast
        have hid : last.messageId = b.messageId := by
          simpa using (mem_filter.mp (mem_of_getLast? hlast)).2
        exact (gatheredFor_eq_ownInputs hid).mpr (hunmixed.messages hquery b hb hrow last hlast)
      refine ⟨b, ?_, hrank.trans hbr, ?_, hinputs⟩
      · rw [haccount, hthread]
        exact hb.bestHit
      · rw [← pipelineMatch_eq_ownMatch hinputs]
        exact hc

theorem search_complete_iff (it : Iteration (TantivyResult ρ)) (engine : Engine) (db : SearchDb)
    (bodyRead : Option (Table MessageId MessageBody)) (freeText : String) (hits : List (TantivyResult ρ)) :
    (Complete engine db bodyRead freeText hits
        (searchTantivyOnly it engine db bodyRead freeText hits) ↔ Unmixed engine db bodyRead freeText hits) ∧
    ∀ candidatePairs : List (AccountId × ThreadId),
      (Complete engine db bodyRead freeText (filterThreads candidatePairs hits)
          (searchCombined it engine db bodyRead freeText candidatePairs hits) ↔
        Unmixed engine db bodyRead freeText (filterThreads candidatePairs hits)) := by
  refine ⟨complete_iff it, ?_⟩
  intro candidatePairs
  rw [searchCombined_eq]
  exact complete_iff it

end Found

/-! ## One thread id in two accounts -/

def plainHit (account : AccountId) (rank : Nat) : TantivyResult Nat :=
  ⟨"m-" ++ account, account, "t", some "plan", none, none, none, 1, rank, .body, []⟩

def plainRow : DbThread :=
  ⟨some "plan", none, none, none, some 1, true, false, false, 1⟩

def plainEngine : Engine :=
  ⟨fun _ _ => none, fun text => text, fun text => text, Char.isWhitespace, Char.isAlphanum⟩

def twoThreads : SearchDb :=
  ⟨AList.insert ("a", "t") plainRow (AList.insert ("b", "t") plainRow ∅), [], ∅⟩

theorem same_thread_id_lost : ¬∀ (it : Iteration (TantivyResult Nat)) (engine : Engine) (db : SearchDb)
      (bodyRead : Option (Table MessageId MessageBody)) (freeText : String) (hits : List (TantivyResult Nat)),
      Complete engine db bodyRead freeText hits (searchTantivyOnly it engine db bodyRead freeText hits) := by
  intro hall
  have hunmixed := (complete_iff ⟨fun l => l, List.Perm.refl⟩).mp
    (hall ⟨fun l => l, List.Perm.refl⟩ plainEngine twoThreads none "plan" [plainHit "a" 2, plainHit "b" 1])
  have hleads : Leads [plainHit "a" 2, plainHit "b" 1] (plainHit "a" 2) := rfl
  have haccount := hunmixed.threads (plainHit "b" 1) (by decide) (by decide) (plainHit "a" 2) hleads rfl
  exact absurd haccount (by decide)

end Ratatoskr.Search
