import Ratatoskr.Threading.Collect

/-!
# Threading.Partition

Which message ids `build_threads` returns. A message is kept iff it is the last one with its
Message-ID and the parents that the headers give to this Message-ID end at a root; every kept message
is in one group, once. So the groups partition the input iff every input id has one kept message.

A loop of parents needs a reference chain of at least `maxDepth` ids, since the test for loops stops
looking there; two messages with one Message-ID, for instance both with an empty one, are enough for
the other way to lose a message.
-/

namespace Ratatoskr.Threading

open List
open Lib (Rooted)
open Arena

/-- The message is the last with its Message-ID, which the headers do not put on or below a loop. -/
def Kept (messages : List ThreadableMessage) (m : ThreadableMessage) : Prop :=
  lastWith messages m.messageId = some m ∧ Rooted (parents messages) m.messageId

/-- The messages of all groups, in the order of the containers. -/
def kept (messages : List ThreadableMessage) : List ThreadableMessage :=
  (nodes (mergeSubjects (linkMessages messages))).filterMap (mergeSubjects (linkMessages messages)).message

section Kept

variable {messages : List ThreadableMessage}

theorem message_iff {i : Nat} {m : ThreadableMessage} : (linkMessages messages).message i = some m ↔
      (linkMessages messages).name i = some m.messageId ∧ lastWith messages m.messageId = some m := by
  have hsim := sim_linkMessages messages
  constructor
  · intro hm
    obtain ⟨n, hn⟩ := exists_name (lt_of_message hm)
    have hlast := hsim.message i n hn
    rw [hm] at hlast
    obtain rfl := lastWith_messageId hlast.symm
    exact ⟨hn, hlast.symm⟩
  · rintro ⟨hn, hlast⟩
    rw [hsim.message i _ hn, hlast]

theorem mem_kept {m : ThreadableMessage} : m ∈ kept messages ↔ Kept messages m := by
  have hsim := sim_linkMessages messages
  have htrees := mergeSubjects_spec hsim.wf
  rw [kept, mem_filterMap]
  simp only [mem_nodes htrees.wf, htrees.nodes.message, htrees.nodes.length, htrees.rooted]
  constructor
  · rintro ⟨i, ⟨-, hr⟩, hm⟩
    obtain ⟨hn, hlast⟩ := message_iff.mp hm
    exact ⟨hlast, (hsim.rooted_iff hn).mpr hr⟩
  · rintro ⟨hlast, hr⟩
    -- a Message-ID with a message has a container
    have hex : ∃ i, (linkMessages messages).name i = some m.messageId := by
      by_contra hno
      have := (hsim.absent m.messageId (fun i hi => hno ⟨i, hi⟩)).2
      rw [hlast] at this
      cases this
    obtain ⟨i, hi⟩ := hex
    exact ⟨i, ⟨lt_of_name hi, (hsim.rooted_iff hi).mp hr⟩, message_iff.mpr ⟨hi, hlast⟩⟩

theorem nodup_kept : (kept messages).Nodup := by
  have hsim := sim_linkMessages messages
  have htrees := mergeSubjects_spec hsim.wf
  refine (nodup_nodes htrees.wf).filterMap ?_
  intro i j m hi hj
  rw [htrees.nodes.message] at hi hj
  exact hsim.wf.name_inj (message_iff.mp hi).1 (message_iff.mp hj).1

theorem buildThreads_perm :
    ((buildThreads messages).flatMap (·.messageIds)).Perm ((kept messages).map (·.id)) := by
  have hperm := (gather_perm (mergeSubjects_spec (sim_linkMessages messages).wf).wf).map
    (fun m : ThreadableMessage => m.id)
  rw [map_flatMap] at hperm
  rw [buildThreads, threads, map_map, flatMap_map]
  exact hperm

end Kept

/-- Every input id is in one group, once in it, and there are no other ids. -/
def Partitions (messages : List ThreadableMessage) (groups : List ThreadGroup) : Prop :=
  (∀ m ∈ messages, (groups.flatMap (·.messageIds)).count m.id = 1) ∧
  ∀ id ∈ groups.flatMap (·.messageIds), ∃ m ∈ messages, m.id = id

instance (messages : List ThreadableMessage) (groups : List ThreadGroup) :
    Decidable (Partitions messages groups) := inferInstanceAs (Decidable (_ ∧ _))

theorem countP_eq_one_iff {α : Type} {l : List α} (hl : l.Nodup) {p : α → Bool} :
    l.countP p = 1 ↔ ∃! k, k ∈ l ∧ p k = true := by
  rw [countP_eq_length_filter, length_eq_one_iff]
  have hmem : ∀ k, k ∈ l.filter p ↔ k ∈ l ∧ p k = true := fun k => mem_filter
  constructor
  · rintro ⟨k, hk⟩
    rw [hk] at hmem
    exact ⟨k, (hmem k).mp (mem_singleton_self k), fun k' hk' => mem_singleton.mp ((hmem k').mpr hk')⟩
  · rintro ⟨k, hk, huniq⟩
    refine ⟨k, perm_singleton.mp ?_⟩
    rw [perm_ext_iff_of_nodup (hl.filter _) (nodup_singleton k)]
    intro k'
    rw [hmem, mem_singleton]
    exact ⟨huniq k', fun heq => heq ▸ hk⟩

theorem buildThreads_partitions_iff (messages : List ThreadableMessage) :
    Partitions messages (buildThreads messages) ↔ ∀ m ∈ messages, ∃! k, Kept messages k ∧ k.id = m.id := by
  have hother : ∀ id ∈ (buildThreads messages).flatMap (·.messageIds), ∃ m ∈ messages, m.id = id := by
    intro id hid
    obtain ⟨k, hk, rfl⟩ := mem_map.mp (buildThreads_perm.mem_iff.mp hid)
    exact ⟨k, lastWith_mem (mem_kept.mp hk).1, rfl⟩
  have hcount : ∀ m : ThreadableMessage,
      ((buildThreads messages).flatMap (·.messageIds)).count m.id = 1 ↔
        ∃! k, Kept messages k ∧ k.id = m.id := by
    intro m
    rw [buildThreads_perm.count_eq, List.count, countP_map, countP_eq_one_iff nodup_kept]
    simp [mem_kept]
  rw [Partitions, and_iff_left hother]
  simp [hcount]

/-- One mail in two folders: two rows with the same Message-ID, and only the second is in a group. -/
theorem copy_in_two_folders_lost : ¬ Partitions
      [⟨"inbox-7", "a@host", none, none, some "Topic", 1000⟩,
        ⟨"sent-3", "a@host", none, none, some "Topic", 1000⟩] (buildThreads
        [⟨"inbox-7", "a@host", none, none, some "Topic", 1000⟩,
          ⟨"sent-3", "a@host", none, none, some "Topic", 1000⟩]) := by
  decide

end Ratatoskr.Threading
