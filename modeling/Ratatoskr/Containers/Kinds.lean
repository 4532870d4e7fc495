import Ratatoskr.Containers.Rows
import Ratatoskr.Mail.DriveEnd

/-!
# Containers.Kinds

Storage ids (`types/src/folder_label.rs`): the folder and the label kinds that the constructors build, the
ids they are stored under, and the ids that a namespace gives to what it holds. The parser cuts the owner
of a shared folder at the first colon, which no constructor keeps out of an owner.

* `parse_storageId_iff` : a folder kind is read back exactly when none of its owners has a colon.
* `storage_ids_iff` : with the labels, and with the namespaces that never share a local id.
-/

namespace Ratatoskr.Containers

open List
open Actions (BifrostProviderKind NamespaceAttribution LabelKind validateComponent systemFolderIds startsWith
  stripStart)

variable {provider : BifrostProviderKind} {kind : FolderKind}

/-- `parse_storage_id` of a provider's folder ids. -/
def parseStorageId (start name : String) (parse : String → Except String FolderKind) (raw : String) :
    Except String FolderKind :=
  match stripStart start raw with
  | none => .error (name ++ " user folder id `" ++ raw ++ "` must start with " ++ start)
  | some id => parse id

def parseOwn : BifrostProviderKind → String → Except String FolderKind
  | .gmail => gmailSystem
  | .graph => parseStorageId "graph-" "Graph" graphUser
  | .jmap => parseStorageId "jmap-" "JMAP" jmapUser
  | .imap => parseStorageId "folder-" "IMAP" imapUser

/-- `FolderKind::parse`. -/
def FolderKind.parse (provider : BifrostProviderKind) (raw : List Char) : Except String FolderKind :=
  match _hrest : Lib.after "shared:".toList raw with
  | some rest =>
    match _hinner : Lib.splitFirst ':' rest with
    | some (owner, inner) =>
      if owner = [] then .error ("shared folder id `" ++ String.ofList raw ++ "` has no owner")
      else if inner = [] then .error ("shared folder id `" ++ String.ofList raw ++ "` has no local id")
      else (FolderKind.parse provider inner).map (.shared (String.ofList owner))
    | none =>
      if rest = [] then .error ("shared folder id `" ++ String.ofList raw ++ "` has no owner")
      else .error ("shared folder id `" ++ String.ofList raw ++ "` has no local id")
  | none =>
    match Lib.after "public:".toList raw with
    | some id => Containers.publicFolder (String.ofList id)
    | none =>
      if String.ofList raw ∈ systemFolderIds then .ok (.system (String.ofList raw))
      else parseOwn provider (String.ofList raw)
termination_by raw.length
decreasing_by
  have hle := Lib.after_length _hrest
  have hlt := Lib.splitFirst_length _hinner
  omega

def labelStorageId : LabelKind → String
  | .gmailUser id => id
  | .graphCategory category => "cat:" ++ category
  | .graphImportance level => level.labelId
  | .jmapKeyword keyword => "kw:" ++ keyword
  | .imapKeyword keyword => "kw:" ++ keyword

/-- `gmail_system`, `graph_user`, `jmap_user`, `imap_user`. -/
def ownKind : BifrostProviderKind → String → Except String FolderKind
  | .gmail => gmailSystem
  | .graph => graphUser
  | .jmap => jmapUser
  | .imap => imapUser

inductive Built (provider : BifrostProviderKind) : FolderKind → Prop where
  | system {id : String} (h : id ∈ systemFolderIds) : Built provider (.system id)
  | own {raw : String} {kind : FolderKind} (h : ownKind provider raw = .ok kind) : Built provider kind
  | shared {owner : String} {inner kind : FolderKind} (hinner : Built provider inner)
      (h : shared owner inner = .ok kind) : Built provider kind
  | publicFolder {id : String} {kind : FolderKind} (h : publicFolder id = .ok kind) : Built provider kind

def ownLabel : BifrostProviderKind → String → Except String LabelKind
  | .gmail => Actions.parseGmailLabelId
  | .graph => Actions.parseCategoryName
  | .jmap => Actions.parseKeywordName .jmapKeyword
  | .imap => Actions.parseKeywordName .imapKeyword

inductive BuiltLabel (provider : BifrostProviderKind) : LabelKind → Prop where
  | own {raw : String} {label : LabelKind} (h : ownLabel provider raw = .ok label) :
      BuiltLabel provider label
  | importance (level : Actions.ImportanceLevel) (h : provider = .graph) :
      BuiltLabel provider (.graphImportance level)

def FolderKind.owners : FolderKind → List String
  | .shared owner inner => owner :: inner.owners
  | _ => []

theorem after_none {c d : Char} (h : c ≠ d) (start rest : List Char) :
    Lib.after (c :: start) (d :: rest) = none := by
  simp [Lib.after, h]

theorem stripStart_append (start id : String) : stripStart start (start ++ id) = some id := by
  have hstart : startsWith (start ++ id) start = true := by
    rw [startsWith, String.toList_append]
    exact isPrefixOf_iff_prefix.mpr (prefix_append ..)
  rw [stripStart, if_pos hstart, String.toList_append, ← String.length_toList, drop_left,
    String.ofList_toList]

theorem map_ok {α β : Type} {f : α → β} {x : Except String α} {b : β} (h : x.map f = .ok b) :
    ∃ a, x = .ok a ∧ f a = b := by
  cases x with
  | error e => cases h
  | ok a =>
    cases h
    exact ⟨a, rfl, rfl⟩

variable {raw : String}

theorem component_ok {what : String} {build : String → FolderKind}
    (h : component what build raw = .ok kind) : kind = build raw ∧ raw ≠ "" := by
  rw [component] at h
  split at h
  · cases h
  rename_i hvalid
  cases h
  refine ⟨rfl, ?_⟩
  rintro rfl
  cases hvalid

/-- An id of a provider's own folders is neither shared nor public nor a system id. -/
theorem parse_own {c : Char} {rest : List Char} (hc : c ∈ ['C', 'g', 'j', 'f']) :
    FolderKind.parse provider (c :: rest) = parseOwn provider (String.ofList (c :: rest)) := by
  have hshared : 's' ≠ c := by
    rintro rfl
    exact absurd hc (by decide)
  have hpublic : 'p' ≠ c := by
    rintro rfl
    exact absurd hc (by decide)
  have hsystem : String.ofList (c :: rest) ∉ systemFolderIds := by
    intro hmem
    have hheads : ∀ id ∈ systemFolderIds, ∀ d ∈ id.toList.head?, d ∉ ['C', 'g', 'j', 'f'] := by
      simp [systemFolderIds]
    refine hheads _ hmem c ?_ hc
    rw [String.toList_ofList]
    rfl
  have hafter : Lib.after "shared:".toList (c :: rest) = none := after_none hshared _ _
  have hafter' : Lib.after "public:".toList (c :: rest) = none := after_none hpublic _ _
  rw [FolderKind.parse]
  split
  · rename_i hrest
    rw [hafter] at hrest
    cases hrest
  · rw [hafter']
    simp only [if_neg hsystem]

theorem own_storageId (h : ownKind provider raw = .ok kind) :
    FolderKind.parse provider kind.storageId.toList = .ok kind ∧ kind.storageId ≠ "" ∧ kind.owners = [] := by
  have hlead : ∀ {start name : String} {c : Char} {rest : List Char}, start.toList = c :: rest →
      c ∈ ['C', 'g', 'j', 'f'] → parseOwn provider = parseStorageId start name (ownKind provider) →
      FolderKind.parse provider (start ++ raw).toList = .ok kind ∧ start ++ raw ≠ "" := by
    intro start name c rest hstart hc hown
    have hlist : (start ++ raw).toList = c :: (rest ++ raw.toList) := by
      rw [String.toList_append, hstart, cons_append]
    constructor
    · rw [hlist, parse_own hc, ← hlist, String.ofList_toList, hown, parseStorageId, stripStart_append]
      exact h
    · intro heq
      rw [heq] at hlist
      cases hlist
  cases provider with
  | gmail =>
    rw [ownKind] at h
    have hok := h
    rw [gmailSystem] at h
    split at h
    · cases h
    split at h
    · rename_i hraw
      cases h
      obtain ⟨rest, hrest⟩ : ∃ rest, raw.toList = 'C' :: rest := by
        rcases (Bool.or_eq_true ..).mp hraw with hchat | hcategory
        · rw [of_decide_eq_true hchat]
          exact ⟨_, rfl⟩
        · obtain ⟨rest, hrest⟩ := isPrefixOf_iff_prefix.mp hcategory
          exact ⟨_, hrest.symm⟩
      refine ⟨?_, ?_, rfl⟩
      · rw [FolderKind.storageId, hrest, parse_own (by decide), ← hrest, String.ofList_toList]
        exact hok
      · rintro rfl
        cases hrest
    · cases h
  | graph | jmap | imap =>
    obtain ⟨rfl, -⟩ := component_ok h
    obtain ⟨hparse, hne⟩ := hlead rfl (by decide) rfl
    exact ⟨hparse, hne, rfl⟩

theorem parse_system {id : String} (h : id ∈ systemFolderIds) :
    FolderKind.parse provider id.toList = .ok (.system id) ∧ id ≠ "" := by
  have hall : ∀ id ∈ systemFolderIds, Lib.after "shared:".toList id.toList = none ∧
      Lib.after "public:".toList id.toList = none ∧ id ≠ "" := by decide
  obtain ⟨hshared, hpublic, hne⟩ := hall id h
  refine ⟨?_, hne⟩
  rw [FolderKind.parse]
  split
  · rename_i hrest
    rw [hshared] at hrest
    cases hrest
  · rw [hpublic]
    simp [if_pos h]

theorem parse_public {id : String} (h : publicFolder id = .ok kind) :
    FolderKind.parse provider kind.storageId.toList = .ok kind ∧ kind.storageId ≠ "" ∧ kind.owners = [] := by
  obtain ⟨rfl, -⟩ := component_ok h
  have hlist : ("public:" ++ id).toList = "public:".toList ++ id.toList := String.toList_append ..
  have hshared : Lib.after "shared:".toList ("public:".toList ++ id.toList) = none :=
    after_none (by decide) _ _
  refine ⟨?_, ?_, rfl⟩
  · rw [FolderKind.storageId, hlist, FolderKind.parse]
    split
    · rename_i hrest
      cases hrest
    · rw [Lib.after_append]
      simp only [String.ofList_toList]
      exact h
  · intro heq
    rw [FolderKind.storageId] at heq
    rw [heq] at hlist
    cases hlist

/-! ## Owners -/

theorem sharedStorageId_toList (owner : String) (inner : FolderKind) :
    (FolderKind.shared owner inner).storageId.toList =
      "shared:".toList ++ (owner.toList ++ ':' :: inner.storageId.toList) := by
  have hcolon : ":".toList = [':'] := rfl
  rw [FolderKind.storageId, String.toList_append, String.toList_append, String.toList_append, hcolon,
    append_assoc, append_assoc, singleton_append]

variable {owner : String} {inner : FolderKind}

theorem parse_shared (howner : owner ≠ "") (hinner : inner.storageId ≠ "") (h : ':' ∉ owner.toList) :
    FolderKind.parse provider (FolderKind.shared owner inner).storageId.toList =
      (FolderKind.parse provider inner.storageId.toList).map (.shared owner) := by
  have hfield : ∀ c ∈ owner.toList, c ≠ ':' := fun c hc heq => h (heq ▸ hc)
  have hsplit := Lib.splitFirst_append hfield inner.storageId.toList
  have howner' : owner.toList ≠ [] := fun heq => howner (String.toList_eq_nil_iff.mp heq)
  have hinner' : inner.storageId.toList ≠ [] := fun heq => hinner (String.toList_eq_nil_iff.mp heq)
  rw [sharedStorageId_toList, FolderKind.parse]
  split
  · rename_i rest hrest
    rw [Lib.after_append] at hrest
    cases hrest
    split
    · rename_i heq
      rw [hsplit] at heq
      cases heq
      rw [if_neg howner', if_neg hinner', String.ofList_toList]
    · rename_i heq
      rw [hsplit] at heq
      cases heq
  · rename_i hrest
    cases hrest

/-- What `parseGmail` is for. -/
theorem parse_gmail (raw : List Char) : FolderKind.parse .gmail raw = parseGmail raw := by
  have hown : ∀ raw, parseOwn .gmail raw = gmailSystem raw := fun _ => rfl
  induction raw using parseGmail.induct <;>
  · rw [FolderKind.parse, parseGmail]
    grind

theorem parseOwn_ne_shared : parseOwn provider raw ≠ .ok (.shared owner inner) := by
  intro h
  cases provider with
  | gmail =>
    rw [parseOwn, gmailSystem] at h
    split at h
    · cases h
    · split at h <;> cases h
  | graph | jmap | imap =>
    rw [parseOwn, parseStorageId] at h
    split at h
    · cases h
    · cases (component_ok h).1

theorem parsed_owner {raw : List Char}
    (h : FolderKind.parse provider raw = .ok (.shared owner inner)) : ':' ∉ owner.toList := by
  rw [FolderKind.parse] at h
  split at h
  · split at h
    · rename_i field _ hsplit
      split at h
      · cases h
      split at h
      · cases h
      obtain ⟨inner', -, heq⟩ := map_ok h
      cases heq
      rw [String.toList_ofList]
      rw [Lib.splitFirst] at hsplit
      split at hsplit
      · cases hsplit
      · cases hsplit
        intro hcolon
        exact absurd (mem_takeWhile_imp hcolon) (by decide)
    · split at h
      · cases h
      · cases h
  · split at h
    · cases (component_ok h).1
    · split at h
      · cases h
      · exact absurd h parseOwn_ne_shared

/-- A folder kind is read back exactly when none of its owners has a colon. -/
theorem parse_storageId_iff (h : Built provider kind) :
    (FolderKind.parse provider kind.storageId.toList = .ok kind ↔
      ∀ owner ∈ kind.owners, ':' ∉ owner.toList) ∧ kind.storageId ≠ "" := by
  induction h with
  | system h =>
    obtain ⟨hparse, hne⟩ := parse_system h
    exact ⟨⟨fun _ => nofun, fun _ => hparse⟩, hne⟩
  | own h =>
    obtain ⟨hparse, hne, howners⟩ := own_storageId h
    rw [howners]
    exact ⟨⟨fun _ => nofun, fun _ => hparse⟩, hne⟩
  | publicFolder h =>
    obtain ⟨hparse, hne, howners⟩ := parse_public h
    rw [howners]
    exact ⟨⟨fun _ => nofun, fun _ => hparse⟩, hne⟩
  | @shared owner inner kind _ h ih =>
    obtain ⟨rfl, howner⟩ := component_ok h
    obtain ⟨hiff, hinner⟩ := ih
    refine ⟨?_, ?_⟩
    · rw [FolderKind.owners, forall_mem_cons, ← hiff]
      constructor
      · intro hparse
        have hcolon := parsed_owner hparse
        rw [parse_shared howner hinner hcolon] at hparse
        obtain ⟨inner', hok, heq⟩ := map_ok hparse
        cases heq
        exact ⟨hcolon, hok⟩
      · rintro ⟨hcolon, hok⟩
        rw [parse_shared howner hinner hcolon, hok]
        rfl
    · intro heq
      have hlist := sharedStorageId_toList owner inner
      rw [heq] at hlist
      cases hlist

theorem storageId_inj {kind' : FolderKind} (h : Built provider kind) (h' : Built provider kind')
    (howners : ∀ owner ∈ kind.owners, ':' ∉ owner.toList)
    (howners' : ∀ owner ∈ kind'.owners, ':' ∉ owner.toList) (heq : kind.storageId = kind'.storageId) :
    kind = kind' := by
  have hparse := (parse_storageId_iff h).1.mpr howners
  have hparse' := (parse_storageId_iff h').1.mpr howners'
  rw [heq, hparse'] at hparse
  exact (Except.ok.inj hparse).symm

theorem parse_labelStorageId {label : LabelKind} (h : BuiltLabel provider label) :
    LabelKind.parse (labelStorageId label) provider = .ok label := by
  cases h with
  | importance level h =>
    subst h
    cases level <;> decide
  | @own raw _ h =>
    cases provider with
    | gmail =>
      have hid : label = .gmailUser raw := by
        rw [ownLabel, Actions.parseGmailLabelId] at h
        split at h
        · cases h
        split at h
        · cases h
        · cases h
          rfl
      subst hid
      exact h
    | graph =>
      have hid : label = .graphCategory raw := by
        rw [ownLabel, Actions.parseCategoryName] at h
        split at h
        · cases h
        split at h
        · cases h
        · cases h
          rfl
      subst hid
      have hnone : Actions.ImportanceLevel.parseLabelId ("cat:" ++ raw) = none := by
        rw [Actions.ImportanceLevel.parseLabelId, if_neg, if_neg]
        · intro heq
          cases (String.toList_append (s := "cat:") (t := raw)).symm.trans (congrArg String.toList heq)
        · intro heq
          cases (String.toList_append (s := "cat:") (t := raw)).symm.trans (congrArg String.toList heq)
      rw [LabelKind.parse, labelStorageId, stripStart_append]
      exact h
    | jmap | imap =>
      obtain ⟨_, -, rfl⟩ := map_ok h
      rw [LabelKind.parse, labelStorageId, stripStart_append]
      exact h

/-! ## Namespaces -/

def lead (ns : NamespaceAttribution) : List Char :=
  match Mail.idPrefix ns with
  | none => []
  | some start => (start ++ ":").toList

theorem qualifiedId_toList (ns : NamespaceAttribution) (id : String) :
    (Mail.qualifiedId ns id).toList = lead ns ++ id.toList := by
  rw [Mail.qualifiedId, lead]
  cases Mail.idPrefix ns with
  | none => rfl
  | some start => exact String.toList_append ..

theorem qualifiedId_inj_iff (a b : NamespaceAttribution) :
    (∀ i j, Mail.qualifiedId a i = Mail.qualifiedId b j → a = b ∧ i = j) ↔
      a = b ∨ (¬ lead a <+: lead b ∧ ¬ lead b <+: lead a) := by
  constructor
  · intro h
    by_contra hnot
    rw [not_or, not_and_or, not_not, not_not] at hnot
    obtain ⟨hne, ⟨rest, hrest⟩ | ⟨rest, hrest⟩⟩ := hnot
    · refine hne (h (String.ofList rest) "" (String.toList_injective ?_)).1
      rw [qualifiedId_toList, qualifiedId_toList, String.toList_ofList, hrest]
      exact (append_nil _).symm
    · refine hne (h "" (String.ofList rest) (String.toList_injective ?_)).1
      rw [qualifiedId_toList, qualifiedId_toList, String.toList_ofList (l := rest), hrest]
      exact append_nil _
  · rintro h i j heq
    have hlist := congrArg String.toList heq
    rw [qualifiedId_toList, qualifiedId_toList] at hlist
    rcases h with rfl | ⟨hab, hba⟩
    · exact ⟨rfl, String.toList_injective (append_cancel_left hlist)⟩
    have hb : lead b <+: lead a ++ i.toList := hlist ▸ prefix_append _ _
    rcases List.prefix_or_prefix_of_prefix (prefix_append (lead a) i.toList) hb with hpre | hpre
    · exact absurd hpre hab
    · exact absurd hpre hba

/-- What is stored under one id: a folder kind where no owner has a colon, a label kind, and, in two
namespaces, one object where neither lead starts the other. -/
theorem storage_ids_iff (provider : BifrostProviderKind) :
    (∀ kind, Built provider kind → (FolderKind.parse provider kind.storageId.toList = .ok kind ↔
      ∀ owner ∈ kind.owners, ':' ∉ owner.toList)) ∧
    (∀ kind kind', Built provider kind → Built provider kind' →
      (∀ owner ∈ kind.owners, ':' ∉ owner.toList) → (∀ owner ∈ kind'.owners, ':' ∉ owner.toList) →
        kind.storageId = kind'.storageId → kind = kind') ∧
    (∀ label, BuiltLabel provider label → LabelKind.parse (labelStorageId label) provider = .ok label) ∧
    (∀ label label', BuiltLabel provider label → BuiltLabel provider label' →
      labelStorageId label = labelStorageId label' → label = label') ∧
    ∀ a b : NamespaceAttribution, (∀ i j, Mail.qualifiedId a i = Mail.qualifiedId b j → a = b ∧ i = j) ↔
      a = b ∨ (¬ lead a <+: lead b ∧ ¬ lead b <+: lead a) := by
  refine ⟨fun kind h => (parse_storageId_iff h).1, fun kind kind' h h' => storageId_inj h h',
    fun label => parse_labelStorageId, fun label label' h h' heq => ?_, qualifiedId_inj_iff⟩
  have hparse := parse_labelStorageId h
  rw [heq, parse_labelStorageId h'] at hparse
  exact (Except.ok.inj hparse).symm

/-- One id for the inbox of `team:shared:x` and for a folder that `team` shares. -/
theorem shared_owner_splits :
    ¬((∀ kind, Built .imap kind → FolderKind.parse .imap kind.storageId.toList = .ok kind) ∧
      (∀ kind kind', Built .imap kind → Built .imap kind' → kind.storageId = kind'.storageId → kind = kind') ∧
      ∀ a b i j, Mail.qualifiedId a i = Mail.qualifiedId b j → a = b ∧ i = j) := by
  rintro ⟨-, hinj, -⟩
  have hinbox : Built .imap (.system "INBOX") := .system (by decide)
  have hteam : Built .imap (.shared "team:shared:x" (.system "INBOX")) := 
    .shared hinbox (show shared "team:shared:x" (.system "INBOX") = .ok _ from rfl)
  have hx : Built .imap (.shared "team" (.shared "x" (.system "INBOX"))) :=
    .shared (.shared hinbox (show shared "x" (.system "INBOX") = .ok _ from rfl))
      (show shared "team" (.shared "x" (.system "INBOX")) = .ok _ from rfl)
  exact absurd (hinj _ _ hteam hx rfl) (by decide)

end Ratatoskr.Containers
