import ChatgptArchive.Chain
import ChatgptArchive.Reconciliation.Core

/-!
# Reconciliation is append-only

A further archive keeps every history and only appends to it, and what a history says is what the
archives presented for its identity: its revisions are their digests in the order of their first
appearance.
-/

namespace ChatgptArchive

open Std KeyedMap List

/-! ## One history -/

structure History.Extends (h h' : History) : Prop where
  externalId : h'.externalId = h.externalId
  revisions : h.revisions <+: h'.revisions
  observations : h.observations <+: h'.observations

structure History.Tells (presented : List EvidenceDigest) (h : History) : Prop where
  distinct : (h.revisions.map (·.digest)).Nodup
  revisions : h.revisions.map (·.digest) = presented.eraseDups
  observations : (h.observations.filter (·.state = .present)).map (·.revisionDigest) =
    presented.map some

namespace History

theorem Extends.refl (h : History) : h.Extends h :=
  ⟨rfl, prefix_rfl, prefix_rfl⟩

theorem Extends.trans {h h' h'' : History} (a : h.Extends h') (b : h'.Extends h'') :
    h.Extends h'' :=
  ⟨b.externalId.trans a.externalId, a.revisions.trans b.revisions,
    a.observations.trans b.observations⟩

theorem extends_recordPresent (h : History) (archiveId : String) (digest : EvidenceDigest)
    (orphaned : Bool) : h.Extends (recordPresent h archiveId digest orphaned).2 := by
  refine ⟨rfl, ?_, prefix_append _ _⟩
  simp only [recordPresent]
  split
  · exact prefix_append _ _
  · exact prefix_rfl

theorem extends_recordMissing (h : History) (archiveId : String) :
    h.Extends (h.recordMissing archiveId) :=
  ⟨rfl, prefix_rfl, prefix_append _ _⟩

theorem tells_fresh (externalId : String) : (fresh externalId).Tells [] :=
  ⟨nodup_nil, rfl, rfl⟩

namespace Tells

variable {presented : List EvidenceDigest} {h : History}

variable (htells : h.Tells presented)
include htells

theorem named {o : Observation} (ho : o ∈ h.observations) (hpresent : o.state = .present) :
    ∃ digest, o.revisionDigest = some digest ∧ digest ∈ h.revisions.map (·.digest) := by
  have hmem : o.revisionDigest ∈ presented.map some := by
    rw [← htells.observations]
    exact mem_map_of_mem (mem_filter.mpr ⟨ho, decide_eq_true hpresent⟩)
  obtain ⟨digest, hdigest, heq⟩ := mem_map.mp hmem
  refine ⟨digest, heq.symm, ?_⟩
  rw [htells.revisions]
  exact mem_eraseDups.mpr hdigest

theorem mem_revisions {digest : EvidenceDigest} :
    h.revisions.any (·.digest = digest) = true ↔ digest ∈ presented := by
  rw [← mem_eraseDups, ← htells.revisions, any_eq_true, mem_map]
  simp only [decide_eq_true_eq]

theorem recordPresent (archiveId : String) (digest : EvidenceDigest)
    (orphaned : Bool) : (ChatgptArchive.recordPresent h archiveId digest orphaned).2.Tells
      (presented ++ [digest]) := by
  have hobservations : ((ChatgptArchive.recordPresent h archiveId digest orphaned).2.observations
      |>.filter (·.state = .present)).map (·.revisionDigest) = (presented ++ [digest]).map some := by
    simp [ChatgptArchive.recordPresent, htells.observations]
  by_cases hknown : digest ∈ presented
  · have hsame : (ChatgptArchive.recordPresent h archiveId digest orphaned).2.revisions =
        h.revisions := by
      simp [ChatgptArchive.recordPresent, htells.mem_revisions.mpr hknown]
    refine ⟨hsame ▸ htells.distinct, ?_, hobservations⟩
    rw [hsame, htells.revisions, Chain.eraseDups_concat, if_pos hknown]
  · have hnew : (ChatgptArchive.recordPresent h archiveId digest orphaned).2.revisions =
        h.revisions ++ [⟨digest⟩] := by
      have hunknown := Bool.eq_false_iff.mpr (mt htells.mem_revisions.mp hknown)
      simp [ChatgptArchive.recordPresent, hunknown]
    have hrevisions : (ChatgptArchive.recordPresent h archiveId digest orphaned).2.revisions.map
        (·.digest) = (presented ++ [digest]).eraseDups := by
      rw [hnew, map_append, htells.revisions, Chain.eraseDups_concat, if_neg hknown]
      rfl
    exact ⟨hrevisions ▸ Chain.nodup_eraseDups _, hrevisions, hobservations⟩

theorem recordMissing (archiveId : String) : (h.recordMissing archiveId).Tells presented := by
  refine ⟨htells.distinct, htells.revisions, ?_⟩
  simp [History.recordMissing, missingObservation, htells.observations]

end Tells

end History

/-! ## Histories of one kind -/

section ObserveEach

variable {α : Type} (externalId : α → String) (digest : α → EvidenceDigest) (orphaned : α → Bool)

def Chronicles (records : List α) (histories : TreeMap String History) : Prop :=
  Told externalId (·.externalId) .fresh (fun records h => h.Tells (records.map digest)) records
    histories

theorem chronicles_empty : Chronicles externalId digest [] ∅ :=
  .empty fun k => ⟨rfl, History.tells_fresh k⟩

variable {externalId digest}

section Chronicles

variable {records : List α} {histories : TreeMap String History}

theorem recordPresent_tells (archiveId : String) (history : History) (record : α)
    (records : List α) (htells : history.Tells (records.map digest)) :
    let history' := (recordPresent history archiveId (digest record) (orphaned record)).2
    history'.externalId = history.externalId ∧
      history'.Tells ((records ++ [record]).map digest) := by
  refine ⟨rfl, ?_⟩
  rw [map_append]
  exact htells.recordPresent archiveId (digest record) (orphaned record)

variable (h : Chronicles externalId digest records histories)
include h

theorem Chronicles.observeEach (archiveId : String) (added : List α) :
    Chronicles externalId digest (records ++ added)
      (observeEach externalId digest orphaned archiveId histories added) :=
  h.updateEach (fun history record records _ =>
    recordPresent_tells orphaned archiveId history record records) added

theorem Chronicles.grows_observeEach (archiveId : String) (added : List α) :
    Grows History.Extends histories
      (ChatgptArchive.observeEach externalId digest orphaned archiveId histories added) :=
  h.grows_updateEach .refl (fun _ _ _ => .trans)
    (fun history record records _ =>
      recordPresent_tells orphaned archiveId history record records)
    (fun history _ _ _ => history.extends_recordPresent archiveId _ _) added

theorem Chronicles.recordMissing (presentIds : List String) (archiveId : String) :
    Chronicles externalId digest records (recordMissing presentIds archiveId histories) := by
  refine h.map fun externalId history records htells => ?_
  split
  · exact ⟨rfl, htells⟩
  · exact ⟨rfl, htells.recordMissing archiveId⟩

end Chronicles

end ObserveEach

theorem grows_recordMissing (presentIds : List String) (archiveId : String)
    (histories : TreeMap String History) :
    Grows History.Extends histories (recordMissing presentIds archiveId histories) := by
  refine .map (fun externalId history => ?_) histories
  split
  · exact .refl history
  · exact history.extends_recordMissing archiveId

/-! ## Histories inside another -/

def NestedExtends (nested nested' : List History) : Prop :=
  ∀ history ∈ nested, ∃ history' ∈ nested', history.Extends history'

theorem NestedExtends.refl (nested : List History) : NestedExtends nested nested :=
  fun history hmem => ⟨history, hmem, .refl history⟩

theorem NestedExtends.trans {a b c : List History} (hab : NestedExtends a b)
    (hbc : NestedExtends b c) : NestedExtends a c := by
  intro history hmem
  obtain ⟨history', hmem', hextends⟩ := hab history hmem
  obtain ⟨history'', hmem'', hextends'⟩ := hbc history' hmem'
  exact ⟨history'', hmem'', hextends.trans hextends'⟩

theorem NestedExtends.of_grows {nested : List History}
    (hdistinct : (nested.map (·.externalId)).Nodup) {histories : TreeMap String History}
    (hgrows : Grows History.Extends (index (·.externalId) nested) histories) :
    NestedExtends nested (values histories) := by
  intro history hmem
  exact hgrows.values (mem_values.mpr ⟨_, (getElem?_index hdistinct).mpr ⟨hmem, rfl⟩⟩)

structure NestedTells {α : Type} (externalId : α → String) (digest : α → EvidenceDigest)
    (records : List α) (nested : List History) : Prop where
  distinct : (nested.map (·.externalId)).Nodup
  chronicles : Chronicles externalId digest records (index (·.externalId) nested)

namespace NestedTells

variable {α : Type} {externalId : α → String} {digest : α → EvidenceDigest} {records : List α}

theorem nil : NestedTells externalId digest [] [] :=
  ⟨nodup_nil, chronicles_empty externalId digest⟩

theorem of_chronicles {histories : TreeMap String History}
    (h : Chronicles externalId digest records histories) :
    NestedTells externalId digest records (values histories) :=
  ⟨h.keyed.nodup_values, h.congr h.keyed.getElem?_index_values⟩

theorem tells {nested : List History} (h : NestedTells externalId digest records nested)
    {history : History} (hmem : history ∈ nested) :
    history.Tells ((records.filter (externalId · = history.externalId)).map digest) :=
  h.chronicles.of_mem_values (mem_values.mpr ⟨_, (getElem?_index h.distinct).mpr ⟨hmem, rfl⟩⟩)

end NestedTells

/-! ## Conversations -/

namespace ConversationHistory

structure Tells (presented : List ParsedConversation) (h : ConversationHistory) : Prop where
  header : h.toHistory.Tells (presented.map fun conversation =>
    .conversation (conversationDigest conversation))
  messages : NestedTells ParsedMessage.externalId .message (presented.flatMap (·.messages))
    h.messages

structure Extends (h h' : ConversationHistory) : Prop where
  header : h.toHistory.Extends h'.toHistory
  messages : NestedExtends h.messages h'.messages

theorem Extends.refl (h : ConversationHistory) : h.Extends h :=
  ⟨.refl _, .refl _⟩

theorem Extends.trans {h h' h'' : ConversationHistory} (a : h.Extends h') (b : h'.Extends h'') :
    h.Extends h'' :=
  ⟨a.header.trans b.header, a.messages.trans b.messages⟩

theorem tells_fresh (externalId : String) : (fresh externalId).Tells [] :=
  ⟨History.tells_fresh externalId, .nil⟩

end ConversationHistory

/-- The statistics aside, a conversation's messages are recorded as the records of any kind. -/
theorem observeMessages_histories (conversationId archiveId : String)
    (orphanedMessages : List (String × String)) (messages : List ParsedMessage)
    (state : TreeMap String MessageHistory × RevisionStatistics) :
    (messages.foldl (observeMessage conversationId archiveId orphanedMessages) state).1 =
      observeEach (·.externalId) .message
        (fun message => orphanedMessages.contains (conversationId, message.externalId)) archiveId
        state.1 messages := by
  induction messages generalizing state with
  | nil => rfl
  | cons message messages ih => exact ih _

section ObserveConversation

variable {presented : List ParsedConversation} {h : ConversationHistory}
  (conversation : ParsedConversation) (archiveId : String)
  (orphanedMessages : List (String × String))

theorem ConversationHistory.Tells.observed (htells : h.Tells presented) :
    let h' := (observeConversation h conversation archiveId orphanedMessages).1
    h'.externalId = h.externalId ∧ h'.Tells (presented ++ [conversation]) := by
  refine ⟨rfl, ?_, ?_⟩
  · rw [map_append]
    exact htells.header.recordPresent archiveId _ false
  · rw [flatMap_append, flatMap_singleton]
    refine .of_chronicles ?_
    rw [observeMessages_histories]
    exact htells.messages.chronicles.observeEach _ archiveId conversation.messages

theorem ConversationHistory.Tells.extends_observed (htells : h.Tells presented) :
    h.Extends (observeConversation h conversation archiveId orphanedMessages).1 := by
  refine ⟨h.toHistory.extends_recordPresent archiveId _ false, ?_⟩
  refine .of_grows htells.messages.distinct ?_
  rw [observeMessages_histories]
  exact htells.messages.chronicles.grows_observeEach _ archiveId conversation.messages

end ObserveConversation

theorem observeConversations_histories (archiveId : String)
    (orphanedMessages : List (String × String)) (conversations : List ParsedConversation)
    (state : TreeMap String ConversationHistory × RevisionStatistics) :
    (observeConversations archiveId orphanedMessages state conversations).1 =
      updateEach (·.externalId) .fresh (fun history conversation =>
        (observeConversation history conversation archiveId orphanedMessages).1) state.1
        conversations := by
  induction conversations generalizing state with
  | nil => rfl
  | cons conversation conversations ih => exact ih _

def ConversationsTold (presented : List ParsedConversation)
    (histories : TreeMap String ConversationHistory) : Prop :=
  Told ParsedConversation.externalId (·.externalId) .fresh
    (fun presented h => ConversationHistory.Tells presented h) presented histories

section ConversationsTold

variable {presented : List ParsedConversation} {histories : TreeMap String ConversationHistory}

variable (h : ConversationsTold presented histories)
include h

theorem ConversationsTold.recordMissing (presentIds : List String) (archiveId : String) :
    ConversationsTold presented (recordMissingConversations presentIds archiveId histories) := by
  refine h.map fun externalId history presented htells => ?_
  split
  · exact ⟨rfl, htells⟩
  · exact ⟨rfl, htells.header.recordMissing archiveId, htells.messages⟩

omit h in
theorem grows_recordMissingConversations (presentIds : List String) (archiveId : String)
    (histories : TreeMap String ConversationHistory) :
    Grows ConversationHistory.Extends histories
      (recordMissingConversations presentIds archiveId histories) := by
  refine .map (fun externalId history => ?_) histories
  split
  · exact .refl history
  · exact ⟨history.extends_recordMissing archiveId, .refl _⟩

theorem ConversationsTold.reconciled (snapshot : ArchiveSnapshot) :
    ConversationsTold (presented ++ snapshot.parsed.conversations)
      (Histories.reconcileConversations histories snapshot).1 := by
  simp only [Histories.reconcileConversations, observeConversations_histories]
  refine recordMissing (h.updateEach (fun history conversation presented _ htells => ?_) _) _ _
  exact htells.observed conversation snapshot.archiveId _

theorem ConversationsTold.grows (snapshot : ArchiveSnapshot) :
    Grows ConversationHistory.Extends histories
      (Histories.reconcileConversations histories snapshot).1 := by
  simp only [Histories.reconcileConversations, observeConversations_histories]
  refine .trans (fun _ _ _ => .trans) (h.grows_updateEach .refl (fun _ _ _ => .trans)
    (fun history conversation presented _ htells => ?_)
    (fun history conversation presented htells => ?_) _) (grows_recordMissingConversations _ _ _)
  · exact htells.observed conversation snapshot.archiveId _
  · exact htells.extends_observed conversation snapshot.archiveId _

end ConversationsTold

/-! ## Projects -/

def presentedInstructionId (entry : ParsedProject × ParsedInstruction) : String :=
  instructionExternalId entry.1 entry.2

def presentedInstructions (projects : List ParsedProject) :
    List (ParsedProject × ParsedInstruction) :=
  projects.flatMap fun project => project.instructions.map fun instruction => (project, instruction)

namespace ProjectHistory

structure Tells (presented : List ParsedProject) (h : ProjectHistory) : Prop where
  header : h.toHistory.Tells (presented.map projectDigest)
  instructions : NestedTells presentedInstructionId (fun entry => .instruction entry.2)
    (presentedInstructions presented) h.instructions

structure Extends (h h' : ProjectHistory) : Prop where
  header : h.toHistory.Extends h'.toHistory
  instructions : NestedExtends h.instructions h'.instructions

theorem Extends.refl (h : ProjectHistory) : h.Extends h :=
  ⟨.refl _, .refl _⟩

theorem Extends.trans {h h' h'' : ProjectHistory} (a : h.Extends h') (b : h'.Extends h'') :
    h.Extends h'' :=
  ⟨a.header.trans b.header, a.instructions.trans b.instructions⟩

theorem tells_fresh (externalId : String) : (fresh externalId).Tells [] :=
  ⟨History.tells_fresh externalId, .nil⟩

end ProjectHistory

theorem observeInstructions_eq (archiveId : String) (project : ParsedProject)
    (instructions : List InstructionHistory) :
    observeInstructions archiveId project instructions =
      values (recordMissing (project.instructions.map (instructionExternalId project)) archiveId
        (observeEach presentedInstructionId (fun entry => .instruction entry.2) (fun _ => false)
          archiveId (index (·.externalId) instructions)
          (project.instructions.map fun instruction => (project, instruction)))) := by
  simp only [observeEach, updateEach, foldl_map]
  rfl

section ObserveProject

variable {presented : List ParsedProject} {h : ProjectHistory} (project : ParsedProject)
  (archiveId : String)

theorem ProjectHistory.Tells.observed (htells : h.Tells presented) :
    let h' := observeProject archiveId h project
    h'.externalId = h.externalId ∧ h'.Tells (presented ++ [project]) := by
  refine ⟨rfl, ?_, ?_⟩
  · rw [map_append]
    exact htells.header.recordPresent archiveId _ false
  · rw [presentedInstructions, flatMap_append, flatMap_singleton]
    simp only [observeProject, observeInstructions_eq]
    exact .of_chronicles ((htells.instructions.chronicles.observeEach _ archiveId _).recordMissing
      _ archiveId)

theorem ProjectHistory.Tells.extends_observed (htells : h.Tells presented) :
    h.Extends (observeProject archiveId h project) := by
  refine ⟨h.toHistory.extends_recordPresent archiveId _ false, ?_⟩
  simp only [observeProject, observeInstructions_eq]
  exact .of_grows htells.instructions.distinct (.trans (fun _ _ _ => .trans)
    (htells.instructions.chronicles.grows_observeEach _ archiveId _)
    (grows_recordMissing _ archiveId _))

theorem NestedTells.recordMissing {α : Type} {externalId : α → String}
    {digest : α → EvidenceDigest} {records : List α} {nested : List History}
    (h : NestedTells externalId digest records nested) (archiveId : String) :
    NestedTells externalId digest records (nested.map (History.recordMissing archiveId)) := by
  refine ⟨?_, ?_⟩
  · rw [map_map]
    exact h.distinct
  · refine Told.congr (h.chronicles.map fun _ history records htells => ?_)
      (getElem?_index_map h.distinct fun _ => rfl)
    exact ⟨rfl, htells.recordMissing archiveId⟩

theorem nestedExtends_recordMissing (nested : List History) (archiveId : String) :
    NestedExtends nested (nested.map (History.recordMissing archiveId)) :=
  fun history hmem => ⟨_, mem_map_of_mem hmem, history.extends_recordMissing archiveId⟩

end ObserveProject

def ProjectsTold (presented : List ParsedProject) (histories : TreeMap String ProjectHistory) :
    Prop :=
  Told ParsedProject.externalId (·.externalId) .fresh
    (fun presented h => ProjectHistory.Tells presented h) presented histories

section ProjectsTold

variable {presented : List ParsedProject} {histories : TreeMap String ProjectHistory}

theorem ProjectsTold.recordMissing (h : ProjectsTold presented histories)
    (presentIds : List String) (archiveId : String) :
    ProjectsTold presented (recordMissingProjects presentIds archiveId histories) := by
  refine h.map fun externalId history presented htells => ?_
  split
  · exact ⟨rfl, htells⟩
  · exact ⟨rfl, htells.header.recordMissing archiveId, htells.instructions.recordMissing archiveId⟩

theorem grows_recordMissingProjects (presentIds : List String) (archiveId : String)
    (histories : TreeMap String ProjectHistory) :
    Grows ProjectHistory.Extends histories
      (recordMissingProjects presentIds archiveId histories) := by
  refine .map (fun externalId history => ?_) histories
  split
  · exact .refl history
  · exact ⟨history.extends_recordMissing archiveId, nestedExtends_recordMissing _ archiveId⟩

theorem ProjectsTold.reconciled (h : ProjectsTold presented histories)
    (snapshot : ArchiveSnapshot) :
    ProjectsTold (presented ++ snapshot.parsed.projects)
      (Histories.reconcileProjects histories snapshot) := by
  refine recordMissing (h.updateEach (fun history project presented _ htells => ?_) _) _ _
  exact htells.observed project snapshot.archiveId

theorem ProjectsTold.grows (h : ProjectsTold presented histories) (snapshot : ArchiveSnapshot) :
    Grows ProjectHistory.Extends histories (Histories.reconcileProjects histories snapshot) := by
  refine .trans (fun _ _ _ => .trans) (h.grows_updateEach .refl (fun _ _ _ => .trans)
    (fun history project presented _ htells => ?_)
    (fun history project presented htells => ?_) _) (grows_recordMissingProjects _ _ _)
  · exact htells.observed project snapshot.archiveId
  · exact htells.extends_observed project snapshot.archiveId

end ProjectsTold

/-! ## The archives in order -/

namespace Histories

structure Tells (snapshots : List ArchiveSnapshot) (h : Histories) : Prop where
  conversations : ConversationsTold (snapshots.flatMap (·.parsed.conversations)) h.conversations
  projects : ProjectsTold (snapshots.flatMap (·.parsed.projects)) h.projects
  canvasDocuments : Chronicles ParsedCanvasDocument.externalId .canvas
    (snapshots.flatMap (·.parsed.canvasDocuments)) h.canvasDocuments
  assets : Chronicles ParsedAsset.externalId .asset (snapshots.flatMap (·.parsed.assets)) h.assets

structure GrowsInto (h h' : Histories) : Prop where
  conversations : Grows ConversationHistory.Extends h.conversations h'.conversations
  projects : Grows ProjectHistory.Extends h.projects h'.projects
  canvasDocuments : Grows History.Extends h.canvasDocuments h'.canvasDocuments
  assets : Grows History.Extends h.assets h'.assets

theorem tells_empty : empty.Tells [] where
  conversations := .empty fun k => ⟨rfl, ConversationHistory.tells_fresh k⟩
  projects := .empty fun k => ⟨rfl, ProjectHistory.tells_fresh k⟩
  canvasDocuments := chronicles_empty _ _
  assets := chronicles_empty _ _

theorem GrowsInto.refl (h : Histories) : h.GrowsInto h :=
  ⟨.refl .refl _, .refl .refl _, .refl .refl _, .refl .refl _⟩

theorem GrowsInto.trans {h h' h'' : Histories} (a : h.GrowsInto h') (b : h'.GrowsInto h'') :
    h.GrowsInto h'' where
  conversations := .trans (fun _ _ _ => .trans) a.conversations b.conversations
  projects := .trans (fun _ _ _ => .trans) a.projects b.projects
  canvasDocuments := .trans (fun _ _ _ => .trans) a.canvasDocuments b.canvasDocuments
  assets := .trans (fun _ _ _ => .trans) a.assets b.assets

namespace Tells

variable {snapshots : List ArchiveSnapshot} {h : Histories}

theorem reconcileSnapshot (htells : h.Tells snapshots) (snapshot : ArchiveSnapshot) :
    (h.reconcileSnapshot snapshot).Tells (snapshots ++ [snapshot]) where
  conversations := by
    rw [flatMap_append, flatMap_singleton]
    exact htells.conversations.reconciled snapshot
  projects := by
    rw [flatMap_append, flatMap_singleton]
    exact htells.projects.reconciled snapshot
  canvasDocuments := by
    rw [flatMap_append, flatMap_singleton]
    exact (htells.canvasDocuments.observeEach _ snapshot.archiveId _).recordMissing _ _
  assets := by
    rw [flatMap_append, flatMap_singleton]
    exact (htells.assets.observeEach _ snapshot.archiveId _).recordMissing _ _

theorem growsInto (htells : h.Tells snapshots) (snapshot : ArchiveSnapshot) :
    h.GrowsInto (h.reconcileSnapshot snapshot) where
  conversations := htells.conversations.grows snapshot
  projects := htells.projects.grows snapshot
  canvasDocuments := .trans (fun _ _ _ => .trans)
    (htells.canvasDocuments.grows_observeEach _ snapshot.archiveId _) (grows_recordMissing _ _ _)
  assets := .trans (fun _ _ _ => .trans)
    (htells.assets.grows_observeEach _ snapshot.archiveId _) (grows_recordMissing _ _ _)

theorem reconcileSnapshots (htells : h.Tells snapshots) (later : List ArchiveSnapshot) :
    (later.foldl Histories.reconcileSnapshot h).Tells (snapshots ++ later) ∧
      h.GrowsInto (later.foldl Histories.reconcileSnapshot h) := by
  induction later generalizing snapshots h with
  | nil =>
    rw [append_nil]
    exact ⟨htells, .refl h⟩
  | cons snapshot later ih =>
    rw [append_cons]
    obtain ⟨htells', hgrows⟩ := ih (htells.reconcileSnapshot snapshot)
    exact ⟨htells', (htells.growsInto snapshot).trans hgrows⟩

end Tells

end Histories

/-! ## The result -/

/-- The revisions are the presented digests in the order of their first appearance, each once, and
every observation that says present names one of them. -/
structure History.Evidenced (presented : List EvidenceDigest) (h : History) : Prop where
  distinct : (h.revisions.map (·.digest)).Nodup
  firstAppearance : h.revisions.map (·.digest) = presented.eraseDups
  named : ∀ o ∈ h.observations, o.state = .present →
    ∃ digest, o.revisionDigest = some digest ∧ digest ∈ h.revisions.map (·.digest)

theorem History.Tells.evidenced {presented : List EvidenceDigest} {h : History}
    (htells : h.Tells presented) : h.Evidenced presented :=
  ⟨htells.distinct, htells.revisions, fun _ => htells.named⟩

namespace ReconciliationResult

structure GrowsInto (r r' : ReconciliationResult) : Prop where
  conversations : ∀ h ∈ r.conversations, ∃ h' ∈ r'.conversations,
    h.toHistory.Extends h'.toHistory ∧ ∀ m ∈ h.messages, ∃ m' ∈ h'.messages, m.Extends m'
  projects : ∀ h ∈ r.projects, ∃ h' ∈ r'.projects,
    h.toHistory.Extends h'.toHistory ∧ ∀ i ∈ h.instructions, ∃ i' ∈ h'.instructions, i.Extends i'
  canvasDocuments : ∀ h ∈ r.canvasDocuments, ∃ h' ∈ r'.canvasDocuments, h.Extends h'
  assets : ∀ h ∈ r.assets, ∃ h' ∈ r'.assets, h.Extends h'

structure EvidencedBy (snapshots : List ArchiveSnapshot) (r : ReconciliationResult) : Prop where
  conversations : ∀ h ∈ r.conversations,
    let presented := (snapshots.flatMap (·.parsed.conversations)).filter
      (·.externalId = h.externalId)
    h.toHistory.Evidenced (presented.map fun c => .conversation (conversationDigest c)) ∧
      ∀ m ∈ h.messages, m.Evidenced (((presented.flatMap (·.messages)).filter
        (·.externalId = m.externalId)).map .message)
  projects : ∀ h ∈ r.projects,
    let presented := (snapshots.flatMap (·.parsed.projects)).filter (·.externalId = h.externalId)
    h.toHistory.Evidenced (presented.map projectDigest) ∧
      ∀ i ∈ h.instructions, i.Evidenced (((presentedInstructions presented).filter
        (presentedInstructionId · = i.externalId)).map fun entry => .instruction entry.2)
  canvasDocuments : ∀ h ∈ r.canvasDocuments,
    h.Evidenced (((snapshots.flatMap (·.parsed.canvasDocuments)).filter
      (·.externalId = h.externalId)).map .canvas)
  assets : ∀ h ∈ r.assets,
    h.Evidenced (((snapshots.flatMap (·.parsed.assets)).filter
      (·.externalId = h.externalId)).map .asset)

/-- Every identity that an archive presents has a history. -/
structure Covers (snapshots : List ArchiveSnapshot) (r : ReconciliationResult) : Prop where
  conversations : ∀ c ∈ snapshots.flatMap (·.parsed.conversations), ∃ h ∈ r.conversations,
    h.externalId = c.externalId ∧ ∀ m ∈ c.messages, ∃ h' ∈ h.messages, h'.externalId = m.externalId
  projects : ∀ p ∈ snapshots.flatMap (·.parsed.projects), ∃ h ∈ r.projects,
    h.externalId = p.externalId ∧
      ∀ i ∈ p.instructions, ∃ h' ∈ h.instructions, h'.externalId = instructionExternalId p i
  canvasDocuments : ∀ c ∈ snapshots.flatMap (·.parsed.canvasDocuments),
    ∃ h ∈ r.canvasDocuments, h.externalId = c.externalId
  assets : ∀ a ∈ snapshots.flatMap (·.parsed.assets), ∃ h ∈ r.assets, h.externalId = a.externalId

end ReconciliationResult

theorem Histories.GrowsInto.result {h h' : Histories} (hgrows : h.GrowsInto h') :
    h.result.GrowsInto h'.result where
  conversations history hmem := by
    obtain ⟨history', hmem', hextends⟩ := hgrows.conversations.values hmem
    exact ⟨history', hmem', hextends.header, hextends.messages⟩
  projects history hmem := by
    obtain ⟨history', hmem', hextends⟩ := hgrows.projects.values hmem
    exact ⟨history', hmem', hextends.header, hextends.instructions⟩
  canvasDocuments _ hmem := hgrows.canvasDocuments.values hmem
  assets _ hmem := hgrows.assets.values hmem

theorem Histories.Tells.result {snapshots : List ArchiveSnapshot} {h : Histories}
    (htells : h.Tells snapshots) : h.result.EvidencedBy snapshots where
  conversations history hmem := by
    have hhistory := htells.conversations.of_mem_values hmem
    exact ⟨hhistory.header.evidenced, fun m hm => (hhistory.messages.tells hm).evidenced⟩
  projects history hmem := by
    have hhistory := htells.projects.of_mem_values hmem
    exact ⟨hhistory.header.evidenced, fun i hi => (hhistory.instructions.tells hi).evidenced⟩
  canvasDocuments _ hmem := (htells.canvasDocuments.of_mem_values hmem).evidenced
  assets _ hmem := (htells.assets.of_mem_values hmem).evidenced

theorem History.Tells.eq_nil_of_fresh {presented : List EvidenceDigest} {k : String}
    (h : (History.fresh k).Tells presented) : presented = [] := by
  have hnone : presented.eraseDups = [] := h.revisions.symm
  exact eq_nil_iff_forall_not_mem.mpr fun digest hmem =>
    not_mem_nil (hnone ▸ mem_eraseDups.mpr hmem)

theorem Chronicles.exists_mem_values {α : Type} {externalId : α → String}
    {digest : α → EvidenceDigest} {records : List α} {histories : TreeMap String History}
    (h : Chronicles externalId digest records histories) {record : α} (hrecord : record ∈ records) :
    ∃ history ∈ values histories, History.externalId history = externalId record :=
  Told.exists_mem_values h hrecord fun _ _ htells => map_eq_nil_iff.mp htells.eq_nil_of_fresh

theorem NestedTells.exists_mem {α : Type} {externalId : α → String}
    {digest : α → EvidenceDigest} {records : List α} {nested : List History}
    (h : NestedTells externalId digest records nested) {record : α} (hrecord : record ∈ records) :
    ∃ history ∈ nested, history.externalId = externalId record := by
  obtain ⟨history, hmem, hid⟩ := h.chronicles.exists_mem_values hrecord
  obtain ⟨k, hk⟩ := mem_values.mp hmem
  exact ⟨history, ((getElem?_index h.distinct).mp hk).1, hid⟩

theorem Histories.Tells.covers {snapshots : List ArchiveSnapshot} {h : Histories}
    (htells : h.Tells snapshots) : h.result.Covers snapshots where
  conversations c hc := by
    obtain ⟨history, hmem, hid⟩ := htells.conversations.exists_mem_values hc
      fun _ _ htells => map_eq_nil_iff.mp htells.header.eq_nil_of_fresh
    have hpresented : c ∈ (snapshots.flatMap (·.parsed.conversations)).filter
        (·.externalId = history.externalId) := mem_filter.mpr ⟨hc, decide_eq_true hid.symm⟩
    exact ⟨history, hmem, hid, fun m hm =>
      (htells.conversations.of_mem_values hmem).messages.exists_mem
        (mem_flatMap.mpr ⟨c, hpresented, hm⟩)⟩
  projects p hp := by
    obtain ⟨history, hmem, hid⟩ := htells.projects.exists_mem_values hp
      fun _ _ htells => map_eq_nil_iff.mp htells.header.eq_nil_of_fresh
    have hpresented : p ∈ (snapshots.flatMap (·.parsed.projects)).filter
        (·.externalId = history.externalId) := mem_filter.mpr ⟨hp, decide_eq_true hid.symm⟩
    refine ⟨history, hmem, hid, fun i hi => ?_⟩
    have hinstruction : (p, i) ∈ presentedInstructions ((snapshots.flatMap
        (·.parsed.projects)).filter (·.externalId = history.externalId)) :=
      mem_flatMap.mpr ⟨p, hpresented, mem_map_of_mem hi⟩
    exact (htells.projects.of_mem_values hmem).instructions.exists_mem hinstruction
  canvasDocuments _ hc := htells.canvasDocuments.exists_mem_values hc
  assets _ ha := htells.assets.exists_mem_values ha

/-- Every history of the first archives is a history of all of them, its revisions and observations
extended; every history is evidenced by what the archives present for its identity; and every
identity they present has a history. -/
theorem reconcile_append_only (s t : List ArchiveSnapshot) :
    (reconcile s).GrowsInto (reconcile (s ++ t)) ∧ (reconcile s).EvidencedBy s ∧
      (reconcile s).Covers s := by
  obtain ⟨htells, -⟩ := Histories.tells_empty.reconcileSnapshots s
  rw [List.nil_append] at htells
  rw [reconcile, reconcile, List.foldl_append]
  exact ⟨(htells.reconcileSnapshots t).2.result, htells.result, htells.covers⟩

/-- A conversation whose text changes and returns: two revisions, and the message that only the
second archive presents. -/
example :
    let archive (id : String) (texts : List (String × String)) : ArchiveSnapshot :=
      ⟨id, .ofRecords [] [.ofMessages "c" (texts.map fun m => .ofText m.1 none m.2)]⟩
    (reconcile [archive "1" [("m", "a")], archive "2" [("m", "b"), ("n", "c")],
      archive "3" [("m", "a")]]).conversations.map (fun h => (h.externalId, h.revisions.length,
        h.messages.map fun m => (m.externalId, m.revisions.length, m.observations.length))) =
      [("c", 2, [("m", 2, 3), ("n", 1, 1)])] := by
  decide +kernel

end ChatgptArchive
