import ChatgptArchive.KeyedMap
import ChatgptArchive.Reconciliation.Model

/-!
# Reconciliation of archive snapshots

`reconcile` goes through the archives in order. Each presented record adds an observation to the
history of its identity, and a revision when its digest is new there; each known identity that an
archive leaves out gets an observation that says so.
-/

namespace ChatgptArchive

open Std KeyedMap RevisionStatistics

/-! ## Parents of messages -/

structure GraphEvidence where
  warnings : List ReconciliationWarning
  orphanedMessages : List (String × String)
  deriving DecidableEq, Repr

def parentWarning (allMessages localMessages : List String) (message : ParsedMessage)
    (parent : String) : Option WarningCode :=
  if parent = message.externalId then some .selfParent
  else if localMessages.contains parent then none
  else if allMessages.contains parent then some .crossConversationParent
  else some .missingParent

def graphEvidence (snapshot : ArchiveSnapshot) : GraphEvidence :=
  let allMessages := snapshot.parsed.conversations.flatMap fun conversation =>
    conversation.messages.map (·.externalId)
  let found := snapshot.parsed.conversations.flatMap fun conversation =>
    conversation.messages.filterMap fun message => do
      let parent ← message.parentExternalId
      let code ← parentWarning allMessages (conversation.messages.map (·.externalId)) message parent
      return (code, conversation.externalId, message.externalId)
  { warnings := (found.map fun (code, conversation, message) =>
      ⟨code, conversation, some message⟩).insertionSort warningOrder
    orphanedMessages := found.map (·.2) }

/-! ## Observations -/

def recordPresent (history : History) (archiveId : String) (digest : EvidenceDigest)
    (orphaned : Bool) : Bool × History :=
  -- records a presented digest: whether it is a new revision, and the history
  let created := !history.revisions.any (·.digest = digest)
  (created,
    { history with
      revisions := if created then history.revisions ++ [⟨digest⟩] else history.revisions
      observations := history.observations ++ [⟨archiveId, .present, some digest, orphaned⟩] })

variable (archiveId : String)

def missingObservation : Observation :=
  ⟨archiveId, .missingFromLatestSnapshot, none, false⟩

def History.recordMissing (history : History) : History :=
  { history with observations := history.observations ++ [missingObservation archiveId] }

def observeEach {α : Type} (externalId : α → String) (digest : α → EvidenceDigest)
    (orphaned : α → Bool) (archiveId : String) (histories : TreeMap String History)
    (records : List α) : TreeMap String History :=
  updateEach externalId .fresh (fun history record =>
    (recordPresent history archiveId (digest record) (orphaned record)).2) histories records

variable (presentIds : List String)

def recordMissing (archiveId : String)
    (histories : TreeMap String History) : TreeMap String History :=
  histories.map fun externalId history =>
    if presentIds.contains externalId then history else history.recordMissing archiveId

/-! ## Conversations -/

def RevisionStatistics.zero : RevisionStatistics := ⟨0, 0, 0, 0⟩

def addStatistics (total addition : RevisionStatistics) : RevisionStatistics :=
  { newRevisions := total.newRevisions + addition.newRevisions
    reusedRevisions := total.reusedRevisions + addition.reusedRevisions
    presentConversationObservations :=
      total.presentConversationObservations + addition.presentConversationObservations
    missingConversationObservations :=
      total.missingConversationObservations + addition.missingConversationObservations }

def RevisionStatistics.count (created : Bool) (statistics : RevisionStatistics) :
    RevisionStatistics :=
  if created then { statistics with newRevisions := statistics.newRevisions + 1 }
  else { statistics with reusedRevisions := statistics.reusedRevisions + 1 }

def observeMessage (conversationId archiveId : String) (orphanedMessages : List (String × String))
    (state : TreeMap String MessageHistory × RevisionStatistics) (message : ParsedMessage) :
    TreeMap String MessageHistory × RevisionStatistics :=
  let history := state.1.getD message.externalId (.fresh message.externalId)
  let (created, history) := recordPresent history archiveId (.message message)
    (orphanedMessages.contains (conversationId, message.externalId))
  (state.1.insert message.externalId history, state.2.count created)

def observeConversation (history : ConversationHistory) (conversation : ParsedConversation)
    (archiveId : String) (orphanedMessages : List (String × String)) :
    ConversationHistory × RevisionStatistics :=
  let (created, header) := recordPresent history.toHistory archiveId
    (.conversation (conversationDigest conversation)) false
  let statistics : RevisionStatistics := { zero with
    newRevisions := if created then 1 else 0 }
  let (messages, statistics) := conversation.messages.foldl
    (observeMessage conversation.externalId archiveId orphanedMessages)
    (index (·.externalId) history.messages, statistics)
  ({ toHistory := header, messages := values messages }, statistics)

def observeConversations (orphanedMessages : List (String × String))
    (state : TreeMap String ConversationHistory × RevisionStatistics)
    (conversations : List ParsedConversation) :
    TreeMap String ConversationHistory × RevisionStatistics :=
  conversations.foldl (fun (histories, statistics) conversation =>
    let history := histories.getD conversation.externalId (.fresh conversation.externalId)
    let (history, addition) :=
      observeConversation history conversation archiveId orphanedMessages
    (histories.insert conversation.externalId history, addStatistics statistics addition)) state

def recordMissingConversations (archiveId : String)
    (histories : TreeMap String ConversationHistory) : TreeMap String ConversationHistory :=
  histories.map fun externalId history =>
    if presentIds.contains externalId then history
    else { history with toHistory := history.toHistory.recordMissing archiveId }

def missingConversations
    (histories : TreeMap String ConversationHistory) : Nat :=
  histories.keys.countP fun externalId => !presentIds.contains externalId

/-! ## Projects, Canvas documents and assets -/

def instructionExternalId (project : ParsedProject) (instruction : ParsedInstruction) : String :=
  instruction.externalId.getD (project.externalId ++ ":" ++ toString instruction.ordinal)

def observeInstructions (project : ParsedProject)
    (instructions : List InstructionHistory) : List InstructionHistory :=
  let presentIds := project.instructions.map (instructionExternalId project)
  values (recordMissing presentIds archiveId
    (observeEach (instructionExternalId project) .instruction (fun _ => false) archiveId
      (index (·.externalId) instructions) project.instructions))

def observeProject (history : ProjectHistory) (project : ParsedProject) :
    ProjectHistory :=
  { toHistory := (recordPresent history.toHistory archiveId (projectDigest project) false).2
    instructions := observeInstructions archiveId project history.instructions }

def observeProjects (histories : TreeMap String ProjectHistory)
    (projects : List ParsedProject) : TreeMap String ProjectHistory :=
  updateEach (·.externalId) .fresh (observeProject archiveId) histories projects

def recordMissingProjects (archiveId : String)
    (histories : TreeMap String ProjectHistory) : TreeMap String ProjectHistory :=
  histories.map fun externalId history =>
    if presentIds.contains externalId then history
    else
      { toHistory := history.toHistory.recordMissing archiveId
        instructions := history.instructions.map (History.recordMissing archiveId) }

def observeCanvas (histories : TreeMap String CanvasDocumentHistory)
    (documents : List ParsedCanvasDocument) : TreeMap String CanvasDocumentHistory :=
  observeEach (·.externalId) .canvas (fun _ => false) archiveId histories documents

def observeAssets (histories : TreeMap String AssetHistory)
    (assets : List ParsedAsset) : TreeMap String AssetHistory :=
  observeEach (·.externalId) .asset (fun _ => false) archiveId histories assets

/-! ## Reports -/

def coverageGaps (parsed : ParsedConversations) (missingAssets quarantinedAssets : Nat) :
    List CoverageGap :=
  (if parsed.projects.isEmpty then [.projectRelationshipsUnobserved] else []) ++
  (if parsed.canvasDocuments.isEmpty then [.canvasDocumentsUnobserved] else []) ++
  (if parsed.assets.isEmpty then [.assetsUnobserved] else []) ++
  (if 0 < missingAssets then [.assetsMissing] else []) ++
  (if 0 < quarantinedAssets then [.assetsQuarantined] else [])

def archiveReport (snapshot : ArchiveSnapshot) (warnings : List ReconciliationWarning)
    (revisionStatistics : RevisionStatistics) : ArchiveCompletenessReport :=
  let parsed := snapshot.parsed
  let missingAssets := parsed.assets.countP (·.availability = .missing)
  let quarantinedAssets := parsed.assets.countP (·.availability = .quarantined)
  { archiveId := snapshot.archiveId
    schemaId := parsed.schemaId
    parserId := parsed.parser.name ++ "@" ++ parsed.parser.version
    conversationsDiscovered := parsed.conversations.length
    messagesDiscovered := (parsed.conversations.flatMap (·.messages)).length
    projectsDiscovered := parsed.projects.length
    instructionsDiscovered := (parsed.projects.flatMap (·.instructions)).length
    canvasDocumentsDiscovered := parsed.canvasDocuments.length
    assetReferencesDiscovered := parsed.assets.length
    verifiedAssets := parsed.assets.countP (·.availability = .verified)
    missingAssets
    quarantinedAssets
    orphanMessages := warnings.length
    parseWarningCount := 0
    warnings
    gaps := coverageGaps parsed missingAssets quarantinedAssets
    revisionStatistics
    completeness := .structurallyPartial }

def orderedGaps (gaps : List CoverageGap) : List CoverageGap :=
  [.projectRelationshipsUnobserved, .assetsUnobserved, .canvasDocumentsUnobserved, .assetsMissing,
    .assetsQuarantined].filter gaps.contains

def cumulativeReport (conversations : List ConversationHistory) (projects : List ProjectHistory)
    (canvasDocuments : List CanvasDocumentHistory) (assets : List AssetHistory)
    (archiveReports : List ArchiveCompletenessReport) : CumulativeCompletenessReport :=
  { uniqueConversations := conversations.length
    uniqueMessages := (conversations.flatMap (·.messages)).length
    uniqueProjects := projects.length
    uniqueCanvasDocuments := canvasDocuments.length
    uniqueAssets := assets.length
    conversationRevisions := (conversations.flatMap (·.revisions)).length
    messageRevisions := ((conversations.flatMap (·.messages)).flatMap (·.revisions)).length
    projectRevisions := (projects.flatMap (·.revisions)).length
    canvasDocumentRevisions := (canvasDocuments.flatMap (·.revisions)).length
    assetRevisions := (assets.flatMap (·.revisions)).length
    warnings := archiveReports.flatMap (·.warnings)
    parseWarningCount := archiveReports.foldl (fun count report =>
      count + report.parseWarningCount) 0
    gaps := orderedGaps (archiveReports.flatMap (·.gaps))
    revisionStatistics := archiveReports.foldl (fun statistics report =>
      addStatistics statistics report.revisionStatistics) .zero
    completeness := .structurallyPartial }

/-! ## The archives in order -/

structure Histories where
  conversations : TreeMap String ConversationHistory
  projects : TreeMap String ProjectHistory
  canvasDocuments : TreeMap String CanvasDocumentHistory
  assets : TreeMap String AssetHistory
  archiveReports : List ArchiveCompletenessReport

namespace Histories

def empty : Histories := ⟨∅, ∅, ∅, ∅, []⟩

def reconcileConversations (histories : TreeMap String ConversationHistory)
    (snapshot : ArchiveSnapshot) : TreeMap String ConversationHistory × RevisionStatistics :=
  let presented := snapshot.parsed.conversations
  let presentIds := presented.map (·.externalId)
  let statistics : RevisionStatistics := { zero with
    presentConversationObservations := presented.length }
  let (histories, statistics) := observeConversations snapshot.archiveId
    (graphEvidence snapshot).orphanedMessages (histories, statistics) presented
  (recordMissingConversations presentIds snapshot.archiveId histories,
    { statistics with
      missingConversationObservations :=
        statistics.missingConversationObservations + missingConversations presentIds histories })

def reconcileProjects (histories : TreeMap String ProjectHistory) (snapshot : ArchiveSnapshot) :
    TreeMap String ProjectHistory :=
  let presented := snapshot.parsed.projects
  recordMissingProjects (presented.map (·.externalId)) snapshot.archiveId
    (observeProjects snapshot.archiveId histories presented)

def reconcileCanvas (histories : TreeMap String CanvasDocumentHistory)
    (snapshot : ArchiveSnapshot) : TreeMap String CanvasDocumentHistory :=
  let presented := snapshot.parsed.canvasDocuments
  recordMissing (presented.map (·.externalId)) snapshot.archiveId
    (observeCanvas snapshot.archiveId histories presented)

def reconcileAssets (histories : TreeMap String AssetHistory) (snapshot : ArchiveSnapshot) :
    TreeMap String AssetHistory :=
  let presented := snapshot.parsed.assets
  recordMissing (presented.map (·.externalId)) snapshot.archiveId
    (observeAssets snapshot.archiveId histories presented)

def reconcileSnapshot (h : Histories) (snapshot : ArchiveSnapshot) : Histories :=
  let (conversations, statistics) := reconcileConversations h.conversations snapshot
  { conversations
    projects := reconcileProjects h.projects snapshot
    canvasDocuments := reconcileCanvas h.canvasDocuments snapshot
    assets := reconcileAssets h.assets snapshot
    archiveReports := h.archiveReports ++
      [archiveReport snapshot (graphEvidence snapshot).warnings statistics] }

def result (h : Histories) : ReconciliationResult :=
  let conversations := values h.conversations
  let projects := values h.projects
  let canvasDocuments := values h.canvasDocuments
  let assets := values h.assets
  { conversations, projects, canvasDocuments, assets
    archiveReports := h.archiveReports
    cumulativeReport :=
      cumulativeReport conversations projects canvasDocuments assets h.archiveReports }

end Histories

def reconcile (snapshots : List ArchiveSnapshot) : ReconciliationResult :=
  (snapshots.foldl Histories.reconcileSnapshot .empty).result

end ChatgptArchive
