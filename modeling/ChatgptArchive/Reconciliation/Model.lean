import ChatgptArchive.Parsed

/-!
# Evidence of reconciled archives

The histories a reconciliation builds and the reports it gives. The digest of a record is
represented by the canonical content it is computed from, as in `ContentDigest`; a project's digest
leaves its instructions out, which have histories of their own.
-/

namespace ChatgptArchive

inductive EvidenceDigest where
  | conversation (digest : ContentDigest)
  | message (message : ParsedMessage)
  | project (externalId : String) (title description : Option String)
      (conversationExternalIds assetExternalIds : List String) (providerMetadata : Value)
  | instruction (instruction : ParsedInstruction)
  | canvas (document : ParsedCanvasDocument)
  | asset (asset : ParsedAsset)
  deriving DecidableEq, Repr

def projectDigest (project : ParsedProject) : EvidenceDigest :=
  .project project.externalId project.title project.description project.conversationExternalIds
    project.assetExternalIds project.providerMetadata

structure ArchiveSnapshot where
  archiveId : String
  parsed : ParsedConversations
  deriving DecidableEq, Repr

/-! ## Histories -/

structure Revision where
  digest : EvidenceDigest
  deriving DecidableEq, Repr

inductive ObservationState where
  | present | missingFromLatestSnapshot
  deriving DecidableEq, Repr

structure Observation where
  archiveId : String
  state : ObservationState
  revisionDigest : Option EvidenceDigest
  orphaned : Bool
  deriving DecidableEq, Repr

structure History where
  externalId : String
  revisions : List Revision
  observations : List Observation
  deriving DecidableEq, Repr

abbrev MessageHistory := History
abbrev InstructionHistory := History
abbrev CanvasDocumentHistory := History
abbrev AssetHistory := History

structure ConversationHistory extends History where
  messages : List MessageHistory
  deriving DecidableEq, Repr

structure ProjectHistory extends History where
  instructions : List InstructionHistory
  deriving DecidableEq, Repr

def History.fresh (externalId : String) : History :=
  { externalId, revisions := [], observations := [] }

def ConversationHistory.fresh (externalId : String) : ConversationHistory :=
  { toHistory := .fresh externalId, messages := [] }

def ProjectHistory.fresh (externalId : String) : ProjectHistory :=
  { toHistory := .fresh externalId, instructions := [] }

/-! ## Reports -/

inductive WarningCode where
  | missingParent | selfParent | crossConversationParent
  deriving DecidableEq, Repr

structure ReconciliationWarning where
  code : WarningCode
  conversationExternalId : String
  messageExternalId : Option String
  deriving DecidableEq, Repr

def warningOrder (a b : ReconciliationWarning) : Prop :=
  a.code.ctorIdx < b.code.ctorIdx ∨ a.code = b.code ∧
    (a.conversationExternalId < b.conversationExternalId ∨
      a.conversationExternalId = b.conversationExternalId ∧
        match a.messageExternalId, b.messageExternalId with
        | none, _ => True
        | some _, none => False
        | some x, some y => x ≤ y)

instance : DecidableRel warningOrder := fun a b =>
  match a, b with
  | ⟨_, _, none⟩, ⟨_, _, _⟩ => inferInstanceAs (Decidable (_ ∨ _ ∧ (_ ∨ _ ∧ True)))
  | ⟨_, _, some _⟩, ⟨_, _, none⟩ => inferInstanceAs (Decidable (_ ∨ _ ∧ (_ ∨ _ ∧ False)))
  | ⟨_, _, some x⟩, ⟨_, _, some y⟩ => inferInstanceAs (Decidable (_ ∨ _ ∧ (_ ∨ _ ∧ x ≤ y)))

inductive CoverageGap where
  | projectRelationshipsUnobserved | assetsUnobserved | canvasDocumentsUnobserved | assetsMissing
  | assetsQuarantined
  deriving DecidableEq, Repr

inductive Completeness where
  | unknown | structurallyPartial
  deriving DecidableEq, Repr

structure RevisionStatistics where
  newRevisions : Nat
  reusedRevisions : Nat
  presentConversationObservations : Nat
  missingConversationObservations : Nat
  deriving DecidableEq, Repr

structure ArchiveCompletenessReport where
  archiveId : String
  schemaId : String
  parserId : String
  conversationsDiscovered : Nat
  messagesDiscovered : Nat
  projectsDiscovered : Nat
  instructionsDiscovered : Nat
  canvasDocumentsDiscovered : Nat
  assetReferencesDiscovered : Nat
  verifiedAssets : Nat
  missingAssets : Nat
  quarantinedAssets : Nat
  orphanMessages : Nat
  parseWarningCount : Nat
  warnings : List ReconciliationWarning
  gaps : List CoverageGap
  revisionStatistics : RevisionStatistics
  completeness : Completeness
  deriving DecidableEq, Repr

structure CumulativeCompletenessReport where
  uniqueConversations : Nat
  uniqueMessages : Nat
  uniqueProjects : Nat
  uniqueCanvasDocuments : Nat
  uniqueAssets : Nat
  conversationRevisions : Nat
  messageRevisions : Nat
  projectRevisions : Nat
  canvasDocumentRevisions : Nat
  assetRevisions : Nat
  warnings : List ReconciliationWarning
  parseWarningCount : Nat
  gaps : List CoverageGap
  revisionStatistics : RevisionStatistics
  completeness : Completeness
  deriving DecidableEq, Repr

structure ReconciliationResult where
  conversations : List ConversationHistory
  projects : List ProjectHistory
  canvasDocuments : List CanvasDocumentHistory
  assets : List AssetHistory
  archiveReports : List ArchiveCompletenessReport
  cumulativeReport : CumulativeCompletenessReport
  deriving DecidableEq, Repr

end ChatgptArchive
