import ChatgptArchive.Parsed

/-!
# The published contracts

The event payloads the archive puts on the wire, and the contract library's parsers, validators
and digest. The library is not part of the repository: `Contracts` takes each parser as the
predicate of the texts it accepts, each validator as a predicate of payloads, and the content
digest and the serialized length as functions of what they are computed from.
-/

namespace ChatgptArchive

abbrev Uuid := Nat

/-- A database instant; `now()` is fixed for a transaction. -/
abbrev Instant := Nat

structure TenantRef where
  user : Uuid
  deriving DecidableEq, Repr, Inhabited

inductive SubjectKind where
  | archive | conversation | project
  deriving DecidableEq, Repr, Inhabited

inductive AiArchiveCompleteness where
  | complete | structurallyPartial
  deriving DecidableEq, Repr, Inhabited

structure AiGap where
  gapKind : String
  detail : String
  affectedCount : Option Nat
  deriving DecidableEq, Repr

structure AiCompletenessReport where
  completeness : AiArchiveCompleteness
  conversationCount : Nat
  messageCount : Nat
  assetCount : Nat
  gapCount : Nat
  gaps : List AiGap
  deriving DecidableEq, Repr, Inhabited

structure AiArchiveImport where
  aiArchiveId : Uuid
  provider : String
  owner : TenantRef
  sourceExport : BlobRef
  importedAt : Instant
  parserName : String
  parserVersion : String
  completenessReport : AiCompletenessReport
  deriving DecidableEq, Repr, Inhabited

structure AiArchiveProvenance where
  aiArchiveId : Uuid
  provider : String
  owner : TenantRef
  sourceExport : BlobRef
  importedAt : Instant
  parserName : String
  parserVersion : String
  deriving DecidableEq, Repr

def AiArchiveProvenance.fromImport (i : AiArchiveImport) : AiArchiveProvenance :=
  { aiArchiveId := i.aiArchiveId, provider := i.provider, owner := i.owner,
    sourceExport := i.sourceExport, importedAt := i.importedAt, parserName := i.parserName,
    parserVersion := i.parserVersion }

structure AiProject where
  aiProjectId : Uuid
  provider : String
  externalProjectId : Option String
  title : String
  description : Option String
  instructions : Option String
  parserName : String
  parserVersion : String
  deriving DecidableEq, Repr

inductive AiAuthorRole where
  | user | assistant | system | tool
  deriving DecidableEq, Repr

inductive AiContentPart where
  | text (text : String)
  | unknown (providerPartKind : ContentPartKind) (payload : Value)
  deriving DecidableEq, Repr

structure AiMessage where
  externalMessageId : String
  authorRole : AiAuthorRole
  parentMessageId : Option String
  parts : List AiContentPart
  model : Option String
  providerCreatedAt : Option Timestamp
  parserName : String
  parserVersion : String
  deriving DecidableEq, Repr

structure WarningEnvelope where
  code : String
  message : String
  deriving DecidableEq, Repr

structure AiConversation where
  aiConversationId : Uuid
  provider : String
  externalConversationId : Option String
  owner : TenantRef
  projectRef : Option Uuid
  title : Option String
  providerCreatedAt : Option Timestamp
  providerUpdatedAt : Option Timestamp
  messages : List AiMessage
  contentDigest : String
  parserName : String
  parserVersion : String
  warnings : List WarningEnvelope
  deriving DecidableEq, Repr

structure AiConversationFact where
  importProvenance : AiArchiveProvenance
  conversation : AiConversation
  deriving DecidableEq, Repr

structure AiProjectFact where
  importProvenance : AiArchiveProvenance
  project : AiProject
  contentDigest : String
  deriving DecidableEq, Repr

structure AiArchiveTombstone where
  aiArchiveId : Uuid
  owner : TenantRef
  subjectKind : SubjectKind
  subjectId : Uuid
  evidenceRef : BlobRef
  observedAt : Instant
  deriving DecidableEq, Repr, Inhabited

structure PlatformStreamErasureRequested where
  requestRef : Uuid
  owner : TenantRef
  streamSequences : List Nat
  deriving DecidableEq, Repr

inductive OperationStatus where
  | succeeded | partiallySucceeded | failed
  deriving DecidableEq, Repr, Inhabited

structure ImportSummary where
  completeness : AiArchiveCompleteness
  conversationCount : Nat
  messageCount : Nat
  assetCount : Nat
  gapCount : Nat
  warningCount : Nat
  factsTooLarge : Nat
  deriving DecidableEq, Repr

structure OperationReported where
  operationId : Uuid
  status : OperationStatus
  result : Option (Uuid × ImportSummary)
  error : Option String
  warnings : List WarningEnvelope
  deriving DecidableEq, Repr, Inhabited

inductive EventPayload where
  | operationReported (report : OperationReported)
  | archiveImported (head : AiArchiveImport)
  | conversationAdded (fact : AiConversationFact)
  | conversationUpdated (fact : AiConversationFact)
  | projectAdded (fact : AiProjectFact)
  | projectUpdated (fact : AiProjectFact)
  | tombstoned (tombstone : AiArchiveTombstone)
  | streamErasureRequested (command : PlatformStreamErasureRequested)
  deriving DecidableEq, Repr, Inhabited

-- no statement of the service enqueues the two artifact types, so no payload has one of them
inductive EventType where
  | operationReported | archiveImported | conversationAdded | conversationUpdated
  | projectAdded | projectUpdated | artifactAdded | artifactUpdated | subjectTombstoned
  | streamErasureRequested
  deriving DecidableEq, Repr

def EventPayload.eventType : EventPayload → EventType
  | .operationReported _ => .operationReported
  | .archiveImported _ => .archiveImported
  | .conversationAdded _ => .conversationAdded
  | .conversationUpdated _ => .conversationUpdated
  | .projectAdded _ => .projectAdded
  | .projectUpdated _ => .projectUpdated
  | .tombstoned _ => .subjectTombstoned
  | .streamErasureRequested _ => .streamErasureRequested

/-- The document an outbox row stores and the bus carries, without its event and correlation ids: no
modelled statement reads them. -/
structure EventEnvelope where
  occurredAt : Instant
  tenantId : Option TenantRef
  payload : EventPayload
  deriving DecidableEq, Repr, Inhabited

/-- What the digest of a project or head fact is computed from. -/
inductive FactContent where
  | project (project : AiProject)
  /-- The import with `imported_at` removed. -/
  | head (head : AiArchiveImport)
  deriving DecidableEq, Repr

structure Contracts where
  aiProvider : String → Bool
  aiTitle : String → Bool
  aiText : String → Bool
  aiModelName : String → Bool
  entityLocalId : String → Bool
  parserName : String → Bool
  parserVersion : String → Bool
  errorCode : String → Bool
  safeMessage : String → Bool
  aiGapKind : String → Bool
  operationResultKind : String → Bool
  wireTimestamp : Timestamp → Bool
  importValid : AiArchiveImport → Bool
  conversationAddedValid : AiConversationFact → Bool
  conversationUpdatedValid : AiConversationFact → Bool
  projectAddedValid : AiProjectFact → Bool
  projectUpdatedValid : AiProjectFact → Bool
  operationReportValid : OperationReported → Bool
  computeContentDigest : List AiMessage → Option String
  digestOf : FactContent → Option String
  serializedLen : EventEnvelope → Nat

/-- Contracts that reject nothing but an empty title. The digest of a conversation is the text of
its messages, that of a project its title. -/
def Contracts.permissive : Contracts :=
  { aiProvider := fun _ => true, aiTitle := fun title => title ≠ "", aiText := fun _ => true
    aiModelName := fun _ => true, entityLocalId := fun _ => true, parserName := fun _ => true
    parserVersion := fun _ => true, errorCode := fun _ => true, safeMessage := fun _ => true
    aiGapKind := fun _ => true, operationResultKind := fun _ => true
    wireTimestamp := fun _ => true, importValid := fun _ => true
    conversationAddedValid := fun _ => true, conversationUpdatedValid := fun _ => true
    projectAddedValid := fun _ => true, projectUpdatedValid := fun _ => true
    operationReportValid := fun _ => true
    computeContentDigest := fun messages => some ("|".intercalate (messages.map fun message =>
      message.externalMessageId ++ ":" ++ "+".intercalate (message.parts.map fun
        | .text text => text
        | .unknown _ payload => payload.toText)))
    digestOf := fun
      | .project project => some project.title
      | .head _ => some ""
    serializedLen := fun _ => 0 }

def parseText (accepts : String → Bool) (text : String) : Option String :=
  if accepts text then some text else none

def Contracts.wireInstant (contracts : Contracts) (instant : Timestamp) : Option Timestamp :=
  if contracts.wireTimestamp instant then some instant else none

end ChatgptArchive
