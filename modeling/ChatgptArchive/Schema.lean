import ChatgptArchive.Contracts
import ChatgptArchive.Counts
import ChatgptArchive.Table

/-!
# The database schema

The tables of `schema.sql` that the service reads or writes, with the columns a modelled
statement uses, and every foreign key between them. Identities made by `Uuid::now_v7()` come from
one ascending counter, and so do the identities of outbox rows.
-/

namespace ChatgptArchive

inductive AcquisitionMode where
  | consumerExport | eduExport | complianceLog | manualCapture | legacyImport
  deriving DecidableEq, Repr, Inhabited

inductive ImportState where
  | received | hashed | stored | inspected | parsed | reconciled
  | completed | partiallyCompleted | failed | duplicate | quarantined
  deriving DecidableEq, Repr, Inhabited

inductive EntityKind where
  | project | conversation | message | asset
  deriving DecidableEq, Repr, Inhabited

structure AccountRow where
  id : Uuid
  externalRef : String
  deriving DecidableEq, Repr

structure ExportRow where
  id : Uuid
  aiArchiveId : Uuid
  accountId : Uuid
  acquisitionMode : AcquisitionMode
  blobRef : BlobRef
  sha256Hex : String
  byteLength : Nat
  receivedAt : Instant
  deriving DecidableEq, Repr, Inhabited

structure ImportRunRow where
  id : Uuid
  exportId : Option Uuid
  accountRef : String
  acquisitionMode : AcquisitionMode
  mediaType : String
  parserName : Option String
  parserVersion : Option String
  schemaId : Option String
  state : ImportState
  sha256Hex : Option String
  byteLength : Option Nat
  startedAt : Instant
  finishedAt : Option Instant
  deriving DecidableEq, Repr, Inhabited

structure PlatformOperationImportRow where
  operationId : Uuid
  importRunId : Uuid
  exportId : Uuid
  reportedAt : Option Instant
  deriving DecidableEq, Repr, Inhabited

structure ProjectRow where
  id : Uuid
  accountId : Uuid
  externalId : String
  title : Option String
  description : Option String
  instructions : Option String
  firstSeenExport : Option Uuid
  lastSeenExport : Option Uuid
  parserName : Option String
  parserVersion : Option String
  contentDigest : Option ContentDigest
  deriving DecidableEq, Repr

structure ConversationRow where
  id : Uuid
  projectId : Option Uuid
  accountId : Uuid
  externalId : String
  title : Option String
  firstSeenExport : Option Uuid
  lastSeenExport : Option Uuid
  providerCreatedAt : Option Timestamp
  providerUpdatedAt : Option Timestamp
  parserName : Option String
  parserVersion : Option String
  contentDigest : Option ContentDigest
  deriving DecidableEq, Repr

structure MessageRow where
  id : Uuid
  conversationId : Uuid
  externalId : String
  parentMessageId : Option Uuid
  role : MessageRole
  modelSlug : Option String
  sourceOrdinal : Nat
  createdAt : Option Timestamp
  updatedAt : Option Timestamp
  providerMetadata : Value
  deriving DecidableEq, Repr

structure MessageRelationRow where
  id : Uuid
  fromMessageId : Uuid
  toMessageId : Uuid
  observedInExport : Option Uuid
  deriving DecidableEq, Repr, Inhabited

structure ContentPartRow where
  id : Uuid
  messageId : Uuid
  revision : Nat
  ordinal : Nat
  partKind : ContentPartKind
  payload : Value
  blobRef : Option BlobRef
  deriving DecidableEq, Repr, Inhabited

structure AssetRow where
  id : Uuid
  blobRef : Option BlobRef
  observedIn : Option Uuid
  deriving DecidableEq, Repr, Inhabited

structure RevisionRow where
  id : Uuid
  entityId : Uuid
  revisionNumber : Nat
  observedIn : Uuid
  digest : ContentDigest
  parserName : String
  parserVersion : String
  deriving DecidableEq, Repr, Inhabited

structure RawRecordRow where
  id : Uuid
  exportId : Uuid
  deriving DecidableEq, Repr, Inhabited

structure ObservationRow where
  exportId : Uuid
  kind : EntityKind
  entityId : Uuid
  contentDigest : Option ContentDigest
  deriving DecidableEq, Repr, Inhabited

structure EntityVersionRow where
  kind : EntityKind
  entityId : Uuid
  contentDigest : ContentDigest
  snapshot : Snapshot
  deriving DecidableEq, Repr

structure ExtractedArtifactRow where
  id : Uuid
  exportId : Uuid
  artifactOrdinal : Nat
  blobRef : BlobRef
  deriving DecidableEq, Repr, Inhabited

structure CompletenessReportRow where
  id : Uuid
  importRunId : Uuid
  status : AiArchiveCompleteness
  counts : Value
  warnings : Value
  gaps : List AiGap
  missingAssets : Nat
  unknownVariants : Nat
  deriving DecidableEq, Repr, Inhabited

/-- The texts that make an outbox insert idempotent, by the format they are written in. -/
inductive DeduplicationKey where
  | fact (eventType : EventType) (aggregateId : Uuid) (digest : String)
  | reannounce (requestId : Uuid) (eventType : EventType) (aggregateId : Uuid)
  | privacyDelete (requestId : Uuid) (kind : SubjectKind) (subjectId : Uuid) (owner : TenantRef)
  | streamErasure (requestId : Uuid) (owner : TenantRef) (chunk : Nat)
  /-- The pump's own erasure command; the row's id stands for the event id of its envelope. -/
  | reconcileErasure (eventId chunk : Nat)
  | operationReported (operationId : Uuid)
  deriving DecidableEq, Repr

structure OutboxEventRow where
  id : Nat
  aggregateId : Uuid
  tenantId : Option Uuid
  exportId : Option Uuid
  envelope : EventEnvelope
  deduplicationKey : Option DeduplicationKey
  publishedAt : Option Instant
  attemptCount : Nat
  /-- When the row may be tried again; a row that never failed has waited since it was stored. -/
  nextAttemptAt : Option Instant
  undeliverableAt : Option Instant
  acknowledgedAt : Option Instant
  resendCount : Nat
  nextResendAt : Option Instant
  publishedStreamSeqs : List Nat
  deriving DecidableEq, Repr, Inhabited

def OutboxEventRow.eventType (row : OutboxEventRow) : EventType := row.envelope.payload.eventType

structure AnnouncedSubjectRow where
  subjectKind : SubjectKind
  subjectId : Uuid
  aiArchiveId : Uuid
  ownerRef : TenantRef
  accountId : Uuid
  announcedAt : Instant
  deriving DecidableEq, Repr

structure InboxEventRow where
  id : Nat
  tenantId : Option Uuid
  exportId : Option Uuid
  deriving DecidableEq, Repr, Inhabited

inductive PrivacyDeletionScope where
  | archive (aiArchiveId : Uuid)
  | conversation (conversationId : Uuid)
  | tenant
  deriving DecidableEq, Repr

inductive DeletionAction where
  | erase | remove | retainShared | retainEvidenced | emitTombstone
  deriving DecidableEq, Repr

inductive ItemState where
  | planned | purged | retained | finalized | failed
  deriving DecidableEq, Repr

inductive RequestStatus where
  | planned | purging | completed | failed
  deriving DecidableEq, Repr

inductive Category where
  | account | asset | assetBlob | completenessReport | contentPart | contentPartBlob
  | conversation | downstreamTombstone | export | exportObservation | extractedArtifact
  | extractedArtifactBlob | importRun | inboxEvent | message | messageRelation | outboxEvent
  | platformOperationImport | project | rawArchiveBlob | rawRecord | reparseRun | revision
  deriving DecidableEq, Repr

/-- The opaque identity of an inventory item, by the format it is written in. -/
inductive OpaqueId where
  | uuid (id : Uuid)
  | serial (id : Nat)
  | observation (exportId : Uuid) (kind : EntityKind) (entityId : Uuid)
  | subject (kind : SubjectKind) (id : Uuid)
  deriving DecidableEq, Repr

structure PrivacyDeletionRequestRow where
  id : Uuid
  tenantId : Uuid
  scope : PrivacyDeletionScope
  status : RequestStatus
  correlationId : Option Uuid
  evidenceRef : Option BlobRef
  rowsRemovedAt : Option Instant
  deriving DecidableEq, Repr

structure PrivacyDeletionItemRow where
  requestId : Uuid
  ordinal : Nat
  category : Category
  opaqueId : OpaqueId
  action : DeletionAction
  state : ItemState
  blobRef : Option BlobRef
  deriving DecidableEq, Repr

structure PrivacyDeletionAuditRow where
  id : Uuid
  requestId : Uuid
  tenantId : Uuid
  evidenceRef : Option BlobRef
  deriving DecidableEq, Repr

/-- An applied reparse. The two fingerprints are kept as the lists they are computed from: the
compatible parsers, and the export's observed versions the plan was made over. -/
structure ReparseRunRow where
  id : Uuid
  tenantId : Uuid
  exportId : Uuid
  parser : ParserId
  rawSha256Hex : String
  registryFingerprint : List ParserId
  inputProjection : List (String × Option ContentDigest)
  deriving DecidableEq, Repr, Inhabited

structure Database where
  accounts : List AccountRow
  exports : List ExportRow
  importRuns : List ImportRunRow
  platformOperationImports : List PlatformOperationImportRow
  projects : List ProjectRow
  conversations : List ConversationRow
  messages : List MessageRow
  messageRelations : List MessageRelationRow
  contentParts : List ContentPartRow
  assets : List AssetRow
  revisions : List RevisionRow
  rawRecords : List RawRecordRow
  observations : List ObservationRow
  entityVersions : List EntityVersionRow
  extractedArtifacts : List ExtractedArtifactRow
  completenessReports : List CompletenessReportRow
  outboxEvents : List OutboxEventRow
  announcedSubjects : List AnnouncedSubjectRow
  inboxEvents : List InboxEventRow
  privacyDeletionRequests : List PrivacyDeletionRequestRow
  privacyDeletionItems : List PrivacyDeletionItemRow
  privacyDeletionAudits : List PrivacyDeletionAuditRow
  reparseRuns : List ReparseRunRow
  nextUuid : Uuid
  nextOutboxId : Nat
  deriving DecidableEq, Repr

def Database.empty : Database where
  accounts := []
  exports := []
  importRuns := []
  platformOperationImports := []
  projects := []
  conversations := []
  messages := []
  messageRelations := []
  contentParts := []
  assets := []
  revisions := []
  rawRecords := []
  observations := []
  entityVersions := []
  extractedArtifacts := []
  completenessReports := []
  outboxEvents := []
  announcedSubjects := []
  inboxEvents := []
  privacyDeletionRequests := []
  privacyDeletionItems := []
  privacyDeletionAudits := []
  reparseRuns := []
  nextUuid := 0
  nextOutboxId := 0

end ChatgptArchive
