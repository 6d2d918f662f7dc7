import ChatgptArchive.Schema

/-!
# The transactional outbox and the ledger of announced subjects

A fact is stored once per deduplication key. The subject a stored fact announces is recorded in
the same statement sequence, under the owner the fact names.
-/

namespace ChatgptArchive

structure AnnouncedSubject where
  kind : SubjectKind
  subjectId : Uuid
  aiArchiveId : Uuid
  owner : TenantRef
  deriving DecidableEq, Repr, Inhabited

structure NormalizedArchiveEvent where
  aggregateId : Uuid
  envelope : EventEnvelope
  announced : Option AnnouncedSubject
  deriving DecidableEq, Repr

def NormalizedArchiveEvent.eventType (event : NormalizedArchiveEvent) : EventType :=
  event.envelope.payload.eventType

structure OutboxPlacement where
  accountId : Uuid
  exportId : Option Uuid
  deduplicationKey : DeduplicationKey
  deriving DecidableEq, Repr

inductive OutboxError where
  | invalidProvenance
  deriving DecidableEq, Repr

namespace NormalizedArchiveEvent

def archiveImported (head : AiArchiveImport) : NormalizedArchiveEvent :=
  { aggregateId := head.aiArchiveId
    envelope :=
      { occurredAt := head.importedAt, tenantId := some head.owner
        payload := .archiveImported head }
    announced := some ⟨.archive, head.aiArchiveId, head.aiArchiveId, head.owner⟩ }

def ofConversation (payload : AiConversationFact → EventPayload) (fact : AiConversationFact) :
    NormalizedArchiveEvent :=
  { aggregateId := fact.conversation.aiConversationId
    envelope :=
      { occurredAt := fact.importProvenance.importedAt, tenantId := some fact.conversation.owner
        payload := payload fact }
    announced := some ⟨.conversation, fact.conversation.aiConversationId,
      fact.importProvenance.aiArchiveId, fact.conversation.owner⟩ }

variable (contracts : Contracts)

def conversationAdded (fact : AiConversationFact) :
    Except OutboxError NormalizedArchiveEvent :=
  if contracts.conversationAddedValid fact then .ok (ofConversation .conversationAdded fact)
  else .error .invalidProvenance

def conversationUpdated (fact : AiConversationFact) :
    Except OutboxError NormalizedArchiveEvent :=
  if contracts.conversationUpdatedValid fact then .ok (ofConversation .conversationUpdated fact)
  else .error .invalidProvenance

def ofProject (payload : AiProjectFact → EventPayload) (fact : AiProjectFact) :
    NormalizedArchiveEvent :=
  { aggregateId := fact.project.aiProjectId
    envelope :=
      { occurredAt := fact.importProvenance.importedAt
        tenantId := some fact.importProvenance.owner, payload := payload fact }
    announced := some ⟨.project, fact.project.aiProjectId,
      fact.importProvenance.aiArchiveId, fact.importProvenance.owner⟩ }

def projectAdded (fact : AiProjectFact) :
    Except OutboxError NormalizedArchiveEvent :=
  if contracts.projectAddedValid fact then .ok (ofProject .projectAdded fact)
  else .error .invalidProvenance

def projectUpdated (fact : AiProjectFact) :
    Except OutboxError NormalizedArchiveEvent :=
  if contracts.projectUpdatedValid fact then .ok (ofProject .projectUpdated fact)
  else .error .invalidProvenance

def tombstoned (tombstone : AiArchiveTombstone) : NormalizedArchiveEvent :=
  { aggregateId := tombstone.aiArchiveId
    envelope :=
      { occurredAt := tombstone.observedAt, tenantId := some tombstone.owner
        payload := .tombstoned tombstone }
    announced := none }

def occurringAt (event : NormalizedArchiveEvent) (occurredAt : Instant) : NormalizedArchiveEvent :=
  { event with envelope := { event.envelope with occurredAt } }

end NormalizedArchiveEvent

namespace Database

/-! ## The ledger -/

variable (db : Database)

def recordAnnounced (subject : AnnouncedSubject) (accountId : Uuid)
    (now : Instant) : Database :=
  -- records the announcement. A subject announced again under the same owner adds nothing
  { db with
    announcedSubjects := Table.insertAbsent
      (fun a => a.subjectKind = subject.kind && a.subjectId = subject.subjectId &&
        a.ownerRef = subject.owner)
      { subjectKind := subject.kind, subjectId := subject.subjectId
        aiArchiveId := subject.aiArchiveId, ownerRef := subject.owner, accountId
        announcedAt := now } db.announcedSubjects }

def ownersOf (accountId : Uuid) (kind : SubjectKind) (subjectId : Uuid) :
    List (TenantRef × Uuid) :=
  -- the owners one subject was announced under, each with the archive it was announced under
  ((db.announcedSubjects.filter fun a =>
      a.accountId = accountId && a.subjectKind = kind && a.subjectId = subjectId).insertionSort
    fun a b => a.ownerRef.user ≤ b.ownerRef.user).map fun a => (a.ownerRef, a.aiArchiveId)

def forgetSubject (accountId : Uuid) (kind : SubjectKind) (subjectId : Uuid) :
    Database :=
  { db with
    announcedSubjects := Table.deleteWhere
      (fun a => a.accountId = accountId && a.subjectKind = kind && a.subjectId = subjectId)
      db.announcedSubjects }

def ownerOfArchive (aiArchiveId : Uuid) : Option TenantRef :=
  -- the owner the archive was most recently announced under, when it was announced
  ((db.announcedSubjects.filter fun a =>
      a.subjectKind = .archive && a.subjectId = aiArchiveId).insertionSort
    fun a b => b.announcedAt < a.announcedAt ∨
      (b.announcedAt = a.announcedAt ∧ b.ownerRef.user ≤ a.ownerRef.user)).head?.map (·.ownerRef)

/-! ## The outbox -/

def hasDeduplicationKey (key : DeduplicationKey) : Bool :=
  db.outboxEvents.any fun e => e.deduplicationKey = some key

def insertOutboxEvent (aggregateId : Uuid) (tenantId exportId : Option Uuid)
    (envelope : EventEnvelope) (key : DeduplicationKey) : Bool × Database :=
  -- inserts an outbox row unless its deduplication key is taken, and says whether it did. The
  -- identity column advances either way
  let row : OutboxEventRow :=
    { id := db.nextOutboxId, aggregateId, tenantId, exportId, envelope
      deduplicationKey := some key, publishedAt := none, attemptCount := 0, nextAttemptAt := none
      undeliverableAt := none, acknowledgedAt := none, resendCount := 0, nextResendAt := none
      publishedStreamSeqs := [] }
  let db' := { db with nextOutboxId := db.nextOutboxId + 1 }
  if db.hasDeduplicationKey key then (false, db')
  else (true, { db' with outboxEvents := db.outboxEvents ++ [row] })

def enqueueNormalizedEvent (now : Instant) (event : NormalizedArchiveEvent)
    (placement : OutboxPlacement) : Bool × Database :=
  let (added, db) := db.insertOutboxEvent event.aggregateId (some placement.accountId)
    placement.exportId event.envelope placement.deduplicationKey
  match added, event.announced with
  | true, some subject => (true, db.recordAnnounced subject placement.accountId now)
  | _, _ => (added, db)

end Database

end ChatgptArchive
