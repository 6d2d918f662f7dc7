import ChatgptArchive.PrivacyDeletion.Reannounce

/-!
# Removing the rows of a deletion

Phase A: one transaction removes the scoped rows, dependents first, repoints the provenance of the
rows that stay, restores them to what retained exports hold and queues the tombstones. The
constraints are checked at the end of every statement.
-/

namespace ChatgptArchive

open Table

structure Announcement where
  kind : SubjectKind
  subjectId : Uuid
  owners : List (TenantRef × Uuid)
  deriving DecidableEq, Repr

abbrev PublishedFacts := List (TenantRef × Nat)

def contentBearing : EventType → Bool
  | .archiveImported | .conversationAdded | .conversationUpdated | .projectAdded
  | .projectUpdated | .artifactAdded | .artifactUpdated => true
  | _ => false

namespace Database

def checked (db : Database) : Except PrivacyDeletionError Database :=
  -- the end of a statement: dangling references abort the transaction
  if db.danglingReferences = [] then .ok db else .error (.foreignKey db.danglingReferences)

def runStatements : List (Database → Database) → Database → Except PrivacyDeletionError Database
  | [], db => .ok db
  | statement :: statements, db => do
    let db ← (statement db).checked
    runStatements statements db

def serialItemIds (db : Database) (requestId : Uuid) (category : Category) : List Nat :=
  (db.privacyDeletionItems.filter fun i =>
    i.requestId = requestId && i.category = category && i.action = .remove).filterMap fun i =>
      match i.opaqueId with
      | .serial id => some id
      | _ => none

/-! ## The statements -/

def deleteRawRecords (ids : List Uuid) (db : Database) : Database :=
  { db with rawRecords := deleteWhere (fun r => ids.contains r.id) db.rawRecords }

def deleteOperationImports (exports : List Uuid) (db : Database) : Database :=
  { db with
    platformOperationImports :=
      deleteWhere (db.boundToExports exports) db.platformOperationImports }

def deleteReparseRuns (exports : List Uuid) (db : Database) : Database :=
  { db with reparseRuns := deleteWhere (fun r => exports.contains r.exportId) db.reparseRuns }

def deleteCompletenessReports (ids : List Uuid) (db : Database) : Database :=
  { db with
    completenessReports := deleteWhere (fun r => ids.contains r.id) db.completenessReports }

def deleteMessageRelations (ids : List Uuid) (db : Database) : Database :=
  { db with messageRelations := deleteWhere (fun r => ids.contains r.id) db.messageRelations }

def deleteContentParts (ids : List Uuid) (db : Database) : Database :=
  { db with contentParts := deleteWhere (fun r => ids.contains r.id) db.contentParts }

def deleteRevisions (ids : List Uuid) (db : Database) : Database :=
  { db with revisions := deleteWhere (fun r => ids.contains r.id) db.revisions }

def deleteAssets (ids : List Uuid) (db : Database) : Database :=
  { db with assets := deleteWhere (fun r => ids.contains r.id) db.assets }

def deleteMessages (ids : List Uuid) (db : Database) : Database :=
  { db with messages := deleteWhere (fun r => ids.contains r.id) db.messages }

def deleteConversations (ids : List Uuid) (db : Database) : Database :=
  { db with conversations := deleteWhere (fun r => ids.contains r.id) db.conversations }

def unlinkProjects (ids : List Uuid) (db : Database) : Database :=
  -- a conversation that survives must not point at a project this deletion removes
  { db with
    conversations := updateWhere (fun c => c.projectId.any ids.contains)
      (fun c => { c with projectId := none }) db.conversations }

def deleteProjects (ids : List Uuid) (db : Database) : Database :=
  { db with projects := deleteWhere (fun r => ids.contains r.id) db.projects }

def deleteExtractedArtifacts (ids : List Uuid) (db : Database) : Database :=
  { db with
    extractedArtifacts := deleteWhere (fun r => ids.contains r.id) db.extractedArtifacts }

def deleteImportRuns (ids : List Uuid) (db : Database) : Database :=
  { db with importRuns := deleteWhere (fun r => ids.contains r.id) db.importRuns }

def deleteInboxEvents (ids : List Nat) (db : Database) : Database :=
  { db with inboxEvents := deleteWhere (fun r => ids.contains r.id) db.inboxEvents }

def droppedFact (ids : List Nat) (exports : List Uuid) (e : OutboxEventRow) : Bool :=
  -- the outbox rows a deletion drops: the listed ones and every row bound to a deleted export
  ids.contains e.id || e.exportId.any exports.contains

def dropPublishedFactRows (ids : List Nat) (exports : List Uuid) (db : Database) : Database :=
  { db with outboxEvents := deleteWhere (droppedFact ids exports) db.outboxEvents }

def retainedObservers (db : Database) (exports : List Uuid) (kind : EntityKind) (id : Uuid) :
    List Uuid :=
  ((db.observations.filter fun o => o.kind = kind && o.entityId = id &&
    !exports.contains o.exportId).map (·.exportId)).insertionSort (· ≤ ·)

def repointProjects (exports : List Uuid) (db : Database) : Database :=
  { db with
    projects := updateWhere
      (fun p => p.firstSeenExport.any exports.contains || p.lastSeenExport.any exports.contains)
      (fun p => { p with
        firstSeenExport := (db.retainedObservers exports .project p.id).head?
        lastSeenExport := (db.retainedObservers exports .project p.id).getLast? }) db.projects }

def repointConversations (exports : List Uuid) (db : Database) : Database :=
  { db with
    conversations := updateWhere
      (fun c => c.firstSeenExport.any exports.contains || c.lastSeenExport.any exports.contains)
      (fun c => { c with
        firstSeenExport := (db.retainedObservers exports .conversation c.id).head?
        lastSeenExport := (db.retainedObservers exports .conversation c.id).getLast? })
      db.conversations }

def repointAssets (exports : List Uuid) (db : Database) : Database :=
  { db with
    assets := updateWhere (fun a => a.observedIn.any exports.contains)
      (fun a => { a with observedIn := (db.retainedObservers exports .asset a.id).head? })
      db.assets }

def deleteObservations (exports : List Uuid) (db : Database) : Database :=
  { db with
    observations := deleteWhere (fun o => exports.contains o.exportId) db.observations }

def deleteExports (exports : List Uuid) (db : Database) : Database :=
  -- deleting an export cascades to its observations, artifacts, outbox and inbox rows
  { db with
    exports := deleteWhere (fun e => exports.contains e.id) db.exports
    observations := deleteWhere (fun o => exports.contains o.exportId) db.observations
    extractedArtifacts :=
      deleteWhere (fun a => exports.contains a.exportId) db.extractedArtifacts
    outboxEvents := deleteWhere (fun e => e.exportId.any exports.contains) db.outboxEvents
    inboxEvents := deleteWhere (fun e => e.exportId.any exports.contains) db.inboxEvents }

def deleteAccount (tenantId : Uuid) (db : Database) : Database :=
  -- deleting an account cascades to its announced subjects
  { db with
    accounts := deleteWhere (fun a => a.id = tenantId) db.accounts
    announcedSubjects := deleteWhere (fun a => a.accountId = tenantId) db.announcedSubjects }

def dependentStatements (removed : Category → List Uuid) (inbox : List Nat) :
    List (Database → Database) :=
  -- the statements up to the removal of the inbox rows, in order. `removed` holds the identities
  -- the inventory plans to remove, by category
  [deleteOperationImports (removed .export), deleteReparseRuns (removed .export),
    deleteCompletenessReports (removed .completenessReport),
    deleteMessageRelations (removed .messageRelation),
    deleteContentParts (removed .contentPart), deleteRevisions (removed .revision),
    deleteAssets (removed .asset), deleteMessages (removed .message),
    deleteConversations (removed .conversation), unlinkProjects (removed .project),
    deleteProjects (removed .project), deleteExtractedArtifacts (removed .extractedArtifact),
    deleteImportRuns (removed .importRun), deleteInboxEvents inbox]

def exportStatements (removed : Category → List Uuid) (outbox : List Nat) (tenantId : Uuid) :
    List (Database → Database) :=
  [dropPublishedFactRows outbox (removed .export), repointProjects (removed .export),
    repointConversations (removed .export), repointAssets (removed .export),
    deleteObservations (removed .export), deleteExports (removed .export)] ++
    if (removed .account).isEmpty then [] else [deleteAccount tenantId]

def publishedFacts (db : Database) (ids : List Nat) (exports : List Uuid) : PublishedFacts :=
  -- the sequences of the published, content-bearing facts among the dropped rows
  (db.outboxEvents.filter fun e => droppedFact ids exports e && contentBearing e.eventType).flatMap
    fun e => e.envelope.tenantId.toList.flatMap fun owner =>
      e.publishedStreamSeqs.map fun sequence => (owner, sequence)

def deleteScopedRows (db : Database) (requestId tenantId : Uuid) :
    Except PrivacyDeletionError (Database × PublishedFacts) := do
  let removed (category : Category) : List Uuid := db.itemIds requestId category .remove
  let outbox := db.serialItemIds requestId .outboxEvent
  let dependent ← runStatements
    (dependentStatements removed (db.serialItemIds requestId .inboxEvent)) db
  let dropped := dependent.publishedFacts outbox (removed .export)
  let db ← runStatements (exportStatements removed outbox tenantId) dependent
  return (db, dropped)

/-! ## Tombstones and erasure commands -/

def tombstoneSubjects (db : Database) (requestId : Uuid) : List (SubjectKind × Uuid) :=
  (db.privacyDeletionItems.filter fun i =>
    i.requestId = requestId && i.category = .downstreamTombstone).filterMap fun i =>
      match i.opaqueId with
      | .subject kind id => some (kind, id)
      | _ => none

def readAnnouncements (db : Database) (tenantId requestId : Uuid) : List Announcement :=
  -- the ledger is read before the rows go: the rows of an account go with it
  (db.tombstoneSubjects requestId).map fun (kind, subjectId) =>
    { kind, subjectId, owners := db.ownersOf tenantId kind subjectId }

def enqueueTombstones (now : Instant) (tenantId requestId : Uuid) (evidenceRef : BlobRef)
    (kind : SubjectKind) (subjectId : Uuid) : Database → List (TenantRef × Uuid) → Database
  | db, [] => db
  | db, (owner, archiveId) :: owners =>
    let event := NormalizedArchiveEvent.tombstoned
      { aiArchiveId := archiveId, owner, subjectKind := kind, subjectId, evidenceRef
        observedAt := now }
    enqueueTombstones now tenantId requestId evidenceRef kind subjectId
      (db.enqueueNormalizedEvent now event
        { accountId := tenantId, exportId := none
          deduplicationKey := .privacyDelete requestId kind subjectId owner }).2 owners

def finalizeTombstone (db : Database) (requestId : Uuid) (kind : SubjectKind) (subjectId : Uuid) :
    Database :=
  { db with
    privacyDeletionItems := updateWhere
      (fun i => i.requestId = requestId && i.category = .downstreamTombstone &&
        i.opaqueId = .subject kind subjectId)
      (fun i => { i with state := .finalized }) db.privacyDeletionItems }

def insertTombstones (now : Instant) (tenantId requestId : Uuid) (evidenceRef : BlobRef) :
    Database → List Announcement → Database
  -- one tombstone per subject and owner; the ledger rows of the subject go with it
  | db, [] => db
  | db, announcement :: announcements =>
    let db := enqueueTombstones now tenantId requestId evidenceRef announcement.kind
      announcement.subjectId db announcement.owners
    let db := db.forgetSubject tenantId announcement.kind announcement.subjectId
    insertTombstones now tenantId requestId evidenceRef
      (db.finalizeTombstone requestId announcement.kind announcement.subjectId) announcements

def PublishedFacts.sequencesOf (facts : PublishedFacts) (owner : TenantRef) : List Nat :=
  ascending ((facts.filter fun fact => fact.1 = owner).map (·.2))

def enqueueOwnerErasure (now : Instant) (requestRef : Uuid) (accountId : Option Uuid)
    (owner : TenantRef) (key : Nat → DeduplicationKey) :
    Database → List (List Nat × Nat) → Database
  | db, [] => db
  | db, (sequences, chunk) :: chunks =>
    enqueueOwnerErasure now requestRef accountId owner key
      (db.insertOutboxEvent requestRef accountId none
        { occurredAt := now, tenantId := some owner
          payload := .streamErasureRequested
            { requestRef, owner, streamSequences := sequences } } (key chunk)).2 chunks

def enqueueErasureChunks (now : Instant) (tenantId requestId : Uuid) (owner : TenantRef) :
    Database → List (List Nat × Nat) → Database :=
  enqueueOwnerErasure now requestId (some tenantId) owner (.streamErasure requestId owner)

def enqueueErasureCommands (now : Instant) (tenantId requestId : Uuid) (facts : PublishedFacts)
    (db : Database) : Database :=
  (ascending (facts.map fun fact => fact.1.user)).foldl (fun db user =>
    enqueueErasureChunks now tenantId requestId ⟨user⟩ db
      ((PublishedFacts.sequencesOf facts ⟨user⟩).toChunks 500).zipIdx) db

/-! ## Sharing of blobs -/

def blobIsReferenced (db : Database) (blobRef : BlobRef) : Bool :=
  (db.exports.any fun e => e.blobRef = blobRef) ||
    (db.extractedArtifacts.any fun a => a.blobRef = blobRef) ||
    (db.assets.any fun a => a.blobRef = some blobRef) ||
    db.contentParts.any fun p => p.blobRef = some blobRef

def recomputeBlobSharing (db : Database) (requestId : Uuid) : Database :=
  -- decides every blob item again against the rows that remain
  { db with
    privacyDeletionItems := updateWhere
      (fun i => i.requestId = requestId && i.blobRef.isSome && i.state ≠ .purged)
      (fun i => if i.blobRef.any db.blobIsReferenced
        then { i with action := .retainShared, state := .retained }
        else { i with action := .erase, state := .planned }) db.privacyDeletionItems }

def markPurging (db : Database) (now : Instant) (requestId : Uuid) (evidenceRef : BlobRef) :
    Database :=
  { db with
    privacyDeletionRequests := updateWhere (fun r => r.id = requestId)
      (fun r => { r with
        status := .purging, rowsRemovedAt := some now, evidenceRef := some evidenceRef })
      db.privacyDeletionRequests }

def finishRemoval (contracts : Contracts) (now : Instant) (evidenceRef : BlobRef)
    (requestId tenantId : Uuid) (survivors : Survivors) (announcements : List Announcement)
    (dropped : PublishedFacts) (db : Database) : Except PrivacyDeletionError Database := do
  let db ← db.restoreRetainedVersions tenantId
  let db ← db.checked
  let db := insertTombstones now tenantId requestId evidenceRef db announcements
  let db := db.enqueueErasureCommands now tenantId requestId dropped
  let db ← (db.reannounce contracts requestId tenantId now survivors).mapError .projection
  let db ← (db.recomputeBlobSharing requestId).checked
  return db.markPurging now requestId evidenceRef

def removeRows (contracts : Contracts) (now : Instant) (evidenceRef : BlobRef) (db : Database)
    (requestId : Uuid) : Except PrivacyDeletionError Database :=
  -- Phase A. A request that is not `planned` any more is left alone
  match db.privacyDeletionRequests.find? fun r => r.id = requestId with
  | none => .error .conflict
  | some request =>
    if request.status ≠ .planned then .ok db
    else do
      let db ← (db.deleteRawRecords (db.itemIds requestId .rawRecord .remove)).checked
      let survivors := db.findSurvivors requestId
      let announcements := db.readAnnouncements request.tenantId requestId
      let (db, dropped) ← db.deleteScopedRows requestId request.tenantId
      db.finishRemoval contracts now evidenceRef requestId request.tenantId survivors announcements
        dropped

def complete (db : Database) (requestId : Uuid) : Database :=
  -- Phase C: the audit, the completion and the removal of the items, together
  match db.privacyDeletionRequests.find? fun r => r.id = requestId with
  | none => db
  | some request =>
    if request.status = .completed then db
    else
      let (id, db) := db.freshUuid
      { db with
        privacyDeletionAudits := db.privacyDeletionAudits ++ [{
          id, requestId, tenantId := request.tenantId, evidenceRef := request.evidenceRef }]
        privacyDeletionRequests := updateWhere (fun r => r.id = requestId)
          (fun r => { r with status := .completed }) db.privacyDeletionRequests
        privacyDeletionItems :=
          deleteWhere (fun i => i.requestId = requestId) db.privacyDeletionItems }

end Database

end ChatgptArchive
