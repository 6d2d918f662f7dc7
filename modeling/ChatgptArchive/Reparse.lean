import ChatgptArchive.ContractProjection

/-!
# Persisting a plan

What the initial import and an applied reparse write of a plan: the extracted artifacts and the
projection of the parse into the shared rows. `commitReparse` replays a retained archive under a
newer parser; what the parser makes of the archive is an input.
-/

namespace ChatgptArchive

/-- The inputs of a plan that reach the database. The fingerprints of the source are kept as what
they are computed from: the compatible parsers of the registry, and the versions the export's
observations name. -/
structure ReparsePlan where
  tenantId : Uuid
  exportId : Uuid
  archiveId : Uuid
  targetParser : ParserId
  rawDigest : String
  registryFingerprint : List ParserId
  inputProjection : List (String × Option ContentDigest)
  artifacts : List BlobRef
  parsed : ParsedConversations
  deriving DecidableEq, Repr

inductive ReparseError where
  | conflict
  | store
  | intake
  | parserFailed
  | parserStorage
  | encode
  | blobUnavailableRoot
  | blobInvalidMediaType
  | blobStream
  | blobMissing
  | report
  | projection (error : ProjectionError)
  | blobUnavailable
  deriving DecidableEq, Repr

def ofProjection {α : Type} : Except ProjectionError α → Except ReparseError α
  | .ok a => .ok a
  | .error e => .error (.projection e)

theorem ofProjection_eq_ok {α : Type} {x : Except ProjectionError α} {a : α} :
    ofProjection x = .ok a ↔ x = .ok a := by
  cases x <;> simp [ofProjection]

def newConversation (id tenantId : Uuid) (externalId : String) : ConversationRow :=
  -- the row an insert of a conversation makes; its header follows in the same transaction
  { id, projectId := none, accountId := tenantId, externalId, title := none
    firstSeenExport := none, lastSeenExport := none
    providerCreatedAt := none, providerUpdatedAt := none
    parserName := none, parserVersion := none, contentDigest := none }

def presentedConversation (plan : ReparsePlan) (conversation : ParsedConversation) :
    ConversationVersion :=
  { conversation, projectExternalId := projectExternalIdOf plan.parsed conversation.externalId
    parserName := plan.targetParser.name, parserVersion := plan.targetParser.version }

namespace Database

def insertArtifact (exportId : Uuid) (db : Database) (blobRef : BlobRef) (artifactOrdinal : Nat) :
    Database :=
  let (id, db) := db.freshUuid
  { db with
    extractedArtifacts := Table.insertAbsent
      (fun a => a.exportId = exportId && a.artifactOrdinal = artifactOrdinal)
      { id, exportId, artifactOrdinal, blobRef } db.extractedArtifacts }

def insertArtifacts (exportId : Uuid) : Database → List (BlobRef × Nat) → Database
  | db, [] => db
  | db, (blobRef, artifactOrdinal) :: references =>
    insertArtifacts exportId (insertArtifact exportId db blobRef artifactOrdinal) references

variable (db : Database)

def persistArtifacts (plan : ReparsePlan) : Database :=
  insertArtifacts plan.exportId db plan.artifacts.zipIdx

def upsertConversation (tenantId : Uuid) (externalId : String) :
    ConversationRow × Database :=
  -- one row per provider conversation id for the account. The returned row is the one found or
  -- created; its digest names the content it held before
  let (id, db) := db.freshUuid
  let (row, conversations) := Table.upsert
    (fun c => c.accountId = tenantId && c.externalId = externalId)
    (newConversation id tenantId externalId) (fun c => c) db.conversations
  (row, { db with conversations })

def markConversationSeen (conversationId exportId : Uuid) : Database :=
  { db with
    conversations := Table.updateWhere (fun c => c.id = conversationId)
      (fun c => { c with
        firstSeenExport := c.firstSeenExport.or (some exportId)
        lastSeenExport := some exportId }) db.conversations }

def observePresented (exportId conversationId : Uuid) (presented : List String) :
    Database :=
  ((db.messages.filter fun m =>
      m.conversationId = conversationId && presented.contains m.externalId).map (·.id)).foldl
    (fun db messageId => db.observeMessage exportId messageId) db

def persistConversation (plan : ReparsePlan) (projects : IdMap)
    (conversation : ParsedConversation) : Database :=
  -- one conversation of a plan: an unchanged one is only observed, every other one is rewritten
  let digest := conversationDigest conversation
  let (row, db) := db.upsertConversation plan.tenantId conversation.externalId
  let db := db.observe plan.exportId .conversation row.id digest
  if row.contentDigest = some digest then
    let db := db.markConversationSeen row.id plan.exportId
    db.observePresented plan.exportId row.id (conversation.messages.map (·.externalId))
  else
    let parser := plan.targetParser
    let db := db.appendRevision row.id plan.exportId digest parser
    let db := db.keepConversationVersion row.id digest (presentedConversation plan conversation)
    db.persistConversationDetail plan.exportId row.id
      (projectOfConversation plan.parsed projects conversation.externalId) conversation parser

def persistConversations (plan : ReparsePlan) (projects : IdMap) :
    Database → List ParsedConversation → Database
  | db, [] => db
  | db, conversation :: conversations =>
    persistConversations plan projects (db.persistConversation plan projects conversation)
      conversations

def persistProjection (plan : ReparsePlan) : Database :=
  let (db, projects) := persistProjects plan.tenantId plan.exportId plan.targetParser db []
    plan.parsed.projects
  persistConversations plan projects db plan.parsed.conversations

/-! ## Replaying a retained archive -/

def currentProjection (exportId : Uuid) : List (String × Option ContentDigest) :=
  -- the versions an export's conversation observations name, by provider id
  ((db.conversations.flatMap fun c =>
      (db.observations.filter fun o =>
        o.exportId = exportId && o.kind = .conversation && o.entityId = c.id).map
          fun o => (c.externalId, o.contentDigest))).insertionSort fun a b => a.1 ≤ b.1

def privacyBlocked (tenantId : Uuid) : Bool :=
  db.privacyDeletionRequests.any fun r => r.tenantId = tenantId && r.status ≠ .completed

def hasCurrentParser (exportId : Uuid) : Bool :=
  (db.importRuns.any fun r =>
      r.exportId = some exportId && r.parserName.isSome && r.parserVersion.isSome) ||
    db.reparseRuns.any fun r => r.exportId = exportId

def reparsePlan (tenantId archiveId : Uuid)
    (inputProjection : List (String × Option ContentDigest)) (registryFingerprint : List ParserId)
    (parsed : ParsedConversations) (artifacts : List BlobRef) : Except ReparseError ReparsePlan :=
  match db.exports.find? fun e => e.accountId = tenantId && e.aiArchiveId = archiveId with
  | none => .error .conflict
  | some row =>
    if db.hasCurrentParser row.id then
      .ok { tenantId, exportId := row.id, archiveId, targetParser := parsed.parser
            rawDigest := row.blobRef.digest, registryFingerprint, inputProjection, artifacts
            parsed }
    else .error .conflict

def hasPriorReport (plan : ReparsePlan) : Bool :=
  db.reparseRuns.any fun r =>
    r.tenantId = plan.tenantId && r.exportId = plan.exportId && r.parser = plan.targetParser &&
      r.rawSha256Hex = plan.rawDigest && r.registryFingerprint = plan.registryFingerprint &&
      r.inputProjection = plan.inputProjection

def insertReparseRun (plan : ReparsePlan) : Database :=
  let (id, db) := db.freshUuid
  { db with
    reparseRuns := db.reparseRuns ++ [{
      id, tenantId := plan.tenantId, exportId := plan.exportId, parser := plan.targetParser
      rawSha256Hex := plan.rawDigest, registryFingerprint := plan.registryFingerprint
      inputProjection := plan.inputProjection }] }

def rawUnchanged (plan : ReparsePlan) : Bool :=
  -- the archive bytes of the plan's export are those the plan was computed from
  (db.exports.find? fun e => e.id = plan.exportId && e.accountId = plan.tenantId).any fun row =>
    row.blobRef.digest = plan.rawDigest

def writeReparse (contracts : Contracts) (owners : OwnerResolver) (maxEventBytes : Nat)
    (now : Instant) (db : Database) (plan : ReparsePlan) : Except ReparseError Database :=
  -- the report's foreign key needs the export
  match db.exports.find? fun e => e.id = plan.exportId && e.accountId = plan.tenantId with
  | none => .error .store
  | some _ => do
    let db := ((db.insertReparseRun plan).persistArtifacts plan).persistProjection plan
    let (db, _) ← ofProjection (db.projectImportFacts contracts owners
      { archiveId := plan.archiveId, exportId := plan.exportId, accountId := plan.tenantId
        parser := plan.targetParser, head := .withChangedEntities, maxEventBytes } now)
    return db

def commitReparse (contracts : Contracts) (owners : OwnerResolver) (maxEventBytes : Nat)
    (now : Instant) (db : Database) (plan : ReparsePlan) : Except ReparseError Database :=
  -- the transaction of an apply, under the tenant's lock: a repeated plan is answered by its prior
  -- report
  if db.hasPriorReport plan then .ok db
  else db.writeReparse contracts owners maxEventBytes now plan

end Database

end ChatgptArchive
