import ChatgptArchive.Run
import ChatgptArchive.InitialImport
import ChatgptArchive.PrivacyDeletion.Rows

/-!
# Histories of the archive

The committed transactions of the service as events of one transition system: the stages of a
receipt, the import of a pending run, its permanent failure, a late operation report, an applied
reparse and a completed privacy deletion. A transaction that fails leaves the database as it was.
-/

namespace ChatgptArchive

inductive Event where
  | createRun (now : Instant) (accountRef : String) (mode : AcquisitionMode) (mediaType : String)
  | recordHash (runId : Uuid) (sha256Hex : String) (byteLength : Nat)
  | markRun (now : Instant) (runId : Uuid) (expected target : ImportState)
  | publish (now : Instant) (request : PublishRequest)
  | bindOperation (exportId operationId : Uuid)
  | importRun (now : Instant) (runId : Uuid) (parsed : ParsedConversations)
      (artifacts : List BlobRef)
  | failRun (now : Instant) (runId : Uuid)
  | reportRun (now : Instant) (runId : Uuid)
  | reparse (now : Instant) (tenantId archiveId : Uuid)
      (inputProjection : List (String × Option ContentDigest))
      (registryFingerprint : List ParserId) (parsed : ParsedConversations)
      (artifacts : List BlobRef)
  | delete (now : Instant) (evidenceRef : BlobRef) (tenantId requestId : Uuid)
      (scope : PrivacyDeletionScope)
  deriving DecidableEq, Repr

def Event.isReceipt : Event → Bool
  | .createRun _ _ _ _ | .recordHash _ _ _ | .markRun _ _ _ _ | .publish _ _
  | .bindOperation _ _ => true
  | _ => false

def Event.receipt (now : Instant) (runId : Uuid) (accountRef sha256Hex : String) : List Event :=
  [.createRun now accountRef .consumerExport "application/zip", .recordHash runId sha256Hex 1,
    .publish now
      { runId, accountExternalRef := accountRef, mode := .consumerExport
        blobRef := ⟨sha256Hex, 1, "application/zip"⟩, sha256Hex, byteLength := 1
        platformOperation := none }]

def Event.under (config : ImportConfig) (events : List Event) : List (ImportConfig × Event) :=
  events.map fun event => (config, event)

def committed {ε : Type} (db : Database) : Except ε Database → Database
  | .ok db' => db'
  | .error _ => db

/-- The states of a run that has been stored. A worker acts on a run it selected earlier, and by then
another attempt can have finished it. -/
def ImportState.attempted (state : ImportState) : Bool := state.pending || state.finished

namespace Database

def runInState (db : Database) (p : ImportState → Bool) (runId : Uuid) :
    Option (ImportRunRow × ExportRow) :=
  (db.importRuns.find? fun r => r.id = runId && p r.state).bind fun run =>
    (db.exports.find? fun e => run.exportId = some e.id).map fun row => (run, row)

end Database

def Event.written (db : Database) : Event → Option Uuid
  | .importRun _ runId _ _ =>
    (db.runInState ImportState.attempted runId).map fun attempt => attempt.2.id
  | .reparse _ tenantId archiveId _ _ _ _ =>
    (db.exports.find? fun e => e.accountId = tenantId && e.aiArchiveId = archiveId).map (·.id)
  | _ => none

namespace Database

variable (contracts : Contracts)

def deleteScope (now : Instant) (evidenceRef : BlobRef) (db : Database)
    (tenantId requestId : Uuid) (scope : PrivacyDeletionScope) :
    Except PrivacyDeletionError Database :=
  if db.privacyDeletionRequests.any fun r => r.id = requestId then .ok db
  else do
    match ← db.plan tenantId requestId scope with
    | none => .error .conflict
    | some planned =>
      let removed ← planned.removeRows contracts now evidenceRef requestId
      return removed.complete requestId

def importPending (config : ImportConfig) (now : Instant) (db : Database)
    (runId : Uuid) (parsed : ParsedConversations) (artifacts : List BlobRef) :
    Except ReparseError Database :=
  match db.runInState ImportState.attempted runId with
  | none => .error .conflict
  | some (_, row) =>
    db.persistInitialPlan contracts config now runId
      (initialPlan row (db.currentProjection row.id) parsed artifacts)

def reparseArchive (config : ImportConfig) (now : Instant) (db : Database)
    (tenantId archiveId : Uuid) (inputProjection : List (String × Option ContentDigest))
    (registryFingerprint : List ParserId) (parsed : ParsedConversations)
    (artifacts : List BlobRef) : Except ReparseError Database := do
  let plan ← db.reparsePlan tenantId archiveId inputProjection registryFingerprint parsed artifacts
  db.commitReparse contracts config.owners config.maxEventBytes now plan

def step (config : ImportConfig) (db : Database) : Event → Database
  | .createRun now accountRef mode mediaType => (db.createRun now accountRef mode mediaType).2
  | .recordHash runId sha256Hex byteLength =>
    committed db (db.recordHash runId sha256Hex byteLength)
  | .markRun now runId expected target => committed db (db.markRun now runId expected target)
  | .publish now request => committed db (db.publishExport now request)
  | .bindOperation exportId operationId =>
    committed db (db.bindPlatformOperation exportId operationId)
  | .importRun now runId parsed artifacts =>
    committed db (db.importPending contracts config now runId parsed artifacts)
  | .failRun now runId =>
    match db.runInState ImportState.attempted runId with
    | none => db
    | some (_, row) =>
      committed db (db.markPermanentFailure contracts now runId row.id row.accountId)
  | .reportRun now runId =>
    match db.runInState ImportState.attempted runId with
    | none => db
    | some (_, row) =>
      committed db ((db.loadImportSummary runId).bind fun summary =>
        db.enqueueOperationReports contracts now runId row.id row.aiArchiveId row.accountId summary)
  | .reparse now tenantId archiveId inputProjection registryFingerprint parsed artifacts =>
    committed db (db.reparseArchive contracts config now tenantId archiveId inputProjection
      registryFingerprint parsed artifacts)
  | .delete now evidenceRef tenantId requestId scope =>
    committed db (db.deleteScope contracts now evidenceRef tenantId requestId scope)

/-- Every transaction of a history runs under a configuration of its own. -/
def history (events : List (ImportConfig × Event)) : Database :=
  Run.run (fun db event => db.step contracts event.1 event.2) empty events

end Database

end ChatgptArchive
