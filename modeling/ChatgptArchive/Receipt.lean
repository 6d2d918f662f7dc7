import ChatgptArchive.NormalizedPersist

/-!
# Receiving an archive

The statements of the receipt seam. A run is created before its export row exists; the export and
the run's transition to `stored` share one transaction. Every stage change is a guarded update.
-/

namespace ChatgptArchive

structure PublishRequest where
  runId : Uuid
  accountExternalRef : String
  mode : AcquisitionMode
  blobRef : BlobRef
  sha256Hex : String
  byteLength : Nat
  platformOperation : Option Uuid
  deriving DecidableEq, Repr

inductive RepositoryError where
  | conflict
  | duplicateExisting (existingExportId : Uuid)
  | backend
  deriving DecidableEq, Repr

namespace Database

variable (db : Database)

def createRun (now : Instant) (accountRef : String) (acquisitionMode : AcquisitionMode)
    (mediaType : String) : Uuid × Database :=
  let (id, db) := db.freshUuid
  (id, { db with
    importRuns := db.importRuns ++ [{
      id, exportId := none, accountRef, acquisitionMode, mediaType
      parserName := none, parserVersion := none, schemaId := none, state := .received
      sha256Hex := none, byteLength := none, startedAt := now, finishedAt := none }] })

def guardedRunUpdate (runId : Uuid) (expected : ImportState)
    (update : ImportRunRow → ImportRunRow) : Except RepositoryError Database :=
  -- updates the run when it is in the expected state; losing the race is a conflict
  let guard (r : ImportRunRow) : Bool := r.id = runId && r.state = expected
  if db.importRuns.any guard then
    .ok { db with importRuns := Table.updateWhere guard update db.importRuns }
  else .error .conflict

def recordHash (runId : Uuid) (sha256Hex : String) (byteLength : Nat) :
    Except RepositoryError Database :=
  db.guardedRunUpdate runId .received fun r => { r with
    state := .hashed, sha256Hex := some sha256Hex, byteLength := some byteLength }

def markRun (now : Instant) (runId : Uuid) (expected target : ImportState) :
    Except RepositoryError Database :=
  -- ends a receipt. A hashed run is marked a duplicate; a run is marked failed from the state the
  -- caller has read, which after a drift of the staged bytes can be any state
  if target = .failed ∨ (expected = .hashed ∧ target = .duplicate) then
    db.guardedRunUpdate runId expected fun r => { r with state := target, finishedAt := some now }
  else .error .conflict

def upsertAccount (externalRef : String) : AccountRow × Database :=
  let (id, db) := db.freshUuid
  let (row, accounts) := Table.upsert (fun a => a.externalRef = externalRef)
    { id, externalRef } (fun a => a) db.accounts
  (row, { db with accounts })

def bindOperation (operationId importRunId exportId : Uuid) : Database :=
  { db with
    platformOperationImports := Table.insertAbsent (fun p => p.operationId = operationId)
      { operationId, importRunId, exportId, reportedAt := none } db.platformOperationImports }

def bindPlatformOperation (exportId operationId : Uuid) :
    Except RepositoryError Database :=
  -- binds a further operation to the oldest run of an export that is already stored
  match ((db.importRuns.filter fun r => r.exportId = some exportId).insertionSort
      fun a b => a.startedAt ≤ b.startedAt).head? with
  | none => .error .backend
  | some run => .ok (db.bindOperation operationId run.id exportId)

def insertExport (now : Instant) (accountId : Uuid) (request : PublishRequest) :
    Uuid × Database :=
  let (id, db) := db.freshUuid
  let (aiArchiveId, db) := db.freshUuid
  (id, { db with
    exports := db.exports ++ [{
      id, aiArchiveId, accountId, acquisitionMode := request.mode, blobRef := request.blobRef
      sha256Hex := request.sha256Hex, byteLength := request.byteLength, receivedAt := now }] })

def publishExport (now : Instant) (request : PublishRequest) :
    Except RepositoryError Database :=
  -- publishes a received archive. The registration of its blob is the subject of the blob protocol;
  -- here it succeeds
  let (account, db) := db.upsertAccount request.accountExternalRef
  match db.exports.find? fun e => e.accountId = account.id && e.sha256Hex = request.sha256Hex with
  | some existing => .error (.duplicateExisting existing.id)
  | none =>
    let (exportId, db) := db.insertExport now account.id request
    match db.guardedRunUpdate request.runId .hashed fun r => { r with
        state := .stored, exportId := some exportId } with
    | .error e => .error e
    | .ok db =>
      match request.platformOperation with
      | some operationId => .ok (db.bindOperation operationId request.runId exportId)
      | none => .ok db

end Database

end ChatgptArchive
