import ChatgptArchive.Interleaving
import ChatgptArchive.Receipt
import ChatgptArchive.Run

/-!
# The archive receiver

Any number of `receive` and `resume` calls over one database, one staging directory and one blob
store. A crash ends every call that has not returned and leaves a prefix of every staging file. The
sweep at startup is a sequence of `resume` calls.
-/

namespace ChatgptArchive

abbrev Bytes := List UInt8

/-- An upload as the sender offers it, with what the boundary has declared of it. -/
structure Upload where
  accountRef : String
  mode : AcquisitionMode
  mediaType : String
  declaredLength : Option Nat
  expectedSha256Hex : Option String
  platformOperation : Option Uuid
  chunks : List Bytes
  deriving DecidableEq, Repr

def Upload.bytes (upload : Upload) : Bytes := upload.chunks.flatten

inductive ReceiptOutcome where
  | stored (exportId aiArchiveId : Uuid) (sha256Hex : String) (byteLength : Nat)
  | duplicate (existingExportId : Uuid) (sha256Hex : String) (byteLength : Nat)
  deriving DecidableEq, Repr

inductive ReceiptError where
  | declaredSizeExceeded | streamOvergrown | streamFailed | storage
  | repository (error : RepositoryError)
  | stagingEvidenceLost | digestMismatch
  deriving DecidableEq, Repr

/-- Everything `settle_hashed` needs once a run reaches `hashed`. -/
structure HashedContext where
  tenant : String
  mode : AcquisitionMode
  mediaType : String
  sha256Hex : String
  byteLength : Nat
  deriving DecidableEq, Repr

inductive Settlement where
  /-- `find_export_by_digest` -/
  | looking
  /-- `bind_platform_operation` is two statements: it reads the owning run, then inserts. -/
  | binding (operationId existing : Uuid)
  | inserting (operationId existing owner : Uuid)
  /-- `mark_run` from `hashed` to `duplicate` -/
  | marking (existing : Uuid)
  /-- `publish_staged` -/
  | storing
  /-- `publish_export` -/
  | publishing (blobRef : BlobRef)
  deriving DecidableEq, Repr

inductive Stage where
  /-- A receive that has created its run. -/
  | accepted (upload : Upload)
  | streaming (upload : Upload) (received : Bytes) (rest : List Bytes)
  /-- The stream has ended and the file is synced. -/
  | staged (upload : Upload) (received : Bytes)
  /-- A receive that is about to remove its file and to fail its run. -/
  | discarding (error : ReceiptError)
  | failing (expected : ImportState) (error : ReceiptError)
  /-- A resume that has loaded a run in state `received` or `hashed`. -/
  | loaded (record : ImportRunRow)
  /-- A resume that has hashed the file of a received run. -/
  | rehashed (record : ImportRunRow) (sha256Hex : String) (byteLength : Nat)
  /-- A resume whose file hashes to something else than the run recorded. -/
  | drifted (sha256Hex : String) (byteLength : Nat)
  /-- A drifted resume that has loaded the run again. -/
  | reloaded (state : ImportState)
  | settling (context : HashedContext) (settlement : Settlement)
  /-- `settle_hashed` has returned, the staging file is to be removed. -/
  | clearing (result : Except ReceiptError ReceiptOutcome)
  | returned (result : Except ReceiptError (Option ReceiptOutcome))

/-- A call. `boundBefore` records whether the call found its operation bound when it bound it. -/
structure Call where
  runId : Uuid
  platformOperation : Option Uuid
  boundBefore : Bool
  stage : Stage

/-- A staging file. Removing it takes its name; a receive that has it open goes on writing. -/
structure StagingFile where
  content : Bytes
  linked : Bool
  writing : Bool
  deriving DecidableEq, Repr

namespace Database

def loadRun (db : Database) (runId : Uuid) : Option ImportRunRow :=
  db.importRuns.find? fun r => r.id = runId

def findExportByDigest (db : Database) (accountExternalRef sha256Hex : String) : Option Uuid :=
  (db.exports.find? fun e => e.sha256Hex = sha256Hex &&
    db.accounts.any fun a => a.id = e.accountId && a.externalRef = accountExternalRef).map (·.id)

def owningRun (db : Database) (exportId : Uuid) : Option ImportRunRow :=
  -- the oldest run of an export, as `bind_platform_operation` selects it
  ((db.importRuns.filter fun r => r.exportId = some exportId).insertionSort
    fun a b => a.startedAt ≤ b.startedAt).head?

def isBound (db : Database) (operationId : Uuid) : Bool :=
  db.platformOperationImports.any fun p => p.operationId = operationId

end Database

/-- What the calls share. `offered` and `ended` record the upload of every run and whether its
stream has ended; no call reads them. -/
structure Intake where
  db : Database
  files : Uuid → Option StagingFile
  objects : String → Option Bytes
  offered : Uuid → Option Upload
  ended : Uuid → Bool

namespace Intake

def setFile (s : Intake) (runId : Uuid) (file : StagingFile) : Intake :=
  { s with files := fun id => if id = runId then some file else s.files id }

def updateFile (s : Intake) (runId : Uuid) (f : StagingFile → StagingFile) : Intake :=
  { s with files := fun id => if id = runId then (s.files id).map f else s.files id }

def removeFile (s : Intake) (runId : Uuid) : Intake :=
  s.updateFile runId fun file => { file with linked := false }

def readFile (s : Intake) (runId : Uuid) : Option Bytes :=
  (s.files runId).bind fun file => if file.linked then some file.content else none

def storeObject (s : Intake) (digest : String) (content : Bytes) : Intake :=
  -- the blob store is content addressed and never rewrites an object
  { s with
    objects := fun d => if d = digest then some ((s.objects d).getD content) else s.objects d }

def offer (s : Intake) (runId : Uuid) (upload : Upload) : Intake :=
  { s with offered := fun id => if id = runId then some upload else s.offered id }

def endStream (s : Intake) (runId : Uuid) : Intake :=
  { s with ended := fun id => id = runId || s.ended id }

def attempt (s : Intake) (fault : Bool) (statement : Except RepositoryError Database) :
    Except RepositoryError Intake :=
  if fault then .error .backend else statement.map fun db => { s with db }

def attemptOrSkip (s : Intake) (fault : Bool) (statement : Except RepositoryError Database) :
    Intake :=
  match s.attempt fault statement with
  | .ok s => s
  | .error _ => s

end Intake

namespace Call

def moveTo (call : Call) (stage : Stage) : Call := { call with stage }

def settleAt (call : Call) (context : HashedContext) (settlement : Settlement) : Call :=
  call.moveTo (.settling context settlement)

def settleDuplicate (call : Call) (context : HashedContext) (existing : Uuid) : Call :=
  -- a duplicate binds its operation, if it has one, before it marks its run
  match call.platformOperation with
  | some operationId => call.settleAt context (.binding operationId existing)
  | none => call.settleAt context (.marking existing)

def clear (call : Call) (result : Except ReceiptError ReceiptOutcome) : Call :=
  call.moveTo (.clearing result)

def refuse (call : Call) (error : ReceiptError) : Call := call.moveTo (.returned (.error error))

def noteBound (call : Call) (db : Database) : Call :=
  { call with boundBefore := call.platformOperation.any db.isBound }

def publishRequest (call : Call) (context : HashedContext) (blobRef : BlobRef) : PublishRequest :=
  { runId := call.runId, accountExternalRef := context.tenant, mode := context.mode, blobRef
    sha256Hex := context.sha256Hex, byteLength := context.byteLength
    platformOperation := call.platformOperation }

def storedOutcome (context : HashedContext) (db : Database) :
    Except ReceiptError ReceiptOutcome :=
  match db.exports.getLast? with
  | some row => .ok (.stored row.id row.aiArchiveId context.sha256Hex context.byteLength)
  | none => .error (.repository .backend)

def contextOf (record : ImportRunRow) (sha256Hex : String) (byteLength : Nat) : HashedContext :=
  ⟨record.accountRef, record.acquisitionMode, record.mediaType, sha256Hex, byteLength⟩

section

variable (sha256 : Bytes → String) (maxArchiveBytes : Nat)

def settle (s : Intake) (call : Call) (now : Instant) (fault : Bool) (context : HashedContext) :
    Settlement → Intake × Call
  | .looking =>
    if fault then (s, call.clear (.error (.repository .backend)))
    else match s.db.findExportByDigest context.tenant context.sha256Hex with
      | some existing => (s, call.settleDuplicate context existing)
      | none => (s, call.settleAt context .storing)
  | .binding operationId existing =>
    if fault then (s, call.clear (.error (.repository .backend)))
    else match s.db.owningRun existing with
      | some owner => (s, call.settleAt context (.inserting operationId existing owner.id))
      | none => (s, call.clear (.error (.repository .backend)))
  | .inserting operationId existing owner =>
    if fault then (s, call.clear (.error (.repository .backend)))
    else ({ s with db := s.db.bindOperation operationId owner existing },
      (call.noteBound s.db).settleAt context (.marking existing))
  | .marking existing =>
    match s.attempt fault (s.db.markRun now call.runId .hashed .duplicate) with
    | .ok s => (s, call.clear (.ok (.duplicate existing context.sha256Hex context.byteLength)))
    | .error e => (s, call.clear (.error (.repository e)))
  | .storing =>
    match if fault then none else s.readFile call.runId with
    | some content =>
      (s.storeObject (sha256 content) content, call.settleAt context
        (.publishing ⟨sha256 content, content.length, context.mediaType⟩))
    | none => (s, call.clear (.error .storage))
  | .publishing blobRef =>
    match s.attempt fault (s.db.publishExport now (call.publishRequest context blobRef)) with
    | .ok published => (published, (call.noteBound s.db).clear (storedOutcome context published.db))
    | .error (.duplicateExisting existing) => (s, call.settleDuplicate context existing)
    | .error e => (s, call.clear (.error (.repository e)))

def discard (s : Intake) (call : Call) (error : ReceiptError) : Intake × Call :=
  (s.updateFile call.runId fun file => { file with writing := false },
    call.moveTo (.discarding error))

def stream (s : Intake) (call : Call) (fault : Bool) (upload : Upload) (received : Bytes) :
    List Bytes → Intake × Call
  | chunk :: rest =>
    if fault then discard s call .streamFailed
    else if (received ++ chunk).length > maxArchiveBytes then discard s call .streamOvergrown
    else (s, call.moveTo (.streaming upload (received ++ chunk) rest))
  | [] =>
    if fault then discard s call .streamFailed
    else ((s.updateFile call.runId fun file =>
        { file with content := received, writing := false }).endStream call.runId,
      call.moveTo (.staged upload received))

def recordStaged (s : Intake) (call : Call) (fault : Bool) (upload : Upload) (received : Bytes) :
    Intake × Call :=
  if upload.declaredLength.any (· ≠ received.length) then
    (s, call.moveTo (.discarding .streamFailed))
  else if upload.expectedSha256Hex.any (· ≠ sha256 received) then
    (s, call.moveTo (.discarding .digestMismatch))
  else match s.attempt fault (s.db.recordHash call.runId (sha256 received) received.length) with
    | .ok s => (s, call.settleAt ⟨upload.accountRef, upload.mode, upload.mediaType,
        sha256 received, received.length⟩ .looking)
    | .error e => (s, call.refuse (.repository e))

def readStaged (s : Intake) (call : Call) (fault : Bool) (record : ImportRunRow) : Intake × Call :=
  -- a resume reads the staging file: a received run's is hashed again, a hashed run's has to hash
  -- to what the run has recorded
  if record.state = .received then
    if fault then (s, call.moveTo (.failing .received .storage))
    else match s.readFile call.runId with
      | some content => (s, call.moveTo (.rehashed record (sha256 content) content.length))
      | none => (s, call.moveTo (.failing .received .stagingEvidenceLost))
  else match record.sha256Hex with
    | none => (s, call.refuse (.repository .backend))
    | some expected =>
      if fault then (s, call.moveTo (.failing .hashed .storage))
      else match s.readFile call.runId with
        | some content =>
          if sha256 content = expected ∧ content.length = record.byteLength.getD 0 then
            (s, call.settleAt (contextOf record expected content.length) .looking)
          else (s, call.moveTo (.drifted (sha256 content) content.length))
        | none => (s, call.moveTo (.failing .hashed .stagingEvidenceLost))

def next (s : Intake) (call : Call) (now : Instant) (fault : Bool) : Intake × Call :=
  -- the next statement of a call; `fault` is a failure of the stream, the disk or the database
  -- there
  match call.stage with
  | .accepted upload =>
    if upload.declaredLength.any (· > maxArchiveBytes) then
      (s, call.moveTo (.failing .received .declaredSizeExceeded))
    else if fault then (s, call.moveTo (.discarding .storage))
    else (s.setFile call.runId ⟨[], true, true⟩,
      call.moveTo (.streaming upload [] upload.chunks))
  | .streaming upload received rest => stream maxArchiveBytes s call fault upload received rest
  | .staged upload received => recordStaged sha256 s call fault upload received
  | .discarding error =>
    (if fault then s else s.removeFile call.runId, call.moveTo (.failing .received error))
  | .failing expected error =>
    (s.attemptOrSkip fault (s.db.markRun now call.runId expected .failed), call.refuse error)
  | .loaded record => readStaged sha256 s call fault record
  | .rehashed record sha256Hex byteLength =>
    match s.attempt fault (s.db.recordHash call.runId sha256Hex byteLength) with
    | .ok s => (s, call.settleAt (contextOf record sha256Hex byteLength) .looking)
    | .error e => (s, call.refuse (.repository e))
  | .drifted _ _ =>
    match if fault then none else s.db.loadRun call.runId with
    | some record => (s, call.moveTo (.reloaded record.state))
    | none => (s, call.moveTo (.failing .hashed .stagingEvidenceLost))
  | .reloaded state =>
    (s.attemptOrSkip fault (s.db.markRun now call.runId state .failed),
      call.moveTo (.failing .hashed .stagingEvidenceLost))
  | .settling context settlement => settle sha256 s call now fault context settlement
  | .clearing result =>
    (if fault then s else s.removeFile call.runId, call.moveTo (.returned (result.map some)))
  | .returned _ => (s, call)

end

def isReturned (call : Call) : Bool :=
  match call.stage with
  | .returned _ => true
  | _ => false

def accept (s : Intake) (now : Instant) (upload : Upload) : Intake × Call :=
  let (runId, db) := s.db.createRun now upload.accountRef upload.mode upload.mediaType
  ({ s with db }.offer runId upload,
    ⟨runId, upload.platformOperation, false, .accepted upload⟩)

def load (s : Intake) (runId : Uuid) : Call :=
  -- `resume` up to the loaded run. A run at another stage is left as it is
  ⟨runId, none, false, match s.db.loadRun runId with
    | none => .returned (.error .stagingEvidenceLost)
    | some record =>
      if record.state = .received ∨ record.state = .hashed then .loaded record
      else .returned (.ok none)⟩

def write (s : Intake) (call : Call) (length : Nat) : Intake :=
  -- the buffered writer of a stream passes on bytes: the file grows to `length` of them
  match call.stage with
  | .streaming _ received _ => s.updateFile call.runId fun file =>
    { file with content := received.take (max file.content.length length) }
  | _ => s

end Call

def Intake.crashed (s : Intake) (kept : Uuid → Nat) : Intake :=
  -- what a crash leaves: of each staging file `kept` bytes, and no writer
  { s with
    files := fun id => (s.files id).map fun file =>
      { file with content := file.content.take (kept id), writing := false } }

abbrev CallId := Nat

inductive ReceiptAction where
  | receive (c : CallId) (now : Instant) (upload : Upload)
  | resume (c : CallId) (runId : Uuid)
  | advance (c : CallId) (now : Instant) (fault : Bool)
  | write (c : CallId) (length : Nat)
  /-- The process stops. -/
  | crash (kept : Uuid → Nat)

abbrev Receiver := Interleaving Intake Call

namespace Receiver

def initial : Receiver :=
  { shared := { db := .empty, files := fun _ => none, objects := fun _ => none
                offered := fun _ => none, ended := fun _ => false }
    threads := fun _ => none }

variable (sha256 : Bytes → String) (maxArchiveBytes : Nat)

def step (s : Receiver) : ReceiptAction → Receiver
  | .receive c now upload =>
    match s.threads c with
    | none => s.set c (Call.accept s.shared now upload).1 (Call.accept s.shared now upload).2
    | some _ => s
  | .resume c runId =>
    match s.threads c with
    | none => s.set c s.shared (Call.load s.shared runId)
    | some _ => s
  | .advance c now fault =>
    match s.threads c with
    | none => s
    | some call =>
      let (shared, call) := call.next sha256 maxArchiveBytes s.shared now fault
      s.set c shared call
  | .write c length =>
    match s.threads c with
    | none => s
    | some call => s.set c (call.write s.shared length) call
  | .crash kept => s.restrict (s.shared.crashed kept) Call.isReturned

def run (actions : List ReceiptAction) : Receiver :=
  Run.run (step sha256 maxArchiveBytes) initial actions

end Receiver

end ChatgptArchive
