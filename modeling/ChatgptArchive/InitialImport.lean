import ChatgptArchive.Reparse
import ChatgptArchive.Receipt

/-!
# The initial import

Persisting the plan of a stored run, the facts and the operation reports in one transaction, and
the selection of the run that is processed next.
-/

namespace ChatgptArchive

structure ImportConfig where
  owners : OwnerResolver
  maxEventBytes : Nat
  deriving DecidableEq, Repr, Inhabited

def ImportState.pending : ImportState → Bool
  | .stored | .inspected | .parsed | .reconciled => true
  | _ => false

def ImportState.imported : ImportState → Bool
  | .completed | .partiallyCompleted => true
  | _ => false

def ImportState.finished (state : ImportState) : Bool :=
  state.imported || state = .failed

section Contract

variable (contracts : Contracts)

/-! ## Gaps and counts -/

def gapIf (present : Bool) (kind detail : String) (affected : Nat) :
    Except ReparseError (List AiGap) :=
  if present then
    if contracts.aiGapKind kind && contracts.safeMessage detail then
      .ok [⟨kind, detail, if affected < 2 ^ 32 then some affected else none⟩]
    else .error .conflict
  else .ok []

def importGaps (parsed : ParsedConversations) : Except ReparseError (List AiGap) := do
  let unrecognized ← gapIf contracts (!parsed.rawRecords.isEmpty) "unrecognized_record"
    "Records this parser does not model are preserved only in the raw archive."
    parsed.rawRecords.length
  let missing ← gapIf contracts (parsed.assetsUnavailable ≠ 0) "missing_file"
    "Referenced files were not available as verified bytes." parsed.assetsUnavailable
  return unrecognized ++ missing

def importSummary (parsed : ParsedConversations) (gapEntries : Nat) : ImportSummary :=
  { completeness := if gapEntries = 0 then .complete else .structurallyPartial
    conversationCount := toU32 parsed.conversations.length
    messageCount := toU32 (parsed.conversations.flatMap (·.messages)).length
    assetCount := toU32 parsed.assetsStored
    gapCount := toU32 gapEntries
    warningCount := 0
    factsTooLarge := 0 }

/-! ## Operation reports -/

def factsTooLargeWarning : WarningEnvelope :=
  ⟨"ai_archive.facts.too_large", "Some conversations are too large to add to the library."⟩

def incompleteImportWarning : WarningEnvelope :=
  ⟨"ai_archive.import.incomplete", "The archive import is incomplete."⟩

def importedReport (operationId archiveId : Uuid) (summary : ImportSummary) :
    Except ReparseError OperationReported :=
  let incomplete := summary.completeness ≠ .complete
  let report : OperationReported :=
    { operationId
      status := if incomplete ∨ summary.factsTooLarge ≠ 0 then .partiallySucceeded else .succeeded
      result := some (archiveId, summary), error := none
      warnings := (if incomplete then [incompleteImportWarning] else []) ++
        (if summary.factsTooLarge ≠ 0 then [factsTooLargeWarning] else []) }
  if contracts.aiProvider "chatgpt" && contracts.operationResultKind "ai_archive.import" &&
      (summary.factsTooLarge = 0 || (contracts.errorCode factsTooLargeWarning.code &&
        contracts.safeMessage factsTooLargeWarning.message)) then
    if contracts.operationReportValid report then .ok report else .error .conflict
  else .error .report

def failedReport (operationId : Uuid) : Except ReparseError OperationReported :=
  let report : OperationReported :=
    { operationId, status := .failed, result := none
      error := some "chatgpt.archive.invalid", warnings := [] }
  if contracts.errorCode "chatgpt.archive.invalid" &&
      contracts.safeMessage "The ChatGPT archive could not be imported." then
    if contracts.operationReportValid report then .ok report else .error .conflict
  else .error .report

namespace Database

def unreportedOperations (db : Database) (runId : Uuid) : List Uuid :=
  ((db.platformOperationImports.filter fun p =>
      p.importRunId = runId && p.reportedAt.isNone).map (·.operationId)).insertionSort (· ≤ ·)

def markReported (db : Database) (now : Instant) (operationId : Uuid) : Database :=
  { db with
    platformOperationImports := Table.updateWhere
      (fun p => p.operationId = operationId && p.reportedAt.isNone)
      (fun p => { p with reportedAt := some now }) db.platformOperationImports }

def enqueueReport (db : Database) (now : Instant) (tenantId exportId : Uuid)
    (report : OperationReported) : Database :=
  (db.insertOutboxEvent report.operationId (some tenantId) (some exportId)
    { occurredAt := now, tenantId := none, payload := .operationReported report }
    (.operationReported report.operationId)).2

def enqueueReports (now : Instant) (tenantId exportId : Uuid)
    (report : Uuid → Except ReparseError OperationReported) :
    Database → List Uuid → Except ReparseError Database
  -- queues one report per operation, once each, and marks the operation reported
  | db, [] => .ok db
  | db, operationId :: operations => do
    let reported ← report operationId
    enqueueReports now tenantId exportId report
      ((db.enqueueReport now tenantId exportId reported).markReported now operationId) operations

def enqueueFailedReports (db : Database) (now : Instant) (runId exportId tenantId : Uuid) :
    Except ReparseError Database :=
  enqueueReports now tenantId exportId (failedReport contracts) db (db.unreportedOperations runId)

def enqueueOperationReports (db : Database) (now : Instant)
    (runId exportId archiveId tenantId : Uuid) (summary : ImportSummary) :
    Except ReparseError Database :=
  enqueueReports now tenantId exportId
    (fun operationId => importedReport contracts operationId archiveId summary) db
    (db.unreportedOperations runId)

/-! ## Persisting a plan -/

def countsDocument (summary : ImportSummary) : Value :=
  .object [("assets", .ofNat summary.assetCount), ("conversations", .ofNat summary.conversationCount),
    ("gaps", .ofNat summary.gapCount), ("messages", .ofNat summary.messageCount)]

def insertCompletenessReport (db : Database) (runId : Uuid) (summary : ImportSummary)
    (gaps : List AiGap) (parsed : ParsedConversations) : Database :=
  let (id, db) := db.freshUuid
  { db with
    completenessReports := Table.insertAbsent (fun c => c.importRunId = runId)
      { id, importRunId := runId, status := summary.completeness
        counts := countsDocument summary, warnings := .array [], gaps
        missingAssets := parsed.assetsUnavailable, unknownVariants := parsed.rawRecords.length }
      db.completenessReports }

def finishRun (db : Database) (now : Instant) (runId : Uuid) (state : ImportState)
    (parsed : ParsedConversations) : Database :=
  { db with
    importRuns := Table.updateWhere (fun r => r.id = runId)
      (fun r => { r with
        state, parserName := some parsed.parser.name, parserVersion := some parsed.parser.version
        schemaId := some parsed.schemaId, finishedAt := some now }) db.importRuns }

def storeFactsTooLarge (db : Database) (runId : Uuid) (tooLarge : Nat) : Database :=
  { db with
    completenessReports := Table.updateWhere (fun c => c.importRunId = runId)
      (fun c => { c with counts := c.counts.concat (.object [("facts_too_large", .ofNat tooLarge)]) })
      db.completenessReports }

/-- Facts first, in the transaction that persisted the rows they are read from; then the terminal
report of every operation that waits for the run. -/
def projectAndReport (config : ImportConfig) (now : Instant) (db : Database) (runId : Uuid)
    (plan : ReparsePlan) (summary : ImportSummary) : Except ReparseError Database := do
  let (db, outcome) ← ofProjection (db.projectImportFacts contracts config.owners
    { archiveId := plan.archiveId, exportId := plan.exportId, accountId := plan.tenantId
      parser := plan.parsed.parser, head := .always, maxEventBytes := config.maxEventBytes } now)
  let db := db.storeFactsTooLarge runId outcome.tooLarge
  db.enqueueOperationReports contracts now runId plan.exportId plan.archiveId plan.tenantId
    { summary with factsTooLarge := outcome.tooLarge }

def persistRows (db : Database) (now : Instant) (runId : Uuid) (plan : ReparsePlan)
    (summary : ImportSummary) (gaps : List AiGap) : Database :=
  let db := (db.persistArtifacts plan).persistProjection plan
  let db := db.insertCompletenessReport runId summary gaps plan.parsed
  db.finishRun now runId
    (if summary.completeness = .complete then .completed else .partiallyCompleted) plan.parsed

def persistInitialPlan (config : ImportConfig) (now : Instant) (db : Database) (runId : Uuid)
    (plan : ReparsePlan) : Except ReparseError Database := do
  let gaps ← importGaps contracts plan.parsed
  let summary := importSummary plan.parsed gaps.length
  match db.importRuns.find? fun r => r.id = runId with
  | none => .error .store
  | some run =>
    if run.state.imported then return db
    else
      projectAndReport contracts config now (db.persistRows now runId plan summary gaps) runId plan
        summary

def markPermanentFailure (db : Database) (now : Instant) (runId exportId tenantId : Uuid) :
    Except ReparseError Database :=
  let db := { db with
    importRuns := Table.updateWhere (fun r => r.id = runId && !r.state.finished)
      (fun r => { r with state := .failed, finishedAt := some now }) db.importRuns }
  db.enqueueFailedReports contracts now runId exportId tenantId

/-! ## Choosing the next run -/

def hasUnreportedOperation (db : Database) (runId : Uuid) : Bool :=
  db.platformOperationImports.any fun p => p.importRunId = runId && p.reportedAt.isNone

def selectable (db : Database) (run : ImportRunRow) : Bool :=
  run.state.pending || (run.state.finished && db.hasUnreportedOperation run.id)

def selectionOrder (db : Database) (a b : ImportRunRow × ExportRow) : Prop :=
  -- runs an operation waits for come first, then the order in which runs started
  (db.hasUnreportedOperation a.1.id = true ∧ db.hasUnreportedOperation b.1.id = false) ∨
    (db.hasUnreportedOperation a.1.id = db.hasUnreportedOperation b.1.id ∧
      (a.1.startedAt < b.1.startedAt ∨ (a.1.startedAt = b.1.startedAt ∧ a.1.id ≤ b.1.id)))

instance (db : Database) : DecidableRel db.selectionOrder := fun _ _ =>
  inferInstanceAs (Decidable (_ ∨ _))

def selectPending (db : Database) : Option (ImportRunRow × ExportRow) :=
  ((db.importRuns.filter db.selectable).flatMap fun r =>
      (db.exports.filter fun e => r.exportId = some e.id).map fun e => (r, e)).insertionSort
    db.selectionOrder |>.head?

def loadImportSummary (db : Database) (runId : Uuid) : Except ReparseError ImportSummary :=
  match db.completenessReports.find? fun c => c.importRunId = runId with
  | none => .error .store
  | some c =>
    .ok { completeness := c.status, conversationCount := c.counts.count "conversations"
          messageCount := c.counts.count "messages", assetCount := c.counts.count "assets"
          gapCount := c.counts.count "gaps"
          warningCount := match c.warnings with
            | .array values => toU32 values.length
            | _ => 0
          factsTooLarge := c.counts.count "facts_too_large" }

end Database

def ReparseError.permanent : ReparseError → Bool
  | .conflict | .intake | .parserFailed | .encode | .report | .blobMissing
  | .blobInvalidMediaType => true
  | _ => false

def initialPlan (row : ExportRow) (inputProjection : List (String × Option ContentDigest))
    (parsed : ParsedConversations) (artifacts : List BlobRef) : ReparsePlan :=
  { tenantId := row.accountId, exportId := row.id, archiveId := row.aiArchiveId
    targetParser := parsed.parser, rawDigest := row.blobRef.digest, registryFingerprint := []
    inputProjection, artifacts, parsed }

def processPendingOnce (config : ImportConfig) (now : Instant)
    (build : ExportRow → Except ReparseError ReparsePlan) (db : Database) :
    Except ReparseError (Nat × Database) :=
  -- processes at most one durable import or one late operation correlation. `build` is the outcome
  -- of reading and parsing the archive of the selected export. An error leaves the run as it is
  match db.selectPending with
  | none => .ok (0, db)
  | some (run, row) =>
    if run.state = .failed then do
      let db ← db.enqueueFailedReports contracts now run.id row.id row.accountId
      return (1, db)
    else if run.state.imported then do
      let summary ← db.loadImportSummary run.id
      let db ← db.enqueueOperationReports contracts now run.id row.id row.aiArchiveId
        row.accountId summary
      return (1, db)
    else match build row with
      | .ok plan => do
        let db ← db.persistInitialPlan contracts config now run.id plan
        return (1, db)
      | .error e =>
        if e.permanent then do
          let db ← db.markPermanentFailure contracts now run.id row.id row.accountId
          return (1, db)
        else .error e

end Contract

end ChatgptArchive
