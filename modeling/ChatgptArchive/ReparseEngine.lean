import ChatgptArchive.LocalBackend
import ChatgptArchive.SyntheticParser.Execute

/-!
# The reparse engine

A plan reads the retained archive again with an exact newer parser and compares what it finds with
the current projection; an apply checks on the pool that nothing the plan rests on has changed,
stores the files of the archive and writes the plan under the tenant's lock.
-/

namespace ChatgptArchive

open Outcome

/-! ## The comparison -/

inductive ReparseChangeKind where
  | added | changed | unchanged | proposedRemoval
  deriving DecidableEq, Repr

structure ReparseChange where
  subjectKind : String
  subjectId : String
  kind : ReparseChangeKind
  deriving DecidableEq, Repr

structure ReparseWarning where
  code : String
  subjectId : Option String
  deriving DecidableEq, Repr

structure ReparseReport where
  archiveId : Uuid
  targetParser : ParserId
  rawDigest : String
  changes : List ReparseChange
  warnings : List ReparseWarning
  eventSubjects : List String
  completeness : String
  deriving DecidableEq, Repr

def parsedDigests (parsed : ParsedConversations) : List (String × ContentDigest) :=
  -- the digests of a parse in the order of the provider ids; of an id listed twice, the last
  ((parsed.conversations.map (·.externalId)).dedup.insertionSort (· ≤ ·)).filterMap fun id =>
    (parsed.conversations.reverse.find? fun c => c.externalId = id).map fun c =>
      (id, conversationDigest c)

def changeKind (current : List (String × Option ContentDigest)) (id : String)
    (digest : ContentDigest) : ReparseChangeKind :=
  match current.lookup id with
  | none => .added
  | some existing => if existing = some digest then .unchanged else .changed

def ReparseChangeKind.eventSubject : ReparseChangeKind → Option String
  | .added => some "ai_archive.conversation.added.v1"
  | .changed => some "ai_archive.conversation.updated.v1"
  | .unchanged | .proposedRemoval => none

def compareProjection (archiveId : Uuid) (targetParser : ParserId) (rawDigest : String)
    (current : List (String × Option ContentDigest)) (parsed : ParsedConversations) :
    ReparseReport :=
  -- compares a parse with the projection that is current
  let digests := parsedDigests parsed
  let compared := digests.map fun entry =>
    (⟨"conversation", entry.1, changeKind current entry.1 entry.2⟩ : ReparseChange)
  let omitted := (current.map (·.1)).filter fun id => !(digests.any fun entry => entry.1 = id)
  let removals := omitted.map fun id => (⟨"conversation", id, .proposedRemoval⟩ : ReparseChange)
  { archiveId, targetParser, rawDigest
    changes := (compared ++ removals).insertionSort fun a b => a.subjectId ≤ b.subjectId
    warnings := (omitted.insertionSort (· ≤ ·)).map fun id => ⟨"coverage_omission", some id⟩
    eventSubjects := (compared.filterMap (·.kind.eventSubject)).insertionSort (· ≤ ·)
    completeness := "structurally_partial" }

/-! ## What the engine works with -/

/-- What the libraries compute: the hash, the names of old archives and the entries of a ZIP file,
when it is one. -/
structure Libraries where
  sha256 : List UInt8 → String
  cp437 : UInt8 → Char
  unzip : List UInt8 → Option (List ZipEntry)

/-- A compiled parser. It may store objects and erases none. -/
structure ParserExecutor where
  execute : LocalFsBackend → ParserExecutionInput →
    LocalFsBackend × Except ParserExecutionError ParsedConversations
  keeps : ∀ blobs input d object, blobs.objects d = some object →
    (execute blobs input).1.objects d = some object

structure ReparseEngine where
  libraries : Libraries
  registry : ParserRegistry ParserExecutor
  limits : ArchiveLimits
  contracts : Contracts
  config : ImportConfig

structure ReparseRunDetail where
  report : ReparseReport
  completedAt : Instant
  deriving DecidableEq, Repr

structure ReparseIdentity where
  exportId : Uuid
  parser : ParserId
  rawSha256Hex : String
  registryFingerprint : List ParserId
  inputProjection : List (String × Option ContentDigest)
  deriving DecidableEq, Repr

/-- The details of the reparse runs are in the order of their rows. -/
structure ReparseStore where
  db : Database
  details : List ReparseRunDetail
  blobs : LocalFsBackend

structure EvidencePlan where
  report : ReparseReport
  registryFingerprint : List ParserId
  inputProjection : List (String × Option ContentDigest)
  tenantId : Uuid
  exportId : Uuid
  rawRef : BlobRef
  inventory : ArchiveInventory
  artifacts : List ParserArtifactEvidence
  parsed : ParsedConversations
  deriving DecidableEq

def EvidencePlan.rows (plan : EvidencePlan) (artifacts : List BlobRef) : ReparsePlan :=
  { tenantId := plan.tenantId, exportId := plan.exportId, archiveId := plan.report.archiveId
    targetParser := plan.report.targetParser, rawDigest := plan.report.rawDigest
    registryFingerprint := plan.registryFingerprint, inputProjection := plan.inputProjection
    artifacts, parsed := plan.parsed }

def EvidencePlan.registrations (plan : EvidencePlan) (stored : List BlobRef) :
    List HeldRegistration :=
  (stored.zip plan.artifacts).map fun entry => ⟨⟨blobOwner, entry.1⟩, entry.2.bytes⟩

def ReparseError.ofBlobStore : BlobStoreError → ReparseError
  | .unavailable => .blobUnavailableRoot
  | .invalidMediaType => .blobInvalidMediaType
  | .stream => .blobStream
  | .missing => .blobMissing

def ReparseError.ofParser : ParserExecutionError → ReparseError
  | .failed => .parserFailed
  | .storage => .parserStorage

/-! ## The archive -/

namespace Libraries

variable (libraries : Libraries)

def verifyRaw (blobs : LocalFsBackend) (raw : BlobRef) : Except BlobStoreError Unit :=
  blobs.verify libraries.sha256 ⟨blobOwner, raw⟩

def openRaw (blobs : LocalFsBackend) (raw : BlobRef) : Except BlobStoreError (List UInt8) := do
  libraries.verifyRaw blobs raw
  match blobs.objects raw.digest with
  | some (.file bytes) => .ok bytes
  | _ => .error .missing

def inspect (limits : ArchiveLimits) (blobs : LocalFsBackend) (raw : BlobRef) :
    Except ArchiveIntakeError ArchiveInventory :=
  match libraries.openRaw blobs raw with
  | .error _ => .error .evidenceUnavailable
  | .ok bytes =>
    match libraries.unzip bytes with
    | none => .error .unsupportedFormat
    | some archive => inspectZip libraries.cp437 limits archive

def readRaw (blobs : LocalFsBackend) (raw : BlobRef) (inventory : ArchiveInventory) :
    Except ReparseError (List ParserArtifactEvidence) :=
  match libraries.openRaw blobs raw with
  | .error e => .error (.ofBlobStore e)
  | .ok bytes =>
    match libraries.unzip bytes with
    | none => .error .conflict
    | some archive => (readArtifacts archive inventory).result

def artifactRef (artifact : ParserArtifactEvidence) : BlobRef :=
  ⟨libraries.sha256 artifact.bytes, artifact.bytes.length, "application/octet-stream"⟩

end Libraries

/-! ## The parser that is current -/

def ParserId.text (parser : ParserId) : String := parser.name ++ "@" ++ parser.version

theorem ParserId.text_ne_empty (parser : ParserId) : parser.text ≠ "" := by
  intro h
  have hlist := congrArg String.toList h
  simp [ParserId.text] at hlist

namespace ReparseStore

def runs (store : ReparseStore) : List (ReparseRunRow × ReparseRunDetail) :=
  store.db.reparseRuns.zip store.details

def observedParsers (store : ReparseStore) (exportId : Uuid) : List (ParserId × Instant) :=
  (store.db.importRuns.filterMap fun r =>
    if r.exportId = some exportId then
      r.parserName.bind fun name => r.parserVersion.map fun version => (⟨name, version⟩, r.startedAt)
    else none) ++
  (store.runs.filter fun run => run.1.exportId = exportId).map fun run =>
    (run.1.parser, run.2.completedAt)

def currentParser (store : ReparseStore) (exportId : Uuid) : Option ParserId :=
  -- the parser observed last; of several observed at one instant, the first
  (((store.observedParsers exportId).insertionSort fun a b => b.2 ≤ a.2).head?).map (·.1)

def runsOf (store : ReparseStore) (plan : EvidencePlan) : List (ReparseRunRow × ReparseRunDetail) :=
  store.runs.filter fun run =>
    run.1.tenantId = plan.tenantId && run.1.exportId = plan.exportId &&
      run.1.parser = plan.report.targetParser && run.1.rawSha256Hex = plan.report.rawDigest &&
      run.1.registryFingerprint = plan.registryFingerprint &&
      run.1.inputProjection = plan.inputProjection

def identity (run : ReparseRunRow × ReparseRunDetail) : ReparseIdentity :=
  { exportId := run.1.exportId, parser := run.1.parser, rawSha256Hex := run.1.rawSha256Hex
    registryFingerprint := run.1.registryFingerprint, inputProjection := run.1.inputProjection }

/-- The constraints of the tables the engine reads: the primary key of the exports and the unique
identities of the reparse runs. -/
structure Keyed (store : ReparseStore) : Prop where
  exports : (store.db.exports.map (·.id)).Nodup
  details : store.details.length = store.db.reparseRuns.length
  identities : (store.runs.map identity).Nodup

def priorReport (store : ReparseStore) (plan : EvidencePlan) : Option ReparseReport :=
  (store.runsOf plan).head?.map fun run => run.2.report

end ReparseStore

/-! ## Planning -/

inductive PlanCall where
  | privacy | exportRow | verify | inspect | artifacts | projection
  deriving DecidableEq, Repr

def unlessFault (faults : PlanCall → Option ReparseError) (call : PlanCall) :
    Except ReparseError Unit :=
  match faults call with
  | some e => .error e
  | none => .ok ()

structure Prepared where
  row : ExportRow
  inventory : ArchiveInventory
  compatible : List ParserId
  parser : ParserExecutor
  artifacts : List ParserArtifactEvidence

namespace ReparseEngine

variable (engine : ReparseEngine) {prepared : Prepared}

def prepare (faults : PlanCall → Option ReparseError) (store : ReparseStore)
    (tenantId archiveId : Uuid) (targetParser : ParserId) : Except ReparseError Prepared := do
  unlessFault faults .privacy
  if store.db.privacyBlocked tenantId then .error .conflict
  else
    unlessFault faults .exportRow
    let some row := store.db.exports.find? fun e =>
      e.accountId = tenantId && e.aiArchiveId = archiveId | .error .conflict
    unlessFault faults .verify
    (engine.libraries.verifyRaw store.blobs row.blobRef).mapError .ofBlobStore
    unlessFault faults .inspect
    let inventory ← (engine.libraries.inspect engine.limits store.blobs row.blobRef).mapError
      fun _ => .intake
    let compatible := engine.registry.compatibleVersions inventory row.acquisitionMode
    let currentParser := ((store.currentParser row.id).map (·.text)).getD ""
    let some currentIndex := compatible.findIdx? fun parser => parser.text = currentParser
      | .error .conflict
    let some targetIndex := compatible.findIdx? fun parser => parser = targetParser
      | .error .conflict
    if targetIndex ≤ currentIndex then .error .conflict
    else
      let some parser := engine.registry.findExact targetParser inventory row.acquisitionMode
        | .error .conflict
      unlessFault faults .artifacts
      let artifacts ← engine.libraries.readRaw store.blobs row.blobRef inventory
      return { row, inventory, compatible, parser, artifacts }

def plan (faults : PlanCall → Option ReparseError) (store : ReparseStore)
    (tenantId archiveId : Uuid) (targetParser : ParserId) :
    ReparseStore × Except ReparseError EvidencePlan :=
  -- builds a comparison plan. The database is only read; the parser may store objects
  match engine.prepare faults store tenantId archiveId targetParser with
  | .error e => (store, .error e)
  | .ok prepared =>
    let (blobs, result) := prepared.parser.execute store.blobs
      { inventory := prepared.inventory, artifacts := prepared.artifacts
        rawArchive := prepared.row.blobRef }
    ({ store with blobs }, do
      let parsed ← result.mapError .ofParser
      if parsed.parser ≠ targetParser then .error .conflict
      else
        unlessFault faults .projection
        let current := store.db.currentProjection prepared.row.id
        return {
          report := compareProjection archiveId targetParser prepared.row.blobRef.digest current
            parsed
          registryFingerprint := prepared.compatible, inputProjection := current
          tenantId, exportId := prepared.row.id, rawRef := prepared.row.blobRef
          inventory := prepared.inventory, artifacts := prepared.artifacts, parsed })

structure Prepares (store : ReparseStore) (tenantId archiveId : Uuid) (targetParser : ParserId)
    (prepared : Prepared) : Prop where
  unblocked : store.db.privacyBlocked tenantId = false
  row : store.db.exports.find? (fun e => e.accountId = tenantId && e.aiArchiveId = archiveId) =
    some prepared.row
  verified : engine.libraries.verifyRaw store.blobs prepared.row.blobRef = .ok ()
  inspected : engine.libraries.inspect engine.limits store.blobs prepared.row.blobRef =
    .ok prepared.inventory
  compatible : prepared.compatible =
    engine.registry.compatibleVersions prepared.inventory prepared.row.acquisitionMode
  newer : ∃ currentIndex targetIndex,
    (prepared.compatible.findIdx? fun parser =>
      parser.text = ((store.currentParser prepared.row.id).map (·.text)).getD "") =
        some currentIndex ∧
    (prepared.compatible.findIdx? fun parser => parser = targetParser) = some targetIndex ∧
    currentIndex < targetIndex
  exact : engine.registry.findExact targetParser prepared.inventory prepared.row.acquisitionMode =
    some prepared.parser
  read : engine.libraries.readRaw store.blobs prepared.row.blobRef prepared.inventory =
    .ok prepared.artifacts

variable {engine} {faults : PlanCall → Option ReparseError} {store : ReparseStore}
  {tenantId archiveId : Uuid} {targetParser : ParserId}

/-- What a preparation that succeeds has read. -/
theorem prepare_eq_ok
    (h : engine.prepare faults store tenantId archiveId targetParser = .ok prepared) :
    engine.Prepares store tenantId archiveId targetParser prepared := by
  unfold prepare at h
  obtain ⟨_, -, h⟩ := bind_eq_ok.mp h
  split at h
  · cases h
  rename_i hblocked
  obtain ⟨_, -, h⟩ := bind_eq_ok.mp h
  split at h
  rotate_left
  · cases h
  rename_i row hrow
  obtain ⟨_, -, h⟩ := bind_eq_ok.mp h
  obtain ⟨_, hverified, h⟩ := bind_eq_ok.mp h
  obtain ⟨_, -, h⟩ := bind_eq_ok.mp h
  obtain ⟨inventory, hinspected, h⟩ := bind_eq_ok.mp h
  dsimp only at h
  split at h
  rotate_left
  · cases h
  rename_i currentIndex hcurrent
  split at h
  rotate_left
  · cases h
  rename_i targetIndex htarget
  split at h
  · cases h
  rename_i hnewer
  split at h
  rotate_left
  · cases h
  rename_i parser hexact
  obtain ⟨_, -, h⟩ := bind_eq_ok.mp h
  obtain ⟨artifacts, hread, h⟩ := bind_eq_ok.mp h
  cases h
  exact ⟨Bool.eq_false_iff.mpr hblocked, hrow, mapError_eq_ok.mp hverified,
    mapError_eq_ok.mp hinspected,
    rfl, ⟨currentIndex, targetIndex, hcurrent, htarget, Nat.lt_of_not_le hnewer⟩, hexact, hread⟩

theorem Prepares.current (h : engine.Prepares store tenantId archiveId targetParser prepared) :
    ∃ current currentIndex targetIndex, store.currentParser prepared.row.id = some current ∧
      (prepared.compatible.findIdx? fun parser => parser.text = current.text) =
        some currentIndex ∧
      (prepared.compatible.findIdx? fun parser => parser = targetParser) = some targetIndex ∧
      currentIndex < targetIndex := by
  obtain ⟨currentIndex, targetIndex, hcurrent, hrest⟩ := h.newer
  cases hparser : store.currentParser prepared.row.id with
  | none =>
    rw [hparser] at hcurrent
    obtain ⟨_, hat, -⟩ := List.findIdx?_eq_some_iff_getElem.mp hcurrent
    exact absurd (of_decide_eq_true hat) (ParserId.text_ne_empty _)
  | some current =>
    rw [hparser] at hcurrent
    exact ⟨current, currentIndex, targetIndex, rfl, hcurrent, hrest⟩

theorem plan_eq_ok {plan : EvidencePlan}
    (h : (engine.plan faults store tenantId archiveId targetParser).2 = .ok plan) :
    ∃ prepared, engine.Prepares store tenantId archiveId targetParser prepared ∧
      ∃ parsed, (prepared.parser.execute store.blobs ⟨prepared.inventory, prepared.artifacts,
          prepared.row.blobRef⟩).2 = .ok parsed ∧ parsed.parser = targetParser ∧
        (engine.plan faults store tenantId archiveId targetParser).1 =
          { store with blobs := (prepared.parser.execute store.blobs ⟨prepared.inventory,
              prepared.artifacts, prepared.row.blobRef⟩).1 } ∧
        plan = {
          report := compareProjection archiveId targetParser prepared.row.blobRef.digest
            (store.db.currentProjection prepared.row.id) parsed
          registryFingerprint := prepared.compatible
          inputProjection := store.db.currentProjection prepared.row.id
          tenantId, exportId := prepared.row.id, rawRef := prepared.row.blobRef
          inventory := prepared.inventory, artifacts := prepared.artifacts, parsed } := by
  unfold ReparseEngine.plan at h ⊢
  split at h
  · cases h
  rename_i prepared hprepared
  obtain ⟨parsed, hparsed, h⟩ := bind_eq_ok.mp h
  split at h
  · cases h
  rename_i hparser
  obtain ⟨_, -, h⟩ := bind_eq_ok.mp h
  cases h
  exact ⟨prepared, prepare_eq_ok hprepared, parsed, mapError_eq_ok.mp hparsed,
    not_ne_iff.mp hparser, rfl, rfl⟩

end ReparseEngine

/-! ## Applying -/

/-- How far a call of `apply` has got. Every step up to the transaction is a statement or a store
call of its own. -/
inductive ApplyProgress where
  | started | unblocked | unreported | current | registered
  | unaltered (raw : BlobRef)
  | storing (stored : List BlobRef)
  deriving DecidableEq, Repr

namespace ReparseEngine

variable (engine : ReparseEngine)

def applyTransaction (now : Instant) (store : ReparseStore) (plan : EvidencePlan)
    (stored : List BlobRef) : ReparseStore × Except ReparseError ReparseReport :=
  -- the transaction of an apply, under the tenant's lock. The objects are proved present, or stored
  -- again, before the rows that refer to them are inserted
  match store.priorReport plan with
  | some report => (store, .ok report)
  | none =>
    if store.db.exports.any fun e => e.id = plan.exportId then
      match store.blobs.registerBlobs engine.libraries.sha256 (fun _ => false)
          (plan.registrations stored) with
      | (blobs, .error _) => ({ store with blobs }, .error .blobUnavailable)
      | (blobs, .ok ()) =>
        match store.db.writeReparse engine.contracts engine.config.owners
            engine.config.maxEventBytes now (plan.rows stored) with
        | .error e => ({ store with blobs }, .error e)
        | .ok db =>
          ({ db, blobs
             details := store.details ++ [{ report := plan.report, completedAt := now }] },
           .ok plan.report)
    else (store, .error .store)

def advance (now : Instant) (store : ReparseStore) (plan : EvidencePlan) :
    ApplyProgress → ReparseStore × (ApplyProgress ⊕ Except ReparseError ReparseReport)
  | .started =>
    (store, if store.db.privacyBlocked plan.tenantId then .inr (.error .conflict)
      else .inl .unblocked)
  | .unblocked =>
    (store, match store.priorReport plan with
      | some report => .inr (.ok report)
      | none => .inl .unreported)
  | .unreported =>
    (store, if store.db.currentProjection plan.exportId = plan.inputProjection then .inl .current
      else .inr (.error .conflict))
  | .current =>
    (store, match store.db.exports.find? fun e => e.id = plan.exportId with
      | none => .inr (.error .store)
      | some row =>
        if engine.registry.compatibleVersions plan.inventory row.acquisitionMode =
            plan.registryFingerprint then .inl .registered
        else .inr (.error .conflict))
  | .registered =>
    (store, match store.db.exports.find? fun e =>
        e.id = plan.exportId && e.accountId = plan.tenantId with
      | none => .inr (.error .conflict)
      | some row =>
        if row.blobRef.digest = plan.rawRef.digest then .inl (.unaltered row.blobRef)
        else .inr (.error .conflict))
  | .unaltered raw =>
    (store, match engine.libraries.verifyRaw store.blobs raw with
      | .error e => .inr (.error (.ofBlobStore e))
      | .ok () => .inl (.storing []))
  | .storing stored =>
    match plan.artifacts[stored.length]? with
    | some artifact =>
      let (reference, blobs) := store.blobs.receive engine.libraries.sha256
        "application/octet-stream" artifact.bytes
      ({ store with blobs }, .inl (.storing (stored ++ [reference.blob])))
    | none =>
      let (store, result) := engine.applyTransaction now store plan stored
      (store, .inr result)

def remaining (plan : EvidencePlan) : ApplyProgress → Nat
  | .started => plan.artifacts.length + 7
  | .unblocked => plan.artifacts.length + 6
  | .unreported => plan.artifacts.length + 5
  | .current => plan.artifacts.length + 4
  | .registered => plan.artifacts.length + 3
  | .unaltered _ => plan.artifacts.length + 2
  | .storing stored => plan.artifacts.length - stored.length + 1

end ReparseEngine

/-! ## Calls of one plan -/

structure ApplyCalls where
  store : ReparseStore
  calls : List (Nat × ApplyProgress)
  results : List (Nat × Except ReparseError ReparseReport)

inductive CallAction where
  | start (id : Nat)
  | advance (id : Nat) (now : Instant)
  deriving DecidableEq, Repr

namespace ApplyCalls

def initial (store : ReparseStore) : ApplyCalls := { store, calls := [], results := [] }

def without (s : ApplyCalls) (id : Nat) : List (Nat × ApplyProgress) :=
  s.calls.filter fun call => call.1 ≠ id

def step (engine : ReparseEngine) (plan : EvidencePlan) (s : ApplyCalls) : CallAction → ApplyCalls
  | .start id =>
    if s.calls.any fun call => call.1 = id then s
    else { s with calls := (id, .started) :: s.calls }
  | .advance id now =>
    match s.calls.lookup id with
    | none => s
    | some progress =>
      match engine.advance now s.store plan progress with
      | (store, .inl next) => { s with store, calls := (id, next) :: s.without id }
      | (store, .inr result) =>
        { store, calls := s.without id, results := s.results ++ [(id, result)] }

def writes (plan : EvidencePlan) (s : ApplyCalls) (id : Nat) : Bool :=
  match s.calls.lookup id with
  | some (.storing stored) =>
    plan.artifacts.length ≤ stored.length && (s.store.priorReport plan).isNone
  | _ => false

def alone (engine : ReparseEngine) (now : Instant) (store : ReparseStore) (plan : EvidencePlan) :
    ApplyCalls :=
  Run.run (step engine plan) (initial store)
    (.start 0 :: List.replicate (ReparseEngine.remaining plan .started) (.advance 0 now))

end ApplyCalls

/-! ## Sequences of plans and applies -/

structure ReparseSequence where
  store : ReparseStore
  plans : List (Option ParserId × EvidencePlan)

inductive ReparseCall where
  | plan (faults : PlanCall → Option ReparseError) (tenantId archiveId : Uuid)
      (targetParser : ParserId)
  | apply (index : Nat) (now : Instant)

namespace ReparseSequence

def step (engine : ReparseEngine) (s : ReparseSequence) : ReparseCall → ReparseSequence
  | .plan faults tenantId archiveId targetParser =>
    match engine.plan faults s.store tenantId archiveId targetParser with
    | (store, .ok plan) =>
      { store, plans := s.plans ++ [(s.store.currentParser plan.exportId, plan)] }
    | (store, .error _) => { s with store }
  | .apply index now =>
    match s.plans[index]? with
    | some planned => { s with store := (ApplyCalls.alone engine now s.store planned.2).store }
    | none => s

def run (engine : ReparseEngine) (store : ReparseStore) (calls : List ReparseCall) :
    ReparseSequence :=
  Run.run (step engine) { store, plans := [] } calls

def commits (engine : ReparseEngine) (s : ReparseSequence) (index : Nat) (now : Instant) : Prop :=
  (s.step engine (.apply index now)).store.db.reparseRuns ≠ s.store.db.reparseRuns

instance (engine : ReparseEngine) (s : ReparseSequence) (index : Nat) (now : Instant) :
    Decidable (s.commits engine index now) := inferInstanceAs (Decidable (_ ≠ _))

end ReparseSequence

end ChatgptArchive
