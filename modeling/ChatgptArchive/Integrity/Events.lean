import ChatgptArchive.Integrity.Import
import ChatgptArchive.InitialImport
import ChatgptArchive.Outcome

/-!
# Facts, reports and receipts keep a database sound

The statements that write neither the shared records nor their observations: the outbox and the
ledger, the runs and their reports, and the rows a receipt makes.
-/

namespace ChatgptArchive

open List Table Outcome

namespace Database

variable {contracts : Contracts} {config : ImportConfig} {now : Instant} {runId : Uuid}
  {plan : ReparsePlan} {db db' : Database} {owners : OwnerResolver} {maxEventBytes : Nat}

/-- A reading that deliveries leave alone: neither the outbox and the ledger nor the marks of
reported operations change it. -/
structure Undelivered {α : Type*} (f : Database → α) : Prop where
  delivery : ∀ (db : Database) (outboxEvents : List OutboxEventRow)
    (announcedSubjects : List AnnouncedSubjectRow) (nextOutboxId : Nat),
    f { db with outboxEvents, announcedSubjects, nextOutboxId } = f db
  report : ∀ (db : Database) (now : Instant) (operationId : Uuid),
    f (db.markReported now operationId) = f db

theorem undelivered_records : Undelivered records := ⟨fun _ _ _ _ => rfl, fun _ _ _ => rfl⟩

section Frame

variable {α : Type*} {f : Database → α}

section Facts

variable (hf : ∀ (db : Database) (outboxEvents : List OutboxEventRow)
  (announcedSubjects : List AnnouncedSubjectRow) (nextOutboxId : Nat),
  f { db with outboxEvents, announcedSubjects, nextOutboxId } = f db)
include hf

theorem insertOutboxEvent_frame (db : Database) (aggregateId : Uuid)
    (tenantId exportId : Option Uuid) (envelope : EventEnvelope) (key : DeduplicationKey) :
    f (db.insertOutboxEvent aggregateId tenantId exportId envelope key).2 = f db := by
  unfold insertOutboxEvent
  dsimp only
  split
  · exact hf db db.outboxEvents db.announcedSubjects _
  · exact hf db _ db.announcedSubjects _

theorem enqueueNormalizedEvent_frame (db : Database) (now : Instant)
    (event : NormalizedArchiveEvent) (placement : OutboxPlacement) :
    f (db.enqueueNormalizedEvent now event placement).2 = f db := by
  rw [← insertOutboxEvent_frame hf db event.aggregateId (some placement.accountId)
    placement.exportId event.envelope placement.deduplicationKey]
  unfold enqueueNormalizedEvent
  split
  rename_i added db' heq
  rw [heq]
  split
  · exact hf db' db'.outboxEvents _ db'.nextOutboxId
  · rfl

theorem enqueueFacts_frame (contracts : Contracts) (scope : FactScope) (now : Instant)
    (queue : List Candidate) : ∀ (db : Database) (outcome : ProjectionOutcome),
    f (enqueueFacts contracts scope now db outcome queue).1 = f db := by
  induction queue with
  | nil => exact fun _ _ => rfl
  | cons candidate queue ih =>
    intro db outcome
    unfold enqueueFacts
    split
    · exact ih db _
    · rw [ih, enqueueNormalizedEvent_frame hf]

theorem projectImportFacts_frame {contracts : Contracts} {owners : OwnerResolver}
    {scope : FactScope} {now : Instant} {db db' : Database} {outcome : ProjectionOutcome}
    (h : db.projectImportFacts contracts owners scope now = .ok (db', outcome)) :
    f db' = f db := by
  unfold projectImportFacts at h
  split at h
  · cases h
    rfl
  · obtain ⟨queue, -, hqueue⟩ := bind_eq_ok.mp h
    have hdb : (enqueueFacts contracts scope now db ⟨0, 0⟩ queue).1 = db' :=
      congrArg Prod.fst (Except.ok.inj hqueue)
    exact hdb ▸ enqueueFacts_frame hf ..

end Facts

theorem projectImportFacts_undelivered (hf : Undelivered f) {contracts : Contracts}
    {owners : OwnerResolver} {scope : FactScope} {now : Instant} {db db' : Database}
    {outcome : ProjectionOutcome}
    (h : db.projectImportFacts contracts owners scope now = .ok (db', outcome)) :
    f db' = f db := projectImportFacts_frame hf.delivery h

theorem enqueueReports_undelivered (hf : Undelivered f) {now : Instant} {tenantId exportId : Uuid}
    {report : Uuid → Except ReparseError OperationReported} (operations : List Uuid) :
    ∀ {db db' : Database}, enqueueReports now tenantId exportId report db operations = .ok db' →
      f db' = f db := by
  induction operations with
  | nil =>
    intro db db' hok
    cases hok
    rfl
  | cons operationId operations ih =>
    intro db db' hok
    obtain ⟨reported, -, hrest⟩ := bind_eq_ok.mp hok
    exact (ih hrest).trans
      ((hf.report _ _ _).trans (insertOutboxEvent_frame hf.delivery ..))

end Frame

theorem projectAndReport_records {summary : ImportSummary}
    (hok : projectAndReport contracts config now db runId plan summary = .ok db') :
    db'.records = db.records := by
  obtain ⟨⟨db₁, outcome⟩, hfacts, hrest⟩ := bind_eq_ok.mp hok
  have hreports := enqueueReports_undelivered undelivered_records _ hrest
  exact hreports.trans (projectImportFacts_undelivered undelivered_records
    (ofProjection_eq_ok.mp hfacts) :)

/-- An import changes nothing, for a run that was imported before, or writes the records of its
projection. -/
theorem persistInitialPlan_records
    (hok : persistInitialPlan contracts config now db runId plan = .ok db') :
    db' = db ∨ db'.records = ((db.persistArtifacts plan).persistProjection plan).records := by
  obtain ⟨gaps, -, hrest⟩ := bind_eq_ok.mp hok
  split at hrest
  · cases hrest
  · split at hrest
    · cases hrest
      exact .inl rfl
    · have hreports := projectAndReport_records hrest
      exact .inr hreports

theorem reparsePlan_cases {tenantId archiveId : Uuid}
    {inputProjection : List (String × Option ContentDigest)} {registryFingerprint : List ParserId}
    {parsed : ParsedConversations}
    {artifacts : List BlobRef}
    (hplan : db.reparsePlan tenantId archiveId inputProjection
      registryFingerprint parsed artifacts = .ok plan) :
    ∃ row ∈ db.exports, row.accountId = tenantId ∧ row.aiArchiveId = archiveId ∧
      plan = { tenantId, exportId := row.id, archiveId, targetParser := parsed.parser
               rawDigest := row.blobRef.digest, registryFingerprint, inputProjection, artifacts
               parsed } := by
  unfold reparsePlan at hplan
  split at hplan
  · cases hplan
  · rename_i row hrow
    split at hplan
    · cases hplan
      have hmatch := find?_some hrow
      simp only [Bool.and_eq_true, decide_eq_true_eq] at hmatch
      exact ⟨row, mem_of_find?_eq_some hrow, hmatch.1, hmatch.2, rfl⟩
    · cases hplan

def reparsedRows (db : Database) (plan : ReparsePlan) : Database :=
  ((db.insertReparseRun plan).persistArtifacts plan).persistProjection plan

/-- A reparse changes nothing, when it was applied before, or writes the rows of its projection for
a stored export and then the facts. -/
theorem commitReparse_cases
    (hok : db.commitReparse contracts owners maxEventBytes now plan = .ok db') :
    db' = db ∨ ∃ row ∈ db.exports, row.id = plan.exportId ∧ row.accountId = plan.tenantId ∧
      ∃ outcome, (db.reparsedRows plan).projectImportFacts contracts owners
        { archiveId := plan.archiveId, exportId := plan.exportId, accountId := plan.tenantId
          parser := plan.targetParser, head := .withChangedEntities, maxEventBytes } now =
        .ok (db', outcome) := by
  unfold commitReparse writeReparse at hok
  split at hok
  · cases hok
    exact .inl rfl
  · split at hok
    · cases hok
    · rename_i row hfind
      obtain ⟨⟨db₁, outcome⟩, hfacts, hdb⟩ := bind_eq_ok.mp hok
      cases hdb
      have hmatch := find?_some hfind
      simp only [Bool.and_eq_true, decide_eq_true_eq] at hmatch
      exact .inr ⟨row, mem_of_find?_eq_some hfind, hmatch.1, hmatch.2, outcome,
        ofProjection_eq_ok.mp hfacts⟩

theorem commitReparse_records
    (hok : db.commitReparse contracts owners maxEventBytes now plan = .ok db') :
    db' = db ∨ db'.records = (db.reparsedRows plan).records := by
  rcases commitReparse_cases hok with rfl | ⟨row, -, -, -, outcome, hfacts⟩
  · exact .inl rfl
  · exact .inr (projectImportFacts_undelivered undelivered_records hfacts)

end Database

namespace Sound

open Database

variable {db : Database} {now : Instant} {contracts : Contracts} {owners : OwnerResolver}
  {db' : Database} {runId : Uuid} {plan : ReparsePlan} {config : ImportConfig}
  {expected : ImportState} {update : ImportRunRow → ImportRunRow}

/-! ## Facts -/

theorem insertOutboxEvent (h : Sound db) (aggregateId : Uuid) (tenantId : Option Uuid)
    {exportId : Option Uuid} (envelope : EventEnvelope) (key : DeduplicationKey)
    (hexport : ∀ e, exportId = some e → e ∈ db.exports.map (·.id)) :
    Sound (db.insertOutboxEvent aggregateId tenantId exportId envelope key).2 := by
  unfold Database.insertOutboxEvent
  dsimp only
  split
  · exact { h with consistent := h.consistent }
  · refine { h with consistent := h.consistent.setOutboxEvents fun e he => ?_ }
    rcases mem_inserted.mp he with he | rfl
    · exact .inl he
    · exact .inr hexport

theorem recordAnnounced (h : Sound db) (subject : AnnouncedSubject) {accountId : Uuid}
    (now : Instant) (haccount : accountId ∈ db.accounts.map (·.id)) :
    Sound (db.recordAnnounced subject accountId now) := by
  refine { h with consistent := h.consistent.setAnnouncedSubjects fun a ha => ?_ }
  rcases mem_insertAbsent.mp ha with ha | ⟨rfl, -⟩
  · exact .inl ha
  · exact .inr haccount

theorem enqueueNormalizedEvent (h : Sound db) (now : Instant) (event : NormalizedArchiveEvent)
    (placement : OutboxPlacement)
    (hexport : ∀ e, placement.exportId = some e → e ∈ db.exports.map (·.id))
    (haccount : event.announced.isSome → placement.accountId ∈ db.accounts.map (·.id)) :
    Sound (db.enqueueNormalizedEvent now event placement).2 := by
  have hinsert := h.insertOutboxEvent event.aggregateId (some placement.accountId) event.envelope
    placement.deduplicationKey hexport
  have hframe := insertOutboxEvent_frame undelivered_records.delivery db event.aggregateId
    (some placement.accountId)
    placement.exportId event.envelope placement.deduplicationKey
  unfold Database.enqueueNormalizedEvent
  generalize db.insertOutboxEvent event.aggregateId (some placement.accountId)
    placement.exportId event.envelope placement.deduplicationKey = inserted at *
  obtain ⟨added, db₁⟩ := inserted
  dsimp only at hinsert hframe ⊢
  split
  · rename_i subject hsubject
    refine hinsert.recordAnnounced subject now ?_
    rw [accounts_of_records hframe]
    exact haccount (by rw [hsubject]; rfl)
  · exact hinsert

theorem enqueueFacts (contracts : Contracts) (scope : FactScope) (now : Instant)
    (queue : List Candidate) : ∀ {db : Database} (outcome : ProjectionOutcome), Sound db →
    db.HasExport scope.exportId scope.accountId →
    Sound (Database.enqueueFacts contracts scope now db outcome queue).1 := by
  induction queue with
  | nil => exact fun _ h _ => h
  | cons candidate queue ih =>
    intro db outcome h hexport
    unfold Database.enqueueFacts
    split
    · exact ih _ h hexport
    · refine ih _ (h.enqueueNormalizedEvent _ _ _ (fun e he => ?_) fun _ => ?_) ?_
      · exact Option.some.inj he ▸ hasExport_id hexport
      · exact h.hasExport_account hexport
      · exact (hasExport_of_records (enqueueNormalizedEvent_frame undelivered_records.delivery ..)).mpr
          hexport

theorem projectImportFacts {scope : FactScope} {outcome : ProjectionOutcome} (h : Sound db)
    (hexport : db.HasExport scope.exportId scope.accountId)
    (hok : db.projectImportFacts contracts owners scope now = .ok (db', outcome)) : Sound db' := by
  unfold Database.projectImportFacts at hok
  split at hok
  · cases hok
    exact h
  · obtain ⟨queue, -, hqueue⟩ := bind_eq_ok.mp hok
    have hdb : (Database.enqueueFacts contracts scope now db ⟨0, 0⟩ queue).1 = db' :=
      congrArg Prod.fst (Except.ok.inj hqueue)
    exact hdb ▸ enqueueFacts contracts scope now queue _ h hexport

/-! ## Reports -/

theorem markReported (h : Sound db) (now : Instant) (operationId : Uuid) :
    Sound (db.markReported now operationId) := by
  refine { h with consistent := h.consistent.setOperationImports fun p hp => ?_ }
  rcases mem_updateWhere.mp hp with ⟨hp, -⟩ | ⟨q, hq, -, rfl⟩
  · exact .inl hp
  · exact .inr ⟨h.consistent.operationImport_run (p := q) hq,
      h.consistent.operationImport_export (p := q) hq⟩

theorem enqueueReports (now : Instant) (tenantId exportId : Uuid)
    (report : Uuid → Except ReparseError OperationReported) (operations : List Uuid) :
    ∀ {db db' : Database}, Sound db → exportId ∈ db.exports.map (·.id) →
      Database.enqueueReports now tenantId exportId report db operations = .ok db' → Sound db' := by
  induction operations with
  | nil =>
    intro db db' h _ hok
    cases hok
    exact h
  | cons operationId operations ih =>
    intro db db' h hexport hok
    obtain ⟨reported, -, hrest⟩ := bind_eq_ok.mp hok
    refine ih ((h.insertOutboxEvent _ _ _ _ fun e he => ?_).markReported now operationId) ?_ hrest
    · exact Option.some.inj he ▸ hexport
    · have hexports : (db.enqueueReport now tenantId exportId reported).exports = db.exports :=
        exports_of_records (insertOutboxEvent_frame undelivered_records.delivery ..)
      show exportId ∈ (db.enqueueReport now tenantId exportId reported).exports.map (·.id)
      rwa [hexports]

theorem updateImportRuns (h : Sound db) {p : ImportRunRow → Bool} {f : ImportRunRow → ImportRunRow}
    (hid : ∀ r, (f r).id = r.id)
    (hexport : ∀ r ∈ db.importRuns, p r = true → ∀ e, (f r).exportId = some e →
      e ∈ db.exports.map (·.id)) :
    Sound { db with importRuns := Table.updateWhere p f db.importRuns } := by
  refine { h with consistent := h.consistent.setImportRuns (fun i hi => ?_) fun r hr => ?_ }
  · rwa [map_updateWhere hid]
  · rcases mem_updateWhere.mp hr with ⟨hr, -⟩ | ⟨q, hq, hp, rfl⟩
    · exact .inl hr
    · exact .inr (hexport q hq hp)

theorem insertCompletenessReport (h : Sound db) {runId : Uuid} (summary : ImportSummary)
    (gaps : List AiGap) (parsed : ParsedConversations) (hrun : runId ∈ db.importRuns.map (·.id)) :
    Sound (db.insertCompletenessReport runId summary gaps parsed) := by
  refine { h.freshUuid with
    consistent := h.freshUuid.consistent.setCompletenessReports fun c hc => ?_ }
  rcases mem_insertAbsent.mp hc with hc | ⟨rfl, -⟩
  · exact .inl hc
  · exact .inr hrun

theorem finishRun (h : Sound db) (now : Instant) (runId : Uuid) (state : ImportState)
    (parsed : ParsedConversations) : Sound (db.finishRun now runId state parsed) :=
  h.updateImportRuns (fun _ => rfl) fun _ hr _ _ => h.consistent.importRun_export hr

theorem storeFactsTooLarge (h : Sound db) (runId : Uuid) (tooLarge : Nat) :
    Sound (db.storeFactsTooLarge runId tooLarge) := by
  refine { h with consistent := h.consistent.setCompletenessReports fun c hc => ?_ }
  rcases mem_updateWhere.mp hc with ⟨hc, -⟩ | ⟨q, hq, -, rfl⟩
  · exact .inl hc
  · exact .inr (h.consistent.completeness_run (c := q) hq)

/-! ## One import transaction -/

theorem insertArtifact (h : Sound db) {exportId : Uuid} (blobRef : BlobRef) (ordinal : Nat)
    (hexport : exportId ∈ db.exports.map (·.id)) :
    Sound (Database.insertArtifact exportId db blobRef ordinal) := by
  refine { h.freshUuid with
    consistent := h.freshUuid.consistent.setExtractedArtifacts fun a ha => ?_ }
  rcases mem_insertAbsent.mp ha with ha | ⟨rfl, -⟩
  · exact .inl ha
  · exact .inr hexport

theorem insertArtifacts (exportId : Uuid) (references : List (BlobRef × Nat)) :
    ∀ {db : Database}, Sound db → exportId ∈ db.exports.map (·.id) →
      Sound (Database.insertArtifacts exportId db references) ∧
        (Database.insertArtifacts exportId db references).exports = db.exports ∧
        (Database.insertArtifacts exportId db references).importRuns = db.importRuns := by
  induction references with
  | nil => exact fun h _ => ⟨h, rfl, rfl⟩
  | cons head references ih =>
    intro db h hexport
    exact ih (h.insertArtifact head.1 head.2 hexport) hexport

theorem persistArtifacts (h : Sound db) {plan : ReparsePlan}
    (hexport : db.HasExport plan.exportId plan.tenantId) :
    Sound (db.persistArtifacts plan) ∧ (db.persistArtifacts plan).exports = db.exports ∧
      (db.persistArtifacts plan).importRuns = db.importRuns ∧
      (db.persistArtifacts plan).HasExport plan.exportId plan.tenantId := by
  obtain ⟨hartifacts, hexports, hruns⟩ :=
    insertArtifacts plan.exportId plan.artifacts.zipIdx h (hasExport_id hexport)
  refine ⟨hartifacts, hexports, hruns, ?_⟩
  rwa [HasExport, Database.persistArtifacts, hexports]

theorem insertReparseRun (h : Sound db) {plan : ReparsePlan}
    (hexport : plan.exportId ∈ db.exports.map (·.id)) : Sound (db.insertReparseRun plan) := by
  refine { h.freshUuid with consistent := h.freshUuid.consistent.setReparseRuns fun r hr => ?_ }
  rcases mem_inserted.mp hr with hr | rfl
  · exact .inl hr
  · exact .inr hexport

theorem persistRows (h : Sound db) (now : Instant) {runId : Uuid} {plan : ReparsePlan}
    (summary : ImportSummary) (gaps : List AiGap)
    (hexport : db.HasExport plan.exportId plan.tenantId) (hrun : runId ∈ db.importRuns.map (·.id)) :
    Sound (db.persistRows now runId plan summary gaps) ∧
      (db.persistRows now runId plan summary gaps).exports = db.exports := by
  obtain ⟨hartifacts, hexports, hruns, hexport'⟩ := h.persistArtifacts hexport
  obtain ⟨hprojection, hgrows⟩ := hartifacts.persistProjection plan hexport'
  refine ⟨(hprojection.insertCompletenessReport summary gaps plan.parsed ?_).finishRun now runId _
    plan.parsed, hgrows.exports.trans hexports⟩
  rwa [hgrows.importRuns, hruns]

theorem projectAndReport {summary : ImportSummary} (h : Sound db)
    (hexport : db.HasExport plan.exportId plan.tenantId)
    (hok : Database.projectAndReport contracts config now db runId plan summary = .ok db') :
    Sound db' := by
  obtain ⟨⟨db₁, outcome⟩, hfacts, hrest⟩ := bind_eq_ok.mp hok
  have hfacts := ofProjection_eq_ok.mp hfacts
  have hframe := projectImportFacts_undelivered undelivered_records hfacts
  refine enqueueReports now plan.tenantId plan.exportId _ _
    ((h.projectImportFacts hexport hfacts).storeFactsTooLarge runId outcome.tooLarge) ?_ hrest
  show plan.exportId ∈ db₁.exports.map (·.id)
  rw [exports_of_records hframe]
  exact hasExport_id hexport

theorem persistInitialPlan (h : Sound db) (hexport : db.HasExport plan.exportId plan.tenantId)
    (hok : Database.persistInitialPlan contracts config now db runId plan = .ok db') :
    Sound db' := by
  obtain ⟨gaps, -, hrest⟩ := bind_eq_ok.mp hok
  split at hrest
  · cases hrest
  · rename_i run hrun
    split at hrest
    · cases hrest
      exact h
    · have hid : runId ∈ db.importRuns.map (·.id) := mem_map.mpr
        ⟨run, mem_of_find?_eq_some hrun, by simpa using find?_some hrun⟩
      obtain ⟨hrows, hexports⟩ := h.persistRows now
        (importSummary plan.parsed gaps.length) gaps hexport hid
      refine hrows.projectAndReport ?_ hrest
      rwa [HasExport, hexports]

theorem markPermanentFailure {exportId tenantId : Uuid} (h : Sound db)
    (hexport : exportId ∈ db.exports.map (·.id))
    (hok : db.markPermanentFailure contracts now runId exportId tenantId = .ok db') :
    Sound db' := by
  refine enqueueReports now tenantId exportId _ _ (h.updateImportRuns ?_ ?_) hexport hok
  · exact fun _ => rfl
  · exact fun _ hr _ _ => h.consistent.importRun_export hr

theorem commitReparse {maxEventBytes : Nat} (h : Sound db)
    (hok : db.commitReparse contracts owners maxEventBytes now plan = .ok db') : Sound db' := by
  rcases commitReparse_cases hok with rfl | ⟨row, hrow, hid, haccount, outcome, hfacts⟩
  · exact h
  · have hexport : db.HasExport plan.exportId plan.tenantId := ⟨row, hrow, hid, haccount⟩
    have hrun := h.insertReparseRun (hasExport_id hexport)
    obtain ⟨hartifacts, -, -, hexport'⟩ := hrun.persistArtifacts hexport
    obtain ⟨hprojection, hgrows⟩ := hartifacts.persistProjection plan hexport'
    exact hprojection.projectImportFacts (hgrows.hasExport.mpr hexport') hfacts

/-! ## Receipts -/

theorem createRun (h : Sound db) (now : Instant) (accountRef : String) (mode : AcquisitionMode)
    (mediaType : String) : Sound (db.createRun now accountRef mode mediaType).2 := by
  refine { h.freshUuid with
    consistent := h.freshUuid.consistent.setImportRuns (fun i hi => ?_) fun r hr => ?_ }
  · rw [map_append]
    exact mem_append_left _ hi
  · rcases mem_inserted.mp hr with hr | rfl
    · exact .inl hr
    · exact .inr nofun

theorem guardedRunUpdate (h : Sound db) (hid : ∀ r, (update r).id = r.id)
    (hexport : ∀ r ∈ db.importRuns, ∀ e, (update r).exportId = some e → e ∈ db.exports.map (·.id))
    (hok : db.guardedRunUpdate runId expected update = .ok db') : Sound db' := by
  unfold Database.guardedRunUpdate at hok
  dsimp only at hok
  split at hok
  · cases hok
    exact h.updateImportRuns hid fun r hr _ => hexport r hr
  · cases hok

theorem guardedRunUpdate_ok (hid : ∀ r, (update r).id = r.id)
    (hok : db.guardedRunUpdate runId expected update = .ok db') :
    db'.exports = db.exports ∧ runId ∈ db'.importRuns.map (·.id) := by
  unfold Database.guardedRunUpdate at hok
  dsimp only at hok
  split at hok
  · rename_i hany
    cases hok
    obtain ⟨r, hr, hguard⟩ := any_eq_true.mp hany
    simp only [Bool.and_eq_true, decide_eq_true_eq] at hguard
    refine ⟨rfl, ?_⟩
    rw [map_updateWhere hid]
    exact mem_map.mpr ⟨r, hr, hguard.1⟩
  · cases hok

theorem bindOperation (h : Sound db) (operationId : Uuid) {runId exportId : Uuid}
    (hrun : runId ∈ db.importRuns.map (·.id)) (hexport : exportId ∈ db.exports.map (·.id)) :
    Sound (db.bindOperation operationId runId exportId) := by
  refine { h with consistent := h.consistent.setOperationImports fun p hp => ?_ }
  rcases mem_insertAbsent.mp hp with hp | ⟨rfl, -⟩
  · exact .inl hp
  · exact .inr ⟨hrun, hexport⟩

theorem upsertAccount (h : Sound db) (externalRef : String) :
    Sound (db.upsertAccount externalRef).2 := by
  refine { h.freshUuid with consistent := h.freshUuid.consistent.setAccounts fun i hi => ?_ }
  refine map_upsert_subset ?_ hi
  exact fun _ => rfl

/-- The export takes a new identity, and its key is free. -/
theorem insertExport (h : Sound db) (now : Instant) {accountId : Uuid} (request : PublishRequest)
    (haccount : accountId ∈ db.accounts.map (·.id))
    (hnew : ∀ e ∈ db.exports, e.key ≠ (accountId, request.sha256Hex)) :
    Sound (db.insertExport now accountId request).2 := by
  have hgrow : ∀ {e a}, db.HasExport e a →
      (db.insertExport now accountId request).2.HasExport e a :=
    fun ⟨r, hr, hrest⟩ => ⟨r, mem_append_left _ hr, hrest⟩
  refine { h.freshUuid.freshUuid with
    consistent := h.freshUuid.freshUuid.consistent.setExports (fun i hi => ?_) fun e he => ?_
    exportFresh := fun e he => ?_
    exportIds := ?_
    exportKeys := ?_
    observedProject := fun o ho hk => ?_
    observedConversation := fun o ho hk => ?_ }
  · rw [map_append]
    exact mem_append_left _ hi
  · rcases mem_inserted.mp he with he | rfl
    · exact .inl he
    · exact .inr haccount
  · rcases mem_inserted.mp he with he | rfl
    · exact h.freshUuid.freshUuid.exportFresh e he
    · exact Nat.lt_succ_of_lt (Nat.lt_succ_self _)
  · show ((db.exports ++ [_]).map ExportRow.id).Nodup
    rw [map_append]
    refine h.exportIds.append (nodup_singleton _) (disjoint_singleton.mpr fun hmem => ?_)
    obtain ⟨e, he, heid⟩ := mem_map.mp hmem
    exact absurd heid (Nat.ne_of_lt (h.exportFresh e he))
  · show ((db.exports ++ [_]).map ExportRow.key).Nodup
    rw [map_append]
    refine h.exportKeys.append (nodup_singleton _) (disjoint_singleton.mpr fun hmem => ?_)
    obtain ⟨e, he, hkey⟩ := mem_map.mp hmem
    exact hnew e he hkey
  · obtain ⟨p, hp, hpid, hexport⟩ := h.observedProject o ho hk
    exact ⟨p, hp, hpid, hgrow hexport⟩
  · obtain ⟨c, hc, hcid, hexport⟩ := h.observedConversation o ho hk
    exact ⟨c, hc, hcid, hgrow hexport⟩

theorem publishExport {request : PublishRequest} (h : Sound db)
    (hok : db.publishExport now request = .ok db') : Sound db' := by
  have haccount := h.upsertAccount request.accountExternalRef
  have hmem : (db.upsertAccount request.accountExternalRef).1 ∈
      (db.upsertAccount request.accountExternalRef).2.accounts := upsert_fst_mem
  unfold Database.publishExport at hok
  generalize db.upsertAccount request.accountExternalRef = upserted at *
  obtain ⟨account, db₁⟩ := upserted
  dsimp only at haccount hmem hok
  have hid : (db₁.insertExport now account.id request).1 ∈
      (db₁.insertExport now account.id request).2.exports.map (·.id) :=
    mem_map.mpr ⟨_, mem_append_right _ (mem_singleton_self _), rfl⟩
  split at hok
  · cases hok
  · rename_i habsent
    -- the lookup before the insert has found no export with this content
    have hnew : ∀ e ∈ db₁.exports, e.key ≠ (account.id, request.sha256Hex) := by
      intro e he hkey
      simpa [Prod.mk.inj hkey] using find?_eq_none.mp habsent e he
    have hexport := haccount.insertExport now request (mem_map_of_mem hmem) hnew
    split at hok
    · cases hok
    · rename_i db₂ hupdate
      have hstored : Sound db₂ := by
        refine hexport.guardedRunUpdate ?_ ?_ hupdate
        · exact fun _ => rfl
        · exact fun _ _ e he => Option.some.inj he ▸ hid
      obtain ⟨hexports, hrun⟩ : db₂.exports = (db₁.insertExport now account.id request).2.exports ∧
          request.runId ∈ db₂.importRuns.map (·.id) := by
        refine guardedRunUpdate_ok ?_ hupdate
        exact fun _ => rfl
      split at hok
      · cases hok
        exact hstored.bindOperation _ hrun (hexports ▸ hid)
      · cases hok
        exact hstored

end Sound

end ChatgptArchive
