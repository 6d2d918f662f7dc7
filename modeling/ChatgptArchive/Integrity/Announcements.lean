import ChatgptArchive.Service
import ChatgptArchive.Integrity.Deliveries
import ChatgptArchive.Integrity.Writes

/-!
# What the transactions of an import announce

Every fact an import queues is about a record its export observes, or about the archive itself,
and names the archive of that export. The reports it queues announce nothing.
-/

namespace ChatgptArchive

open List Outcome Option NormalizedArchiveEvent

variable {α : Type} {a : α}

/-! ## The provenance of a fact -/

theorem represented_eq_ok {x : Option α} : represented x = .ok a ↔ x = some a := by
  cases x <;> simp [represented]

theorem ofOutbox_eq_ok {x : Except OutboxError α} : ofOutbox x = .ok a ↔ x = .ok a := by
  cases x <;> simp [ofOutbox]

structure SameImport (provenance base : AiArchiveProvenance) : Prop where
  archive : provenance.aiArchiveId = base.aiArchiveId
  owner : provenance.owner = base.owner
  importedAt : provenance.importedAt = base.importedAt

section Contract

variable {contracts : Contracts} {base : AiArchiveProvenance}

theorem entityProvenance_sameImport {provenance : AiArchiveProvenance}
    {parserName parserVersion : Option String}
    (h : entityProvenance contracts base parserName parserVersion = some provenance) :
    SameImport provenance base := by
  unfold entityProvenance at h
  split at h
  · obtain ⟨name, -, h⟩ := bind_eq_some_iff.mp h
    obtain ⟨version, -, rfl⟩ := map_eq_some_iff.mp h
    exact ⟨rfl, rfl, rfl⟩
  · cases h
    exact ⟨rfl, rfl, rfl⟩

theorem projectFact_names {row : ProjectRow} {fact : AiProjectFact}
    (h : projectFact contracts row base = .ok fact) :
    fact.project.aiProjectId = row.id ∧ SameImport fact.importProvenance base := by
  obtain ⟨provenance, hprovenance, h⟩ := bind_eq_ok.mp h
  obtain ⟨title, -, h⟩ := bind_eq_ok.mp h
  obtain ⟨digest, -, h⟩ := bind_eq_ok.mp h
  cases h
  exact ⟨rfl, entityProvenance_sameImport (represented_eq_ok.mp hprovenance)⟩

theorem conversationFact_names {db : Database} {row : ConversationRow} {fact : AiConversationFact}
    (h : db.conversationFact contracts row base = .ok fact) :
    fact.conversation.aiConversationId = row.id ∧
      fact.conversation.owner = fact.importProvenance.owner ∧
      SameImport fact.importProvenance base := by
  obtain ⟨provenance, hprovenance, h⟩ := bind_eq_ok.mp h
  obtain ⟨⟨messages, warnings⟩, -, h⟩ := bind_eq_ok.mp h
  obtain ⟨digest, -, h⟩ := bind_eq_ok.mp h
  cases h
  exact ⟨rfl, rfl, entityProvenance_sameImport (represented_eq_ok.mp hprovenance)⟩

/-! ## Events that announce -/

structure NormalizedArchiveEvent.Announces (event : NormalizedArchiveEvent)
    (subject : AnnouncedSubject) : Prop where
  announced : event.announced = some subject
  payload : event.envelope.payload.announces = some subject
  owner : event.envelope.tenantId = some subject.owner
  aggregate : event.aggregateId = subject.subjectId

namespace NormalizedArchiveEvent

variable {fact : AiProjectFact} {event : NormalizedArchiveEvent}

theorem archiveImported_announces (head : AiArchiveImport) :
    (archiveImported head).Announces ⟨.archive, head.aiArchiveId, head.aiArchiveId, head.owner⟩ :=
  ⟨rfl, rfl, rfl, rfl⟩

theorem ofProject_announces {payload : AiProjectFact → EventPayload}
    (hpayload : payload = .projectAdded ∨ payload = .projectUpdated) (fact : AiProjectFact) :
    (ofProject payload fact).Announces ⟨.project, fact.project.aiProjectId,
      fact.importProvenance.aiArchiveId, fact.importProvenance.owner⟩ := by
  rcases hpayload with rfl | rfl <;> exact ⟨rfl, rfl, rfl, rfl⟩

theorem ofConversation_announces {payload : AiConversationFact → EventPayload}
    (hpayload : payload = .conversationAdded ∨ payload = .conversationUpdated)
    (fact : AiConversationFact) :
    (ofConversation payload fact).Announces ⟨.conversation, fact.conversation.aiConversationId,
      fact.importProvenance.aiArchiveId, fact.conversation.owner⟩ := by
  rcases hpayload with rfl | rfl <;> exact ⟨rfl, rfl, rfl, rfl⟩

theorem projectAdded_eq_ok (h : projectAdded contracts fact = .ok event) :
    event = ofProject .projectAdded fact := by
  unfold projectAdded at h
  split at h <;> cases h
  rfl

theorem projectUpdated_eq_ok (h : projectUpdated contracts fact = .ok event) :
    event = ofProject .projectUpdated fact := by
  unfold projectUpdated at h
  split at h <;> cases h
  rfl

theorem conversationAdded_eq_ok {fact : AiConversationFact}
    (h : conversationAdded contracts fact = .ok event) :
    event = ofConversation .conversationAdded fact := by
  unfold conversationAdded at h
  split at h <;> cases h
  rfl

theorem conversationUpdated_eq_ok {fact : AiConversationFact}
    (h : conversationUpdated contracts fact = .ok event) :
    event = ofConversation .conversationUpdated fact := by
  unfold conversationUpdated at h
  split at h <;> cases h
  rfl

end NormalizedArchiveEvent

namespace Database

/-- What an import may announce: its archive, and the records its export observes. -/
inductive Presents (db : Database) (exportId archiveId : Uuid) : SubjectKind → Uuid → Prop
  | archive : Presents db exportId archiveId .archive archiveId
  | conversation {row : ConversationRow} (h : row ∈ db.conversations)
      (ho : db.Observes exportId .conversation row.id) :
      Presents db exportId archiveId .conversation row.id
  | project {row : ProjectRow} (h : row ∈ db.projects)
      (ho : db.Observes exportId .project row.id) :
      Presents db exportId archiveId .project row.id

theorem Presents.congr {db db' : Database} (h : db'.records = db.records)
    {exportId archiveId : Uuid} {kind : SubjectKind} {id : Uuid}
    (hp : db.Presents exportId archiveId kind id) : db'.Presents exportId archiveId kind id := by
  have hobservations : db'.observations = db.observations := records_frame h fun _ => rfl
  have hobserves : ∀ {e k i}, db.Observes e k i → db'.Observes e k i := by
    rintro e k i ⟨o, ho, hrest⟩
    exact ⟨o, hobservations ▸ ho, hrest⟩
  cases hp with
  | archive => exact .archive
  | conversation hrow ho =>
    have hrows : db'.conversations = db.conversations := records_frame h fun _ => rfl
    exact .conversation (hrows ▸ hrow) (hobserves ho)
  | project hrow ho =>
    have hrows : db'.projects = db.projects := records_frame h fun _ => rfl
    exact .project (hrows ▸ hrow) (hobserves ho)

/-- The event is a fact of the import: it announces what the import presents, to the owner, under
the archive and at the instant of the import. -/
structure ImportFact (db : Database) (scope : FactScope) (owner : TenantRef) (now : Instant)
    (event : NormalizedArchiveEvent) (subject : AnnouncedSubject) : Prop where
  announces : event.Announces subject
  owner : subject.owner = owner
  archive : subject.aiArchiveId = scope.archiveId
  presents : db.Presents scope.exportId scope.archiveId subject.kind subject.subjectId
  occurredAt : event.envelope.occurredAt = now

/-! ## The facts of an import -/

variable {db db' : Database} {scope : FactScope} {owner : TenantRef} {now : Instant}
  {candidate : Candidate} {base : AiArchiveProvenance}

theorem loadImport_names {head : AiArchiveImport} {digest : String}
    (h : db.loadImport contracts scope owner now = .ok (head, digest)) :
    head.aiArchiveId = scope.archiveId ∧ head.owner = owner ∧ head.importedAt = now := by
  unfold loadImport at h
  split at h
  · obtain ⟨report, -, h⟩ := bind_eq_ok.mp h
    obtain ⟨provider, -, h⟩ := bind_eq_ok.mp h
    obtain ⟨parserName, -, h⟩ := bind_eq_ok.mp h
    obtain ⟨parserVersion, -, h⟩ := bind_eq_ok.mp h
    dsimp only at h
    split at h
    · obtain ⟨digest', -, h⟩ := bind_eq_ok.mp h
      cases h
      exact ⟨rfl, rfl, rfl⟩
    · cases h
  · cases h

theorem mem_collectCandidates {α : Type}
    {candidate : α → Except ProjectionError (Option Candidate)} {rows : List α} :
    ∀ {queue : List Candidate}, collectCandidates candidate rows = .ok queue →
      ∀ c ∈ queue, ∃ row ∈ rows, candidate row = .ok (some c) := by
  induction rows with
  | nil =>
    intro queue h c hc
    cases h
    cases hc
  | cons row rows ih =>
    intro queue h c hc
    obtain ⟨head, hhead, h⟩ := bind_eq_ok.mp h
    obtain ⟨tail, htail, h⟩ := bind_eq_ok.mp h
    cases h
    rcases mem_append.mp hc with hc | hc
    · exact ⟨row, mem_cons_self, by rw [hhead, mem_toList.mp hc]⟩
    · obtain ⟨row', hrow', hcandidate⟩ := ih htail c hc
      exact ⟨row', mem_cons_of_mem _ hrow', hcandidate⟩

theorem projectCandidate_eq_ok {row : ProjectRow}
    (h : db.projectCandidate contracts base row = .ok (some candidate)) :
    ∃ fact payload, projectFact contracts row base = .ok fact ∧
      (payload = .projectAdded ∨ payload = .projectUpdated) ∧
      candidate.event = ofProject payload fact := by
  obtain ⟨fact, hfact, h⟩ := bind_eq_ok.mp h
  split at h
  · split at h
    · cases h
    · obtain ⟨event, hevent, h⟩ := bind_eq_ok.mp h
      cases h
      exact ⟨fact, _, hfact, .inr rfl, projectUpdated_eq_ok (ofOutbox_eq_ok.mp hevent)⟩
  · obtain ⟨event, hevent, h⟩ := bind_eq_ok.mp h
    cases h
    exact ⟨fact, _, hfact, .inl rfl, projectAdded_eq_ok (ofOutbox_eq_ok.mp hevent)⟩

theorem conversationCandidate_eq_ok {row : ConversationRow}
    (h : db.conversationCandidate contracts base row = .ok (some candidate)) :
    ∃ fact payload, db.conversationFact contracts row base = .ok fact ∧
      (payload = .conversationAdded ∨ payload = .conversationUpdated) ∧
      candidate.event = ofConversation payload fact := by
  obtain ⟨fact, hfact, h⟩ := bind_eq_ok.mp h
  split at h
  · split at h
    · cases h
    · obtain ⟨event, hevent, h⟩ := bind_eq_ok.mp h
      cases h
      exact ⟨fact, _, hfact, .inr rfl, conversationUpdated_eq_ok (ofOutbox_eq_ok.mp hevent)⟩
  · obtain ⟨event, hevent, h⟩ := bind_eq_ok.mp h
    cases h
    exact ⟨fact, _, hfact, .inl rfl, conversationAdded_eq_ok (ofOutbox_eq_ok.mp hevent)⟩

/-- Every fact of an import announces a record of its scope. -/
theorem importFacts_announce {queue : List Candidate}
    (h : db.importFacts contracts scope owner now = .ok queue) :
    ∀ c ∈ queue, ∃ subject, db.ImportFact scope owner now c.event subject := by
  obtain ⟨⟨head, headDigest⟩, hhead, h⟩ := bind_eq_ok.mp h
  obtain ⟨harchive, howner, hnow⟩ := loadImport_names hhead
  obtain ⟨projects, hprojects, h⟩ := bind_eq_ok.mp h
  obtain ⟨conversations, hconversations, h⟩ := bind_eq_ok.mp h
  have hchanged : ∀ c ∈ projects ++ conversations,
      ∃ subject, db.ImportFact scope owner now c.event subject := by
    intro c hc
    rcases mem_append.mp hc with hc | hc
    · obtain ⟨row, hrow, hcandidate⟩ := mem_collectCandidates hprojects c hc
      obtain ⟨fact, payload, hfact, hpayload, hevent⟩ := projectCandidate_eq_ok hcandidate
      obtain ⟨hid, hsame⟩ := projectFact_names hfact
      have hrow := mem_filter.mp ((mem_insertionSort _).mp hrow)
      refine ⟨_, hevent ▸ ofProject_announces hpayload fact,
        hsame.owner.trans howner, hsame.archive.trans harchive, ?_, ?_⟩
      · exact hid ▸ .project hrow.1 (observes_iff.mp (by simpa using hrow.2))
      · rw [hevent]
        exact hsame.importedAt.trans hnow
    · obtain ⟨row, hrow, hcandidate⟩ := mem_collectCandidates hconversations c hc
      obtain ⟨fact, payload, hfact, hpayload, hevent⟩ := conversationCandidate_eq_ok hcandidate
      obtain ⟨hid, hfactOwner, hsame⟩ := conversationFact_names hfact
      have hrow := mem_filter.mp ((mem_insertionSort _).mp hrow)
      refine ⟨_, hevent ▸ ofConversation_announces hpayload fact,
        hfactOwner.trans (hsame.owner.trans howner), hsame.archive.trans harchive, ?_, ?_⟩
      · exact hid ▸ .conversation hrow.1 (observes_iff.mp (by simpa using hrow.2))
      · rw [hevent]
        exact hsame.importedAt.trans hnow
  intro c hc
  dsimp only at h
  split at h
  · cases h
    rcases mem_cons.mp hc with rfl | hc
    · exact ⟨_, archiveImported_announces head, howner, harchive, harchive ▸ .archive, hnow⟩
    · exact hchanged c hc
  · cases h
    exact hchanged c hc

def factPlacement (scope : FactScope) (candidate : Candidate) : OutboxPlacement :=
  { accountId := scope.accountId, exportId := some scope.exportId
    deduplicationKey :=
      .fact candidate.event.eventType candidate.event.aggregateId candidate.digest }

theorem enqueueFacts_delivers {P : DeliveryStep → Prop} (queue : List Candidate) :
    ∀ {db : Database} (outcome : ProjectionOutcome),
      (∀ c ∈ queue, contracts.serializedLen c.event.envelope ≤ scope.maxEventBytes →
        P (.emit (emission now c.event (factPlacement scope c)))) →
      Delivers P db (enqueueFacts contracts scope now db outcome queue).1 := by
  induction queue with
  | nil => exact fun _ _ => .of_eq rfl
  | cons candidate queue ih =>
    intro db outcome hP
    have hrest := fun c hc => hP c (mem_cons_of_mem _ hc)
    unfold enqueueFacts
    split
    · exact ih _ hrest
    · rename_i hsize
      refine .trans (.single (hP candidate mem_cons_self (Nat.not_lt.mp hsize)) ?_)
        (ih _ hrest)
      exact congrArg deliveries
        (db.enqueueNormalizedEvent_eq_deliver now candidate.event (factPlacement scope candidate))

end Database

end Contract

/-! ## The steps of an import -/

namespace Database

def reportEmission (now : Instant) (tenantId exportId : Uuid) (report : OperationReported) :
    Emission :=
  { now, aggregateId := report.operationId, tenantId := some tenantId, exportId := some exportId
    envelope := { occurredAt := now, tenantId := none, payload := .operationReported report }
    key := .operationReported report.operationId, announced := none }

/-- What an import transaction adds to the outbox, in the state it leaves. -/
inductive ImportStep (db : Database) (origin : Option (Uuid × Instant)) : DeliveryStep → Prop
  | fact {row : ExportRow} (hrow : row ∈ db.exports) {event : NormalizedArchiveEvent}
      {subject : AnnouncedSubject} (h : event.Announces subject)
      (harchive : subject.aiArchiveId = row.aiArchiveId)
      (hpresents : db.Presents row.id row.aiArchiveId subject.kind subject.subjectId)
      {now : Instant} (horigin : origin = some (row.accountId, now))
      (hat : event.envelope.occurredAt = now) (digest : String) :
      ImportStep db origin (.emit (emission now event
        { accountId := row.accountId, exportId := some row.id
          deduplicationKey := .fact event.eventType event.aggregateId digest }))
  | report {row : ExportRow} (hrow : row ∈ db.exports) (now : Instant)
      (report : OperationReported) :
      ImportStep db origin (.emit (reportEmission now row.accountId row.id report))

variable {db db' : Database} {origin : Option (Uuid × Instant)}

theorem ImportStep.congr (h : db'.records = db.records) {step : DeliveryStep}
    (hstep : db.ImportStep origin step) : db'.ImportStep origin step := by
  have hexports := exports_of_records h
  cases hstep with
  | fact hrow hannounces harchive hpresents horigin hat digest =>
    exact .fact (hexports ▸ hrow) hannounces harchive (hpresents.congr h) horigin hat digest
  | report hrow now report => exact .report (hexports ▸ hrow) now report

theorem emission_wellFormed {event : NormalizedArchiveEvent} {subject : AnnouncedSubject}
    (h : event.Announces subject) (now : Instant) (placement : OutboxPlacement) :
    (emission now event placement).WellFormed where
  announced := by
    show (event.announced.map fun subject => (subject, placement.accountId)).map (·.1) =
      event.envelope.payload.announces
    rw [h.announced, h.payload]
    rfl
  account s a hs := by
    obtain ⟨_, -, heq⟩ := map_eq_some_iff.mp hs
    exact congrArg some (Prod.mk.inj heq).2
  owner s hs := by
    have hs : event.envelope.payload.announces = some s := hs
    obtain rfl := Option.some.inj (h.payload.symm.trans hs)
    exact ⟨h.owner, h.aggregate⟩
  retraction htype := by
    have hbearing := event.envelope.payload.contentBearing_iff
    rw [h.payload] at hbearing
    have htype : event.envelope.payload.eventType = .subjectTombstoned ∨
      event.envelope.payload.eventType = .streamErasureRequested := htype
    rcases htype with htype | htype <;> rw [htype] at hbearing <;> cases hbearing

theorem ImportStep.wellFormed {e : Emission} (h : db.ImportStep origin (.emit e)) :
    e.WellFormed := by
  cases h with
  | fact hrow hannounces harchive hpresents horigin hat digest =>
    exact emission_wellFormed hannounces _ _
  | report hrow now report =>
    refine ⟨rfl, nofun, nofun, ?_⟩
    rintro (htype | htype) <;> cases htype

section Contract

variable {contracts : Contracts} {now : Instant} {owners : OwnerResolver} {scope : FactScope}
  {outcome : ProjectionOutcome} {P : DeliveryStep → Prop} {row : ExportRow} {tenantId runId : Uuid}
  {config : ImportConfig} {parsed : ParsedConversations} {artifacts : List BlobRef} {ε : Type}

theorem projectImportFacts_emits
    (hP : ∀ owner c subject, db.ImportFact scope owner now c.event subject →
      contracts.serializedLen c.event.envelope ≤ scope.maxEventBytes →
      P (.emit (emission now c.event (factPlacement scope c))))
    (hok : db.projectImportFacts contracts owners scope now = .ok (db', outcome)) :
    Delivers P db db' := by
  unfold projectImportFacts at hok
  split at hok
  · cases hok
    exact .of_eq rfl
  · obtain ⟨queue, hqueue, hdb⟩ := bind_eq_ok.mp hok
    have hdb : (enqueueFacts contracts scope now db ⟨0, 0⟩ queue).1 = db' :=
      congrArg Prod.fst (Except.ok.inj hdb)
    refine hdb ▸ enqueueFacts_delivers queue _ fun c hc hsize => ?_
    obtain ⟨subject, hfact⟩ := importFacts_announce hqueue c hc
    exact hP _ c subject hfact hsize

theorem projectImportFacts_delivers (hrow : row ∈ db.exports) (hid : scope.exportId = row.id)
    (harchive : scope.archiveId = row.aiArchiveId) (haccount : scope.accountId = row.accountId)
    (hok : db.projectImportFacts contracts owners scope now = .ok (db', outcome)) :
    Delivers (db.ImportStep (some (row.accountId, now))) db db' := by
  refine projectImportFacts_emits (fun owner c subject hfact _ => ?_) hok
  rw [factPlacement, hid, haccount]
  exact .fact hrow hfact.announces (hfact.archive.trans harchive)
    (hid ▸ harchive ▸ hfact.presents) rfl hfact.occurredAt c.digest

theorem enqueueReports_delivers {exportId : Uuid}
    {report : Uuid → Except ReparseError OperationReported} (operations : List Uuid) :
    (∀ operationId ∈ operations, ∀ reported, report operationId = .ok reported →
        P (.emit (reportEmission now tenantId exportId reported))) →
      ∀ {db db' : Database},
        enqueueReports now tenantId exportId report db operations = .ok db' →
        Delivers P db db' := by
  induction operations with
  | nil =>
    intro _ db db' hok
    cases hok
    exact .of_eq rfl
  | cons operationId operations ih =>
    intro hP db db' hok
    obtain ⟨reported, hreported, hrest⟩ := bind_eq_ok.mp hok
    refine .trans (.single (hP operationId mem_cons_self reported hreported) ?_)
      (ih (fun id hid => hP id (mem_cons_of_mem _ hid)) hrest)
    have hinsert : db.enqueueReport now tenantId exportId reported =
        db.deliver (.emit (reportEmission now tenantId exportId reported)) :=
      db.insertOutboxEvent_eq_deliver ..
    exact (congrArg deliveries hinsert :)

/-! ## The transactions of an import -/

theorem insertArtifacts_deliveries (exportId : Uuid) (references : List (BlobRef × Nat)) :
    ∀ db : Database, (insertArtifacts exportId db references).deliveries = db.deliveries ∧
      (insertArtifacts exportId db references).exports = db.exports := by
  induction references with
  | nil => exact fun _ => ⟨rfl, rfl⟩
  | cons head references ih => exact fun db => ih _

theorem persistProjection_deliveries (db : Database) (plan : ReparsePlan) :
    (db.persistProjection plan).deliveries = db.deliveries ∧
      (db.persistProjection plan).exports = db.exports := by
  have hgrows := (Writes.persistProjection db plan).grows
  exact ⟨unwritten_frame hgrows.unwritten fun _ => rfl, hgrows.exports⟩

theorem persistPlanRows_deliveries (db : Database) (plan : ReparsePlan) :
    ((db.persistArtifacts plan).persistProjection plan).deliveries = db.deliveries ∧
      ((db.persistArtifacts plan).persistProjection plan).exports = db.exports := by
  obtain ⟨hdeliveries, hexports⟩ := (db.persistArtifacts plan).persistProjection_deliveries plan
  obtain ⟨hdeliveries', hexports'⟩ :=
    insertArtifacts_deliveries plan.exportId plan.artifacts.zipIdx db
  exact ⟨hdeliveries.trans hdeliveries', hexports.trans hexports'⟩

theorem runInState_export {p : ImportState → Bool} {run : ImportRunRow}
    (h : db.runInState p runId = some (run, row)) : row ∈ db.exports := by
  obtain ⟨_, -, hrow⟩ := bind_eq_some_iff.mp h
  obtain ⟨row', hfind, heq⟩ := map_eq_some_iff.mp hrow
  cases heq
  exact mem_of_find?_eq_some hfind

/-- An import finds its run imported and changes nothing, or it persists the plan of the run's
export with the gaps of the parse and projects it. -/
theorem importPending_eq_ok
    (hok : db.importPending contracts config now runId parsed artifacts = .ok db') :
    ((∃ found, db.importRuns.find? (fun r => r.id = runId) = some found ∧
        found.state.imported = true) ∧ db' = db) ∨
    ∃ run row found gaps plan, importGaps contracts parsed = .ok gaps ∧
      db.runInState ImportState.attempted runId = some (run, row) ∧
      db.importRuns.find? (fun r => r.id = runId) = some found ∧ found.state.imported = false ∧
      plan = initialPlan row (db.currentProjection row.id) parsed artifacts ∧
      projectAndReport contracts config now
        (db.persistRows now runId plan (importSummary parsed gaps.length) gaps) runId plan
        (importSummary parsed gaps.length) = .ok db' := by
  unfold importPending at hok
  split at hok
  · cases hok
  · rename_i run row hrun
    obtain ⟨gaps, hgaps, hrest⟩ := bind_eq_ok.mp hok
    split at hrest
    · cases hrest
    · rename_i found hfind
      split at hrest
      · rename_i himported
        cases hrest
        exact .inl ⟨⟨found, hfind, himported⟩, rfl⟩
      · rename_i himported
        exact .inr ⟨run, row, found, gaps, _, hgaps, hrun, hfind, Bool.eq_false_iff.mpr himported,
          rfl, hrest⟩

theorem importPending_delivers
    (hok : db.importPending contracts config now runId parsed artifacts = .ok db') :
    Delivers (db'.ImportStep ((Event.importRun now runId parsed artifacts).origin db)) db db' := by
  rcases importPending_eq_ok hok with ⟨-, rfl⟩ | ⟨run, row, found, gaps, plan, -, hrun, -, -, hplan, hrest⟩
  · exact .of_eq rfl
  · simp only [Event.origin, hrun, map_some]
    have hid : plan.exportId = row.id := by rw [hplan]; rfl
    have harchive : plan.archiveId = row.aiArchiveId := by rw [hplan]; rfl
    have haccount : plan.tenantId = row.accountId := by rw [hplan]; rfl
    obtain ⟨⟨db₁, outcome⟩, hfacts, hreports⟩ := bind_eq_ok.mp hrest
    have hrecords := projectAndReport_records hrest
    obtain ⟨hdeliveries, hexports⟩ := db.persistPlanRows_deliveries plan
    have hpersisted : row ∈ (db.persistRows now runId plan
        (importSummary parsed gaps.length) gaps).exports := hexports.symm ▸ runInState_export hrun
    have hfacts := projectImportFacts_delivers hpersisted hid harchive haccount
      (ofProjection_eq_ok.mp hfacts)
    have hrow' : row ∈ db'.exports := exports_of_records hrecords ▸ hpersisted
    have hreported : ∀ reported, db'.ImportStep (some (row.accountId, now))
        (.emit (reportEmission now plan.tenantId plan.exportId reported)) := by
      rw [hid, haccount]
      exact .report hrow' now
    have hreports := enqueueReports_delivers _ (fun _ _ reported _ => hreported reported) hreports
    exact ((hfacts.mono fun _ hstep => hstep.congr hrecords).trans
      (hreports.of_left rfl)).of_left hdeliveries

def NamesArchive (db : Database) (plan : ReparsePlan) : Prop :=
  db.HasExport plan.exportId plan.tenantId → ∃ row ∈ db.exports, row.id = plan.exportId ∧
    row.accountId = plan.tenantId ∧ row.aiArchiveId = plan.archiveId

theorem commitReparse_delivers {maxEventBytes : Nat} {plan : ReparsePlan}
    (hplan : db.NamesArchive plan)
    (hok : db.commitReparse contracts owners maxEventBytes now plan = .ok db') :
    Delivers (db'.ImportStep (some (plan.tenantId, now))) db db' := by
  rcases commitReparse_cases hok with rfl | ⟨row, hrow, hid, haccount, outcome, hfacts⟩
  · exact .of_eq rfl
  · obtain ⟨row, hrow, hid, haccount, harchive⟩ := hplan ⟨row, hrow, hid, haccount⟩
    obtain ⟨hdeliveries, hexports⟩ := (db.insertReparseRun plan).persistPlanRows_deliveries plan
    have hpersisted : row ∈ (db.reparsedRows plan).exports := hexports.symm ▸ hrow
    have hdelivers := projectImportFacts_delivers hpersisted hid.symm harchive.symm haccount.symm
      hfacts
    rw [haccount] at hdelivers
    refine (hdelivers.mono fun _ => .congr ?_).of_left hdeliveries
    exact projectImportFacts_undelivered undelivered_records hfacts

theorem reparseArchive_delivers {archiveId : Uuid}
    {inputProjection : List (String × Option ContentDigest)} {registryFingerprint : List ParserId}
    (hok : db.reparseArchive contracts config now tenantId archiveId inputProjection
      registryFingerprint parsed artifacts = .ok db') :
    Delivers (db'.ImportStep (some (tenantId, now))) db db' := by
  obtain ⟨plan, hplan, hcommit⟩ := bind_eq_ok.mp hok
  obtain ⟨row, hrow, haccount, harchive, rfl⟩ := reparsePlan_cases hplan
  exact commitReparse_delivers (fun _ => ⟨row, hrow, rfl, haccount, harchive⟩) hcommit

/-! ## Every transaction but a deletion -/

theorem committed_cases (db : Database) (result : Except ε Database) :
    committed db result = db ∨ result = .ok (committed db result) := by
  cases result with
  | ok db' => exact .inr rfl
  | error e => exact .inl rfl

theorem committed_of {P : Database → Prop} {result : Except ε Database} (hsame : P db)
    (h : ∀ db', result = .ok db' → P db') : P (committed db result) := by
  cases result with
  | ok db' => exact h db' rfl
  | error e => exact hsame

/-- What holds of an unchanged outbox and of a successful transaction holds of its commit. -/
theorem Delivers.committed {result : Except ε Database}
    (h : ∀ db', result = .ok db' → Delivers (db'.ImportStep origin) db db') :
    Delivers ((ChatgptArchive.committed db result).ImportStep origin) db
      (ChatgptArchive.committed db result) := by
  rcases committed_cases db result with heq | hok
  · rw [heq]
    exact .of_eq rfl
  · exact h _ hok

theorem markPermanentFailure_delivers (hrow : row ∈ db.exports)
    (hok : db.markPermanentFailure contracts now runId row.id row.accountId = .ok db') :
    Delivers (db'.ImportStep origin) db db' := by
  have hrecords := enqueueReports_undelivered undelivered_records _ hok
  have hrow : row ∈ db'.exports := (exports_of_records hrecords).symm ▸ hrow
  have hreported : ∀ reported, db'.ImportStep origin
      (.emit (reportEmission now row.accountId row.id reported)) := .report hrow now
  exact (enqueueReports_delivers _ (fun _ _ reported _ => hreported reported) hok).of_left rfl

section Receipt

variable {α : Type*} {f : Database → α}
  (hf : ∀ (db : Database) (accounts : List AccountRow) (exports : List ExportRow)
    (importRuns : List ImportRunRow) (platformOperationImports : List PlatformOperationImportRow)
    (nextUuid : Uuid),
    f { db with accounts, exports, importRuns, platformOperationImports, nextUuid } = f db)
include hf

theorem guardedRunUpdate_frame {runId : Uuid} {expected : ImportState}
    {update : ImportRunRow → ImportRunRow}
    (hok : db.guardedRunUpdate runId expected update = .ok db') : f db' = f db := by
  unfold guardedRunUpdate at hok
  dsimp only at hok
  split at hok <;> cases hok
  exact hf db db.accounts db.exports _ db.platformOperationImports db.nextUuid

theorem publishExport_frame {request : PublishRequest}
    (hok : db.publishExport now request = .ok db') : f db' = f db := by
  unfold publishExport at hok
  dsimp only at hok
  split at hok
  · cases hok
  · split at hok
    · cases hok
    · rename_i db₁ hupdate
      have hstored : f db₁ = f db := (guardedRunUpdate_frame hf hupdate).trans
        (hf db _ _ db.importRuns db.platformOperationImports _)
      split at hok <;> cases hok
      · exact (hf db₁ db₁.accounts db₁.exports db₁.importRuns _ db₁.nextUuid).trans hstored
      · exact hstored

theorem receipt_frame (config : ImportConfig) {event : Event} (hevent : event.isReceipt = true) :
    f (db.step contracts config event) = f db := by
  have hcommitted : ∀ result : Except RepositoryError Database,
      (∀ db', result = .ok db' → f db' = f db) → f (committed db result) = f db :=
    fun _ h => committed_of (P := (f · = f db)) rfl h
  cases event with
  | createRun now accountRef mode mediaType =>
    exact hf db db.accounts db.exports _ db.platformOperationImports _
  | recordHash runId sha256Hex byteLength =>
    exact hcommitted _ fun db' hok => guardedRunUpdate_frame hf hok
  | markRun now runId expected target =>
    refine hcommitted _ fun db' hok => ?_
    unfold markRun at hok
    split at hok
    · exact guardedRunUpdate_frame hf hok
    · cases hok
  | publish now request => exact hcommitted _ fun db' hok => publishExport_frame hf hok
  | bindOperation exportId operationId =>
    refine hcommitted _ fun db' hok => ?_
    unfold bindPlatformOperation at hok
    split at hok <;> cases hok
    exact hf db db.accounts db.exports db.importRuns _ db.nextUuid
  | _ => cases hevent

end Receipt

theorem receipt_deliveries (config : ImportConfig) {event : Event}
    (hevent : event.isReceipt = true) :
    (db.step contracts config event).deliveries = db.deliveries :=
  receipt_frame (fun _ _ _ _ _ _ => rfl) config hevent

theorem step_delivers (config : ImportConfig) (event : Event)
    (hevent : ∀ now evidenceRef tenantId requestId scope,
      event ≠ .delete now evidenceRef tenantId requestId scope) :
    Delivers ((db.step contracts config event).ImportStep (event.origin db)) db
      (db.step contracts config event) := by
  cases event with
  | importRun now runId parsed artifacts =>
    exact .committed fun db' hok => importPending_delivers hok
  | failRun now runId =>
    simp only [step]
    split
    · exact .of_eq rfl
    · rename_i run row hrun
      exact .committed fun db' hok => markPermanentFailure_delivers (runInState_export hrun) hok
  | reportRun now runId =>
    simp only [step]
    split
    · exact .of_eq rfl
    · rename_i run row hrun
      refine .committed fun db' hok => ?_
      obtain ⟨summary, -, hok⟩ := bind_eq_ok.mp hok
      have hrow : row ∈ db'.exports :=
        (exports_of_records (enqueueReports_undelivered undelivered_records _ hok)).symm ▸
          runInState_export hrun
      exact enqueueReports_delivers _ (fun _ _ reported _ => .report hrow now reported) hok
  | reparse now tenantId archiveId inputProjection registryFingerprint parsed artifacts =>
    exact .committed fun db' hok => reparseArchive_delivers hok
  | delete now evidenceRef tenantId requestId scope => exact (hevent _ _ _ _ _ rfl).elim
  | _ => exact .of_eq (receipt_deliveries config rfl)

end Contract

end Database

end ChatgptArchive
