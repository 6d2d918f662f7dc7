import Mathlib.Data.List.ReduceOption
import ChatgptArchive.Integrity.Announcements
import ChatgptArchive.Integrity.Deletion

/-!
# The facts of the survivors, one by one

Projects and conversations are announced again by the same loop: what a row is announced with, if
anything, is queued under the next ordinal.
-/

namespace ChatgptArchive

open Outcome NormalizedArchiveEvent

namespace Database

variable {db db' : Database} {contracts : Contracts} {requestId tenantId : Uuid} {now : Instant}
  {repair : Repair}

/-! ## What a repair reads -/

/-- What the announcement of a survivor is read from: the records, the runs, and what is known of
the announced archives. -/
def announcedArchives (db : Database) : Database :=
  { db.records with
    importRuns := db.importRuns
    announcedSubjects := db.announcedSubjects.filter fun a => a.subjectKind = .archive
    outboxEvents := db.outboxEvents.filter fun e => e.eventType = .archiveImported }

theorem ownerOfArchive_announced (db : Database) (archiveId : Uuid) :
    db.announcedArchives.ownerOfArchive archiveId = db.ownerOfArchive archiveId := by
  have hfilter : db.announcedArchives.announcedSubjects.filter (fun a =>
      a.subjectKind = .archive && a.subjectId = archiveId) = db.announcedSubjects.filter fun a =>
        a.subjectKind = .archive && a.subjectId = archiveId := by
    simp only [announcedArchives, List.filter_filter]
    congr 1
    funext a
    by_cases h : a.subjectKind = .archive <;> simp [h]
  rw [ownerOfArchive, hfilter]
  rfl

theorem announcedImportedAt_announced (db : Database) (archiveId : Uuid) :
    db.announcedArchives.announcedImportedAt archiveId = db.announcedImportedAt archiveId := by
  have hfilter : db.announcedArchives.outboxEvents.filter (fun e =>
      e.eventType = .archiveImported && e.aggregateId = archiveId) = db.outboxEvents.filter fun e =>
        e.eventType = .archiveImported && e.aggregateId = archiveId := by
    simp only [announcedArchives, List.filter_filter]
    congr 1
    funext e
    by_cases h : e.eventType = .archiveImported <;> simp [h]
  rw [announcedImportedAt, hfilter]
  rfl

theorem survivorProvenance_announced (db : Database) (kind : EntityKind) (id : Uuid)
    (stamp : Option ParserId) :
    db.announcedArchives.survivorProvenance contracts kind id stamp now =
      db.survivorProvenance contracts kind id stamp now := by
  have hload : ∀ exportId, db.announcedArchives.loadRetainedImport contracts exportId now =
      db.loadRetainedImport contracts exportId now := by
    intro exportId
    unfold loadRetainedImport
    simp only [ownerOfArchive_announced, announcedImportedAt_announced]
    rfl
  unfold survivorProvenance
  simp only [hload]
  rfl

theorem projectRepair_announced (db : Database) (row : ProjectRow) :
    projectRepair contracts now db.announcedArchives row = projectRepair contracts now db row := by
  unfold projectRepair survivorRepair
  rw [survivorProvenance_announced]

theorem conversationRepair_announced (db : Database) (row : ConversationRow) :
    conversationRepair contracts now db.announcedArchives row =
      conversationRepair contracts now db row := by
  unfold conversationRepair survivorRepair
  rw [survivorProvenance_announced]
  rfl

structure AboutRecord (event : NormalizedArchiveEvent) : Prop where
  eventType : event.eventType ≠ .archiveImported
  announced : ∀ subject, event.announced = some subject → subject.kind ≠ .archive

theorem announcedArchives_insertOutboxEvent (db : Database) (aggregateId : Uuid)
    (tenantId exportId : Option Uuid) {envelope : EventEnvelope}
    (htype : envelope.payload.eventType ≠ .archiveImported) (key : DeduplicationKey) :
    (db.insertOutboxEvent aggregateId tenantId exportId envelope key).2.announcedArchives =
      db.announcedArchives := by
  unfold insertOutboxEvent
  dsimp only
  split
  · rfl
  · have hfilter (row : OutboxEventRow) (hrow : row.eventType ≠ .archiveImported) :
        (db.outboxEvents ++ [row]).filter (fun e => e.eventType = .archiveImported) =
          db.outboxEvents.filter fun e => e.eventType = .archiveImported :=
      Table.filter_append_beside (decide_eq_false hrow)
    refine congrArg (fun rows => { db.announcedArchives with outboxEvents := rows }) (hfilter _ ?_)
    exact htype

theorem announcedArchives_recordAnnounced (db : Database) {subject : AnnouncedSubject}
    (hkind : subject.kind ≠ .archive) (accountId : Uuid) :
    (db.recordAnnounced subject accountId now).announcedArchives = db.announcedArchives := by
  have hfilter : (db.recordAnnounced subject accountId now).announcedSubjects.filter (fun a =>
      a.subjectKind = .archive) = db.announcedSubjects.filter fun a => a.subjectKind = .archive :=
    Table.filter_insertAbsent_beside (decide_eq_false hkind)
  exact congrArg (fun rows => { db.announcedArchives with announcedSubjects := rows }) hfilter

theorem announcedArchives_enqueueRepair (db : Database) (ordinal : Nat) (retained : RetainedImport)
    {event : NormalizedArchiveEvent} (h : AboutRecord event) :
    (db.enqueueRepair requestId tenantId now ordinal retained event).announcedArchives =
      db.announcedArchives := by
  rw [enqueueRepair, enqueueNormalizedEvent]
  split
  rename_i added inserted heq
  have hinserted : inserted.announcedArchives = db.announcedArchives := by
    exact (congrArg (·.2.announcedArchives) heq).symm.trans
      (db.announcedArchives_insertOutboxEvent _ _ _ (by exact h.eventType) _)
  split
  · rename_i subject hsubject
    exact (inserted.announcedArchives_recordAnnounced (h.announced _ hsubject) _).trans hinserted
  · exact hinserted

theorem projectRepair_eq_ok {row : ProjectRow}
    (h : projectRepair contracts now db row = .ok (some repair)) :
    ∃ base, db.survivorProvenance contracts .project row.id
        (stampOf row.parserName row.parserVersion) now = .ok (some (repair.1, base)) ∧
      ∃ fact, projectFact contracts row base = .ok fact ∧
        projectUpdated contracts fact = .ok repair.2 := by
  obtain ⟨base, hprovenance, hevent⟩ := survivorRepair_eq_ok h
  obtain ⟨fact, hfact, hevent⟩ := bind_eq_ok.mp hevent
  exact ⟨base, hprovenance, fact, hfact, ofOutbox_eq_ok.mp hevent⟩

theorem conversationRepair_eq_ok {row : ConversationRow}
    (h : conversationRepair contracts now db row = .ok (some repair)) :
    ∃ base, db.survivorProvenance contracts .conversation row.id
        (stampOf row.parserName row.parserVersion) now = .ok (some (repair.1, base)) ∧
      ∃ fact, db.conversationFact contracts row base = .ok fact ∧
        conversationUpdated contracts fact = .ok repair.2 := by
  obtain ⟨base, hprovenance, hevent⟩ := survivorRepair_eq_ok h
  obtain ⟨fact, hfact, hevent⟩ := bind_eq_ok.mp hevent
  exact ⟨base, hprovenance, fact, hfact, ofOutbox_eq_ok.mp hevent⟩

theorem projectRepair_aboutRecord {row : ProjectRow}
    (h : projectRepair contracts now db row = .ok (some repair)) : AboutRecord repair.2 := by
  obtain ⟨base, -, fact, -, hevent⟩ := projectRepair_eq_ok h
  rw [projectUpdated_eq_ok hevent]
  refine ⟨nofun, fun subject hsubject => ?_⟩
  cases hsubject
  nofun

theorem conversationRepair_aboutRecord {row : ConversationRow}
    (h : conversationRepair contracts now db row = .ok (some repair)) : AboutRecord repair.2 := by
  obtain ⟨base, -, fact, -, hevent⟩ := conversationRepair_eq_ok h
  rw [conversationUpdated_eq_ok hevent]
  refine ⟨nofun, fun subject hsubject => ?_⟩
  cases hsubject
  nofun

/-! ## The queue of the repairs -/

def repairEmission (now : Instant) (requestId tenantId : Uuid) (repair : Repair) (ordinal : Nat) :
    Emission :=
  emission now (repair.2.occurringAt (now + 1000 + ordinal))
    { accountId := tenantId, exportId := some repair.1.exportId
      deduplicationKey := .reannounce requestId repair.2.eventType repair.2.aggregateId }

theorem enqueueRepair_eq_deliver (db : Database) (ordinal : Nat) (repair : Repair) :
    db.enqueueRepair requestId tenantId now ordinal repair.1 repair.2 =
      db.deliver (.emit (repairEmission now requestId tenantId repair ordinal)) :=
  enqueueNormalizedEvent_eq_deliver ..

def repairSteps (now : Instant) (requestId tenantId : Uuid) (ordinal : Nat)
    (repairs : List Repair) : List DeliveryStep :=
  (repairs.zipIdx ordinal).map fun repair =>
    .emit (repairEmission now requestId tenantId repair.1 repair.2)

structure RepairReads {ρ : Type}
    (repair : Database → ρ → Except ProjectionError (Option Repair)) : Prop where
  about : ∀ {db row r}, repair db row = .ok (some r) → AboutRecord r.2
  announced : ∀ db row, repair db.announcedArchives row = repair db row

theorem projectRepair_reads : RepairReads (projectRepair contracts now) :=
  ⟨projectRepair_aboutRecord, projectRepair_announced⟩

theorem conversationRepair_reads : RepairReads (conversationRepair contracts now) :=
  ⟨conversationRepair_aboutRecord, conversationRepair_announced⟩

/-- A loop of repairs delivers those of the rows that need one. -/
theorem repairRows_eq_ok {ρ : Type} {repair : Database → ρ → Except ProjectionError (Option Repair)}
    (hreads : RepairReads repair) (rows : List ρ) :
    ∀ {start db db' : Database} {ordinal ordinal' : Nat},
      db.announcedArchives = start.announcedArchives →
      repairRows repair requestId tenantId now db ordinal rows = .ok (db', ordinal') →
      ∃ outcomes, List.Forall₂ (fun row outcome => repair start row = .ok outcome) rows outcomes ∧
        db' = db.deliverAll (repairSteps now requestId tenantId ordinal outcomes.reduceOption) ∧
        ordinal' = ordinal + outcomes.reduceOption.length ∧
        db'.announcedArchives = start.announcedArchives := by
  induction rows with
  | nil =>
    intro start db db' ordinal ordinal' hstart hok
    cases hok
    exact ⟨[], .nil, rfl, rfl, hstart⟩
  | cons row rows ih =>
    intro start db db' ordinal ordinal' hstart hok
    obtain ⟨outcome, houtcome, hok⟩ := bind_eq_ok.mp hok
    have hread : repair start row = .ok outcome := by
      rw [← hreads.announced, ← hstart, hreads.announced, houtcome]
    cases outcome with
    | none =>
      obtain ⟨outcomes, hrows, hdb, hordinal, hend⟩ := ih hstart hok
      exact ⟨none :: outcomes, .cons hread hrows, hdb, hordinal, hend⟩
    | some r =>
      obtain ⟨outcomes, hrows, hdb, hordinal, hend⟩ :=
        ih ((db.announcedArchives_enqueueRepair ordinal r.1 (hreads.about hread)).trans hstart) hok
      refine ⟨some r :: outcomes, .cons hread hrows, ?_, ?_, hend⟩
      · rw [hdb, enqueueRepair_eq_deliver]
        rfl
      · rw [hordinal, List.reduceOption_cons_of_some, List.length_cons]
        omega

/-- Every survivor's fact is read from the state before the first one is queued; the facts of the
projects come first. -/
theorem reannounce_eq_ok {survivors : Survivors}
    (hok : db.reannounce contracts requestId tenantId now survivors = .ok db') :
    ∃ projects conversations,
      List.Forall₂ (fun row outcome => projectRepair contracts now db row = .ok outcome)
        ((db.projects.filter fun p => survivors.projects.contains p.id).insertionSort
          projectRowOrder) projects ∧
      List.Forall₂ (fun row outcome => conversationRepair contracts now db row = .ok outcome)
        ((db.conversations.filter fun c => survivors.conversations.contains c.id).insertionSort
          conversationRowOrder) conversations ∧
      db' = db.deliverAll (repairSteps now requestId tenantId 0
        (projects ++ conversations).reduceOption) ∧
      db'.announcedArchives = db.announcedArchives := by
  obtain ⟨⟨db₁, ordinal⟩, hprojects, hok⟩ := bind_eq_ok.mp hok
  obtain ⟨⟨db₂, ordinal'⟩, hconversations, hdb⟩ := bind_eq_ok.mp hok
  cases hdb
  obtain ⟨projects, hrepairs, rfl, rfl, hmiddle⟩ :=
    repairRows_eq_ok projectRepair_reads _ rfl hprojects
  obtain ⟨conversations, hrepairs', rfl, -, hend⟩ :=
    repairRows_eq_ok conversationRepair_reads _ hmiddle hconversations
  have hrows : (db.deliverAll (repairSteps now requestId tenantId 0
      projects.reduceOption)).conversations = db.conversations := by
    have hrecords := congrArg (·.conversations) hmiddle
    exact hrecords
  refine ⟨projects, conversations, hrepairs, hrows ▸ hrepairs', ?_, hend⟩
  rw [← deliverAll_append, List.reduceOption_append, repairSteps, repairSteps, repairSteps,
    List.zipIdx_append, List.map_append, Nat.zero_add]

end Database

end ChatgptArchive
