import ChatgptArchive.Integrity.Repairs
import ChatgptArchive.Integrity.Deletion

/-!
# What a deletion does to the outbox and the ledger

The row phase drops outbox rows and, with the account, ledger rows. Then it adds the tombstones of
its subjects, the erasure commands of the facts it dropped and the facts of the survivors, in this
order.
-/

namespace ChatgptArchive

open List Outcome NormalizedArchiveEvent Table

namespace Database

variable {db db' : Database} {tenantId id : Uuid}

/-! ## The statements of the removal -/

theorem consistent_of_checked (h : db.checked = .ok db') : db'.Consistent := by
  by_contra hnot
  rw [← checked_eq_ok h] at hnot
  rw [checked_of_not_consistent hnot] at h
  cases h

theorem runStatements_eq_ok {statements : List (Database → Database)} :
    ∀ {db : Database}, runStatements statements db = .ok db' →
      db' = statements.foldl (fun db statement => statement db) db ∧
        (statements ≠ [] → db'.Consistent) := by
  induction statements with
  | nil =>
    intro db h
    cases h
    exact ⟨rfl, fun hne => absurd rfl hne⟩
  | cons statement statements ih =>
    intro db h
    obtain ⟨checked, hchecked, hrest⟩ := bind_eq_ok.mp h
    have hconsistent := consistent_of_checked hchecked
    obtain ⟨heq, hlast⟩ := ih hrest
    rw [← checked_eq_ok hchecked] at heq
    refine ⟨heq, fun _ => ?_⟩
    cases statements with
    | nil =>
      cases hrest
      exact hconsistent
    | cons => exact hlast (cons_ne_nil _ _)

section Removed

variable (removed : Category → List Uuid) (inbox outbox : List Nat) (tenantId : Uuid)
  (db : Database)

theorem dependentStatements_foldl :
    (dependentStatements removed inbox).foldl (fun db statement => statement db) db =
      afterDependents removed inbox db := by
  have hbefore : ((dependentStatements removed inbox).take 7).foldl
      (fun db statement => statement db) db = beforeMessages removed db := rfl
  rw [← take_append_drop 7 (dependentStatements removed inbox), foldl_append, hbefore]
  rfl

theorem exportStatements_foldl :
    (exportStatements removed outbox tenantId).foldl (fun db statement => statement db)
      (afterDependents removed inbox db) = rowsRemoved removed inbox outbox tenantId db := by
  unfold exportStatements rowsRemoved
  split <;> rfl

theorem afterDependents_publishedFacts (exports : List Uuid) :
    (afterDependents removed inbox db).publishedFacts outbox exports =
      db.publishedFacts outbox exports := rfl

end Removed

def removedIds (db : Database) (requestId : Uuid) (category : Category) : List Uuid :=
  db.itemIds requestId category .remove

theorem deleteScopedRows_eq_ok {requestId : Uuid} {dropped : PublishedFacts}
    (h : db.deleteScopedRows requestId tenantId = .ok (db', dropped)) :
    db' = rowsRemoved (db.removedIds requestId) (db.serialItemIds requestId .inboxEvent)
        (db.serialItemIds requestId .outboxEvent) tenantId db ∧
      dropped = db.publishedFacts (db.serialItemIds requestId .outboxEvent)
        (db.removedIds requestId .export) ∧ db'.Consistent := by
  obtain ⟨dependent, hdependent, h⟩ := bind_eq_ok.mp h
  obtain ⟨exported, hexported, h⟩ := bind_eq_ok.mp h
  obtain ⟨hdependent, -⟩ := runStatements_eq_ok hdependent
  obtain ⟨hexports, hconsistent⟩ := runStatements_eq_ok hexported
  rw [hdependent, dependentStatements_foldl] at hexports h
  obtain ⟨rfl, rfl⟩ := Prod.mk.inj (Except.ok.inj h)
  refine ⟨hexports.trans (exportStatements_foldl ..), ?_, hconsistent (cons_ne_nil _ _)⟩
  exact afterDependents_publishedFacts ..

def withoutDropped (db : Database) (outbox : List Nat) (exports accounts : List Uuid)
    (tenantId : Uuid) : Database :=
  { db with
    outboxEvents := deleteWhere (droppedFact outbox exports) db.outboxEvents
    announcedSubjects := if accounts.isEmpty then db.announcedSubjects
      else deleteWhere (fun a => a.accountId = tenantId) db.announcedSubjects }

theorem rowsRemoved_deliveries (removed : Category → List Uuid) (inbox outbox : List Nat)
    (tenantId : Uuid) (db : Database) : (rowsRemoved removed inbox outbox tenantId db).deliveries =
      (db.withoutDropped outbox (removed .export) (removed .account) tenantId).deliveries := by
  -- the cascade of the exports finds no outbox row that the listed drop has left
  have hcascade : deleteWhere (fun e : OutboxEventRow =>
      e.exportId.any (removed .export).contains)
        (deleteWhere (droppedFact outbox (removed .export)) db.outboxEvents) =
      deleteWhere (droppedFact outbox (removed .export)) db.outboxEvents := by
    refine filter_eq_self.mpr fun e he => ?_
    have hkept := (mem_deleteWhere.mp he).2
    simp only [droppedFact, Bool.or_eq_false_iff] at hkept
    simp only [hkept.2, Bool.not_false]
  unfold rowsRemoved
  simp only [withoutDropped]
  split
  · simp only [deliveries, deleteExports, beforeExports, afterDependents, beforeMessages, hcascade]
  · simp only [deliveries, deleteAccount, deleteExports, beforeExports, afterDependents,
      beforeMessages, hcascade]

/-! ## The restoration -/

theorem undetailed_unwritten : Undetailed unwritten where
  messages _ _ _ := rfl
  parts _ _ _ := rfl
  observe _ _ _ := rfl
  header _ _ _ _ _ _ := rfl

theorem replayVersions_unwritten (held : List Held) :
    ∀ {db db' : Database} {previous : Option ContentDigest},
      replayVersions tenantId id db previous held = .ok db' → db'.unwritten = db.unwritten := by
  induction held with
  | nil =>
    intro db db' previous h
    cases h
    rfl
  | cons v held ih =>
    intro db db' previous h
    unfold replayVersions at h
    split at h
    · exact ih h
    · split at h
      · cases h
      · exact (ih h).trans (persistConversationDetail_undetailed undetailed_unwritten ..)

theorem rebuildRecord_unwritten {kind : EntityKind}
    (h : db.rebuildRecord tenantId kind id = .ok db') : db'.unwritten = db.unwritten := by
  unfold rebuildRecord at h
  dsimp only at h
  split at h
  · cases h
    rfl
  · unfold restoreProject at h
    split at h <;> cases h
    rfl
  · obtain ⟨replayed, hreplay, h⟩ := bind_eq_ok.mp h
    have hreplay := replayVersions_unwritten _ hreplay
    split at h
    · cases h
      exact hreplay
    · split at h
      · cases h
      · cases h
        exact ((Grows.appendRevision ..).unwritten.trans rfl).trans hreplay
  · cases h

theorem restoreRetainedVersions_unwritten (h : db.restoreRetainedVersions tenantId = .ok db') :
    db'.unwritten = db.unwritten := by
  unfold restoreRetainedVersions at h
  dsimp only at h
  have hstart : db.dropVersionsOfMissing.unwritten = db.unwritten := rfl
  generalize db.dropVersionsOfMissing.staleRecords tenantId = records at h
  generalize db.dropVersionsOfMissing = start at h hstart
  refine Eq.trans ?_ hstart
  clear hstart
  induction records generalizing start with
  | nil =>
    cases h
    rfl
  | cons record records ih =>
    obtain ⟨restored, hrestored, hrest⟩ := bind_eq_ok.mp h
    obtain ⟨rebuilt, hrebuilt, hdrop⟩ := bind_eq_ok.mp hrestored
    cases hdrop
    exact (ih _ hrest).trans (rebuildRecord_unwritten hrebuilt :)

/-! ## Tombstones and erasure commands -/

def tombstoneEmission (now : Instant) (tenantId requestId : Uuid) (evidenceRef : BlobRef)
    (kind : SubjectKind) (subjectId : Uuid) (owner : TenantRef × Uuid) : Emission :=
  emission now (tombstoned
      { aiArchiveId := owner.2, owner := owner.1, subjectKind := kind, subjectId, evidenceRef
        observedAt := now })
    { accountId := tenantId, exportId := none
      deduplicationKey := .privacyDelete requestId kind subjectId owner.1 }

def retractionSteps (now : Instant) (tenantId requestId : Uuid) (evidenceRef : BlobRef)
    (announcement : Announcement) : List DeliveryStep :=
  (announcement.owners.map fun owner => .emit (tombstoneEmission now tenantId requestId evidenceRef
    announcement.kind announcement.subjectId owner)) ++
    [.forget tenantId announcement.kind announcement.subjectId]

theorem enqueueTombstones_eq_deliverAll (now : Instant) (tenantId requestId : Uuid)
    (evidenceRef : BlobRef) (kind : SubjectKind) (subjectId : Uuid)
    (owners : List (TenantRef × Uuid)) : ∀ db : Database,
    enqueueTombstones now tenantId requestId evidenceRef kind subjectId db owners =
      db.deliverAll (owners.map fun owner => .emit
        (tombstoneEmission now tenantId requestId evidenceRef kind subjectId owner)) := by
  induction owners with
  | nil => exact fun _ => rfl
  | cons owner owners ih =>
    intro db
    unfold enqueueTombstones
    rw [ih, enqueueNormalizedEvent_eq_deliver]
    rfl

theorem insertTombstones_deliveries (now : Instant) (tenantId requestId : Uuid)
    (evidenceRef : BlobRef) (announcements : List Announcement) : ∀ db : Database,
    (insertTombstones now tenantId requestId evidenceRef db announcements).deliveries =
      (db.deliverAll (announcements.flatMap
        (retractionSteps now tenantId requestId evidenceRef))).deliveries := by
  induction announcements with
  | nil => exact fun _ => rfl
  | cons announcement announcements ih =>
    intro db
    rw [insertTombstones, ih, flatMap_cons, deliverAll_append]
    refine deliverAll_congr ?_ _
    rw [retractionSteps, deliverAll_append, ← enqueueTombstones_eq_deliverAll]
    rfl

def erasureEmission (now : Instant) (requestRef : Uuid) (accountId : Option Uuid)
    (owner : TenantRef) (key : Nat → DeduplicationKey) (chunk : List Nat × Nat) : Emission :=
  { now, aggregateId := requestRef, tenantId := accountId, exportId := none
    envelope :=
      { occurredAt := now, tenantId := some owner
        payload := .streamErasureRequested
          { requestRef, owner, streamSequences := chunk.1 } }
    key := key chunk.2, announced := none }

theorem enqueueOwnerErasure_eq_deliverAll (now : Instant) (requestRef : Uuid)
    (accountId : Option Uuid) (owner : TenantRef) (key : Nat → DeduplicationKey)
    (chunks : List (List Nat × Nat)) : ∀ db : Database,
    enqueueOwnerErasure now requestRef accountId owner key db chunks =
      db.deliverAll (chunks.map fun chunk => .emit
        (erasureEmission now requestRef accountId owner key chunk)) := by
  induction chunks with
  | nil => exact fun _ => rfl
  | cons chunk chunks ih =>
    intro db
    unfold enqueueOwnerErasure
    rw [ih, insertOutboxEvent_eq_deliver _ now]
    rfl

def erasureSteps (now : Instant) (tenantId requestId : Uuid) (facts : PublishedFacts) :
    List DeliveryStep :=
  (ascending (facts.map fun fact => fact.1.user)).flatMap fun user =>
    ((PublishedFacts.sequencesOf facts ⟨user⟩).toChunks 500).zipIdx.map fun chunk => .emit
      (erasureEmission now requestId (some tenantId) ⟨user⟩ (.streamErasure requestId ⟨user⟩)
        chunk)

theorem enqueueErasureCommands_eq_deliverAll (db : Database) (now : Instant)
    (tenantId requestId : Uuid) (facts : PublishedFacts) :
    db.enqueueErasureCommands now tenantId requestId facts =
      db.deliverAll (erasureSteps now tenantId requestId facts) := by
  unfold enqueueErasureCommands erasureSteps
  generalize ascending (facts.map fun fact => fact.1.user) = users
  induction users generalizing db with
  | nil => rfl
  | cons user users ih =>
    rw [foldl_cons, ih, flatMap_cons, deliverAll_append, enqueueErasureChunks,
      enqueueOwnerErasure_eq_deliverAll]

/-! ## The facts of the survivors -/

inductive Survives (db : Database) (survivors : Survivors) : SubjectKind → Uuid → Prop
  | conversation {row : ConversationRow} (h : row ∈ db.conversations)
      (hid : row.id ∈ survivors.conversations) : Survives db survivors .conversation row.id
  | project {row : ProjectRow} (h : row ∈ db.projects) (hid : row.id ∈ survivors.projects) :
      Survives db survivors .project row.id

/-- A repair fact: an update of a survivor under the archive of a stored export that observes it. -/
inductive RepairStep (db : Database) (now : Instant) (requestId tenantId : Uuid)
    (survivors : Survivors) : DeliveryStep → Prop
  | repair {row : ExportRow} (hrow : row ∈ db.exports) {event : NormalizedArchiveEvent}
      {subject : AnnouncedSubject} (h : event.Announces subject)
      (harchive : subject.aiArchiveId = row.aiArchiveId)
      (hsurvives : db.Survives survivors subject.kind subject.subjectId)
      (hobserved : ∃ kind, db.Observes row.id kind subject.subjectId)
      {ordinal : Nat} (hat : event.envelope.occurredAt = now + 1000 + ordinal) :
      RepairStep db now requestId tenantId survivors (.emit (emission now event
        { accountId := tenantId, exportId := some row.id
          deduplicationKey := .reannounce requestId event.eventType event.aggregateId }))

section Contract

variable {contracts : Contracts} {requestId tenantId : Uuid} {now : Instant}
  {survivors : Survivors} {kind : EntityKind} {id : Uuid} {repair : Repair}
  {request : PrivacyDeletionRequestRow} {evidenceRef : BlobRef} {announcements : List Announcement}
  {dropped : PublishedFacts}

theorem occurringAt_announces {event : NormalizedArchiveEvent} {subject : AnnouncedSubject}
    (h : event.Announces subject) (occurredAt : Instant) :
    (event.occurringAt occurredAt).Announces subject :=
  ⟨h.announced, h.payload, h.owner, h.aggregate⟩

structure RepairNames (db : Database) (kind : EntityKind) (subjectKind : SubjectKind) (id : Uuid)
    (repair : Repair) (stored : ExportRow) (subject : AnnouncedSubject) : Prop where
  mem : stored ∈ db.exports
  exportId : repair.1.exportId = stored.id
  announces : repair.2.Announces subject
  names : subject.kind = subjectKind ∧ subject.subjectId = id
  archive : subject.aiArchiveId = stored.aiArchiveId
  earliest : db.earliestRetained kind id = some stored.id

theorem projectRepair_names {row : ProjectRow}
    (h : projectRepair contracts now db row = .ok (some repair)) :
    ∃ stored subject, db.RepairNames .project .project row.id repair stored subject := by
  obtain ⟨base, hprovenance, fact, hfact, hevent⟩ := projectRepair_eq_ok h
  obtain ⟨stored, hstored, hretained, harchive, hearliest⟩ := survivorProvenance_names hprovenance
  obtain ⟨hid, hsame⟩ := projectFact_names hfact
  have hannounces := ofProject_announces (.inr rfl) fact
  rw [← projectUpdated_eq_ok hevent] at hannounces
  exact ⟨stored, _, hstored, hretained, hannounces, ⟨rfl, hid⟩, hsame.archive.trans harchive,
    hearliest⟩

theorem conversationRepair_names {row : ConversationRow}
    (h : conversationRepair contracts now db row = .ok (some repair)) :
    ∃ stored subject, db.RepairNames .conversation .conversation row.id repair stored subject := by
  obtain ⟨base, hprovenance, fact, hfact, hevent⟩ := conversationRepair_eq_ok h
  obtain ⟨stored, hstored, hretained, harchive, hearliest⟩ := survivorProvenance_names hprovenance
  obtain ⟨hid, -, hsame⟩ := conversationFact_names hfact
  have hannounces := ofConversation_announces (.inr rfl) fact
  rw [← conversationUpdated_eq_ok hevent] at hannounces
  exact ⟨stored, _, hstored, hretained, hannounces, ⟨rfl, hid⟩, hsame.archive.trans harchive,
    hearliest⟩

def survivingProjects (db : Database) (survivors : Survivors) : List ProjectRow :=
  db.projects.filter fun p => survivors.projects.contains p.id

def survivingConversations (db : Database) (survivors : Survivors) : List ConversationRow :=
  db.conversations.filter fun c => survivors.conversations.contains c.id

theorem earliestRetained_observes {e : Uuid} (h : db.earliestRetained kind id = some e) :
    db.Observes e kind id := by
  obtain ⟨⟨o, row⟩, hhead, rfl⟩ := Option.map_eq_some_iff.mp h
  have hmem := (mem_insertionSort _).mp (mem_of_mem_head? hhead)
  simp only [mem_flatMap, mem_filter, mem_map, Prod.mk.injEq, Bool.and_eq_true,
    decide_eq_true_eq] at hmem
  obtain ⟨o', ⟨ho, hkind, hid⟩, row', ⟨-, hexport⟩, -, rfl⟩ := hmem
  exact ⟨o', ho, hexport.symm, hkind, hid⟩

/-- The repair announces a survivor under the archive of a stored export that observes it. -/
def Repairs (db : Database) (survivors : Survivors) (repair : Repair) : Prop :=
  ∃ row ∈ db.exports, repair.1.exportId = row.id ∧ ∃ subject, repair.2.Announces subject ∧
    subject.aiArchiveId = row.aiArchiveId ∧ db.Survives survivors subject.kind subject.subjectId ∧
    ∃ kind, db.Observes row.id kind subject.subjectId

def Reannounces (contracts : Contracts) (now : Instant) (db : Database) (survivors : Survivors)
    (repair : Repair) : Prop :=
  (∃ row ∈ db.survivingProjects survivors,
    projectRepair contracts now db row = .ok (some repair)) ∨
  ∃ row ∈ db.survivingConversations survivors,
    conversationRepair contracts now db row = .ok (some repair)

theorem Reannounces.congr (h : db'.announcedArchives = db.announcedArchives) {repair : Repair}
    (hrepair : Reannounces contracts now db survivors repair) :
    Reannounces contracts now db' survivors repair := by
  rcases hrepair with ⟨row, hrow, hrepair⟩ | ⟨row, hrow, hrepair⟩
  · have hrow : row ∈ db.announcedArchives.survivingProjects survivors := hrow
    rw [← h] at hrow
    refine .inl ⟨row, hrow, ?_⟩
    rw [← projectRepair_announced, h, projectRepair_announced, hrepair]
  · have hrow : row ∈ db.announcedArchives.survivingConversations survivors := hrow
    rw [← h] at hrow
    refine .inr ⟨row, hrow, ?_⟩
    rw [← conversationRepair_announced, h, conversationRepair_announced, hrepair]

theorem Reannounces.repairs (hrepair : Reannounces contracts now db survivors repair) :
    db.Repairs survivors repair := by
  rcases hrepair with ⟨row, hrow, hrepair⟩ | ⟨row, hrow, hrepair⟩
  · obtain ⟨hrow, hlisted⟩ := mem_filter.mp hrow
    obtain ⟨stored, subject, hnames⟩ := projectRepair_names hrepair
    refine ⟨stored, hnames.mem, hnames.exportId, subject, hnames.announces, hnames.archive, ?_⟩
    rw [hnames.names.1, hnames.names.2]
    exact ⟨.project hrow (by simpa using hlisted), _, earliestRetained_observes hnames.earliest⟩
  · obtain ⟨hrow, hlisted⟩ := mem_filter.mp hrow
    obtain ⟨stored, subject, hnames⟩ := conversationRepair_names hrepair
    refine ⟨stored, hnames.mem, hnames.exportId, subject, hnames.announces, hnames.archive, ?_⟩
    rw [hnames.names.1, hnames.names.2]
    exact ⟨.conversation hrow (by simpa using hlisted), _,
      earliestRetained_observes hnames.earliest⟩

theorem mem_of_forall₂_reduceOption {α β : Type} {R : α → Option β → Prop} {rows : List α}
    {outcomes : List (Option β)} (h : Forall₂ R rows outcomes) {b : β}
    (hb : b ∈ outcomes.reduceOption) : ∃ a ∈ rows, R a (some b) := by
  obtain ⟨i, hi, heq⟩ := mem_iff_getElem.mp (reduceOption_mem_iff.mp hb)
  have hlen := h.length_eq
  refine ⟨rows[i], getElem_mem _, ?_⟩
  rw [← heq]
  exact Forall₂.get h (by omega) hi

theorem reannounce_repairs
    (hok : db.reannounce contracts requestId tenantId now survivors = .ok db') :
    ∃ repairs : List Repair,
      (∀ repair ∈ repairs, Reannounces contracts now db' survivors repair) ∧
      repairs.length ≤ (db'.survivingProjects survivors).length +
        (db'.survivingConversations survivors).length ∧
      db' = db.deliverAll (repairSteps now requestId tenantId 0 repairs) := by
  have hrecords := reannounce_undelivered undelivered_records hok
  obtain ⟨projects, conversations, hprojects, hconversations, hdb, hread⟩ := reannounce_eq_ok hok
  refine ⟨(projects ++ conversations).reduceOption, fun repair hrepair => ?_, ?_, hdb⟩
  · refine Reannounces.congr hread ?_
    rw [reduceOption_append] at hrepair
    rcases mem_append.mp hrepair with hrepair | hrepair
    · obtain ⟨row, hrow, hrepair⟩ := mem_of_forall₂_reduceOption hprojects hrepair
      exact .inl ⟨row, (mem_insertionSort _).mp hrow, hrepair⟩
    · obtain ⟨row, hrow, hrepair⟩ := mem_of_forall₂_reduceOption hconversations hrepair
      exact .inr ⟨row, (mem_insertionSort _).mp hrow, hrepair⟩
  · have hp : (db'.survivingProjects survivors).length = projects.length := by
      rw [← hprojects.length_eq, length_insertionSort]
      exact congrArg _ (records_frame (f := (survivingProjects · survivors)) hrecords fun _ => rfl)
    have hc : (db'.survivingConversations survivors).length = conversations.length := by
      rw [← hconversations.length_eq, length_insertionSort]
      exact congrArg _
        (records_frame (f := (survivingConversations · survivors)) hrecords fun _ => rfl)
    rw [hp, hc, ← length_append]
    exact reduceOption_length_le _

theorem mem_repairSteps {repairs : List Repair} (h : ∀ repair ∈ repairs, db.Repairs survivors repair)
    {ordinal : Nat} {step : DeliveryStep}
    (hstep : step ∈ repairSteps now requestId tenantId ordinal repairs) :
    db.RepairStep now requestId tenantId survivors step := by
  obtain ⟨⟨repair, i⟩, hmem, rfl⟩ := mem_map.mp hstep
  obtain ⟨row, hrow, hexport, subject, hannounces, harchive, hsurvives, hobserved⟩ :=
    h repair (fst_mem_of_mem_zipIdx hmem)
  have hrepair : db.RepairStep now requestId tenantId survivors (.emit (emission now
      (repair.2.occurringAt (now + 1000 + i))
      { accountId := tenantId, exportId := some row.id
        deduplicationKey := .reannounce requestId repair.2.eventType repair.2.aggregateId })) :=
    .repair hrow (occurringAt_announces hannounces _) harchive hsurvives hobserved rfl
  rw [← hexport] at hrepair
  exact hrepair

/-! ## The row phase -/

def Planned (db : Database) (request : PrivacyDeletionRequestRow) : Prop :=
  (db.privacyDeletionRequests.find? fun r => r.id = request.id) = some request ∧
    request.status = .planned

def retractions (db : Database) (now : Instant) (evidenceRef : BlobRef)
    (request : PrivacyDeletionRequestRow) : List DeliveryStep :=
  (db.readAnnouncements request.tenantId request.id).flatMap
      (retractionSteps now request.tenantId request.id evidenceRef) ++
    erasureSteps now request.tenantId request.id
      (db.publishedFacts (db.serialItemIds request.id .outboxEvent)
        (db.removedIds request.id .export))

def otherItems (db : Database) (requestId : Uuid) : List PrivacyDeletionItemRow :=
  db.privacyDeletionItems.filter fun i => i.requestId ≠ requestId

def core (db : Database) : Database :=
  { db with
    platformOperationImports := [], outboxEvents := [], announcedSubjects := [], nextOutboxId := 0
    privacyDeletionRequests := [], privacyDeletionItems := [] }

theorem undelivered_core : Undelivered core := ⟨fun _ _ _ _ => rfl, fun _ _ _ => rfl⟩

theorem core_frame (h : db'.core = db.core) {α : Type*} {f : Database → α}
    (hf : ∀ db, f db.core = f db) : f db' = f db := by
  rw [← hf db', h, hf]

def cleared (db : Database) (request : PrivacyDeletionRequestRow) : Database :=
  rowsRemoved (db.removedIds request.id) (db.serialItemIds request.id .inboxEvent)
    (db.serialItemIds request.id .outboxEvent) request.tenantId
    (db.deleteRawRecords (db.removedIds request.id .rawRecord))

def remaining (db : Database) (request : PrivacyDeletionRequestRow) : Database :=
  db.withoutDropped (db.serialItemIds request.id .outboxEvent) (db.removedIds request.id .export)
    (db.removedIds request.id .account) request.tenantId

theorem cleared_deliveries (db : Database) (request : PrivacyDeletionRequestRow) :
    (db.cleared request).deliveries = (db.remaining request).deliveries :=
  rowsRemoved_deliveries ..

theorem mem_remaining {row : OutboxEventRow} (h : row ∈ (db.remaining request).outboxEvents) :
    row ∈ db.outboxEvents := (Table.mem_deleteWhere.mp h).1

/-- What a row phase leaves of the requests, the inventories, the outbox and the records. -/
structure RowPhase (db : Database) (now : Instant) (evidenceRef : BlobRef)
    (request : PrivacyDeletionRequestRow) (db' : Database) : Prop where
  planned : db.Planned request
  requests : db'.privacyDeletionRequests =
    (db.markPurging now request.id evidenceRef).privacyDeletionRequests
  items : db'.otherItems request.id = db.otherItems request.id
  emits : ∃ repairs : List Repair,
    (∀ repair ∈ repairs, db'.Repairs (db.findSurvivors request.id) repair) ∧
    repairs.length ≤ (db'.survivingProjects (db.findSurvivors request.id)).length +
      (db'.survivingConversations (db.findSurvivors request.id)).length ∧
    db'.deliveries = ((db.remaining request).deliverAll (db.retractions now evidenceRef request ++
      repairSteps now request.id request.tenantId 0 repairs)).deliveries
  rows : ∃ restored, (db.cleared request).Consistent ∧
    (db.cleared request).restoreRetainedVersions request.tenantId = .ok restored ∧
    restored.Consistent ∧ db'.core = restored.core

theorem RowPhase.delivers (h : db.RowPhase now evidenceRef request db') :
    ∃ repairs, (∀ step ∈ repairs, db'.RepairStep now request.id request.tenantId
        (db.findSurvivors request.id) step) ∧
      db'.deliveries = ((db.remaining request).deliverAll
        (db.retractions now evidenceRef request ++ repairs)).deliveries := by
  obtain ⟨repairs, hrepairs, -, heq⟩ := h.emits
  exact ⟨_, fun _ => mem_repairSteps hrepairs, heq⟩

/-- A table that neither the restoration nor a delivery writes is the one the removal leaves. -/
theorem RowPhase.frame (h : db.RowPhase now evidenceRef request db') {α : Type*} {f : Database → α}
    (hdelivered : ∀ db : Database, f db.core = f db)
    (hrestored : ∀ db : Database, f db.unwritten = f db) : f db' = f (db.cleared request) := by
  obtain ⟨restored, -, hrestore, -, hcore⟩ := h.rows
  exact (core_frame hcore hdelivered).trans
    (unwritten_frame (restoreRetainedVersions_unwritten hrestore) hrestored)

theorem finishRemoval_emits
    (hok : db.finishRemoval contracts now evidenceRef requestId tenantId survivors announcements
      dropped = .ok db') :
    ∃ repairs : List Repair,
      (∀ repair ∈ repairs, Reannounces contracts now db' survivors repair) ∧
      repairs.length ≤ (db'.survivingProjects survivors).length +
        (db'.survivingConversations survivors).length ∧
      db'.deliveries = (db.deliverAll (announcements.flatMap
        (retractionSteps now tenantId requestId evidenceRef) ++
          erasureSteps now tenantId requestId dropped ++
            repairSteps now requestId tenantId 0 repairs)).deliveries := by
  obtain ⟨restored, announced, hrestored, -, hannounced, rfl⟩ := finishRemoval_eq_ok hok
  obtain ⟨repairs, hrepairs, hcount, heq⟩ := reannounce_repairs hannounced
  have hrestored : restored.deliveries = db.deliveries :=
    unwritten_frame (restoreRetainedVersions_unwritten hrestored) fun _ => rfl
  have hread : ((announced.recomputeBlobSharing requestId).markPurging now requestId
    evidenceRef).announcedArchives = announced.announcedArchives := rfl
  refine ⟨repairs, fun repair hrepair => (hrepairs repair hrepair).congr hread, hcount, ?_⟩
  have hlast : ((announced.recomputeBlobSharing requestId).markPurging now requestId
    evidenceRef).deliveries = announced.deliveries := rfl
  rw [hlast, heq, deliverAll_append, deliverAll_append]
  refine deliverAll_congr ?_ _
  rw [enqueueErasureCommands_eq_deliverAll]
  refine deliverAll_congr ?_ _
  rw [insertTombstones_deliveries]
  exact deliverAll_congr hrestored _

theorem finishRemoval_rows
    (hok : db.finishRemoval contracts now evidenceRef requestId tenantId survivors announcements
      dropped = .ok db') :
    ∃ restored, db.restoreRetainedVersions tenantId = .ok restored ∧ restored.Consistent ∧
      db'.core = restored.core := by
  obtain ⟨restored, announced, hrestored, hchecked, hannounced, rfl⟩ := finishRemoval_eq_ok hok
  refine ⟨restored, hrestored, consistent_of_checked hchecked, ?_⟩
  have hlast : ((announced.recomputeBlobSharing requestId).markPurging now requestId
    evidenceRef).core = announced.core := rfl
  rw [hlast, reannounce_undelivered undelivered_core hannounced,
    enqueueErasureCommands_undelivered undelivered_core,
    insertTombstones_undelivered undelivered_core fun _ _ _ => rfl]

theorem undelivered_requests : Undelivered privacyDeletionRequests :=
  ⟨fun _ _ _ _ => rfl, fun _ _ _ => rfl⟩

theorem undelivered_otherItems (requestId : Uuid) : Undelivered (otherItems · requestId) :=
  ⟨fun _ _ _ _ => rfl, fun _ _ _ => rfl⟩

theorem finalizeTombstone_otherItems (db : Database) (requestId : Uuid) (kind : SubjectKind)
    (subjectId : Uuid) : (db.finalizeTombstone requestId kind subjectId).otherItems requestId =
      db.otherItems requestId := by
  refine filter_updateWhere_beside fun i _ hi => ?_
  simp only [Bool.and_eq_true, decide_eq_true_eq] at hi
  simp [hi.1.1]

theorem recomputeBlobSharing_otherItems (db : Database) (requestId : Uuid) :
    (db.recomputeBlobSharing requestId).otherItems requestId = db.otherItems requestId := by
  refine filter_updateWhere_beside fun i _ hi => ?_
  simp only [Bool.and_eq_true, decide_eq_true_eq] at hi
  have hid := hi.1.1
  constructor
  · simp [hid]
  · split <;> simp [hid]

theorem rowsRemoved_deletions (removed : Category → List Uuid) (inbox outbox : List Nat)
    (tenantId : Uuid) (db : Database) :
    (rowsRemoved removed inbox outbox tenantId db).privacyDeletionRequests =
        db.privacyDeletionRequests ∧
      (rowsRemoved removed inbox outbox tenantId db).privacyDeletionItems =
        db.privacyDeletionItems := by
  unfold rowsRemoved
  dsimp only
  split <;> exact ⟨rfl, rfl⟩

theorem finishRemoval_deletions
    (hok : db.finishRemoval contracts now evidenceRef requestId tenantId survivors announcements
      dropped = .ok db') :
    db'.privacyDeletionRequests =
        (db.markPurging now requestId evidenceRef).privacyDeletionRequests ∧
      db'.otherItems requestId = db.otherItems requestId := by
  obtain ⟨restored, announced, hrestored, -, hannounced, rfl⟩ := finishRemoval_eq_ok hok
  have hunwritten := restoreRetainedVersions_unwritten hrestored
  constructor
  · have hrequests : announced.privacyDeletionRequests = db.privacyDeletionRequests := by
      rw [reannounce_undelivered undelivered_requests hannounced,
        enqueueErasureCommands_undelivered undelivered_requests,
        insertTombstones_undelivered undelivered_requests fun _ _ _ => rfl]
      exact unwritten_frame hunwritten fun _ => rfl
    show updateWhere _ _ announced.privacyDeletionRequests = _
    rw [hrequests]
    rfl
  · have hother := undelivered_otherItems requestId
    show (announced.recomputeBlobSharing requestId).otherItems requestId = _
    rw [recomputeBlobSharing_otherItems, reannounce_undelivered hother hannounced,
      enqueueErasureCommands_undelivered hother, insertTombstones_undelivered hother
        fun db => db.finalizeTombstone_otherItems requestId]
    exact unwritten_frame (f := (otherItems · requestId)) hunwritten fun _ => rfl

/-- A row phase that commits was a repetition, or it removed the rows of a planned request and
finished the removal. -/
theorem removeRows_eq_ok (hok : db.removeRows contracts now evidenceRef requestId = .ok db') :
    db' = db ∨ ∃ request, request.id = requestId ∧ db.Planned request ∧
      (db.cleared request).Consistent ∧
      (db.cleared request).finishRemoval contracts now evidenceRef request.id request.tenantId
        (db.findSurvivors request.id) (db.readAnnouncements request.tenantId request.id)
        (db.publishedFacts (db.serialItemIds request.id .outboxEvent)
          (db.removedIds request.id .export)) = .ok db' := by
  unfold removeRows at hok
  split at hok
  · cases hok
  · rename_i request hfind
    have hid : request.id = requestId := by simpa using find?_some hfind
    split at hok
    · cases hok
      exact .inl rfl
    · rename_i hplanned
      obtain ⟨start, hstart, hok⟩ := bind_eq_ok.mp hok
      obtain ⟨⟨removed, dropped⟩, hremoved, hok⟩ := bind_eq_ok.mp hok
      obtain rfl := checked_eq_ok hstart
      obtain ⟨hrows, hdropped, hconsistent⟩ := deleteScopedRows_eq_ok hremoved
      subst hid
      have hcleared : removed = db.cleared request := hrows
      refine .inr ⟨request, rfl, ⟨hfind, not_not.mp hplanned⟩, hcleared ▸ hconsistent, ?_⟩
      rw [hdropped, hcleared] at hok
      exact hok

theorem removeRows_cases (hok : db.removeRows contracts now evidenceRef requestId = .ok db') :
    db' = db ∨ ∃ request, request.id = requestId ∧ db.RowPhase now evidenceRef request db' := by
  rcases removeRows_eq_ok hok with heq | ⟨request, hid, hplanned, hconsistent, hok⟩
  · exact .inl heq
  · obtain ⟨repairs, hrepairs, hcount, heq⟩ := finishRemoval_emits hok
    obtain ⟨restored, hrestored, hchecked, hcore⟩ := finishRemoval_rows hok
    obtain ⟨hrequests, hitems⟩ := finishRemoval_deletions hok
    obtain ⟨hrequests', hitems'⟩ : (db.cleared request).privacyDeletionRequests =
        db.privacyDeletionRequests ∧ (db.cleared request).privacyDeletionItems =
          db.privacyDeletionItems := rowsRemoved_deletions ..
    refine .inr ⟨request, hid, hplanned, ?_, ?_,
      ⟨repairs, fun repair hrepair => (hrepairs repair hrepair).repairs, hcount, ?_⟩, restored,
      hconsistent, hrestored, hchecked, hcore⟩
    · rw [hrequests, markPurging, hrequests']
      rfl
    · rw [hitems, otherItems, hitems']
      rfl
    · rw [heq]
      exact deliverAll_congr (cleared_deliveries db request) _

end Contract

end Database

end ChatgptArchive
