import ChatgptArchive.History
import ChatgptArchive.Integrity.Events

/-!
# What a transaction does to the outbox and the ledger

Every transaction of the service reaches the outbox and the ledger of announced subjects through two
steps: a row is emitted, with its announcement recorded when the row is really added, or the ledger
forgets a subject.
-/

namespace ChatgptArchive

def EventPayload.announces : EventPayload → Option AnnouncedSubject
  | .archiveImported head => some ⟨.archive, head.aiArchiveId, head.aiArchiveId, head.owner⟩
  | .conversationAdded fact | .conversationUpdated fact =>
    some ⟨.conversation, fact.conversation.aiConversationId, fact.importProvenance.aiArchiveId,
      fact.conversation.owner⟩
  | .projectAdded fact | .projectUpdated fact =>
    some ⟨.project, fact.project.aiProjectId, fact.importProvenance.aiArchiveId,
      fact.importProvenance.owner⟩
  | _ => none

theorem EventPayload.contentBearing_iff (payload : EventPayload) :
    contentBearing payload.eventType = payload.announces.isSome := by
  cases payload <;> rfl

structure Emission where
  now : Instant
  aggregateId : Uuid
  tenantId : Option Uuid
  exportId : Option Uuid
  envelope : EventEnvelope
  key : DeduplicationKey
  announced : Option (AnnouncedSubject × Uuid)
  deriving DecidableEq, Repr

/-- The announcement is the one the payload makes, addressed to the envelope's tenant; a retraction
is bound to no export. -/
structure Emission.WellFormed (emission : Emission) : Prop where
  announced : emission.announced.map (·.1) = emission.envelope.payload.announces
  account : ∀ s a, emission.announced = some (s, a) → emission.tenantId = some a
  owner : ∀ s, emission.envelope.payload.announces = some s →
    emission.envelope.tenantId = some s.owner ∧ emission.aggregateId = s.subjectId
  retraction : emission.envelope.payload.eventType = .subjectTombstoned ∨
    emission.envelope.payload.eventType = .streamErasureRequested → emission.exportId = none

inductive DeliveryStep where
  | emit (emission : Emission)
  | forget (accountId : Uuid) (kind : SubjectKind) (subjectId : Uuid)
  deriving DecidableEq, Repr

namespace Database

def deliveries (db : Database) : Database :=
  { empty with
    outboxEvents := db.outboxEvents, announcedSubjects := db.announcedSubjects
    nextOutboxId := db.nextOutboxId }

def announce (db : Database) (now : Instant) : Option (AnnouncedSubject × Uuid) → Database
  | some (subject, accountId) => db.recordAnnounced subject accountId now
  | none => db

def deliver (db : Database) : DeliveryStep → Database
  | .emit e =>
    let (added, db) := db.insertOutboxEvent e.aggregateId e.tenantId e.exportId e.envelope e.key
    if added then db.announce e.now e.announced else db
  | .forget accountId kind subjectId => db.forgetSubject accountId kind subjectId

variable {db db' db'' : Database}

theorem deliveries_frame (h : db'.deliveries = db.deliveries) {α : Type*} {f : Database → α}
    (hf : ∀ db, f db.deliveries = f db) : f db' = f db := by
  rw [← hf db', h, hf]

theorem insertOutboxEvent_deliveries (db : Database) (aggregateId : Uuid)
    (tenantId exportId : Option Uuid) (envelope : EventEnvelope) (key : DeduplicationKey) :
    (db.deliveries.insertOutboxEvent aggregateId tenantId exportId envelope key).1 =
        (db.insertOutboxEvent aggregateId tenantId exportId envelope key).1 ∧
      (db.deliveries.insertOutboxEvent aggregateId tenantId exportId envelope key).2.deliveries =
        (db.insertOutboxEvent aggregateId tenantId exportId envelope key).2.deliveries := by
  have hkey : db.deliveries.hasDeduplicationKey key = db.hasDeduplicationKey key := rfl
  unfold insertOutboxEvent
  dsimp only
  rw [hkey]
  split <;> exact ⟨rfl, rfl⟩

theorem announce_congr (h : db'.deliveries = db.deliveries) (now : Instant)
    (announced : Option (AnnouncedSubject × Uuid)) :
    (db'.announce now announced).deliveries = (db.announce now announced).deliveries := by
  cases announced with
  | none => exact h
  | some announced =>
    have hledger : db'.announcedSubjects = db.announcedSubjects :=
      deliveries_frame h fun _ => rfl
    have hrows : db'.outboxEvents = db.outboxEvents := deliveries_frame h fun _ => rfl
    have hnext : db'.nextOutboxId = db.nextOutboxId := deliveries_frame h fun _ => rfl
    simp only [deliveries, announce, recordAnnounced, hledger, hrows, hnext]

theorem deliver_deliveries (db : Database) (step : DeliveryStep) :
    (db.deliveries.deliver step).deliveries = (db.deliver step).deliveries := by
  cases step with
  | forget accountId kind subjectId => rfl
  | emit e =>
    obtain ⟨hadded, hrest⟩ := db.insertOutboxEvent_deliveries e.aggregateId e.tenantId e.exportId
      e.envelope e.key
    simp only [deliver]
    rw [hadded]
    split
    · exact announce_congr hrest e.now e.announced
    · exact hrest

theorem deliver_congr (h : db'.deliveries = db.deliveries) (step : DeliveryStep) :
    (db'.deliver step).deliveries = (db.deliver step).deliveries := by
  rw [← deliver_deliveries, h, deliver_deliveries]

def deliverAll (db : Database) (steps : List DeliveryStep) : Database := steps.foldl deliver db

theorem deliverAll_append (db : Database) (steps steps' : List DeliveryStep) :
    db.deliverAll (steps ++ steps') = (db.deliverAll steps).deliverAll steps' :=
  List.foldl_append

theorem deliverAll_congr (h : db'.deliveries = db.deliveries) (steps : List DeliveryStep) :
    (db'.deliverAll steps).deliveries = (db.deliverAll steps).deliveries := by
  induction steps generalizing db db' with
  | nil => exact h
  | cons step steps ih => exact ih (deliver_congr h step)

/-- The transaction reaches the outbox and the ledger by steps of one kind. -/
def Delivers (P : DeliveryStep → Prop) (db db' : Database) : Prop :=
  ∃ steps, (∀ step ∈ steps, P step) ∧ db'.deliveries = (db.deliverAll steps).deliveries

namespace Delivers

variable {P Q : DeliveryStep → Prop}

theorem of_eq (h : db'.deliveries = db.deliveries) : Delivers P db db' :=
  ⟨[], fun _ hs => absurd hs List.not_mem_nil, h⟩

theorem single {step : DeliveryStep} (hstep : P step)
    (h : db'.deliveries = (db.deliver step).deliveries) : Delivers P db db' :=
  ⟨[step], fun _ hs => List.mem_singleton.mp hs ▸ hstep, h⟩

theorem trans (h : Delivers P db db') (h' : Delivers P db' db'') : Delivers P db db'' := by
  obtain ⟨steps, hsteps, heq⟩ := h
  obtain ⟨steps', hsteps', heq'⟩ := h'
  refine ⟨steps ++ steps', fun step hmem => ?_, ?_⟩
  · exact (List.mem_append.mp hmem).elim (hsteps step) (hsteps' step)
  · rw [heq', deliverAll_congr heq, deliverAll_append]

theorem of_left {start : Database} (h : Delivers P start db')
    (hstart : start.deliveries = db.deliveries) : Delivers P db db' :=
  (of_eq hstart).trans h

theorem mono (h : Delivers P db db') (hPQ : ∀ step, P step → Q step) : Delivers Q db db' := by
  obtain ⟨steps, hsteps, heq⟩ := h
  exact ⟨steps, fun step hmem => hPQ step (hsteps step hmem), heq⟩

/-- The invariant rule of a run of delivery steps. -/
theorem preserves {I : Database → Prop} (h : Delivers P db db') (hI : I db)
    (hframe : ∀ {db db' : Database}, db'.deliveries = db.deliveries → I db → I db')
    (hstep : ∀ {db : Database} {step : DeliveryStep}, I db → P step → I (db.deliver step)) :
    I db' := by
  obtain ⟨steps, hsteps, heq⟩ := h
  refine hframe heq ?_
  clear heq
  induction steps generalizing db with
  | nil => exact hI
  | cons step steps ih =>
    exact ih (hstep hI (hsteps step List.mem_cons_self))
      fun step hmem => hsteps step (List.mem_cons_of_mem _ hmem)

end Delivers

/-! ## The two ways a row is emitted -/

theorem insertOutboxEvent_eq_deliver (db : Database) (now : Instant) (aggregateId : Uuid)
    (tenantId exportId : Option Uuid) (envelope : EventEnvelope) (key : DeduplicationKey) :
    (db.insertOutboxEvent aggregateId tenantId exportId envelope key).2 =
      db.deliver (.emit { now, aggregateId, tenantId, exportId, envelope, key,
                          announced := none }) := by
  simp only [deliver, announce, ite_self]

def emission (now : Instant) (event : NormalizedArchiveEvent) (placement : OutboxPlacement) :
    Emission :=
  { now, aggregateId := event.aggregateId, tenantId := some placement.accountId
    exportId := placement.exportId, envelope := event.envelope, key := placement.deduplicationKey
    announced := event.announced.map fun subject => (subject, placement.accountId) }

theorem enqueueNormalizedEvent_eq_deliver (db : Database) (now : Instant)
    (event : NormalizedArchiveEvent) (placement : OutboxPlacement) :
    (db.enqueueNormalizedEvent now event placement).2 =
      db.deliver (.emit (emission now event placement)) := by
  unfold enqueueNormalizedEvent
  split
  rename_i added inserted heq
  simp only [deliver, emission, heq]
  cases added <;> cases event.announced <;> rfl

end Database

end ChatgptArchive
