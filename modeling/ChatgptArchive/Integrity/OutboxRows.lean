import ChatgptArchive.Delivery
import ChatgptArchive.Integrity.Commits

/-!
# The rows of the outbox

Identities are never used twice, a stored row keeps its envelope and its key, and what is recorded
about its delivery only grows. These are invariants of every transaction and of every statement of
the pump.
-/

namespace ChatgptArchive

open List Table

def Emission.row (e : Emission) (id : Nat) : OutboxEventRow :=
  { id, aggregateId := e.aggregateId, tenantId := e.tenantId, exportId := e.exportId
    envelope := e.envelope, deduplicationKey := some e.key, publishedAt := none, attemptCount := 0
    nextAttemptAt := none, undeliverableAt := none, acknowledgedAt := none, resendCount := 0
    nextResendAt := none, publishedStreamSeqs := [] }

def DeduplicationKey.request : DeduplicationKey → Option Uuid
  | .reannounce requestId _ _ | .privacyDelete requestId _ _ _ | .streamErasure requestId _ _ =>
    some requestId
  | _ => none

namespace Database

variable {db db' : Database} {row : OutboxEventRow}

/-! ## The rows after a step -/

theorem deliver_emit (db : Database) (e : Emission) :
    (db.deliver (.emit e)).nextOutboxId = db.nextOutboxId + 1 ∧
      (db.deliver (.emit e)).outboxEvents =
        if db.hasDeduplicationKey e.key then db.outboxEvents
        else db.outboxEvents ++ [e.row db.nextOutboxId] := by
  have hannounce : ∀ (db : Database) (announced : Option (AnnouncedSubject × Uuid)),
      (db.announce e.now announced).nextOutboxId = db.nextOutboxId ∧
        (db.announce e.now announced).outboxEvents = db.outboxEvents := by
    intro db announced
    cases announced <;> exact ⟨rfl, rfl⟩
  simp only [deliver, insertOutboxEvent]
  split
  · exact ⟨rfl, rfl⟩
  · exact hannounce _ _

theorem next_le_deliver (db : Database) (step : DeliveryStep) :
    db.nextOutboxId ≤ (db.deliver step).nextOutboxId := by
  cases step with
  | emit e => exact (db.deliver_emit e).1 ▸ Nat.le_succ _
  | forget accountId kind subjectId => exact le_refl _

theorem mem_deliver_of_mem (h : row ∈ db.outboxEvents) (step : DeliveryStep) :
    row ∈ (db.deliver step).outboxEvents := by
  cases step with
  | forget accountId kind subjectId => exact h
  | emit e =>
    rw [(db.deliver_emit e).2]
    split
    · exact h
    · exact mem_append_left _ h

theorem mem_deliver {step : DeliveryStep} (h : row ∈ (db.deliver step).outboxEvents) :
    row ∈ db.outboxEvents ∨ ∃ e, step = .emit e ∧ row = e.row db.nextOutboxId ∧
      (db.deliver step).nextOutboxId = db.nextOutboxId + 1 := by
  cases step with
  | forget accountId kind subjectId => exact .inl h
  | emit e =>
    rw [(db.deliver_emit e).2] at h
    split at h
    · exact .inl h
    · rcases mem_append.mp h with h | h
      · exact .inl h
      · exact .inr ⟨e, rfl, mem_singleton.mp h, (db.deliver_emit e).1⟩

theorem exists_key_deliver (db : Database) (e : Emission) :
    ∃ row ∈ (db.deliver (.emit e)).outboxEvents, row.deduplicationKey = some e.key := by
  rw [(db.deliver_emit e).2]
  split
  · rename_i hkey
    obtain ⟨row, hrow, hkey⟩ := any_eq_true.mp hkey
    exact ⟨row, hrow, by simpa using hkey⟩
  · exact ⟨_, mem_append_right _ (mem_singleton_self _), rfl⟩

theorem next_le_deliverAll (steps : List DeliveryStep) :
    ∀ db : Database, db.nextOutboxId ≤ (db.deliverAll steps).nextOutboxId := by
  induction steps with
  | nil => exact fun _ => le_refl _
  | cons step steps ih => exact fun db => (db.next_le_deliver step).trans (ih _)

theorem mem_deliverAll_of_mem (steps : List DeliveryStep) :
    ∀ {db : Database}, row ∈ db.outboxEvents → row ∈ (db.deliverAll steps).outboxEvents := by
  induction steps with
  | nil => exact fun h => h
  | cons step steps ih => exact fun h => ih (mem_deliver_of_mem h step)

theorem mem_deliverAll (steps : List DeliveryStep) :
    ∀ {db : Database}, row ∈ (db.deliverAll steps).outboxEvents →
      row ∈ db.outboxEvents ∨ ∃ e id, .emit e ∈ steps ∧ row = e.row id ∧ db.nextOutboxId ≤ id ∧
        id < (db.deliverAll steps).nextOutboxId := by
  induction steps with
  | nil => exact fun h => .inl h
  | cons step steps ih =>
    intro db h
    rcases ih h with h | ⟨e, id, he, hrow, hle, hlt⟩
    · rcases mem_deliver h with h | ⟨e, rfl, hrow, hnext⟩
      · exact .inl h
      · refine .inr ⟨e, _, mem_cons_self, hrow, le_refl _, ?_⟩
        have hle := next_le_deliverAll steps (db.deliver (.emit e))
        rw [hnext] at hle
        exact hle
    · exact .inr ⟨e, id, mem_cons_of_mem _ he, hrow, (db.next_le_deliver step).trans hle, hlt⟩

/-- After its emission a key is held by a row, and what holds of every envelope stored or emitted
under the key holds of that row's. -/
theorem exists_key_deliverAll {key : DeduplicationKey} {P : EventEnvelope → Prop} {e : Emission}
    (hkey : e.key = key) (steps : List DeliveryStep) : ∀ {db : Database}, .emit e ∈ steps →
      (∀ row ∈ db.outboxEvents, row.deduplicationKey = some key → P row.envelope) →
      (∀ e, .emit e ∈ steps → e.key = key → P e.envelope) →
      ∃ row ∈ (db.deliverAll steps).outboxEvents, row.deduplicationKey = some key ∧
        P row.envelope := by
  intro db hmem hrows hsteps
  obtain ⟨row, hrow, hrowkey⟩ : ∃ row ∈ (db.deliverAll steps).outboxEvents,
      row.deduplicationKey = some key := by
    clear hrows hsteps
    induction steps generalizing db with
    | nil => exact absurd hmem not_mem_nil
    | cons step steps ih =>
      rcases mem_cons.mp hmem with rfl | hmem
      · obtain ⟨row, hrow, hrowkey⟩ := db.exists_key_deliver e
        exact ⟨row, mem_deliverAll_of_mem steps hrow, hkey ▸ hrowkey⟩
      · exact ih hmem
  refine ⟨row, hrow, hrowkey, ?_⟩
  rcases mem_deliverAll steps hrow with hold | ⟨e', id, he', rfl, -⟩
  · exact hrows row hold hrowkey
  · exact hsteps e' he' (Option.some.inj hrowkey)

end Database

structure OutboxEventRow.WellKept (row : OutboxEventRow) : Prop where
  owner : ∀ s, row.envelope.payload.announces = some s → row.envelope.tenantId = some s.owner
  ascending : row.publishedStreamSeqs.Pairwise (· < ·)
  retraction : row.eventType = .subjectTombstoned ∨ row.eventType = .streamErasureRequested →
    row.exportId = none
  acknowledged : row.acknowledgedAt.isSome → row.publishedAt.isSome

theorem Emission.WellFormed.wellKept {e : Emission} (h : e.WellFormed) (id : Nat) :
    (e.row id).WellKept :=
  ⟨fun s hs => (h.owner s hs).1, List.Pairwise.nil, h.retraction, nofun⟩

/-- The identities are distinct and the next one is larger than all of them. -/
structure Kept (db : Database) : Prop where
  ids : (db.outboxEvents.map (·.id)).Nodup
  fresh : ∀ row ∈ db.outboxEvents, row.id < db.nextOutboxId
  rows : ∀ row ∈ db.outboxEvents, row.WellKept

namespace Kept

open Database

variable {db db' : Database}

theorem empty : Kept Database.empty :=
  ⟨nodup_nil, fun _ h => absurd h not_mem_nil, fun _ h => absurd h not_mem_nil⟩

theorem congr (h : Kept db) (hdeliveries : db'.deliveries = db.deliveries) : Kept db' := by
  have hrows : db'.outboxEvents = db.outboxEvents := deliveries_frame hdeliveries fun _ => rfl
  have hnext : db'.nextOutboxId = db.nextOutboxId := deliveries_frame hdeliveries fun _ => rfl
  constructor
  · exact hrows ▸ h.ids
  · exact hrows ▸ hnext ▸ h.fresh
  · exact hrows ▸ h.rows

theorem eq_of_id (h : Kept db) {row row' : OutboxEventRow} (hrow : row ∈ db.outboxEvents)
    (hrow' : row' ∈ db.outboxEvents) (hid : row.id = row'.id) : row = row' :=
  inj_on_of_nodup_map h.ids hrow hrow' hid

theorem deliver (h : Kept db) {step : DeliveryStep}
    (hstep : ∀ e, step = .emit e → e.WellFormed) : Kept (db.deliver step) := by
  cases step with
  | forget accountId kind subjectId => exact ⟨h.ids, h.fresh, h.rows⟩
  | emit e =>
    obtain ⟨hnext, houtbox⟩ := db.deliver_emit e
    have hnew : ∀ row ∈ (db.deliver (.emit e)).outboxEvents,
        row ∈ db.outboxEvents ∨ row = e.row db.nextOutboxId := fun row hrow => by
      rcases mem_deliver hrow with hrow | ⟨e', he', hrow, -⟩
      · exact .inl hrow
      · cases he'
        exact .inr hrow
    refine ⟨?_, fun row hrow => ?_, fun row hrow => ?_⟩
    · rw [houtbox]
      split
      · exact h.ids
      · rw [map_append]
        refine h.ids.append (nodup_singleton _) (disjoint_singleton.mpr fun hmem => ?_)
        obtain ⟨row, hrow, hid⟩ := mem_map.mp hmem
        exact absurd hid (Nat.ne_of_lt (h.fresh row hrow))
    · rw [hnext]
      rcases hnew row hrow with hrow | rfl
      · exact Nat.lt_succ_of_lt (h.fresh row hrow)
      · exact Nat.lt_succ_self _
    · rcases hnew row hrow with hrow | rfl
      · exact h.rows row hrow
      · exact (hstep e rfl).wellKept _

theorem deliverAll {steps : List DeliveryStep} (h : Kept db)
    (hsteps : ∀ e, .emit e ∈ steps → e.WellFormed) : Kept (db.deliverAll steps) := by
  induction steps generalizing db with
  | nil => exact h
  | cons step steps ih =>
    exact ih (h.deliver fun e he => hsteps e (he ▸ mem_cons_self))
      fun e he => hsteps e (mem_cons_of_mem _ he)

theorem withoutDropped (h : Kept db) (outbox : List Nat) (exports accounts : List Uuid)
    (tenantId : Uuid) : Kept (db.withoutDropped outbox exports accounts tenantId) :=
  ⟨nodup_map_deleteWhere h.ids, fun row hrow => h.fresh row (mem_deleteWhere.mp hrow).1,
    fun row hrow => h.rows row (mem_deleteWhere.mp hrow).1⟩

end Kept

/-! ## The statements of the pump -/

/-- What a delivery statement does to a row: its identity, envelope and key stay, and what is
recorded about its delivery stays recorded. -/
structure DeliveryProgress (update : OutboxEventRow → OutboxEventRow) : Prop where
  id : ∀ row, (update row).id = row.id
  envelope : ∀ row, (update row).envelope = row.envelope
  tenantId : ∀ row, (update row).tenantId = row.tenantId
  exportId : ∀ row, (update row).exportId = row.exportId
  deduplicationKey : ∀ row, (update row).deduplicationKey = row.deduplicationKey
  published : ∀ row, row.publishedAt.isSome → (update row).publishedAt.isSome
  acknowledged : ∀ row, row.acknowledgedAt.isSome → (update row).acknowledgedAt.isSome
  sequences : ∀ row, ∀ n ∈ row.publishedStreamSeqs, n ∈ (update row).publishedStreamSeqs
  wellKept : ∀ row, row.WellKept → (update row).WellKept

namespace Database

inductive Progresses (db : Database) (id : Nat) : Database → Prop
  | update (guard : OutboxEventRow → Bool) {f : OutboxEventRow → OutboxEventRow}
      (hf : DeliveryProgress f) : Progresses db id (db.updateOutbox id guard f)

theorem ascending_pairwise (ids : List Nat) : (ascending ids).Pairwise (· < ·) := by
  have hsorted : (ascending ids).Pairwise (· ≤ ·) := pairwise_insertionSort _ _
  have hnodup : (ascending ids).Nodup :=
    (perm_insertionSort _ _).nodup_iff.mpr (nodup_dedup ids)
  exact hsorted.imp₂ (fun _ _ hle hne => lt_of_le_of_ne hle hne) hnodup

variable (db : Database)

theorem markPublished_progresses (now : Instant) (id : Nat) (sequences : List Nat)
    (resendAfter : Nat) : db.Progresses id (db.markPublished now id sequences resendAfter) := by
  refine .update _ ⟨fun _ => rfl, fun _ => rfl, fun _ => rfl, fun _ => rfl, fun _ => rfl,
    fun _ _ => rfl, fun _ h => h, fun row n hn => ?_, fun row h => ?_⟩
  · exact mem_ascending.mpr (mem_append_left _ hn)
  · exact ⟨h.owner, ascending_pairwise _, h.retraction, fun _ => rfl⟩

/-- An update of the schedule of a row. -/
theorem scheduled (attempts resends : OutboxEventRow → Nat)
    (next undeliverable resend : OutboxEventRow → Option Instant) :
    DeliveryProgress fun row => { row with
      attemptCount := attempts row, nextAttemptAt := next row
      undeliverableAt := undeliverable row, resendCount := resends row, nextResendAt := resend row } :=
  ⟨fun _ => rfl, fun _ => rfl, fun _ => rfl, fun _ => rfl, fun _ => rfl, fun _ h => h,
    fun _ h => h, fun _ _ hn => hn,
    fun _ h => ⟨h.owner, h.ascending, h.retraction, h.acknowledged⟩⟩

theorem markResent_progresses (now : Instant) (id : Nat)
    (resend : TombstoneResend) : db.Progresses id (db.markResent now id resend) :=
  .update _ (scheduled ..)

theorem recordResendFailure_progresses (now : Instant) (id : Nat) :
    db.Progresses id (db.recordResendFailure now id) :=
  .update _ (scheduled ..)

theorem markUndeliverable_progresses (now : Instant) (id : Nat) :
    db.Progresses id (db.markUndeliverable now id) :=
  .update _ (scheduled ..)

theorem recordFailure_progresses (now : Instant) (id : Nat) :
    db.Progresses id (db.recordFailure now id) :=
  .update _ (scheduled ..)

theorem acknowledge_progresses (now : Instant) (eventId : Nat)
    (owner : TenantRef) : db.Progresses eventId (db.acknowledge now eventId owner) := by
  have hpublished : ∀ row : OutboxEventRow, (row.publishedAt.or (some now)).isSome := by
    intro row
    cases row.publishedAt <;> rfl
  exact .update _ ⟨fun _ => rfl, fun _ => rfl, fun _ => rfl, fun _ => rfl, fun _ => rfl,
    fun row _ => hpublished row, fun _ _ => rfl, fun _ _ hn => hn,
    fun row h => ⟨h.owner, h.ascending, h.retraction, fun _ => hpublished row⟩⟩

section Progresses

variable {db db' : Database} {id : Nat}

variable (h : db.Progresses id db')
include h

theorem Progresses.mem {row : OutboxEventRow} (hrow : row ∈ db'.outboxEvents) :
    ∃ old ∈ db.outboxEvents, row = old ∨ ∃ f, DeliveryProgress f ∧ row = f old := by
  cases h with
  | update guard hf =>
    rcases mem_updateWhere.mp hrow with ⟨hrow, -⟩ | ⟨old, hold, -, heq⟩
    · exact ⟨row, hrow, .inl rfl⟩
    · exact ⟨old, hold, .inr ⟨_, hf, heq⟩⟩

theorem Progresses.mem_of_mem {old : OutboxEventRow} (hold : old ∈ db.outboxEvents) :
    old ∈ db'.outboxEvents ∨ ∃ f, DeliveryProgress f ∧ f old ∈ db'.outboxEvents := by
  cases h with
  | @update guard f hf =>
    cases hguard : (old.id = id && guard old : Bool) with
    | true => exact .inr ⟨f, hf, mem_updateWhere.mpr (.inr ⟨old, hold, hguard, rfl⟩)⟩
    | false => exact .inl (mem_updateWhere.mpr (.inl ⟨hold, hguard⟩))

theorem Progresses.eq :
    db' = { db with outboxEvents := db'.outboxEvents } := by
  cases h
  rfl

theorem Progresses.mem_beside {row : OutboxEventRow}
    (hne : row.id ≠ id) : row ∈ db'.outboxEvents ↔ row ∈ db.outboxEvents := by
  cases h with
  | update guard hf =>
    constructor
    · intro hrow
      rcases mem_updateWhere.mp hrow with ⟨hrow, -⟩ | ⟨old, hold, hguard, rfl⟩
      · exact hrow
      · simp only [Bool.and_eq_true, decide_eq_true_eq] at hguard
        exact absurd ((hf.id old).trans hguard.1) hne
    · exact fun hrow => mem_updateWhere.mpr (.inl ⟨hrow, by simp [hne]⟩)

end Progresses

end Database

namespace Kept

open Database

variable {db db' : Database}

theorem progress (h : Kept db) {id : Nat} (hprogress : db.Progresses id db') : Kept db' := by
  have hnext : db'.nextOutboxId = db.nextOutboxId := by rw [hprogress.eq]
  refine ⟨?_, fun row hrow => ?_, fun row hrow => ?_⟩
  · cases hprogress with
    | update guard hf =>
      rw [updateOutbox, map_updateWhere hf.id]
      exact h.ids
  · rw [hnext]
    obtain ⟨old, hold, rfl | ⟨f, hf, rfl⟩⟩ := hprogress.mem hrow
    · exact h.fresh _ hold
    · exact (hf.id old).symm ▸ h.fresh old hold
  · obtain ⟨old, hold, rfl | ⟨f, hf, rfl⟩⟩ := hprogress.mem hrow
    · exact h.rows _ hold
    · exact hf.wellKept old (h.rows old hold)

end Kept

end ChatgptArchive
