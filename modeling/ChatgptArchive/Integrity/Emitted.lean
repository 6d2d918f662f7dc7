import ChatgptArchive.Integrity.Requests

/-!
# The rows a transaction stores

The rows that a list of delivery steps adds, in the order of their identities. A row is added when
its deduplication key is not taken, so no two of them share a key.
-/

namespace ChatgptArchive

open List

namespace Database

variable {db db' : Database} {steps : List DeliveryStep} {row : OutboxEventRow}
  {key : DeduplicationKey}

def added (db : Database) : DeliveryStep → List OutboxEventRow
  | .emit e => if db.hasDeduplicationKey e.key then [] else [e.row db.nextOutboxId]
  | .forget _ _ _ => []

def emitted (db : Database) : List DeliveryStep → List OutboxEventRow
  | [] => []
  | step :: steps => db.added step ++ emitted (db.deliver step) steps

theorem deliver_outboxEvents (db : Database) (step : DeliveryStep) :
    (db.deliver step).outboxEvents = db.outboxEvents ++ db.added step := by
  cases step with
  | forget accountId kind subjectId => exact (append_nil _).symm
  | emit e =>
    rw [(db.deliver_emit e).2, added]
    split
    · exact (append_nil _).symm
    · rfl

theorem deliverAll_outboxEvents (steps : List DeliveryStep) : ∀ db : Database,
    (db.deliverAll steps).outboxEvents = db.outboxEvents ++ db.emitted steps := by
  induction steps with
  | nil => exact fun _ => (append_nil _).symm
  | cons step steps ih =>
    intro db
    rw [emitted, ← append_assoc, ← deliver_outboxEvents]
    exact ih _

theorem emitted_append (steps steps' : List DeliveryStep) : ∀ db : Database,
    db.emitted (steps ++ steps') = db.emitted steps ++ (db.deliverAll steps).emitted steps' := by
  induction steps with
  | nil => exact fun _ => rfl
  | cons step steps ih =>
    intro db
    rw [cons_append, emitted, emitted, append_assoc, ih]
    rfl

theorem mem_added {step : DeliveryStep} (h : row ∈ db.added step) :
    ∃ e, step = .emit e ∧ db.hasDeduplicationKey e.key = false ∧ row = e.row db.nextOutboxId := by
  cases step with
  | forget accountId kind subjectId => cases h
  | emit e =>
    rw [added] at h
    split at h
    · cases h
    · rename_i hkey
      exact ⟨e, rfl, Bool.eq_false_iff.mpr hkey, mem_singleton.mp h⟩

theorem mem_emitted (steps : List DeliveryStep) : ∀ {db : Database},
    row ∈ db.emitted steps → ∃ e, .emit e ∈ steps ∧ row = e.row row.id ∧
      db.nextOutboxId ≤ row.id ∧ row.id < (db.deliverAll steps).nextOutboxId := by
  induction steps with
  | nil => exact fun h => absurd h not_mem_nil
  | cons step steps ih =>
    intro db h
    rcases mem_append.mp h with h | h
    · obtain ⟨e, rfl, -, rfl⟩ := mem_added h
      refine ⟨e, mem_cons_self, rfl, le_refl _, ?_⟩
      have hle := next_le_deliverAll steps (db.deliver (.emit e))
      rw [(db.deliver_emit e).1] at hle
      exact hle
    · obtain ⟨e, he, hrow, hle, hlt⟩ := ih h
      exact ⟨e, mem_cons_of_mem _ he, hrow, (db.next_le_deliver step).trans hle, hlt⟩

theorem emitted_pairwise (steps : List DeliveryStep) : ∀ db : Database,
    (db.emitted steps).Pairwise fun row row' => row.id < row'.id := by
  induction steps with
  | nil => exact fun _ => List.Pairwise.nil
  | cons step steps ih =>
    intro db
    have hadded : (db.added step).Pairwise fun row row' => row.id < row'.id := by
      cases step with
      | forget accountId kind subjectId => exact List.Pairwise.nil
      | emit e =>
        rw [added]
        split
        · exact List.Pairwise.nil
        · exact pairwise_singleton _ _
    refine pairwise_append.mpr ⟨hadded, ih _, fun row hrow row' hrow' => ?_⟩
    obtain ⟨e, rfl, -, rfl⟩ := mem_added hrow
    obtain ⟨e', -, -, hle, -⟩ := mem_emitted steps hrow'
    rw [(db.deliver_emit e).1] at hle
    exact hle

theorem hasDeduplicationKey_iff :
    db.hasDeduplicationKey key = true ↔
      ∃ row ∈ db.outboxEvents, row.deduplicationKey = some key := by
  simp [hasDeduplicationKey]

theorem hasDeduplicationKey_deliver (h : db.hasDeduplicationKey key = true) (step : DeliveryStep) :
    (db.deliver step).hasDeduplicationKey key = true := by
  obtain ⟨row, hrow, hkey⟩ := hasDeduplicationKey_iff.mp h
  exact hasDeduplicationKey_iff.mpr ⟨row, mem_deliver_of_mem hrow step, hkey⟩

theorem emitted_key_free (steps : List DeliveryStep) : ∀ {db : Database}, row ∈ db.emitted steps →
      row.deduplicationKey = some key → db.hasDeduplicationKey key = false := by
  induction steps with
  | nil => exact fun h => absurd h not_mem_nil
  | cons step steps ih =>
    intro db h hkey
    rcases mem_append.mp h with h | h
    · obtain ⟨e, rfl, hfree, rfl⟩ := mem_added h
      cases hkey
      exact hfree
    · have hfree := ih h hkey
      by_contra htaken
      rw [hasDeduplicationKey_deliver (Bool.not_eq_false _ ▸ htaken) step] at hfree
      cases hfree

/-- A key that one row takes is not free for the next. -/
theorem emitted_keys (steps : List DeliveryStep) : ∀ db : Database,
    (db.emitted steps).Pairwise fun row row' => row.deduplicationKey ≠ row'.deduplicationKey := by
  induction steps with
  | nil => exact fun _ => List.Pairwise.nil
  | cons step steps ih =>
    intro db
    cases step with
    | forget accountId kind subjectId => exact ih _
    | emit e =>
      rw [emitted, added]
      split
      · exact ih _
      · refine pairwise_cons.mpr ⟨fun row' hrow' heq => ?_, ih _⟩
        have hfree := emitted_key_free steps hrow' heq.symm
        have htaken := hasDeduplicationKey_iff.mpr (db.exists_key_deliver e)
        rw [htaken] at hfree
        cases hfree

theorem exists_emitted {e : Emission} (he : .emit e ∈ steps)
    (hfree : db.hasDeduplicationKey e.key = false) :
    ∃ row ∈ db.emitted steps, row.deduplicationKey = some e.key := by
  obtain ⟨row, hrow, hkey, -⟩ := exists_key_deliverAll (P := fun _ => True) rfl steps he
    (fun row (_ : row ∈ db.outboxEvents) _ => trivial) fun _ _ _ => trivial
  rw [deliverAll_outboxEvents] at hrow
  rcases mem_append.mp hrow with hrow | hrow
  · rw [hasDeduplicationKey_iff.mpr ⟨row, hrow, hkey⟩] at hfree
    cases hfree
  · exact ⟨row, hrow, hkey⟩

/-- The rows of new identities are those the steps emit. -/
theorem stored_deliverAll {start : Database} (hnext : start.nextOutboxId = db.nextOutboxId)
    (hfresh : ∀ row ∈ start.outboxEvents, row.id < db.nextOutboxId)
    (heq : db'.deliveries = (start.deliverAll steps).deliveries) :
    db.stored db' = start.emitted steps := by
  have hrows : db'.outboxEvents = (start.deliverAll steps).outboxEvents :=
    deliveries_frame heq fun _ => rfl
  rw [stored, hrows, deliverAll_outboxEvents, filter_append]
  have hold : start.outboxEvents.filter (fun row => decide (db.nextOutboxId ≤ row.id)) = [] := by
    refine filter_eq_nil_iff.mpr fun row hrow => ?_
    simpa using hfresh row hrow
  have hnew : (start.emitted steps).filter (fun row => decide (db.nextOutboxId ≤ row.id)) =
      start.emitted steps := by
    refine filter_eq_self.mpr fun row hrow => ?_
    obtain ⟨e, -, -, hle, -⟩ := mem_emitted steps hrow
    exact decide_eq_true (hnext ▸ hle)
  rw [hold, hnew, nil_append]

theorem stored_eq_nil (hkept : Kept db) (heq : db'.deliveries = db.deliveries) :
    db.stored db' = [] := by
  have hrows : db'.outboxEvents = db.outboxEvents := deliveries_frame heq fun _ => rfl
  refine filter_eq_nil_iff.mpr fun row hrow => ?_
  simpa using hkept.fresh row (hrows ▸ hrow)

/-! ## The rows of a row phase -/

section Phase

variable {now : Instant} {evidenceRef : BlobRef} {request : PrivacyDeletionRequestRow}

theorem RowPhase.stored (h : db.RowPhase now evidenceRef request db') (hkept : Kept db) :
    ∃ repairs, (∀ step ∈ repairs, db'.RepairStep now request.id request.tenantId
        (db.findSurvivors request.id) step) ∧
      db'.announcedSubjects = ((db.remaining request).deliverAll
        (db.retractions now evidenceRef request ++ repairs)).announcedSubjects ∧
      db.stored db' = (db.remaining request).emitted
        (db.retractions now evidenceRef request ++ repairs) := by
  obtain ⟨repairs, hrepairs, heq⟩ := h.delivers
  refine ⟨repairs, hrepairs, deliveries_frame heq fun _ => rfl, ?_⟩
  refine stored_deliverAll ?_ ?_ heq
  · rfl
  · exact fun row hrow => hkept.fresh row (mem_remaining hrow)

end Phase

end Database

end ChatgptArchive
