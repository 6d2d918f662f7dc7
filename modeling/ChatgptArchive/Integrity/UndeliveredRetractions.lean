import ChatgptArchive.Integrity.PumpRuns

/-!
# Retractions stay until they are delivered

Whatever the pump and the transactions of the service do, and however old a plan is when it is
executed, the outbox keeps every tombstone until it is acknowledged and every erasure command until
it is published.
-/

namespace ChatgptArchive

open Database

variable {db db' : Database} {id : Nat}

inductive Moves (db : Database) : Database → Prop
  | same : Moves db db
  | commits {db' : Database} (h : db.Commits db') : Moves db db'
  | progresses {db' : Database} {id : Nat} (h : db.Progresses id db') : Moves db db'
  | reconciles (now : Instant) (entry : Carried) : Moves db (Pump.reconciled db now entry)

/-- The database and the log of stored rows change together, and only by what `Moves` allows. -/
theorem step_writes (contracts : Contracts) (resendPolicy : TombstoneResend) (s : Pump)
    (action : PumpAction) : ((s.step contracts resendPolicy action).db = s.db ∧
      (s.step contracts resendPolicy action).log = s.log) ∨
    ∃ db', Moves s.db db' ∧ (s.step contracts resendPolicy action).db = db' ∧
      (s.step contracts resendPolicy action).log = s.log ++ s.db.stored db' := by
  cases action with
  | transact transaction =>
    simp only [Pump.step]
    split
    · exact .inr ⟨_, .commits (commit_commits _ _ transaction), rfl, rfl⟩
    · exact .inl ⟨rfl, rfl⟩
  | acknowledge now eventId owner =>
    simp only [Pump.step]
    split
    · exact .inl ⟨rfl, rfl⟩
    · exact .inr ⟨_, .progresses (s.db.acknowledge_progresses now eventId owner), rfl, rfl⟩
  | reconcile now outcome =>
    simp only [Pump.step]
    split
    · cases outcome with
      | landed => exact .inr ⟨_, .reconciles now _, rfl, rfl⟩
      | failed => exact .inl ⟨rfl, rfl⟩
      | unknown => exact .inr ⟨_, .reconciles now _, rfl, rfl⟩
    · exact .inl ⟨rfl, rfl⟩
  | oversize now =>
    simp only [Pump.step]
    split
    · split
      · exact .inl ⟨rfl, rfl⟩
      · exact .inr ⟨_, .progresses (s.db.markUndeliverable_progresses now _), rfl, rfl⟩
    · exact .inl ⟨rfl, rfl⟩
  | publish sequence =>
    simp only [Pump.step]
    split
    · split <;> exact .inl ⟨rfl, rfl⟩
    · exact .inl ⟨rfl, rfl⟩
  | recordFailure now =>
    simp only [Pump.step]
    split
    · split
      · exact .inl ⟨rfl, rfl⟩
      · split
        · exact .inr ⟨_, .progresses (s.db.recordResendFailure_progresses now _), rfl, rfl⟩
        · exact .inr ⟨_, .progresses (s.db.recordFailure_progresses now _), rfl, rfl⟩
    · exact .inl ⟨rfl, rfl⟩
  | commit outcome =>
    simp only [Pump.step]
    split
    · split
      · exact .inr ⟨_, .progresses (s.db.markPublished_progresses _ _ _ _), rfl, rfl⟩
      · exact .inl ⟨rfl, rfl⟩
      · exact .inl ⟨rfl, rfl⟩
    · exact .inl ⟨rfl, rfl⟩
  | markResent now =>
    simp only [Pump.step]
    split
    · split
      · exact .inl ⟨rfl, rfl⟩
      · exact .inr ⟨_, .progresses (s.db.markResent_progresses now _ resendPolicy), rfl, rfl⟩
    · exact .inl ⟨rfl, rfl⟩
  | settle id landed =>
    simp only [Pump.step]
    split
    · exact .inl ⟨rfl, rfl⟩
    · split
      · exact .inr ⟨_, .progresses (s.db.markPublished_progresses _ _ _ _), rfl, rfl⟩
      · exact .inl ⟨rfl, rfl⟩
  | snapshot | queryPresent | select now =>
    simp only [Pump.step]
    split <;> exact .inl ⟨rfl, rfl⟩
  | skip | lock | refuse | mark now | resend =>
    simp only [Pump.step]
    split
    all_goals first | exact .inl ⟨rfl, rfl⟩ | (split <;> exact .inl ⟨rfl, rfl⟩)
  | abandon => exact .inl ⟨rfl, rfl⟩

theorem step_moves (contracts : Contracts) (resendPolicy : TombstoneResend) (s : Pump)
    (action : PumpAction) : Moves s.db (s.step contracts resendPolicy action).db := by
  rcases step_writes contracts resendPolicy s action with ⟨hdb, -⟩ | ⟨db', hmoves, hdb, -⟩
  · rw [hdb]
    exact .same
  · rw [hdb]
    exact hmoves

theorem Moves.continues (h : Moves db db') : db.Continues db' := by
  cases h with
  | same => exact ⟨le_refl _, fun row hrow _ => ⟨row, hrow, rfl, rfl, rfl⟩⟩
  | commits h => exact h.continues
  | progresses h => exact h.continues
  | reconciles now entry => exact reconciled_continues db now entry

theorem Moves.ordered (h : Moves db db') (hordered : db.Ordered) : db'.Ordered := by
  cases h with
  | same => exact hordered
  | commits h => exact hordered.commits h
  | progresses h => exact hordered.progress h
  | reconciles now entry => exact reconciled_ordered hordered now entry

theorem Moves.undelivered_kept (h : Moves db db') (hordered : db.Ordered) {row : OutboxEventRow}
    (hrow : row ∈ db.outboxEvents) (hundelivered : undeliveredRetraction row = true) :
    ∃ row' ∈ db'.outboxEvents, row'.id = row.id ∧ row'.envelope = row.envelope := by
  cases h with
  | same => exact ⟨row, hrow, rfl, rfl⟩
  | commits h => exact ⟨row, hordered.undelivered_kept h hrow hundelivered, rfl, rfl⟩
  | progresses h =>
    rcases h.mem_of_mem hrow with hrow | ⟨f, hf, hrow⟩
    · exact ⟨row, hrow, rfl, rfl⟩
    · exact ⟨f row, hrow, hf.id row, hf.envelope row⟩
  | reconciles now entry => exact ⟨row, mem_reconciled_of_mem hrow, rfl, rfl⟩

/-- The later row is about the same event, and nothing recorded about its delivery is lost. -/
structure OutboxEventRow.Precedes (row row' : OutboxEventRow) : Prop where
  id : row'.id = row.id
  envelope : row'.envelope = row.envelope
  tenantId : row'.tenantId = row.tenantId
  exportId : row'.exportId = row.exportId
  deduplicationKey : row'.deduplicationKey = row.deduplicationKey
  published : row.publishedAt.isSome → row'.publishedAt.isSome
  acknowledged : row.acknowledgedAt.isSome → row'.acknowledgedAt.isSome
  sequences : row.publishedStreamSeqs ⊆ row'.publishedStreamSeqs

namespace OutboxEventRow.Precedes

variable {row row' row'' : OutboxEventRow}

theorem refl (row : OutboxEventRow) : row.Precedes row :=
  ⟨rfl, rfl, rfl, rfl, rfl, fun h => h, fun h => h, fun _ h => h⟩

theorem trans (h : row.Precedes row') (h' : row'.Precedes row'') : row.Precedes row'' :=
  ⟨h'.id.trans h.id, h'.envelope.trans h.envelope, h'.tenantId.trans h.tenantId,
    h'.exportId.trans h.exportId, h'.deduplicationKey.trans h.deduplicationKey,
    fun hp => h'.published (h.published hp), fun ha => h'.acknowledged (h.acknowledged ha),
    List.Subset.trans h.sequences h'.sequences⟩

end OutboxEventRow.Precedes

theorem Moves.precedes (h : Moves db db') {row : OutboxEventRow} (hrow : row ∈ db'.outboxEvents)
    (hlt : row.id < db.nextOutboxId) : ∃ old ∈ db.outboxEvents, old.Precedes row := by
  cases h with
  | same => exact ⟨row, hrow, .refl row⟩
  | commits h =>
    rcases h.mem hrow with hrow | ⟨hle, -⟩
    · exact ⟨row, hrow, .refl row⟩
    · exact absurd hlt (Nat.not_lt.mpr hle)
  | progresses h =>
    obtain ⟨old, hold, rfl | ⟨f, hf, rfl⟩⟩ := h.mem hrow
    · exact ⟨_, hold, .refl _⟩
    · exact ⟨old, hold, hf.id old, hf.envelope old, hf.tenantId old, hf.exportId old,
        hf.deduplicationKey old, hf.published old, hf.acknowledged old, hf.sequences old⟩
  | reconciles now entry =>
    rcases mem_reconciled hrow with hrow | ⟨chunk, i, n, -, rfl, hle⟩
    · exact ⟨row, hrow, .refl row⟩
    · exact absurd hlt (Nat.not_lt.mpr hle)

/-- The row of this identity is acknowledged, or it is gone. -/
structure Quiet (id : Nat) (db : Database) : Prop where
  lt : id < db.nextOutboxId
  acknowledged : ∀ row ∈ db.outboxEvents, row.id = id → row.acknowledgedAt.isSome

theorem Quiet.moves (h : Quiet id db) (hmoves : Moves db db') : Quiet id db' := by
  refine ⟨h.lt.trans_le hmoves.continues.next_le, fun row hrow hid => ?_⟩
  obtain ⟨old, hold, hprecedes⟩ := hmoves.precedes hrow (hid ▸ h.lt)
  exact hprecedes.acknowledged (h.acknowledged old hold (hprecedes.id.symm.trans hid))

theorem Quiet.not_pending (h : Quiet id db) (hkept : Kept db) (now : Instant) :
    ∀ c ∈ db.pendingRows now, c.id ≠ id := by
  intro c hc hid
  obtain ⟨row, hrow, rfl⟩ := List.mem_map.mp hc
  have hrow := (List.mem_insertionSort _).mp (List.mem_of_mem_take hrow)
  obtain ⟨hrow, hpending⟩ := List.mem_filter.mp hrow
  have hacknowledged := h.acknowledged row hrow hid
  have hpublished := (hkept.rows row hrow).acknowledged hacknowledged
  rw [← Option.not_isNone, Bool.not_eq_true'] at hacknowledged hpublished
  simp [OutboxEventRow.pending, hacknowledged, hpublished] at hpending

theorem run_ordered (contracts : Contracts) (resendPolicy : TombstoneResend)
    (actions : List PumpAction) : (Pump.run contracts resendPolicy actions).db.Ordered :=
  Run.run_preserves (P := fun s : Pump => s.db.Ordered)
    (fun s action h => (step_moves contracts resendPolicy s action).ordered h) .empty

/-- No step removes a tombstone that is not acknowledged or an erasure command that is not
published, and once a tombstone is acknowledged no later pass selects it. -/
theorem undelivered_retractions_kept (contracts : Contracts) (resendPolicy : TombstoneResend)
    (actions : List PumpAction) :
    let s := Pump.run contracts resendPolicy actions
    (∀ action, ∀ row ∈ s.db.outboxEvents,
      (row.eventType = .subjectTombstoned ∧ row.acknowledgedAt = none) ∨
        (row.eventType = .streamErasureRequested ∧ row.publishedAt = none) →
      ∃ row' ∈ (s.step contracts resendPolicy action).db.outboxEvents,
        row'.id = row.id ∧ row'.envelope = row.envelope) ∧
    ∀ row ∈ s.db.outboxEvents, row.eventType = .subjectTombstoned → row.acknowledgedAt.isSome →
      ∀ later now, ∀ c ∈ (Pump.run contracts resendPolicy (actions ++ later)).db.pendingRows now,
        c.id ≠ row.id := by
  have hordered := run_ordered contracts resendPolicy actions
  refine ⟨fun action row hrow hretraction => ?_, fun row hrow _ hacknowledged later now => ?_⟩
  · refine (step_moves contracts resendPolicy _ action).undelivered_kept hordered hrow ?_
    simpa [undeliveredRetraction] using hretraction
  · have hquiet : Quiet row.id (Pump.run contracts resendPolicy actions).db :=
      ⟨hordered.fresh row hrow, fun other hother hid =>
        hordered.eq_of_id hother hrow hid ▸ hacknowledged⟩
    have hlater : Quiet row.id (Pump.run contracts resendPolicy (actions ++ later)).db := by
      rw [Pump.run, Run.run_append]
      exact Run.run_preserves (P := fun s : Pump => Quiet row.id s.db)
        (fun s action h => h.moves (step_moves contracts resendPolicy s action)) hquiet
    exact hlater.not_pending (run_ordered contracts resendPolicy _).toKept now

/-- Whatever the pump and the service do, an outbox id names one event for ever: a row found later
under the id of an earlier one has its content, its key and all that was recorded of its delivery. -/
theorem delivery_only_progresses (contracts : Contracts) (resendPolicy : TombstoneResend)
    (actions later : List PumpAction) :
    ∀ row ∈ (Pump.run contracts resendPolicy actions).db.outboxEvents,
      ∀ row' ∈ (Pump.run contracts resendPolicy (actions ++ later)).db.outboxEvents,
        row'.id = row.id → row.Precedes row' := by
  intro row hrow row' hrow' hid
  have hordered := run_ordered contracts resendPolicy actions
  rw [Pump.run, Run.run_append] at hrow'
  have hstep : ∀ (s : Pump) (action : PumpAction), row.id < s.db.nextOutboxId ∧
      (∀ r ∈ s.db.outboxEvents, r.id = row.id → row.Precedes r) →
      row.id < (s.step contracts resendPolicy action).db.nextOutboxId ∧
      ∀ r ∈ (s.step contracts resendPolicy action).db.outboxEvents, r.id = row.id →
        row.Precedes r := by
    rintro s action ⟨hlt, h⟩
    have hmoves := step_moves contracts resendPolicy s action
    refine ⟨hlt.trans_le hmoves.continues.next_le, fun r hr heq => ?_⟩
    obtain ⟨old, hold, hprecedes⟩ := hmoves.precedes hr (heq ▸ hlt)
    exact (h old hold (hprecedes.id.symm.trans heq)).trans hprecedes
  exact (Run.run_preserves hstep ⟨hordered.fresh row hrow, fun r hr heq =>
    hordered.eq_of_id hr hrow heq ▸ .refl _⟩).2 row' hrow' hid

set_option maxRecDepth 100000 in
theorem lostCommit_progresses :
    ∃ row ∈ (Pump.run .permissive ⟨60, 600⟩ (lostCommit.take 5)).db.outboxEvents,
      ∃ row' ∈ (Pump.run .permissive ⟨60, 600⟩
        (lostCommit.take 5 ++ (lostCommit.drop 5).take 15)).db.outboxEvents,
      row'.id = row.id ∧ row'.publishedStreamSeqs = [11, 12] ∧ row.Precedes row' := by
  obtain ⟨row, hrow, row', hrow', hid, hseqs⟩ :
      ∃ row ∈ (Pump.run .permissive ⟨60, 600⟩ (lostCommit.take 5)).db.outboxEvents,
        ∃ row' ∈ (Pump.run .permissive ⟨60, 600⟩
          (lostCommit.take 5 ++ (lostCommit.drop 5).take 15)).db.outboxEvents,
        row'.id = row.id ∧ row'.publishedStreamSeqs = [11, 12] := by decide +kernel
  exact ⟨row, hrow, row', hrow', hid, hseqs,
    delivery_only_progresses _ _ _ _ row hrow row' hrow' hid⟩

/-! ## The course of a deletion request -/

/-- The later row is of the same request: a request does not return to its plan, its completion is
final, and so is what its row phase recorded. -/
structure PrivacyDeletionRequestRow.Advances (r r' : PrivacyDeletionRequestRow) : Prop where
  id : r'.id = r.id
  tenantId : r'.tenantId = r.tenantId
  scope : r'.scope = r.scope
  purged : r.status ≠ .planned → r'.status ≠ .planned ∧ r'.evidenceRef = r.evidenceRef ∧
    r'.rowsRemovedAt = r.rowsRemovedAt
  completed : r.status = .completed → r'.status = .completed

namespace PrivacyDeletionRequestRow.Advances

variable {r r' r'' : PrivacyDeletionRequestRow}

theorem refl (r : PrivacyDeletionRequestRow) : r.Advances r :=
  ⟨rfl, rfl, rfl, fun h => ⟨h, rfl, rfl⟩, fun h => h⟩

theorem trans (h : r.Advances r') (h' : r'.Advances r'') : r.Advances r'' := by
  refine ⟨h'.id.trans h.id, h'.tenantId.trans h.tenantId, h'.scope.trans h.scope, fun hr => ?_,
    fun hr => h'.completed (h.completed hr)⟩
  obtain ⟨hr', hevidence, hremoved⟩ := h.purged hr
  obtain ⟨hr'', hevidence', hremoved'⟩ := h'.purged hr'
  exact ⟨hr'', hevidence'.trans hevidence, hremoved'.trans hremoved⟩

theorem updateWhere {p : PrivacyDeletionRequestRow → Bool}
    {f : PrivacyDeletionRequestRow → PrivacyDeletionRequestRow}
    {rows : List PrivacyDeletionRequestRow} (h : ∀ r ∈ rows, p r = true → r.Advances (f r))
    (hr : r ∈ rows) : ∃ r' ∈ Table.updateWhere p f rows, r.Advances r' := by
  cases hp : p r with
  | true => exact ⟨f r, Table.mem_updateWhere.mpr (.inr ⟨r, hr, hp, rfl⟩), h r hr hp⟩
  | false => exact ⟨r, Table.mem_updateWhere.mpr (.inl ⟨hr, hp⟩), .refl r⟩

end PrivacyDeletionRequestRow.Advances

theorem Database.Commits.advances (h : db.Commits db') (hordered : db.Ordered)
    {r : PrivacyDeletionRequestRow} (hr : r ∈ db.privacyDeletionRequests) :
    ∃ r' ∈ db'.privacyDeletionRequests, r.Advances r' := by
  cases h with
  | same => exact ⟨r, hr, .refl r⟩
  | work _ hdeletions _ => exact ⟨r, requests_of_deletions hdeletions ▸ hr, .refl r⟩
  | plan _ _ => exact ⟨r, List.mem_append_left _ hr, .refl r⟩
  | @removeRows _ _ request _ hphase =>
    obtain ⟨hfind, hplanned⟩ := hphase.planned
    rw [hphase.requests]
    refine PrivacyDeletionRequestRow.Advances.updateWhere (fun q hq hid => ?_) hr
    -- the phase finds its request planned, and no other request has its identity
    obtain rfl : q = request := List.inj_on_of_nodup_map hordered.requestIds hq
      (List.mem_of_find?_eq_some hfind) (of_decide_eq_true hid)
    exact ⟨rfl, rfl, rfl, fun hpurged => absurd hplanned hpurged,
      fun hcompleted => nomatch hplanned.symm.trans hcompleted⟩
  | @complete requestId _ =>
    rcases db.complete_cases requestId with heq | ⟨hrequests, -⟩
    · exact ⟨r, heq.symm ▸ hr, .refl r⟩
    · rw [hrequests]
      exact PrivacyDeletionRequestRow.Advances.updateWhere
        (fun _ _ _ => ⟨rfl, rfl, rfl, fun _ => ⟨nofun, rfl, rfl⟩, fun _ => rfl⟩) hr

theorem Moves.advances (h : Moves db db') (hordered : db.Ordered) {r : PrivacyDeletionRequestRow}
    (hr : r ∈ db.privacyDeletionRequests) : ∃ r' ∈ db'.privacyDeletionRequests, r.Advances r' := by
  cases h with
  | same => exact ⟨r, hr, .refl r⟩
  | commits h => exact h.advances hordered hr
  | progresses h => exact ⟨r, by rwa [h.eq], .refl r⟩
  | reconciles now entry =>
    have hdeletions : (Pump.reconciled db now entry).deletions = db.deletions :=
      enqueueOwnerErasure_undelivered undelivered_deletions ..
    exact ⟨r, requests_of_deletions hdeletions ▸ hr, .refl r⟩

/-- No step loses a deletion request, and a request only advances: its row phase commits at most
once, with one evidence, and nothing follows its completion. -/
theorem requests_only_advance (contracts : Contracts) (resendPolicy : TombstoneResend)
    (actions later : List PumpAction) :
    ∀ r ∈ (Pump.run contracts resendPolicy actions).db.privacyDeletionRequests,
      ∃ r' ∈ (Pump.run contracts resendPolicy (actions ++ later)).db.privacyDeletionRequests,
        r.Advances r' ∧ ∀ q ∈ (Pump.run contracts resendPolicy
          (actions ++ later)).db.privacyDeletionRequests, q.id = r.id → q = r' := by
  intro r hr
  have hordered := run_ordered contracts resendPolicy (actions ++ later)
  obtain ⟨-, r', hr', hadvances⟩ :
      (Pump.run contracts resendPolicy (actions ++ later)).db.Ordered ∧
      ∃ r' ∈ (Pump.run contracts resendPolicy (actions ++ later)).db.privacyDeletionRequests,
        r.Advances r' := by
    rw [Pump.run, Run.run_append]
    refine Run.run_preserves (P := fun s : Pump => s.db.Ordered ∧
      ∃ r' ∈ s.db.privacyDeletionRequests, r.Advances r') ?_
      ⟨run_ordered contracts resendPolicy actions, r, hr, .refl r⟩
    rintro s action ⟨hordered, r', hr', hadvances⟩
    have hmoves := step_moves contracts resendPolicy s action
    obtain ⟨r'', hr'', hadvances'⟩ := hmoves.advances hordered hr'
    exact ⟨hmoves.ordered hordered, r'', hr'', hadvances.trans hadvances'⟩
  exact ⟨r', hr', hadvances, fun q hq hid => List.inj_on_of_nodup_map hordered.requestIds hq hr'
    (hid.trans hadvances.id.symm)⟩

set_option maxRecDepth 100000 in
theorem lostCommit_advances :
    ∃ r ∈ (Pump.run .permissive ⟨60, 600⟩ (lostCommit.take 24)).db.privacyDeletionRequests,
      r.status = .planned ∧
        ∃ r' ∈ (Pump.run .permissive ⟨60, 600⟩
          (lostCommit.take 24 ++ lostCommit.drop 24)).db.privacyDeletionRequests, r.Advances r' := by
  obtain ⟨r, hr, hplanned⟩ : ∃ r ∈ (Pump.run .permissive ⟨60, 600⟩
      (lostCommit.take 24)).db.privacyDeletionRequests, r.status = .planned := by decide +kernel
  obtain ⟨r', hr', hadvances, -⟩ := requests_only_advance _ _ _ (lostCommit.drop 24) r hr
  exact ⟨r, hr, hplanned, r', hr', hadvances⟩

end ChatgptArchive
