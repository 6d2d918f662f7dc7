import ChatgptArchive.Integrity.UndeliveredRetractions

/-!
# The erasure commands of a deletion

The commands a deletion enqueues for an owner name the sequences of the owner's removed facts: every
one of them, once, in ascending order, in chunks of at most 500.
-/

namespace ChatgptArchive

open List EventEnvelope DeduplicationKey

namespace Database

/-- Emissions under free and distinct keys are all stored, in their order. -/
theorem deliverAll_emits {emissions : List Emission} {db : Database}
    (hkeys : (emissions.map (·.key)).Nodup)
    (hfree : ∀ e ∈ emissions, ∀ row ∈ db.outboxEvents, row.deduplicationKey ≠ some e.key) :
    ∃ rows, (db.deliverAll (emissions.map .emit)).outboxEvents = db.outboxEvents ++ rows ∧
      rows.map (·.envelope) = emissions.map (·.envelope) ∧
      rows.map (·.deduplicationKey) = emissions.map (some ·.key) := by
  induction emissions generalizing db with
  | nil => exact ⟨[], (append_nil _).symm, rfl, rfl⟩
  | cons e emissions ih =>
    obtain ⟨hnew, hkeys⟩ := nodup_cons.mp hkeys
    have hstored : (db.deliver (.emit e)).outboxEvents =
        db.outboxEvents ++ [e.row db.nextOutboxId] := by
      rw [(db.deliver_emit e).2, if_neg]
      intro htaken
      obtain ⟨row, hrow, hkey⟩ := any_eq_true.mp htaken
      exact hfree e mem_cons_self row hrow (of_decide_eq_true hkey)
    have hlater : ∀ e' ∈ emissions, ∀ row ∈ (db.deliver (.emit e)).outboxEvents,
        row.deduplicationKey ≠ some e'.key := by
      intro e' he' row hrow
      rw [hstored, mem_append, mem_singleton] at hrow
      rcases hrow with hrow | rfl
      · exact hfree e' (mem_cons_of_mem _ he') row hrow
      · intro hkey
        exact hnew (mem_map.mpr ⟨e', he', (Option.some.inj hkey).symm⟩)
    obtain ⟨rows, houtbox, henvelopes, hkeys⟩ := ih hkeys hlater
    refine ⟨e.row db.nextOutboxId :: rows, ?_, ?_, ?_⟩
    · rw [append_cons, ← hstored]
      exact houtbox
    · rw [map_cons, henvelopes]
      rfl
    · rw [map_cons, hkeys]
      rfl

end Database

def EventEnvelope.erasedFor (owner : TenantRef) (envelope : EventEnvelope) : Option (List Nat) :=
  match envelope.payload with
  | .streamErasureRequested command =>
    if command.owner = owner then some command.streamSequences else none
  | _ => none

namespace Database

def erasureEmissions (now : Instant) (tenantId requestId : Uuid) (facts : PublishedFacts) :
    List Emission :=
  (ascending (facts.map fun fact => fact.1.user)).flatMap fun user =>
    ((PublishedFacts.sequencesOf facts ⟨user⟩).toChunks 500).zipIdx.map
      (erasureEmission now requestId (some tenantId) ⟨user⟩ (.streamErasure requestId ⟨user⟩))

section Commands

variable {now : Instant} {tenantId requestId : Uuid} {facts : PublishedFacts}

theorem erasureSteps_eq : erasureSteps now tenantId requestId facts =
    (erasureEmissions now tenantId requestId facts).map .emit := by
  simp only [erasureSteps, erasureEmissions, map_flatMap, map_map]
  rfl

theorem key_erasureEmissions {e : Emission}
    (h : e ∈ erasureEmissions now tenantId requestId facts) :
    ∃ owner i, e.key = .streamErasure requestId owner i := by
  obtain ⟨user, -, h⟩ := mem_flatMap.mp h
  obtain ⟨chunk, -, rfl⟩ := mem_map.mp h
  exact ⟨⟨user⟩, chunk.2, rfl⟩

theorem nodup_ascending (ids : List Nat) : (ascending ids).Nodup :=
  (ascending_pairwise ids).imp Nat.ne_of_lt

theorem nodup_erasureEmissions (now : Instant) (tenantId requestId : Uuid)
    (facts : PublishedFacts) :
    ((erasureEmissions now tenantId requestId facts).map (·.key)).Nodup := by
  rw [erasureEmissions, map_flatMap]
  apply nodup_flatMap.mpr
  constructor
  · intro user _
    -- the keys of one owner are told apart by the positions of their chunks
    have hpositions : (((PublishedFacts.sequencesOf facts ⟨user⟩).toChunks 500).zipIdx.map
        (·.2)).Nodup := by
      rw [zipIdx_map_snd]
      exact nodup_range'
    have hkeys := hpositions.map (f := streamErasure requestId ⟨user⟩)
      fun _ _ h => (streamErasure.inj h).2.2
    rw [map_map] at hkeys ⊢
    exact hkeys
  · apply (nodup_ascending _).imp
    intro user user' hne key hkey hkey'
    obtain ⟨e, he, rfl⟩ := mem_map.mp hkey
    obtain ⟨e', he', heq⟩ := mem_map.mp hkey'
    obtain ⟨chunk, -, rfl⟩ := mem_map.mp he
    obtain ⟨chunk', -, rfl⟩ := mem_map.mp he'
    exact hne (TenantRef.mk.inj (streamErasure.inj heq).2.1).symm

theorem flatMap_ite {α β : Type} [DecidableEq α] {l : List α} (hnodup : l.Nodup) {a : α}
    {values : List β} :
    (l.flatMap fun x => if x = a then values else []) = if a ∈ l then values else [] := by
  induction l with
  | nil => rfl
  | cons x l ih =>
    obtain ⟨hnew, hnodup⟩ := nodup_cons.mp hnodup
    rw [flatMap_cons, ih hnodup]
    by_cases hx : x = a
    · subst hx
      simp [hnew]
    · simp [hx, Ne.symm hx]

/-- The commands to one owner are the chunks of its sequences, in their order. -/
theorem erasedFor_erasureEmissions (owner : TenantRef) :
    ((erasureEmissions now tenantId requestId facts).map (·.envelope)).filterMap
        (erasedFor owner) =
      (PublishedFacts.sequencesOf facts owner).toChunks 500 := by
  have hone : ∀ user, ((((PublishedFacts.sequencesOf facts ⟨user⟩).toChunks 500).zipIdx.map
      (erasureEmission now requestId (some tenantId) ⟨user⟩ (.streamErasure requestId ⟨user⟩))).map
        (·.envelope)).filterMap (erasedFor owner) =
      if user = owner.user then (PublishedFacts.sequencesOf facts owner).toChunks 500 else [] := by
    intro user
    rw [map_map, filterMap_map]
    by_cases huser : user = owner.user
    · subst huser
      rw [if_pos rfl]
      conv_rhs => rw [← zipIdx_map_fst 0 ((PublishedFacts.sequencesOf facts owner).toChunks 500)]
      rw [← filterMap_eq_map]
      refine filterMap_congr fun chunk _ => ?_
      simp [erasedFor, erasureEmission]
    · rw [if_neg huser, filterMap_eq_nil_iff]
      intro chunk _
      have howner : (⟨user⟩ : TenantRef) ≠ owner := fun h => huser (h ▸ rfl)
      simp [erasedFor, erasureEmission, howner]
  rw [erasureEmissions, map_flatMap, filterMap_flatMap]
  simp only [hone]
  rw [flatMap_ite (nodup_ascending _)]
  split
  · rfl
  · rename_i hout
    have hnone : PublishedFacts.sequencesOf facts owner = [] := by
      apply eq_nil_iff_forall_not_mem.mpr
      intro sequence hsequence
      obtain ⟨fact, hfact, -⟩ := mem_map.mp (mem_ascending.mp hsequence)
      obtain ⟨hfact, howner⟩ := mem_filter.mp hfact
      refine hout (mem_ascending.mpr (mem_map.mpr ⟨fact, hfact, ?_⟩))
      rw [of_decide_eq_true howner]
    rw [hnone]
    rfl

/-- The chunks of an owner are the owner's sequences in ascending order, cut every 500. -/
theorem erasureEmissions_partition (db : Database) (ids : List Nat) (exports : List Uuid)
    (owner : TenantRef) :
    let named := ((erasureEmissions now tenantId requestId
      (db.publishedFacts ids exports)).map (·.envelope)).filterMap (erasedFor owner)
    named.flatten.Pairwise (· < ·) ∧ (∀ sequences ∈ named, sequences.length ≤ 500) ∧
      ∀ sequence, sequence ∈ named.flatten ↔ ∃ row ∈ db.outboxEvents,
        droppedFact ids exports row = true ∧ contentBearing row.eventType = true ∧
        row.envelope.tenantId = some owner ∧ sequence ∈ row.publishedStreamSeqs := by
  have hchunks := toChunks_spec (show 0 < 500 by decide)
    (PublishedFacts.sequencesOf (db.publishedFacts ids exports) owner)
  rw [erasedFor_erasureEmissions]
  dsimp only
  rw [hchunks.1]
  refine ⟨ascending_pairwise _, hchunks.2, fun sequence => ?_⟩
  rw [PublishedFacts.sequencesOf, mem_ascending]
  constructor
  · intro h
    obtain ⟨⟨_, _⟩, hfact, rfl⟩ := mem_map.mp h
    obtain ⟨hfact, howner⟩ := mem_filter.mp hfact
    obtain ⟨row, hrow, hfact⟩ := mem_flatMap.mp hfact
    obtain ⟨tenant, htenant, hfact⟩ := mem_flatMap.mp hfact
    obtain ⟨sequence, hsequence, heq⟩ := mem_map.mp hfact
    obtain ⟨hrow, hdropped⟩ := mem_filter.mp hrow
    obtain ⟨hdropped, hcontent⟩ := Bool.and_eq_true_iff.mp hdropped
    cases heq
    refine ⟨row, hrow, hdropped, hcontent, ?_, hsequence⟩
    rw [← of_decide_eq_true howner]
    simpa using htenant
  · rintro ⟨row, hrow, hdropped, hcontent, howner, hsequence⟩
    have hcarried : row.envelope.carriedOwner = some owner :=
      Option.filter_eq_some_iff.mpr ⟨howner, hcontent⟩
    exact mem_map.mpr ⟨_, mem_filter.mpr
      ⟨mem_publishedFacts hrow hdropped hcarried hsequence, decide_eq_true rfl⟩, rfl⟩

/-- Where no command of the request is stored, every command is. -/
theorem deliverAll_erasures {db : Database} (now : Instant) (tenantId : Uuid)
    (facts : PublishedFacts) (hfree : ∀ row ∈ db.outboxEvents, ∀ owner i,
      row.deduplicationKey ≠ some (.streamErasure requestId owner i)) :
    ∃ commands, (db.deliverAll (erasureSteps now tenantId requestId facts)).outboxEvents =
        db.outboxEvents ++ commands ∧
      commands.map (·.envelope) =
        (erasureEmissions now tenantId requestId facts).map (·.envelope) ∧
      commands.map (·.deduplicationKey) =
        (erasureEmissions now tenantId requestId facts).map (some ·.key) := by
  rw [erasureSteps_eq]
  refine deliverAll_emits (nodup_erasureEmissions now tenantId requestId facts) ?_
  intro e he row hrow
  obtain ⟨owner, i, hkey⟩ := key_erasureEmissions he
  exact hkey ▸ hfree row hrow owner i

end Commands

end Database

/-- For every owner, the commands a deletion enqueues name the sequences on the owner's removed
content-bearing facts, each once, ascending within and across the commands. -/
theorem erasureCommands_partition (db cleared : Database) (ids : List Nat) (exports : List Uuid)
    (now : Instant) (tenantId requestId : Uuid)
    (hfree : ∀ row ∈ cleared.outboxEvents, ∀ owner i,
      row.deduplicationKey ≠ some (.streamErasure requestId owner i)) :
    ∃ commands, (cleared.enqueueErasureCommands now tenantId requestId
        (db.publishedFacts ids exports)).outboxEvents = cleared.outboxEvents ++ commands ∧
      ∀ owner, let named := (commands.map (·.envelope)).filterMap (·.erasedFor owner)
        named.flatten.Pairwise (· < ·) ∧ (∀ sequences ∈ named, sequences.length ≤ 500) ∧
        ∀ sequence, sequence ∈ named.flatten ↔ ∃ row ∈ db.outboxEvents,
          Database.droppedFact ids exports row = true ∧ contentBearing row.eventType = true ∧
          row.envelope.tenantId = some owner ∧ sequence ∈ row.publishedStreamSeqs := by
  obtain ⟨commands, houtbox, henvelopes, -⟩ := Database.deliverAll_erasures now tenantId
    (db.publishedFacts ids exports) hfree
  refine ⟨commands, ?_, fun owner => ?_⟩
  · rw [Database.enqueueErasureCommands_eq_deliverAll, houtbox]
  · rw [henvelopes]
    exact Database.erasureEmissions_partition db ids exports owner

def publishedTwice : Database :=
  { Database.empty with
    outboxEvents := [(0, 1, [5, 3]), (1, 2, [4]), (2, 1, [8]), (3, 1, [9])].map
      fun (id, user, sequences) => { (default : OutboxEventRow) with
        id, envelope := ⟨0, some ⟨user⟩, .archiveImported default⟩
        publishedStreamSeqs := sequences } }

def erasedBefore : Database :=
  { Database.empty with
    outboxEvents := [{ (default : OutboxEventRow) with
      deduplicationKey := some (.streamErasure 8 ⟨1⟩ 0) }] }

theorem publishedTwice_partition :
    ∃ commands, (erasedBefore.enqueueErasureCommands 0 1 9
        (publishedTwice.publishedFacts [0, 1, 2] [])).outboxEvents =
          erasedBefore.outboxEvents ++ commands ∧
      (∀ sequence ∈ [3, 5, 8],
        sequence ∈ ((commands.map (·.envelope)).filterMap (·.erasedFor ⟨1⟩)).flatten) ∧
      4 ∈ ((commands.map (·.envelope)).filterMap (·.erasedFor ⟨2⟩)).flatten ∧
      9 ∉ ((commands.map (·.envelope)).filterMap (·.erasedFor ⟨1⟩)).flatten := by
  obtain ⟨commands, houtbox, hnamed⟩ := erasureCommands_partition publishedTwice erasedBefore
    [0, 1, 2] [] 0 1 9 fun row hrow owner i => by
      rw [List.mem_singleton.mp hrow]
      intro hkey
      cases hkey
  have howned := fun owner sequence => (hnamed owner).2.2 sequence
  refine ⟨commands, houtbox, fun sequence hsequence => (howned _ _).mpr ?_, (howned _ _).mpr ?_,
    fun h => ?_⟩
  · revert sequence
    decide
  · decide
  · revert h
    rw [howned]
    decide

/-! ## The row phase of a reachable state -/

def DeduplicationKey.erases (requestId : Uuid) : DeduplicationKey → Bool
  | .streamErasure id _ _ => id = requestId
  | _ => false

namespace Database

variable {db db' : Database} {requestId : Uuid} {now : Instant} {evidenceRef : BlobRef}
  {request : PrivacyDeletionRequestRow}

def erasureRows (db : Database) (requestId : Uuid) : List OutboxEventRow :=
  db.outboxEvents.filter fun row => row.deduplicationKey.any (·.erases requestId)

theorem erasureRows_deliverAll {steps : List DeliveryStep}
    (hother : ∀ e, .emit e ∈ steps → e.key.erases requestId = false) :
    (db.deliverAll steps).erasureRows requestId = db.erasureRows requestId := by
  induction steps generalizing db with
  | nil => rfl
  | cons step steps ih =>
    refine (ih fun e he => hother e (mem_cons_of_mem _ he)).trans ?_
    cases step with
    | forget accountId kind subjectId => rfl
    | emit e =>
      rw [erasureRows, (db.deliver_emit e).2]
      split
      · rfl
      · exact Table.filter_append_beside (hother e mem_cons_self)

theorem erasureRows_eq_nil_iff : db.erasureRows requestId = [] ↔ ∀ row ∈ db.outboxEvents,
    ∀ owner i, row.deduplicationKey ≠ some (.streamErasure requestId owner i) := by
  rw [erasureRows, filter_eq_nil_iff]
  refine forall₂_congr fun row _ => ⟨fun hnone owner i hkey => hnone ?_, fun hfree hany => ?_⟩
  · rw [hkey]
    exact decide_eq_true rfl
  · cases hkey : row.deduplicationKey with
    | none =>
      rw [hkey] at hany
      cases hany
    | some key =>
      rw [hkey] at hany
      cases key with
      | streamErasure id owner i => exact hfree owner i (of_decide_eq_true hany ▸ hkey)
      | _ => cases hany

/-- A row phase leaves the commands of its own transaction: the tombstones before them and the
facts of the survivors after them have keys of other kinds. -/
theorem Ordered.erasureRows (h : Ordered db) (hphase : db.RowPhase now evidenceRef request db') :
    (db'.erasureRows request.id).map (·.envelope) =
      (erasureEmissions now request.tenantId request.id
        (db.publishedFacts (db.serialItemIds request.id .outboxEvent)
          (db.removedIds request.id .export))).map (·.envelope) := by
  obtain ⟨repairs, hrepairs, heq⟩ := hphase.delivers
  have hrows : db'.outboxEvents = _ := deliveries_frame heq fun _ => rfl
  rw [retractions, deliverAll_append, deliverAll_append] at hrows
  have hold : (db.remaining request).erasureRows request.id = [] :=
    erasureRows_eq_nil_iff.mpr fun old hold _ _ => h.remaining_unerased hphase.planned old hold
  generalize hannounced : (db.remaining request).deliverAll ((db.readAnnouncements
    request.tenantId request.id).flatMap (retractionSteps now request.tenantId request.id evidenceRef)) = announced
    at hrows
  have htombstones : announced.erasureRows request.id = [] := by
    rw [← hannounced, erasureRows_deliverAll, hold]
    intro e he
    obtain ⟨announcement, -, he⟩ := mem_flatMap.mp he
    rcases mem_append.mp he with he | he
    · obtain ⟨owner, -, heq⟩ := mem_map.mp he
      cases heq
      rfl
    · cases mem_singleton.mp he
  obtain ⟨commands, houtbox, henvelopes, hkeys⟩ := deliverAll_erasures now request.tenantId
    (db.publishedFacts (db.serialItemIds request.id .outboxEvent) (db.removedIds request.id .export))
    (erasureRows_eq_nil_iff.mp htombstones)
  have hcommands : ∀ row ∈ commands, row.deduplicationKey.any (·.erases request.id) = true := by
    intro row hrow
    have hkey := mem_map_of_mem (f := OutboxEventRow.deduplicationKey) hrow
    rw [hkeys] at hkey
    obtain ⟨e, he, hkey⟩ := mem_map.mp hkey
    obtain ⟨owner, i, herases⟩ := key_erasureEmissions he
    rw [← hkey, herases]
    exact decide_eq_true rfl
  rw [← henvelopes, Database.erasureRows, hrows]
  congr 1
  refine (erasureRows_deliverAll fun e he => ?_).trans ?_
  · cases hrepairs _ he
    rfl
  · rw [Database.erasureRows, houtbox, filter_append, filter_eq_self.mpr hcommands]
    exact congrArg (· ++ commands) htombstones

end Database

/-- Whatever the service and its pump have done before, a row phase that commits leaves commands of
its request that name, for every owner, the sequences on the owner's dropped content-bearing facts,
each once and in ascending order. -/
theorem removeRows_erases (contracts : Contracts) (resendPolicy : TombstoneResend)
    (actions : List PumpAction) (now : Instant) (evidenceRef : BlobRef) (requestId : Uuid)
    {db' : Database} :
    let db := (Pump.run contracts resendPolicy actions).db
    db.removeRows contracts now evidenceRef requestId = .ok db' → db' = db ∨
      ∀ owner,
        let named := ((db'.erasureRows requestId).map (·.envelope)).filterMap (·.erasedFor owner)
        named.flatten.Pairwise (· < ·) ∧ (∀ sequences ∈ named, sequences.length ≤ 500) ∧
        ∀ sequence, sequence ∈ named.flatten ↔ ∃ row ∈ db.outboxEvents,
          Database.droppedFact (db.serialItemIds requestId .outboxEvent)
            (db.removedIds requestId .export) row = true ∧ contentBearing row.eventType = true ∧
          row.envelope.tenantId = some owner ∧ sequence ∈ row.publishedStreamSeqs := by
  intro db hok
  rcases Database.removeRows_cases hok with hsame | ⟨request, rfl, hphase⟩
  · exact .inl hsame
  · refine .inr fun owner => ?_
    rw [(run_ordered contracts resendPolicy actions).erasureRows hphase]
    exact Database.erasureEmissions_partition db _ _ owner

end ChatgptArchive
