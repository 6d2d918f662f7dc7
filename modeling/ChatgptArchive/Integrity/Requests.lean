import ChatgptArchive.Integrity.OutboxRows

/-!
# Requests, their inventories and the outbox

An outbox row under the key of a request belongs to a request whose row phase has committed. An
inventory lists only outbox rows that are no undelivered retraction.
-/

namespace ChatgptArchive

open List Table

namespace Database

variable {db db' : Database} {now : Instant} {tenantId requestId : Uuid} {evidenceRef : BlobRef}
  {request : PrivacyDeletionRequestRow} {e : Emission} {P : DeliveryStep → Prop} {id : Nat}

def Settled (db : Database) (requestId : Uuid) : Prop :=
  requestId ∈ db.privacyDeletionRequests.map (·.id) ∧
    ∀ r ∈ db.privacyDeletionRequests, r.id = requestId → r.status ≠ .planned

/-! ## What a row phase emits -/

theorem tombstoneEmission_wellFormed (now : Instant) (tenantId requestId : Uuid)
    (evidenceRef : BlobRef) (kind : SubjectKind) (subjectId : Uuid) (owner : TenantRef × Uuid) :
    (tombstoneEmission now tenantId requestId evidenceRef kind subjectId owner).WellFormed :=
  ⟨rfl, nofun, nofun, fun _ => rfl⟩

theorem erasureEmission_wellFormed (now : Instant) (requestRef : Uuid) (accountId : Option Uuid)
    (owner : TenantRef) (key : Nat → DeduplicationKey) (chunk : List Nat × Nat) :
    (erasureEmission now requestRef accountId owner key chunk).WellFormed :=
  ⟨rfl, nofun, nofun, fun _ => rfl⟩

/-- What a row phase retracts with: the tombstones of the announced owners, and the erasures of the
copies that were published. -/
theorem mem_retractions (h : .emit e ∈ db.retractions now evidenceRef request) :
    (∃ kind subjectId, (kind, subjectId) ∈ db.tombstoneSubjects request.id ∧
      ∃ owner ∈ db.ownersOf request.tenantId kind subjectId, e = tombstoneEmission now
        request.tenantId request.id evidenceRef kind subjectId owner) ∨
      ∃ owner chunk, e = erasureEmission now request.id (some request.tenantId) owner
        (.streamErasure request.id owner) chunk := by
  rcases mem_append.mp h with h | h
  · obtain ⟨announcement, hmem, h⟩ := mem_flatMap.mp h
    obtain ⟨⟨kind, subjectId⟩, hsubject, rfl⟩ := mem_map.mp hmem
    rcases mem_append.mp h with h | h
    · obtain ⟨owner, howner, heq⟩ := mem_map.mp h
      cases heq
      exact .inl ⟨kind, subjectId, hsubject, owner, howner, rfl⟩
    · cases mem_singleton.mp h
  · obtain ⟨user, -, h⟩ := mem_flatMap.mp h
    obtain ⟨chunk, -, heq⟩ := mem_map.mp h
    cases heq
    exact .inr ⟨⟨user⟩, chunk, rfl⟩

theorem retraction_wellFormed (h : .emit e ∈ db.retractions now evidenceRef request) :
    e.WellFormed ∧ e.key.request = some request.id := by
  rcases mem_retractions h with ⟨kind, subjectId, -, owner, -, rfl⟩ | ⟨owner, chunk, rfl⟩
  · exact ⟨tombstoneEmission_wellFormed .., rfl⟩
  · exact ⟨erasureEmission_wellFormed .., rfl⟩

theorem RepairStep.wellFormed {survivors : Survivors}
    (h : db.RepairStep now requestId tenantId survivors (.emit e)) :
    e.WellFormed ∧ e.key.request = some requestId := by
  cases h with
  | repair _ hannounces _ _ _ _ => exact ⟨emission_wellFormed hannounces _ _, rfl⟩

section

variable (h : db.RowPhase now evidenceRef request db')
include h

/-- The rows a row phase leaves: rows that were not dropped, and new ones under its own keys. -/
theorem RowPhase.mem {row : OutboxEventRow} (hrow : row ∈ db'.outboxEvents) :
    (row ∈ db.outboxEvents ∧ droppedFact (db.serialItemIds request.id .outboxEvent)
        (db.removedIds request.id .export) row = false) ∨
      ∃ (e : Emission) (id : Nat), e.WellFormed ∧ e.key.request = some request.id ∧
        row = e.row id ∧ db.nextOutboxId ≤ id := by
  obtain ⟨repairs, hrepairs, heq⟩ := h.delivers
  have hrows : db'.outboxEvents = _ := deliveries_frame heq fun _ => rfl
  rw [hrows] at hrow
  rcases mem_deliverAll _ hrow with hold | ⟨e, id, he, hrow, hle, -⟩
  · exact .inl (mem_deleteWhere.mp hold)
  · have hkey : e.WellFormed ∧ e.key.request = some request.id := by
      rcases mem_append.mp he with he | he
      · exact retraction_wellFormed he
      · exact (hrepairs _ he).wellFormed
    exact .inr ⟨e, id, hkey.1, hkey.2, hrow, hle⟩

theorem RowPhase.mem_of_mem {row : OutboxEventRow}
    (hrow : row ∈ db.outboxEvents) (hkept : droppedFact (db.serialItemIds request.id .outboxEvent)
      (db.removedIds request.id .export) row = false) : row ∈ db'.outboxEvents := by
  obtain ⟨repairs, -, heq⟩ := h.delivers
  have hrows : db'.outboxEvents = _ := deliveries_frame heq fun _ => rfl
  rw [hrows]
  exact mem_deliverAll_of_mem _ (mem_deleteWhere.mpr ⟨hrow, hkept⟩)

theorem RowPhase.next_le :
    db.nextOutboxId ≤ db'.nextOutboxId := by
  obtain ⟨repairs, -, heq⟩ := h.delivers
  have hnext : db'.nextOutboxId = _ := deliveries_frame heq fun _ => rfl
  rw [hnext]
  exact next_le_deliverAll _ (db.withoutDropped _ _ _ _)

end

/-! ## What an import emits -/

theorem ImportStep.key_request {origin : Option (Uuid × Instant)}
    (h : db.ImportStep origin (.emit e)) : e.key.request = none := by
  cases h <;> rfl

theorem Delivers.mem (h : Delivers P db db') {row : OutboxEventRow} (hrow : row ∈ db'.outboxEvents) :
    row ∈ db.outboxEvents ∨ ∃ e id, P (.emit e) ∧ row = e.row id ∧ db.nextOutboxId ≤ id := by
  obtain ⟨steps, hsteps, heq⟩ := h
  have hrows : db'.outboxEvents = _ := deliveries_frame heq fun _ => rfl
  rw [hrows] at hrow
  rcases mem_deliverAll _ hrow with hold | ⟨e, id, he, hrow, hle, -⟩
  · exact .inl hold
  · exact .inr ⟨e, id, hsteps _ he, hrow, hle⟩

theorem Delivers.mem_of_mem (h : Delivers P db db') {row : OutboxEventRow}
    (hrow : row ∈ db.outboxEvents) : row ∈ db'.outboxEvents := by
  obtain ⟨steps, -, heq⟩ := h
  have hrows : db'.outboxEvents = _ := deliveries_frame heq fun _ => rfl
  rw [hrows]
  exact mem_deliverAll_of_mem _ hrow

theorem Delivers.next_le (h : Delivers P db db') : db.nextOutboxId ≤ db'.nextOutboxId := by
  obtain ⟨steps, -, heq⟩ := h
  have hnext : db'.nextOutboxId = _ := deliveries_frame heq fun _ => rfl
  rw [hnext]
  exact next_le_deliverAll _ db

theorem Delivers.kept (h : Delivers P db db') (hP : ∀ e, P (.emit e) → e.WellFormed)
    (hkept : Kept db) : Kept db' := by
  obtain ⟨steps, hsteps, heq⟩ := h
  exact (hkept.deliverAll fun e he => hP e (hsteps _ he)).congr heq

theorem RowPhase.kept (h : db.RowPhase now evidenceRef request db') (hkept : Kept db) :
    Kept db' := by
  obtain ⟨repairs, hrepairs, heq⟩ := h.delivers
  refine ((hkept.withoutDropped _ _ _ _).deliverAll fun e he => ?_).congr heq
  rcases mem_append.mp he with he | he
  · exact (retraction_wellFormed he).1
  · exact (hrepairs _ he).wellFormed.1

/-! ## Inventories -/

theorem mem_serialItemIds {category : Category} :
    id ∈ db.serialItemIds requestId category ↔ ∃ i ∈ db.privacyDeletionItems,
      i.requestId = requestId ∧ i.category = category ∧ i.action = .remove ∧
        i.opaqueId = .serial id := by
  simp only [serialItemIds, mem_filterMap, mem_filter, Bool.and_eq_true, decide_eq_true_eq]
  constructor
  · rintro ⟨i, ⟨hi, ⟨hr, hc⟩, ha⟩, hid⟩
    refine ⟨i, hi, hr, hc, ha, ?_⟩
    split at hid
    · rename_i heq
      rw [heq, Option.some.inj hid]
    · cases hid
  · rintro ⟨i, hi, hr, hc, ha, hid⟩
    exact ⟨i, ⟨hi, ⟨hr, hc⟩, ha⟩, by rw [hid]⟩

theorem mem_otherItems {i : PrivacyDeletionItemRow} :
    i ∈ db.otherItems requestId ↔ i ∈ db.privacyDeletionItems ∧ i.requestId ≠ requestId := by
  simp [otherItems]

theorem serialItemIds_of_otherItems {other : Uuid} (hne : other ≠ requestId)
    (h : db'.otherItems requestId = db.otherItems requestId) {category : Category} {id : Nat}
    (hid : id ∈ db'.serialItemIds other category) : id ∈ db.serialItemIds other category := by
  obtain ⟨i, hi, hother, hrest⟩ := mem_serialItemIds.mp hid
  have hi : i ∈ db'.otherItems requestId := mem_otherItems.mpr ⟨hi, hother ▸ hne⟩
  rw [h] at hi
  exact mem_serialItemIds.mpr ⟨i, (mem_otherItems.mp hi).1, hother, hrest⟩

/-- A new plan lists the outbox rows of its tenant and scope that are no undelivered
retraction. -/
theorem mem_planned_outbox {scope : PrivacyDeletionScope} {exports : List ExportRow}
    (hfresh : ∀ i ∈ db.privacyDeletionItems, i.requestId ≠ requestId) :
    id ∈ (db.planned tenantId requestId scope exports).serialItemIds requestId .outboxEvent ↔
      ∃ e ∈ db.outboxEvents, e.id = id ∧ e.tenantId = some tenantId ∧
        (scope = .tenant ∨ e.exportId.any (exports.map (·.id)).contains = true) ∧
        undeliveredRetraction e = false := by
  rw [mem_serialItemIds, exists_planned_iff hfresh
    (P := fun c a opaqueId => c = .outboxEvent ∧ a = .remove ∧ opaqueId = .serial id)]
  constructor
  · rintro ⟨⟨c, opaqueId, a, b⟩, hmem, rfl, rfl, rfl⟩
    have hitem : ∃ e ∈ db.outboxEvents, e.tenantId = some tenantId ∧
        (scope = .tenant ∨ e.exportId.any (exports.map (·.id)).contains = true) ∧
        undeliveredRetraction e = false ∧ e.id = id ∧ none = b := by
      simpa [inventory, and_assoc] using hmem
    obtain ⟨e, he, htenant, hscope, hdelivered, hid, -⟩ := hitem
    exact ⟨e, he, hid, htenant, hscope, hdelivered⟩
  · rintro ⟨e, he, rfl, htenant, hscope, hdelivered⟩
    refine ⟨serialItem .outboxEvent e.id, ?_, rfl, rfl, rfl⟩
    refine mem_append_left _ (mem_append_right _ (mem_append_right _ ?_))
    refine mem_map.mpr ⟨e, mem_filter.mpr ⟨he, ?_⟩, rfl⟩
    simpa [htenant, hdelivered] using hscope

/-! ## Retractions that were delivered -/

theorem undeliveredRetraction_progress {f : OutboxEventRow → OutboxEventRow} (hf : DeliveryProgress f)
    {row : OutboxEventRow} (h : undeliveredRetraction row = false) :
    undeliveredRetraction (f row) = false := by
  have htype : (f row).eventType = row.eventType := by
    rw [OutboxEventRow.eventType, hf.envelope]
    rfl
  have hacknowledged := hf.acknowledged row
  have hpublished := hf.published row
  rw [← Option.not_isNone, ← Option.not_isNone] at hacknowledged hpublished
  simp only [undeliveredRetraction, htype] at h ⊢
  grind

theorem requestIds_updateWhere {f : PrivacyDeletionRequestRow → PrivacyDeletionRequestRow}
    (hf : ∀ r, (f r).id = r.id) (p : PrivacyDeletionRequestRow → Bool)
    (requests : List PrivacyDeletionRequestRow) :
    (Table.updateWhere p f requests).map (·.id) = requests.map (·.id) :=
  map_updateWhere hf requests

/-- What the row phases rest on: the keys of a request are taken by its row phase, and a planned
inventory lists no outbox row that is an undelivered retraction. -/
structure Ordered (db : Database) : Prop extends Kept db where
  requestIds : (db.privacyDeletionRequests.map (·.id)).Nodup
  itemRequests : ∀ i ∈ db.privacyDeletionItems,
    i.requestId ∈ db.privacyDeletionRequests.map (·.id)
  requested : ∀ row ∈ db.outboxEvents, ∀ key, row.deduplicationKey = some key →
    ∀ requestId, key.request = some requestId → db.Settled requestId
  listed : ∀ request ∈ db.privacyDeletionRequests, request.status = .planned →
    ∀ id ∈ db.serialItemIds request.id .outboxEvent, id < db.nextOutboxId ∧
      ∀ row ∈ db.outboxEvents, row.id = id → undeliveredRetraction row = false

namespace Ordered

theorem empty : Ordered Database.empty :=
  ⟨.empty, nodup_nil, fun _ h => absurd h not_mem_nil,
    fun _ h => absurd h not_mem_nil, fun _ h => absurd h not_mem_nil⟩

variable (h : Ordered db)
include h

/-- A step that leaves the deletions alone and adds rows of no request keeps the order. -/
theorem of_emitted (hkept : Kept db') (hdeletions : db'.deletions = db.deletions)
    (hnext : db.nextOutboxId ≤ db'.nextOutboxId)
    (hrows : ∀ row ∈ db'.outboxEvents, row ∈ db.outboxEvents ∨
      ∃ e id, row = Emission.row e id ∧ e.key.request = none ∧ db.nextOutboxId ≤ id) :
    Ordered db' := by
  have hrequests := requests_of_deletions hdeletions
  have hitems : db'.privacyDeletionItems = db.privacyDeletionItems := congrArg Prod.snd hdeletions
  refine ⟨hkept, hrequests ▸ h.requestIds, ?_, fun row hrow key hkey requestId hid => ?_,
    fun request hrequest hplanned id hid => ?_⟩
  · rw [hrequests, hitems]
    exact h.itemRequests
  · have hsettled : db.Settled requestId := by
      rcases hrows row hrow with hrow | ⟨e, id, rfl, hnone, -⟩
      · exact h.requested row hrow key hkey requestId hid
      · cases hkey
        rw [hnone] at hid
        cases hid
    rwa [Settled, hrequests]
  · rw [hrequests] at hrequest
    have hid : id ∈ db.serialItemIds request.id .outboxEvent := by
      rwa [serialItemIds, hitems] at hid
    obtain ⟨hlt, hlisted⟩ := h.listed request hrequest hplanned id hid
    refine ⟨hlt.trans_le hnext, fun row hrow heq => ?_⟩
    rcases hrows row hrow with hrow | ⟨e, n, rfl, -, hle⟩
    · exact hlisted row hrow heq
    · obtain rfl : n = id := heq
      exact absurd hlt (Nat.not_lt.mpr hle)

theorem progress {id : Nat} (hprogress : db.Progresses id db') : Ordered db' := by
  have heq := hprogress.eq
  have hrequests : db'.privacyDeletionRequests = db.privacyDeletionRequests := by rw [heq]
  have hitems : db'.privacyDeletionItems = db.privacyDeletionItems := by rw [heq]
  have hnext : db'.nextOutboxId = db.nextOutboxId := by rw [heq]
  refine ⟨h.toKept.progress hprogress, hrequests ▸ h.requestIds, ?_,
    fun row hrow key hkey requestId hid => ?_, fun request hrequest hplanned id hid => ?_⟩
  · rw [hrequests, hitems]
    exact h.itemRequests
  · rw [Settled, hrequests]
    obtain ⟨old, hold, rfl | ⟨f, hf, rfl⟩⟩ := hprogress.mem hrow
    · exact h.requested _ hold key hkey requestId hid
    · exact h.requested old hold key (hf.deduplicationKey old ▸ hkey) requestId hid
  · rw [hrequests] at hrequest
    rw [serialItemIds, hitems] at hid
    obtain ⟨hlt, hlisted⟩ := h.listed request hrequest hplanned id hid
    refine ⟨hnext ▸ hlt, fun row hrow heq => ?_⟩
    obtain ⟨old, hold, rfl | ⟨f, hf, rfl⟩⟩ := hprogress.mem hrow
    · exact hlisted _ hold heq
    · exact undeliveredRetraction_progress hf (hlisted old hold (hf.id old ▸ heq))

theorem plan {tenantId requestId : Uuid} {scope : PrivacyDeletionScope}
    {exports : List ExportRow} (hnew : ∀ r ∈ db.privacyDeletionRequests, r.id ≠ requestId) :
    Ordered (db.planned tenantId requestId scope exports) := by
  have hfresh : ∀ i ∈ db.privacyDeletionItems, i.requestId ≠ requestId := by
    intro i hi heq
    obtain ⟨r, hr, hid⟩ := mem_map.mp (h.itemRequests i hi)
    exact hnew r hr (hid.trans heq)
  have hids : (db.planned tenantId requestId scope exports).privacyDeletionRequests.map (·.id) =
      db.privacyDeletionRequests.map (·.id) ++ [requestId] := map_append
  refine ⟨⟨h.ids, h.fresh, h.rows⟩, ?_, fun i hi => ?_, fun row hrow key hkey id hid => ?_,
    fun request hrequest hplanned id hid => ?_⟩
  · rw [hids]
    refine h.requestIds.append (nodup_singleton _) (disjoint_singleton.mpr fun hmem => ?_)
    obtain ⟨r, hr, heq⟩ := mem_map.mp hmem
    exact hnew r hr heq
  · rw [hids]
    rcases mem_append.mp hi with hi | hi
    · exact mem_append_left _ (h.itemRequests i hi)
    · obtain ⟨item, -, rfl⟩ := mem_map.mp hi
      exact mem_append_right _ (mem_singleton_self _)
  · obtain ⟨hmem, hstatus⟩ := h.requested row hrow key hkey id hid
    refine ⟨hids ▸ mem_append_left _ hmem, fun r hr heq => ?_⟩
    rcases mem_inserted.mp hr with hr | rfl
    · exact hstatus r hr heq
    · obtain ⟨r, hr, hid⟩ := mem_map.mp hmem
      exact absurd (hid.trans heq.symm) (hnew r hr)
  · rcases mem_inserted.mp hrequest with hrequest | rfl
    · refine h.listed request hrequest hplanned id ?_
      obtain ⟨i, hi, hrest⟩ := mem_serialItemIds.mp hid
      rcases mem_append.mp hi with hi | hi
      · exact mem_serialItemIds.mpr ⟨i, hi, hrest⟩
      · obtain ⟨item, -, rfl⟩ := mem_map.mp hi
        exact absurd hrest.1.symm (hnew request hrequest)
    · obtain ⟨e, he, rfl, -, -, hdelivered⟩ := (mem_planned_outbox hfresh).mp hid
      refine ⟨h.fresh e he, fun row hrow heq => ?_⟩
      rwa [h.eq_of_id hrow he heq]

omit h in
theorem mem_requests {now : Instant} {evidenceRef : BlobRef} {request r : PrivacyDeletionRequestRow}
    (hphase : db.RowPhase now evidenceRef request db') (hr : r ∈ db'.privacyDeletionRequests) :
    (r ∈ db.privacyDeletionRequests ∧ r.id ≠ request.id) ∨
      (r.id = request.id ∧ r.status = .purging) := by
  rw [hphase.requests] at hr
  rcases mem_updateWhere.mp hr with ⟨hr, hne⟩ | ⟨old, -, heq, rfl⟩
  · exact .inl ⟨hr, by simpa using hne⟩
  · exact .inr ⟨by simpa using heq, rfl⟩

/-- The keys that a row phase takes are those of the request it settles. -/
theorem removeRows {now : Instant} {evidenceRef : BlobRef}
    {request : PrivacyDeletionRequestRow} (hphase : db.RowPhase now evidenceRef request db') :
    Ordered db' := by
  have hids : db'.privacyDeletionRequests.map (·.id) = db.privacyDeletionRequests.map (·.id) := by
    rw [hphase.requests, markPurging]
    exact requestIds_updateWhere (by exact fun _ => rfl) _ _
  have hrequests := fun r hr => mem_requests (r := r) hphase hr
  have hrequest : request.id ∈ db.privacyDeletionRequests.map (·.id) :=
    mem_map_of_mem (mem_of_find?_eq_some hphase.planned.1)
  refine ⟨hphase.kept h.toKept, hids ▸ h.requestIds, fun i hi => ?_,
    fun row hrow key hkey id hid => ?_, fun r hr hplanned id hid => ?_⟩
  · rw [hids]
    by_cases heq : i.requestId = request.id
    · exact heq ▸ hrequest
    · have hi := mem_otherItems.mpr ⟨hi, heq⟩
      rw [hphase.items] at hi
      exact h.itemRequests i (mem_otherItems.mp hi).1
  · by_cases heq : id = request.id
    · refine ⟨hids ▸ heq ▸ hrequest, fun r hr hrid => ?_⟩
      rcases hrequests r hr with ⟨-, hne⟩ | ⟨-, hpurging⟩
      · exact absurd (hrid.trans heq) hne
      · rw [hpurging]
        decide
    · rcases hphase.mem hrow with ⟨hold, -⟩ | ⟨e, n, -, hown, rfl, -⟩
      · obtain ⟨hmem, hstatus⟩ := h.requested row hold key hkey id hid
        refine ⟨hids ▸ hmem, fun r hr hrid => ?_⟩
        rcases hrequests r hr with ⟨hr, -⟩ | ⟨hid', -⟩
        · exact hstatus r hr hrid
        · exact absurd (hrid.symm.trans hid') heq
      · cases hkey
        exact absurd (Option.some.inj (hid.symm.trans hown)) heq
  · rcases hrequests r hr with ⟨hr, hne⟩ | ⟨-, hpurging⟩
    · obtain ⟨hlt, hlisted⟩ := h.listed r hr hplanned id
        (serialItemIds_of_otherItems hne hphase.items hid)
      refine ⟨hlt.trans_le hphase.next_le, fun row hrow hrowid => ?_⟩
      rcases hphase.mem hrow with ⟨hold, -⟩ | ⟨e, n, -, -, rfl, hle⟩
      · exact hlisted row hold hrowid
      · obtain rfl : n = id := hrowid
        exact absurd hlt (Nat.not_lt.mpr hle)
    · rw [hpurging] at hplanned
      cases hplanned

theorem complete (requestId : Uuid) : Ordered (db.complete requestId) := by
  unfold Database.complete
  split
  · exact h
  · rename_i request hfind
    split
    · exact h
    · have hids := requestIds_updateWhere (f := fun r => { r with status := .completed })
        (fun _ => rfl) (fun r => r.id = requestId) db.privacyDeletionRequests
      refine ⟨⟨h.ids, h.fresh, h.rows⟩, hids.symm ▸ h.requestIds, fun i hi => ?_,
        fun row hrow key hkey id hid => ?_, fun r hr hplanned id hid => ?_⟩
      · exact hids.symm ▸ h.itemRequests i (mem_deleteWhere.mp hi).1
      · obtain ⟨hmem, hstatus⟩ := h.requested row hrow key hkey id hid
        refine ⟨hids.symm ▸ hmem, fun r hr hrid => ?_⟩
        · rcases mem_updateWhere.mp hr with ⟨hr, -⟩ | ⟨old, -, -, rfl⟩
          · exact hstatus r hr hrid
          · nofun
      · rcases mem_updateWhere.mp hr with ⟨hr, -⟩ | ⟨old, -, -, rfl⟩
        · refine h.listed r hr hplanned id ?_
          obtain ⟨i, hi, hrest⟩ := mem_serialItemIds.mp hid
          exact mem_serialItemIds.mpr ⟨i, (mem_deleteWhere.mp hi).1, hrest⟩
        · cases hplanned

theorem commits (hcommits : db.Commits db') : Ordered db' := by
  cases hcommits with
  | same => exact h
  | work hdelivers hdeletions _ =>
    have hkept := hdelivers.kept (fun _ he => he.wellFormed) h.toKept
    refine h.of_emitted hkept hdeletions hdelivers.next_le fun row hrow => ?_
    rcases hdelivers.mem hrow with hrow | ⟨e, id, he, rfl, hle⟩
    · exact .inl hrow
    · exact .inr ⟨e, id, rfl, he.key_request, hle⟩
  | plan hexports hnew => exact h.plan hnew
  | removeRows hphase => exact h.removeRows hphase
  | complete hpurging => exact h.complete _

end Ordered

/-! ## The requests after a transaction -/

def SameItems (db db' : Database) (requestId : Uuid) : Prop :=
  ∀ i, i.requestId = requestId → (i ∈ db'.privacyDeletionItems ↔ i ∈ db.privacyDeletionItems)

theorem complete_cases (db : Database) (requestId : Uuid) :
    db.complete requestId = db ∨
      ((db.complete requestId).privacyDeletionRequests =
          Table.updateWhere (fun r => r.id = requestId) (fun r => { r with status := .completed })
            db.privacyDeletionRequests ∧
        (db.complete requestId).privacyDeletionItems =
          Table.deleteWhere (fun i => i.requestId = requestId) db.privacyDeletionItems) := by
  unfold complete
  split
  · exact .inl rfl
  · split
    · exact .inl rfl
    · exact .inr ⟨rfl, rfl⟩

/-- A request that waits for its row phase waited before, with the same inventory, or its plan has
just been made. -/
theorem Commits.planned_before (h : db.Commits db') {r : PrivacyDeletionRequestRow}
    (hr : r ∈ db'.privacyDeletionRequests) (hplanned : r.status = .planned) :
    (r ∈ db.privacyDeletionRequests ∧ SameItems db db' r.id) ∨
      ∃ scope exports, db.selectedExports r.tenantId scope = some exports ∧
        (∀ q ∈ db.privacyDeletionRequests, q.id ≠ r.id) ∧
        db' = db.planned r.tenantId r.id scope exports := by
  cases h with
  | same => exact .inl ⟨hr, fun _ _ => .rfl⟩
  | work _ hdeletions _ =>
    have hrequests := requests_of_deletions hdeletions
    have hitems : db'.privacyDeletionItems = db.privacyDeletionItems := congrArg Prod.snd hdeletions
    exact .inl ⟨hrequests ▸ hr, fun i _ => by rw [hitems]⟩
  | @plan tenantId requestId scope exports hexports hnew =>
    rcases mem_inserted.mp hr with hr | rfl
    · refine .inl ⟨hr, fun i hi => ⟨fun hmem => ?_, mem_append_left _⟩⟩
      rcases mem_append.mp hmem with hmem | hmem
      · exact hmem
      · obtain ⟨item, -, rfl⟩ := mem_map.mp hmem
        exact absurd hi.symm (hnew r hr)
    · exact .inr ⟨scope, exports, hexports, hnew, rfl⟩
  | @removeRows now evidenceRef request db' hphase =>
    rcases Ordered.mem_requests hphase hr with ⟨hr, hne⟩ | ⟨-, hpurging⟩
    · refine .inl ⟨hr, fun i hi => ?_⟩
      have hother : i.requestId ≠ request.id := hi ▸ hne
      have hitems : i ∈ db'.otherItems request.id ↔ i ∈ db.otherItems request.id := by
        rw [hphase.items]
      rw [mem_otherItems, mem_otherItems] at hitems
      simpa [hother] using hitems
    · rw [hpurging] at hplanned
      cases hplanned
  | @complete requestId hpurging =>
    rcases db.complete_cases requestId with heq | ⟨hrequests, hitems⟩
    · exact .inl ⟨heq ▸ hr, fun _ _ => by rw [heq]⟩
    · rw [hrequests] at hr
      rcases mem_updateWhere.mp hr with ⟨hr, hne⟩ | ⟨old, -, -, rfl⟩
      · have hne : r.id ≠ requestId := by simpa using hne
        refine .inl ⟨hr, fun i hi => ?_⟩
        rw [hitems, mem_deleteWhere]
        simp [hi, hne]
      · cases hplanned

/-! ## The rows after a transaction -/

theorem complete_deliveries (db : Database) (requestId : Uuid) :
    (db.complete requestId).deliveries = db.deliveries := by
  unfold complete
  split
  · rfl
  · split <;> rfl

theorem complete_outboxEvents (db : Database) (requestId : Uuid) :
    (db.complete requestId).outboxEvents = db.outboxEvents :=
  deliveries_frame (db.complete_deliveries requestId) fun _ => rfl

/-- The rows a transaction adds have new identities, and none is a command of the pump. -/
theorem Commits.mem (h : db.Commits db') {row : OutboxEventRow} (hrow : row ∈ db'.outboxEvents) :
    row ∈ db.outboxEvents ∨ (db.nextOutboxId ≤ row.id ∧
      ∀ eventId chunk, row.deduplicationKey ≠ some (.reconcileErasure eventId chunk)) := by
  cases h with
  | same => exact .inl hrow
  | work hdelivers hdeletions _ =>
    rcases hdelivers.mem hrow with hrow | ⟨e, id, he, rfl, hle⟩
    · exact .inl hrow
    · refine .inr ⟨hle, fun eventId chunk hkey => ?_⟩
      cases he <;> cases hkey
  | plan hexports hnew => exact .inl hrow
  | removeRows hphase =>
    rcases hphase.mem hrow with ⟨hrow, -⟩ | ⟨e, id, -, hrequest, rfl, hle⟩
    · exact .inl hrow
    · refine .inr ⟨hle, fun eventId chunk hkey => ?_⟩
      rw [Option.some.inj hkey] at hrequest
      cases hrequest
  | @complete requestId hpurging =>
    exact .inl (complete_outboxEvents db requestId ▸ hrow)

theorem Commits.next_le (h : db.Commits db') : db.nextOutboxId ≤ db'.nextOutboxId := by
  cases h with
  | same => exact le_refl _
  | work hdelivers hdeletions _ => exact hdelivers.next_le
  | plan hexports hnew => exact le_refl _
  | removeRows hphase => exact hphase.next_le
  | @complete requestId hpurging =>
    exact (deliveries_frame (db.complete_deliveries requestId) fun _ => rfl :
      (db.complete requestId).nextOutboxId = _).ge

/-- Only a row phase drops rows: those its inventory lists, and those bound to its exports. -/
theorem Commits.dropped (h : db.Commits db') {row : OutboxEventRow}
    (hrow : row ∈ db.outboxEvents) : row ∈ db'.outboxEvents ∨
      ∃ now evidenceRef request, db.RowPhase now evidenceRef request db' ∧
        droppedFact (db.serialItemIds request.id .outboxEvent)
          (db.removedIds request.id .export) row = true := by
  cases h with
  | same => exact .inl hrow
  | work hdelivers hdeletions _ => exact .inl (hdelivers.mem_of_mem hrow)
  | plan hexports hnew => exact .inl hrow
  | @removeRows now evidenceRef request _ hphase =>
    cases hdropped : droppedFact (db.serialItemIds request.id .outboxEvent)
        (db.removedIds request.id .export) row with
    | true => exact .inr ⟨now, evidenceRef, request, hphase, hdropped⟩
    | false => exact .inl (hphase.mem_of_mem hrow hdropped)
  | @complete requestId hpurging =>
    exact .inl (complete_outboxEvents db requestId ▸ hrow)

theorem Ordered.undelivered_kept (h : Ordered db) (hcommits : db.Commits db')
    {row : OutboxEventRow} (hrow : row ∈ db.outboxEvents)
    (hundelivered : undeliveredRetraction row = true) : row ∈ db'.outboxEvents := by
  rcases hcommits.dropped hrow with hrow | ⟨now, evidenceRef, request, hphase, hdropped⟩
  · exact hrow
  · exfalso
    have htype : row.eventType = .subjectTombstoned ∨ row.eventType = .streamErasureRequested := by
      simp only [undeliveredRetraction, Bool.or_eq_true, Bool.and_eq_true,
        decide_eq_true_eq] at hundelivered
      exact hundelivered.imp And.left And.left
    simp only [droppedFact, Bool.or_eq_true, contains_iff_mem] at hdropped
    rcases hdropped with hlisted | hexport
    · have hrequest := mem_of_find?_eq_some hphase.planned.1
      have hdelivered := (h.listed request hrequest hphase.planned.2 row.id hlisted).2 row hrow rfl
      rw [hdelivered] at hundelivered
      cases hundelivered
    · rw [(h.rows row hrow).retraction htype] at hexport
      cases hexport

end Database

end ChatgptArchive
