import ChatgptArchive.Integrity.Planned
import ChatgptArchive.History

/-!
# Phase A of a deletion

Removing the rows of a new plan in a sound database: a constraint is violated exactly when some
message stays whose parent goes, and otherwise the database the phase leaves is sound. With it,
every database a history reaches is sound.
-/

namespace ChatgptArchive

open Database List Outcome

variable {db : Database} {tenantId requestId : Uuid} {scope : PrivacyDeletionScope}
  {exports : List ExportRow} {contracts : Contracts} {now : Instant} {evidenceRef : BlobRef}

namespace Database

def phaseRows (db : Database) (tenantId requestId : Uuid) (scope : PrivacyDeletionScope)
    (exports : List ExportRow) : Database :=
  let start := db.phaseStart tenantId requestId scope exports
  rowsRemoved (db.listed tenantId requestId scope exports)
    (start.serialItemIds requestId .inboxEvent) (start.serialItemIds requestId .outboxEvent)
    tenantId start

def phaseFacts (db : Database) (tenantId requestId : Uuid) (scope : PrivacyDeletionScope)
    (exports : List ExportRow) : PublishedFacts :=
  let start := db.phaseStart tenantId requestId scope exports
  let removed := db.listed tenantId requestId scope exports
  (afterDependents removed (start.serialItemIds requestId .inboxEvent) start).publishedFacts
    (start.serialItemIds requestId .outboxEvent) (removed .export)

/-- Every message that an export outside the list observes has a parent that one of them
observes. -/
def RetainsParents (db : Database) (exports : List Uuid) : Prop :=
  ∀ m ∈ db.messages, ∀ p ∈ m.parentMessageId,
    db.Retained exports .message m.id → db.Retained exports .message p

instance (exports : List Uuid) : Decidable (db.RetainsParents exports) :=
  inferInstanceAs (Decidable (∀ m ∈ db.messages, ∀ p ∈ m.parentMessageId, _ → _))

theorem plan_eq_planned (hselected : db.selectedExports tenantId scope = some exports)
    (hfresh : ∀ r ∈ db.privacyDeletionRequests, r.id ≠ requestId) :
    db.plan tenantId requestId scope = .ok (some (db.planned tenantId requestId scope exports)) := by
  have hnone : db.privacyDeletionRequests.find? (fun r => r.id = requestId) = none := by
    simpa using hfresh
  rw [plan, hselected]
  simp only [hnone]
  rfl

/-- A completed deletion: nothing for a known request, otherwise phase A of the new plan and its
completion. -/
theorem deleteScope_cases {db' : Database}
    (hok : db.deleteScope contracts now evidenceRef tenantId requestId scope = .ok db') :
    db' = db ∨ ∃ exports removed, db.selectedExports tenantId scope = some exports ∧
      (∀ r ∈ db.privacyDeletionRequests, r.id ≠ requestId) ∧
      (db.planned tenantId requestId scope exports).removeRows contracts now evidenceRef
        requestId = .ok removed ∧ db' = removed.complete requestId := by
  unfold deleteScope at hok
  split at hok
  · cases hok
    exact .inl rfl
  · rename_i hany
    have hfresh : ∀ r ∈ db.privacyDeletionRequests, r.id ≠ requestId := by simpa using hany
    obtain ⟨planned, hplan, hrest⟩ := bind_eq_ok.mp hok
    cases hselected : db.selectedExports tenantId scope with
    | none =>
      rw [plan, hselected] at hplan
      cases hplan
      cases hrest
    | some exports =>
      rw [plan_eq_planned hselected hfresh] at hplan
      cases hplan
      obtain ⟨removed, hremoved, hdone⟩ := bind_eq_ok.mp hrest
      cases hdone
      exact .inr ⟨exports, removed, rfl, hfresh, hremoved, rfl⟩

theorem complete_records (db : Database) (requestId : Uuid) :
    (db.complete requestId).records = db.records := by
  unfold complete
  split
  · rfl
  · split <;> rfl

theorem items_fresh (h : Sound db) (hfresh : ∀ r ∈ db.privacyDeletionRequests, r.id ≠ requestId) :
    ∀ i ∈ db.privacyDeletionItems, i.requestId ≠ requestId := by
  intro i hi heq
  obtain ⟨r, hr, hid⟩ := mem_map.mp (h.consistent.item_request hi)
  exact hfresh r hr (hid.trans heq)

theorem removeRows_planned (h : Sound db)
    (hfresh : ∀ r ∈ db.privacyDeletionRequests, r.id ≠ requestId) :
    (db.planned tenantId requestId scope exports).removeRows contracts now evidenceRef requestId =
      ((db.phaseStart tenantId requestId scope exports).deleteScopedRows requestId tenantId >>=
        fun (removed, dropped) => removed.finishRemoval contracts now evidenceRef requestId tenantId
          ((db.phaseStart tenantId requestId scope exports).findSurvivors requestId)
          ((db.phaseStart tenantId requestId scope exports).readAnnouncements tenantId requestId)
          dropped) := by
  have hfind : (db.planned tenantId requestId scope exports).privacyDeletionRequests.find?
      (fun r => r.id = requestId) = some
        { id := requestId, tenantId, scope, status := .planned, correlationId := none
          evidenceRef := none, rowsRemovedAt := none } := by
    have hnone : db.privacyDeletionRequests.find? (fun r => r.id = requestId) = none := by
      simpa using hfresh
    simp [planned, persistPlan, find?_append, hnone]
  have hstart : (db.phaseStart tenantId requestId scope exports).Consistent :=
    ((h.persistPlan tenantId requestId scope _).deleteRawRecords _).consistent
  unfold removeRows
  rw [hfind]
  simp only [ne_eq, not_true_eq_false, if_false]
  rw [show (deleteRawRecords _ (db.planned tenantId requestId scope exports)) =
    db.phaseStart tenantId requestId scope exports from rfl, checked_of_consistent hstart]
  rfl

section

variable (h : Sound db) (hselected : db.selectedExports tenantId scope = some exports)
  (hfresh : ∀ r ∈ db.privacyDeletionRequests, r.id ≠ requestId)
include h hfresh

/-- A message of the phase's start stays with its parent exactly when it does so by what the
exports observe. -/
theorem parentsStay_iff :
    ParentsStay (db.phaseStart tenantId requestId scope exports)
        (db.listed tenantId requestId scope exports .message) ↔
      db.RetainsParents (exports.map (·.id)) := by
  have hitems := items_fresh h hfresh
  refine forall₂_congr fun m hm => ?_
  have hkept : m.id ∉ db.listed tenantId requestId scope exports .message ↔
      db.Retained (exports.map (·.id)) .message m.id :=
    (not_congr (mem_removed_message_iff h hitems hm)).trans not_not
  constructor
  · intro hstays p hp hretained
    obtain ⟨parent, hparent, rfl⟩ := mem_map.mp (h.consistent.message_parent hm hp)
    by_contra hnot
    exact hstays (hkept.mpr hretained) _ hp ((mem_removed_message_iff h hitems hparent).mpr hnot)
  · intro hstays hm p hp hlisted
    obtain ⟨parent, hparent, rfl⟩ := mem_map.mp (h.consistent.message_parent ‹_› hp)
    exact (mem_removed_message_iff h hitems hparent).mp hlisted (hstays _ hp (hkept.mp hm))

omit hfresh in
theorem tenant_project_removed (hselected : db.selectedExports tenantId .tenant = some exports)
    {id : Uuid} (hid : id ∈ db.entityIds (exports.map (·.id)) tenantId .tenant .project) :
    ¬db.Retained (exports.map (·.id)) .project id := by
  rintro ⟨e, hout, o, ho, rfl, hk, rfl⟩
  obtain ⟨p, hp, hpid, hexport⟩ := h.observedProject o ho hk
  refine hout (tenant_selects hselected ?_)
  rcases mem_entityIds.mp hid with ⟨e, he, hobs⟩ | ⟨hscope, -⟩ | ⟨-, howned⟩
  · obtain ⟨r, hr, rfl⟩ := mem_map.mp he
    obtain ⟨hr, haccount⟩ := mem_selectedExports hselected hr
    have := h.hasExport_unique (observes_project_account h hp (hpid ▸ hobs)) ⟨r, hr, rfl, haccount⟩
    exact this ▸ hexport
  · cases hscope
  · obtain ⟨q, hq, hqid⟩ := mem_map.mp howned
    obtain ⟨hq, haccount⟩ := mem_filter.mp hq
    rw [h.project_eq_of_id hp hq (hpid.trans hqid.symm)] at hexport
    exact of_decide_eq_true haccount ▸ hexport

omit hfresh in
theorem tenant_conversation_removed
    (hselected : db.selectedExports tenantId .tenant = some exports) {id : Uuid}
    (hid : id ∈ db.entityIds (exports.map (·.id)) tenantId .tenant .conversation) :
    ¬db.Retained (exports.map (·.id)) .conversation id := by
  rintro ⟨e, hout, o, ho, rfl, hk, rfl⟩
  obtain ⟨c, hc, hcid, hexport⟩ := h.observedConversation o ho hk
  refine hout (tenant_selects hselected ?_)
  rcases mem_entityIds.mp hid with ⟨e, he, hobs⟩ | ⟨hscope, -⟩ | ⟨-, howned⟩
  · obtain ⟨r, hr, rfl⟩ := mem_map.mp he
    obtain ⟨hr, haccount⟩ := mem_selectedExports hselected hr
    have := h.hasExport_unique (h.observes_conversation_account hc (hcid ▸ hobs))
      ⟨r, hr, rfl, haccount⟩
    exact this ▸ hexport
  · cases hscope
  · obtain ⟨d, hd, hdid⟩ := mem_map.mp howned
    obtain ⟨hd, haccount⟩ := mem_filter.mp hd
    rw [h.conversation_eq_of_id hc hd (hcid.trans hdid.symm)] at hexport
    exact of_decide_eq_true haccount ▸ hexport

theorem findSurvivors_tenant (hselected : db.selectedExports tenantId .tenant = some exports) :
    (db.phaseStart tenantId requestId .tenant exports).findSurvivors requestId = ⟨[], []⟩ := by
  have hitems := items_fresh h hfresh
  have hprojects : (db.phaseStart tenantId requestId .tenant exports).itemIds requestId .project
      .retainEvidenced = [] := by
    refine eq_nil_iff_forall_not_mem.mpr fun id hid => ?_
    obtain ⟨hid, haction⟩ := (mem_items_project hitems).mp hid
    rw [entityAction_eq_remove.mpr (tenant_project_removed h hselected hid)] at haction
    cases haction
  have hconversations : (db.phaseStart tenantId requestId .tenant exports).itemIds requestId
      .conversation .retainEvidenced = [] := by
    refine eq_nil_iff_forall_not_mem.mpr fun id hid => ?_
    obtain ⟨hid, haction⟩ := (mem_items_conversation hitems).mp hid
    rw [entityAction_eq_remove.mpr (tenant_conversation_removed h hselected hid)] at haction
    cases haction
  simp only [findSurvivors, retainedUnderDeleted, hprojects, hconversations, filter_nil]

omit hfresh in
theorem phaseStart_sound (tenantId requestId : Uuid) (scope : PrivacyDeletionScope)
    (exports : List ExportRow) : Sound (db.phaseStart tenantId requestId scope exports) :=
  (h.persistPlan tenantId requestId scope _).deleteRawRecords _

/-- The delete of the messages violates a constraint when a message stays whose parent goes. -/
theorem removeRows_violated (hparents : ¬db.RetainsParents (exports.map (·.id))) :
    ∃ refs, (db.planned tenantId requestId scope exports).removeRows contracts now evidenceRef
      requestId = .error (.foreignKey refs) := by
  have hstay : ¬ParentsStay (db.phaseStart tenantId requestId scope exports)
      (db.listed tenantId requestId scope exports .message) :=
    mt (parentsStay_iff h hfresh).mp hparents
  obtain ⟨refs, herror⟩ :=
    dependentStatements_violated (phaseStart_sound h tenantId requestId scope exports).consistent
      hstay
  refine ⟨refs, ?_⟩
  rw [removeRows_planned h hfresh]
  refine bind_eq_error.mpr (.inl (bind_eq_error.mpr (.inl ?_)))
  exact herror

include hselected

theorem phaseRows_account :
    tenantId ∈ (db.phaseRows tenantId requestId scope exports).accounts.map (·.id) ∨
      (((db.phaseStart tenantId requestId scope exports).findSurvivors requestId).projects = [] ∧
        ((db.phaseStart tenantId requestId scope exports).findSurvivors requestId).conversations =
          []) := by
  by_cases hempty : (db.listed tenantId requestId scope exports .account).isEmpty = true
  · left
    have haccounts : (db.phaseRows tenantId requestId scope exports).accounts = db.accounts := by
      simp only [phaseRows, rowsRemoved]
      rw [if_pos hempty]
      rfl
    rw [haccounts]
    exact selectedExports_account hselected
  · right
    obtain ⟨id, hid⟩ := exists_mem_of_ne_nil _ (mt List.isEmpty_iff.mpr hempty)
    obtain ⟨rfl, -⟩ := (mem_removed_account (items_fresh h hfresh)).mp hid
    rw [findSurvivors_tenant h hfresh hselected]
    exact ⟨rfl, rfl⟩

variable (hparents : db.RetainsParents (exports.map (·.id)))
include hparents

theorem deleteScopedRows_planned :
    (db.phaseStart tenantId requestId scope exports).deleteScopedRows requestId tenantId =
        .ok (db.phaseRows tenantId requestId scope exports,
          db.phaseFacts tenantId requestId scope exports) ∧
      Sound (db.phaseRows tenantId requestId scope exports) := by
  have hitems := items_fresh h hfresh
  have hstart := phaseStart_sound h tenantId requestId scope exports
  have hcovers := planned_covers h hselected hitems
  obtain ⟨hrun, hdependents⟩ := dependentStatements_ok hstart.consistent hstart.noMessageRelations
    hcovers ((parentsStay_iff h hfresh).mpr hparents)
  obtain ⟨hrun', hexports, hconsistent⟩ := exportStatements_ok hstart.noMessageRelations
    hstart.noAssets hcovers hdependents
  refine ⟨?_, hstart.rowsRemoved (planned_decides h hitems) hexports hconsistent⟩
  refine bind_eq_ok.mpr ⟨_, hrun, bind_eq_ok.mpr ⟨_, hrun', rfl⟩⟩

theorem removeRows_removed :
    (db.planned tenantId requestId scope exports).removeRows contracts now evidenceRef requestId =
      (db.phaseRows tenantId requestId scope exports).finishRemoval contracts now evidenceRef
        requestId tenantId
        ((db.phaseStart tenantId requestId scope exports).findSurvivors requestId)
        ((db.phaseStart tenantId requestId scope exports).readAnnouncements tenantId requestId)
        (db.phaseFacts tenantId requestId scope exports) := by
  rw [removeRows_planned h hfresh, (deleteScopedRows_planned h hselected hfresh hparents).1]
  rfl

end

end Database

namespace Sound

theorem removeRows (h : Sound db) (hselected : db.selectedExports tenantId scope = some exports)
    (hfresh : ∀ r ∈ db.privacyDeletionRequests, r.id ≠ requestId) {db' : Database}
    (hok : (db.planned tenantId requestId scope exports).removeRows contracts now evidenceRef
      requestId = .ok db') : Sound db' := by
  by_cases hparents : db.RetainsParents (exports.map (·.id))
  · rw [removeRows_removed h hselected hfresh hparents] at hok
    exact (deleteScopedRows_planned h hselected hfresh hparents).2.finishRemoval
      (phaseRows_account h hselected hfresh) hok
  · obtain ⟨refs, herror⟩ := removeRows_violated h hfresh hparents
    rw [herror] at hok
    cases hok

theorem complete (h : Sound db) (requestId : Uuid) : Sound (db.complete requestId) := by
  unfold Database.complete
  split
  · exact h
  · rename_i request hrequest
    split
    · exact h
    · have hid : requestId ∈ db.privacyDeletionRequests.map (·.id) :=
        mem_map.mpr ⟨request, mem_of_find?_eq_some hrequest, by simpa using find?_some hrequest⟩
      have haudits : ({ db.freshUuid.2 with
          privacyDeletionAudits := db.privacyDeletionAudits ++ [{
            id := db.freshUuid.1, requestId, tenantId := request.tenantId
            evidenceRef := request.evidenceRef }] } : Database).Consistent := by
        refine h.freshUuid.consistent.setAudits fun x hx => ?_
        refine (mem_append.mp hx).imp_right fun hx => ?_
        rw [mem_singleton.mp hx]
        exact hid
      have hids : ∀ i ∈ db.privacyDeletionRequests.map (·.id),
          i ∈ (Table.updateWhere (fun r => r.id = requestId)
            (fun r => { r with status := .completed }) db.privacyDeletionRequests).map (·.id) := by
        intro i hi
        rw [Table.map_updateWhere]
        · exact hi
        · exact fun _ => rfl
      have hrequests := haudits.setRequests hids
      exact { h.freshUuid with
        consistent := hrequests.setItems fun _ hx => .inl (Table.mem_deleteWhere.mp hx).1 }

theorem deleteScope (h : Sound db) {db' : Database}
    (hok : db.deleteScope contracts now evidenceRef tenantId requestId scope = .ok db') :
    Sound db' := by
  rcases deleteScope_cases hok with rfl | ⟨exports, removed, hselected, hfresh, hremoved, rfl⟩
  · exact h
  · exact (h.removeRows hselected hfresh hremoved).complete requestId

theorem bindPlatformOperation (h : Sound db) {exportId operationId : Uuid} {db' : Database}
    (hok : db.bindPlatformOperation exportId operationId = .ok db') : Sound db' := by
  unfold Database.bindPlatformOperation at hok
  split at hok
  · cases hok
  · rename_i run hrun
    cases hok
    have hrun := mem_of_head? hrun
    rw [mem_insertionSort, mem_filter, decide_eq_true_eq] at hrun
    exact h.bindOperation _ (mem_map_of_mem hrun.1)
      (h.consistent.importRun_export hrun.1 hrun.2)

theorem hasExport_of_runInState {p : ImportState → Bool} {runId : Uuid} {run : ImportRunRow}
    {row : ExportRow} (hrun : db.runInState p runId = some (run, row)) :
    db.HasExport row.id row.accountId := by
  obtain ⟨r, -, hrow⟩ := Option.bind_eq_some_iff.mp hrun
  obtain ⟨e, he, heq⟩ := Option.map_eq_some_iff.mp hrow
  cases heq
  exact ⟨row, mem_of_find?_eq_some he, rfl, rfl⟩

theorem committed {ε : Type} (h : Sound db) {outcome : Except ε Database}
    (hok : ∀ db', outcome = .ok db' → Sound db') : Sound (committed db outcome) := by
  cases outcome with
  | ok db' => exact hok db' rfl
  | error e => exact h

theorem importPending (h : Sound db) {config : ImportConfig} {runId : Uuid}
    {parsed : ParsedConversations} {artifacts : List BlobRef} {db' : Database}
    (hok : db.importPending contracts config now runId parsed artifacts = .ok db') :
    Sound db' := by
  unfold Database.importPending at hok
  split at hok
  · cases hok
  · rename_i run row hrun
    exact h.persistInitialPlan (hasExport_of_runInState hrun) hok

theorem reparseArchive (h : Sound db) {config : ImportConfig} {archiveId : Uuid}
    {inputProjection : List (String × Option ContentDigest)} {registryFingerprint : List ParserId}
    {parsed : ParsedConversations}
    {artifacts : List BlobRef} {db' : Database}
    (hok : db.reparseArchive contracts config now tenantId archiveId inputProjection
      registryFingerprint parsed artifacts = .ok db') : Sound db' := by
  obtain ⟨plan, -, hcommit⟩ := bind_eq_ok.mp hok
  exact h.commitReparse hcommit

/-- A transaction that fails leaves the state it began in. -/
theorem step (h : Sound db) (contracts : Contracts) (config : ImportConfig) (event : Event) :
    Sound (db.step contracts config event) := by
  cases event with
  | createRun now accountRef mode mediaType => exact h.createRun now accountRef mode mediaType
  | recordHash runId sha256Hex byteLength =>
    refine h.committed fun db' hok => h.guardedRunUpdate ?_ ?_ hok
    · exact fun _ => rfl
    · exact fun _ hr _ => h.consistent.importRun_export hr
  | markRun now runId expected target =>
    refine h.committed fun db' hok => ?_
    unfold Database.markRun at hok
    split at hok
    · refine h.guardedRunUpdate ?_ ?_ hok
      · exact fun _ => rfl
      · exact fun _ hr _ => h.consistent.importRun_export hr
    · cases hok
  | publish now request => exact h.committed fun db' hok => h.publishExport hok
  | bindOperation exportId operationId =>
    exact h.committed fun db' hok => h.bindPlatformOperation hok
  | importRun now runId parsed artifacts => exact h.committed fun db' hok => h.importPending hok
  | failRun now runId =>
    rw [Database.step]
    split
    · exact h
    · rename_i run row hrun
      exact h.committed fun db' hok =>
        h.markPermanentFailure (hasExport_id (hasExport_of_runInState hrun)) hok
  | reportRun now runId =>
    rw [Database.step]
    split
    · exact h
    · rename_i run row hrun
      refine h.committed fun db' hok => ?_
      obtain ⟨summary, -, hreports⟩ := bind_eq_ok.mp hok
      exact enqueueReports _ _ _ _ _ h (hasExport_id (hasExport_of_runInState hrun)) hreports
  | reparse now tenantId archiveId inputProjection registryFingerprint parsed artifacts =>
    exact h.committed fun db' hok => h.reparseArchive hok
  | delete now evidenceRef tenantId requestId scope =>
    exact h.committed fun db' hok => h.deleteScope hok

theorem history (contracts : Contracts) (events : List (ImportConfig × Event)) :
    Sound (Database.history contracts events) :=
  Run.run_preserves (fun _ event h => h.step contracts event.1 event.2) empty

end Sound

/-- Every state that receipts, imports, reparses and deletions lead to satisfies every foreign key
of the schema and the primary and unique keys of the stored records. -/
theorem history_constraints (contracts : Contracts) (events : List (ImportConfig × Event)) :
    let db := history contracts events
    db.danglingReferences = [] ∧
      (db.exports.map (·.id)).Nodup ∧ (db.exports.map ExportRow.key).Nodup ∧
      (db.projects.map (·.id)).Nodup ∧ (db.projects.map ProjectRow.key).Nodup ∧
      (db.conversations.map (·.id)).Nodup ∧ (db.conversations.map ConversationRow.key).Nodup ∧
      (db.messages.map (·.id)).Nodup ∧ (db.messages.map MessageRow.key).Nodup ∧
      (db.observations.map ObservationRow.key).Nodup ∧
      (db.entityVersions.map EntityVersionRow.key).Nodup := by
  have h := Sound.history contracts events
  exact ⟨danglingReferences_eq_nil_iff.mpr h.consistent, h.exportIds, h.exportKeys, h.projectIds,
    h.projectKeys, h.conversationIds, h.conversationKeys, h.messageIds, h.messageKeys,
    h.observationKeys, h.versionKeys⟩

/-! ## When phase A is stuck on a constraint -/

/-- Phase A of a new plan in a state some history reaches violates a constraint exactly when a
message that an export outside the scope observes is stored under a parent that none of them
observes. A parent pointer is only ever overwritten, so it can outlive the presentation that
set it. -/
theorem removeRows_keeps_constraints_iff (contracts : Contracts)
    (events : List (ImportConfig × Event)) (now : Instant) (evidenceRef : BlobRef)
    (hselected : (history contracts events).selectedExports tenantId scope = some exports)
    (hfresh : ∀ r ∈ (history contracts events).privacyDeletionRequests,
      r.id ≠ requestId) :
    ∃ planned,
      (history contracts events).plan tenantId requestId scope = .ok (some planned) ∧
      ((∀ refs, planned.removeRows contracts now evidenceRef requestId ≠
        .error (.foreignKey refs)) ↔
        (history contracts events).RetainsParents (exports.map (·.id))) := by
  have h := Sound.history contracts events
  refine ⟨_, plan_eq_planned hselected hfresh, fun hcommits => ?_, fun hparents refs => ?_⟩
  · by_contra hparents
    obtain ⟨refs, herror⟩ := removeRows_violated h hfresh hparents
    exact hcommits refs herror
  · rw [removeRows_removed h hselected hfresh hparents]
    exact (deleteScopedRows_planned h hselected hfresh hparents).2.finishRemoval_error refs
      (phaseRows_account h hselected hfresh)

/-- Two exports of one conversation: the first presents an answer under its question, the second
the answer alone. -/
def answerAlone : List (ImportConfig × Event) :=
  Event.under ⟨[], 100⟩ (Event.receipt 1 0 "account" "first" ++
    [.importRun 1 0 (.ofRecords [] [.ofMessages "c"
      [.ofText "p" none "question", .ofText "m" (some "p") "answer"]]) []] ++
    Event.receipt 2 11 "account" "second" ++
    [.importRun 2 11 (.ofRecords [] [.ofMessages "c" [.ofText "m" none "answer"]]) []])

set_option maxRecDepth 100000 in
/-- Deleting the first export removes the question; the answer stays and still names it. -/
theorem removeRows_stale_parent :
    (match (history .permissive answerAlone).plan 1 99 (.archive 3) with
      | .ok (some planned) =>
        match planned.removeRows .permissive 3 ⟨"evidence", 1, "text/plain"⟩ 99 with
        | .error e => some e
        | .ok _ => none
      | _ => none) = some (.foreignKey [⟨.messages, 8, .messages, 6⟩]) := by
  decide +kernel

set_option maxRecDepth 100000 in
/-- Deleting the second export instead keeps every constraint. -/
theorem removeRows_keeps_constraints_second :
    ∃ planned, (history .permissive answerAlone).plan 1 99 (.archive 14) =
        .ok (some planned) ∧
      ∀ refs, planned.removeRows .permissive 3 ⟨"evidence", 1, "text/plain"⟩ 99 ≠
        .error (.foreignKey refs) := by
  have hselected : (history .permissive answerAlone).selectedExports 1 (.archive 14) =
      some ((history .permissive answerAlone).exports.drop 1) := by decide +kernel
  have hfresh : ∀ r ∈ (history .permissive answerAlone).privacyDeletionRequests,
      r.id ≠ 99 := by decide +kernel
  obtain ⟨planned, hplan, hiff⟩ := removeRows_keeps_constraints_iff .permissive answerAlone 3
    ⟨"evidence", 1, "text/plain"⟩ hselected hfresh
  exact ⟨planned, hplan, hiff.mpr (by decide +kernel)⟩

end ChatgptArchive
