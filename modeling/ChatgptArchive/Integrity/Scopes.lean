import ChatgptArchive.Integrity.Requests
import ChatgptArchive.Integrity.Restoration

/-!
# The scope of a request

Whatever commits between a plan and its row phase, the inventory of a planned request lists rows of
its own tenant, and a tombstone for every project, conversation and archive it removes.
-/

namespace ChatgptArchive

open Database List Table

namespace Owned

variable {g : Registry} {db db' : Database}

/-! ## The removal of rows -/

section

variable (h : Owned g db)
include h

theorem afterDependents (removed : Category → List Uuid) (inbox : List Nat) :
    Owned g (afterDependents removed inbox db) := by
  have hconversations := h.conversations.deleteWhere
    fun r => (removed .conversation).contains r.id
  refine { h with
    importRuns := h.importRuns.deleteWhere _
    projects := h.projects.deleteWhere _
    conversations := hconversations.updateWhere fun c _ _ tie htie => .inl ?_
    messages := h.messages.deleteWhere _
    contentParts := h.contentParts.deleteWhere _
    revisions := h.revisions.deleteWhere _
    extractedArtifacts := h.extractedArtifacts.deleteWhere _
    projectIds := nodup_map_deleteWhere h.projectIds
    conversationIds := ?_
    importRunIds := nodup_map_deleteWhere h.importRunIds
    received := fun r hr => h.received r (mem_deleteWhere.mp hr).1
    noAssets := ?_
    noInbox := ?_ }
  · rcases mem_cons.mp htie with rfl | htie
    · exact mem_cons_self
    rcases mem_cons.mp htie with rfl | htie
    · exact mem_cons_of_mem _ mem_cons_self
    exact mem_cons_of_mem _ (mem_cons_of_mem _ (mem_append_right _ htie))
  · refine nodup_map_updateWhere (nodup_map_deleteWhere h.conversationIds) ?_
    exact fun _ => rfl
  · simp [Database.afterDependents, beforeMessages, h.noAssets, Table.deleteWhere]
  · simp [Database.afterDependents, h.noInbox, Table.deleteWhere]

theorem retainedObserver {exports : List Uuid} {kind : EntityKind} {id e : Uuid}
    (he : e ∈ db.retainedObservers exports kind id) : (Tie.same id e).Holds g db.nextUuid :=
  (h.observed (mem_retainedObservers.mp he).1).1

theorem beforeExports (exports : List Uuid) (outbox : List Nat) :
    Owned g (beforeExports exports outbox db) := by
  have hseen : ∀ {kind : EntityKind} {id : Uuid} {target : Option Uuid},
      (∀ e, target = some e → e ∈ db.retainedObservers exports kind id) →
      ∀ tie ∈ sameAs id target, tie.Holds g db.nextUuid := by
    intro kind id target htarget tie htie
    cases target with
    | none => cases htie
    | some e => exact sameAs_some (h.retainedObserver (htarget e rfl)) htie
  refine { h with
    projects := h.projects.updateWhere fun p _ _ tie htie => ?_
    conversations := h.conversations.updateWhere fun c _ _ tie htie => ?_
    observations := h.observations.deleteWhere _
    projectIds := ?_
    conversationIds := ?_
    noAssets := ?_ }
  · refine Tie.mem_of_rest htie fun htie => ?_
    rcases mem_append.mp htie with htie | htie
    · exact .inr (hseen (fun _ he => mem_of_mem_head? he) tie htie)
    · exact .inr (hseen (fun _ he => mem_of_mem_getLast? he) tie htie)
  · refine Tie.mem_of_rest htie fun htie => ?_
    rcases mem_append.mp htie with htie | htie
    · exact .inl (mem_cons_of_mem _ (mem_cons_of_mem _ (mem_append_left _ htie)))
    rcases mem_append.mp htie with htie | htie
    · exact .inr (hseen (fun _ he => mem_of_mem_head? he) tie htie)
    · exact .inr (hseen (fun _ he => mem_of_mem_getLast? he) tie htie)
  · refine nodup_map_updateWhere h.projectIds ?_
    exact fun _ => rfl
  · refine nodup_map_updateWhere h.conversationIds ?_
    exact fun _ => rfl
  · simp [Database.beforeExports, repointAssets, h.noAssets, Table.updateWhere]

theorem deleteExports (exports : List Uuid) :
    Owned g (deleteExports exports db) :=
  { h with
    exports := h.exports.deleteWhere _
    observations := h.observations.deleteWhere _
    extractedArtifacts := h.extractedArtifacts.deleteWhere _
    exportIds := nodup_map_deleteWhere h.exportIds
    noInbox := by simp [Database.deleteExports, h.noInbox, Table.deleteWhere] }

theorem cleared (request : PrivacyDeletionRequestRow) :
    Owned g (db.cleared request) := by
  have hstart : Owned g (db.deleteRawRecords (db.removedIds request.id .rawRecord)) := h.congr rfl
  have hexports := ((hstart.afterDependents (db.removedIds request.id)
    (db.serialItemIds request.id .inboxEvent)).beforeExports (db.removedIds request.id .export)
    (db.serialItemIds request.id .outboxEvent)).deleteExports (db.removedIds request.id .export)
  unfold Database.cleared rowsRemoved
  dsimp only
  split
  · exact hexports
  · exact hexports.congr rfl

omit h in
theorem cleared_nextUuid (db : Database) (request : PrivacyDeletionRequestRow) :
    (db.cleared request).nextUuid = db.nextUuid := by
  unfold Database.cleared rowsRemoved
  dsimp only
  split <;> rfl

/-! ## Transactions -/

theorem rowPhase {now : Instant} {evidenceRef : BlobRef}
    {request : PrivacyDeletionRequestRow} (hphase : db.RowPhase now evidenceRef request db') :
    OwnedAfter g db db' := by
  obtain ⟨restored, -, hrestored, -, hcore⟩ := hphase.rows
  have hcleared := h.cleared request
  obtain ⟨g', hextends, howned⟩ :=
    hcleared.restores (restoreRetainedVersions_restores hcleared hrestored)
  have hheld : db'.held = restored.held := core_frame hcore fun _ => rfl
  have hnext : db'.nextUuid = restored.nextUuid := core_frame hcore fun _ => rfl
  rw [cleared_nextUuid] at hextends
  exact ⟨g', hnext ▸ hextends, howned.congr hheld⟩

theorem complete (requestId : Uuid) : OwnedAfter g db (db.complete requestId) := by
  unfold Database.complete
  split
  · exact .same h rfl
  · split
    · exact .same h rfl
    · exact h.skip rfl

theorem commits (hcommits : db.Commits db') : OwnedAfter g db db' := by
  cases hcommits with
  | same => exact .same h rfl
  | work _ _ hrecords => exact h.records hrecords
  | plan _ _ => exact .same (h.congr rfl) rfl
  | removeRows hphase => exact h.rowPhase hphase
  | complete _ => exact h.complete _

end

/-! ## What a plan selects -/

section Plan

variable {tenantId requestId : Uuid} {scope : PrivacyDeletionScope} {exports : List ExportRow}

theorem selected (h : Owned g db) (hselected : db.selectedExports tenantId scope = some exports)
    {e : Uuid} (he : e ∈ exports.map (·.id)) : (Tie.owned e tenantId).Holds g db.nextUuid := by
  obtain ⟨row, hrow, rfl⟩ := mem_map.mp he
  obtain ⟨hrow, haccount⟩ := mem_selectedExports hselected hrow
  exact haccount ▸ h.ofExport hrow

theorem ownsProject_of_mem {p : ProjectRow} (hp : p ∈ db.projects) :
    db.OwnsProject p.accountId p.id := mem_map_of_mem hp

theorem ownsConversation_of_mem {c : ConversationRow} (hc : c ∈ db.conversations) :
    db.OwnsConversation c.accountId c.id := mem_map_of_mem hc

/-- The records of a scope are the tenant's, and each is of the kind it is selected as. -/
theorem entityIds (h : Owned g db) (hselected : db.selectedExports tenantId scope = some exports)
    {kind : EntityKind} {id : Uuid}
    (hid : id ∈ db.entityIds (exports.map (·.id)) tenantId scope kind) :
    (Tie.owned id tenantId).Holds g db.nextUuid ∧ (Tie.isKind id kind).Holds g db.nextUuid := by
  rcases mem_entityIds.mp hid with ⟨e, he, ho⟩ | ⟨rfl, rfl⟩ | ⟨rfl, howned⟩
  · obtain ⟨hsame, hkind⟩ := h.observed ho
    exact ⟨⟨hsame.1, hsame.2.2.trans (h.selected hselected he).2⟩, hkind⟩
  · obtain ⟨c, hc, rfl, rfl⟩ := selectedExports_conversation hselected
    exact h.conversation (ownsConversation_of_mem hc)
  · cases kind with
    | project =>
      obtain ⟨p, hp, rfl⟩ := mem_map.mp howned
      obtain ⟨hrow, haccount⟩ := mem_filter.mp hp
      obtain rfl := of_decide_eq_true haccount
      exact h.project (ownsProject_of_mem hrow)
    | conversation =>
      obtain ⟨c, hc, rfl⟩ := mem_map.mp howned
      obtain ⟨hrow, haccount⟩ := mem_filter.mp hc
      obtain rfl := of_decide_eq_true haccount
      exact h.conversation (ownsConversation_of_mem hrow)
    | message =>
      obtain ⟨m, hm, rfl⟩ := mem_map.mp howned
      obtain ⟨hrow, hany⟩ := mem_filter.mp hm
      obtain ⟨c, hc, hmatch⟩ := any_eq_true.mp hany
      simp only [Bool.and_eq_true, decide_eq_true_eq] at hmatch
      obtain ⟨hconversation, rfl⟩ := hmatch
      refine h.message ⟨m.conversationId, mem_map_of_mem hrow, ?_⟩
      exact hconversation ▸ ownsConversation_of_mem hc
    | asset => simp [ownedIds, h.noAssets] at howned

theorem messageIds (h : Owned g db) (hselected : db.selectedExports tenantId scope = some exports)
    {id : Uuid} (hid : id ∈ db.messageIds (exports.map (·.id)) tenantId scope) :
    (Tie.owned id tenantId).Holds g db.nextUuid ∧ (Tie.isKind id .message).Holds g db.nextUuid := by
  rcases mem_messageIds.mp hid with hid | ⟨m, hm, hconversation, rfl⟩
  · exact h.entityIds hselected hid
  · have hties := h.messages m hm
    have hsame := hties _ mem_cons_self
    exact ⟨⟨hsame.1, hsame.2.2.trans (h.entityIds hselected hconversation).1.2⟩,
      hties _ (mem_cons_of_mem _ mem_cons_self)⟩

theorem lookup_decided (ids : List Uuid) (f : Uuid → DeletionAction) (id : Uuid) :
    (ids.map fun i => (i, f i)).lookup id = if id ∈ ids then some (f id) else none := by
  induction ids with
  | nil => rfl
  | cons i ids ih =>
    rw [map_cons, lookup_cons, ih]
    by_cases hi : id = i
    · simp [hi]
    · simp [hi, beq_eq_false_iff_ne.mpr hi]

/-- The decision about a record is the one of its kind: no other kind has its identity. -/
theorem lookup_entityActions (h : Owned g db)
    (hselected : db.selectedExports tenantId scope = some exports) {kind : EntityKind} {id : Uuid}
    (hkind : kind = .conversation ∨ kind = .project)
    (hid : id ∈ db.entityIds (exports.map (·.id)) tenantId scope kind) :
    (db.entityActions (exports.map (·.id)) tenantId scope).lookup id =
      some (db.entityAction (exports.map (·.id)) kind id) := by
  have hother : ∀ other, other ≠ kind →
      id ∉ db.entityIds (exports.map (·.id)) tenantId scope other := by
    intro other hne hmem
    exact hne ((h.entityIds hselected hmem).2.2.symm.trans (h.entityIds hselected hid).2.2)
  have hmessage : id ∉ db.messageIds (exports.map (·.id)) tenantId scope := by
    intro hmem
    have hmessage := (h.messageIds hselected hmem).2.2
    rw [(h.entityIds hselected hid).2.2] at hmessage
    rcases hkind with rfl | rfl <;> cases hmessage
  have hasset := hother .asset (by rcases hkind with rfl | rfl <;> decide)
  unfold entityActions
  simp only [lookup_append, lookup_decided, if_neg hasset, if_neg hmessage, Option.none_or]
  rcases hkind with rfl | rfl
  · rw [if_pos hid]
    rfl
  · rw [if_neg (hother .conversation (by decide)), if_pos hid]
    rfl

end Plan

end Owned

/-! ## Inventories -/

namespace Database

variable {db db' : Database} {tenantId requestId : Uuid} {scope : PrivacyDeletionScope}
  {exports : List ExportRow} {kind : SubjectKind} {id : Uuid}

theorem mem_tombstoneSubjects :
    (kind, id) ∈ db.tombstoneSubjects requestId ↔ ∃ i ∈ db.privacyDeletionItems,
      i.requestId = requestId ∧ i.category = .downstreamTombstone ∧ i.opaqueId = .subject kind id := by
  simp only [tombstoneSubjects, mem_filterMap, mem_filter, Bool.and_eq_true, decide_eq_true_eq]
  constructor
  · rintro ⟨i, ⟨hi, hr, hc⟩, hid⟩
    refine ⟨i, hi, hr, hc, ?_⟩
    split at hid
    · rename_i heq
      cases hid
      exact heq
    · cases hid
  · rintro ⟨i, hi, hr, hc, hid⟩
    exact ⟨i, ⟨hi, hr, hc⟩, by rw [hid]⟩

theorem mem_planned_of_inventory {item : InventoryItem}
    (h : item ∈ db.inventory tenantId scope exports) :
    ∃ i ∈ (db.planned tenantId requestId scope exports).privacyDeletionItems,
      i.requestId = requestId ∧ i.category = item.category ∧ i.opaqueId = item.opaqueId := by
  have hsorted := (mem_insertionSort inventoryOrder).mpr h
  obtain ⟨n, hn, hget⟩ := mem_iff_getElem.mp hsorted
  refine ⟨_, mem_append_right _ (mem_map.mpr ⟨(item, n), ?_, rfl⟩), rfl, rfl, rfl⟩
  exact mem_zipIdx_iff_getElem?.mpr (by simp [getElem?_eq_getElem hn, hget])

theorem mem_tombstoneSubjects_planned
    (h : tombstoneItem kind id ∈ db.inventory tenantId scope exports) :
    (kind, id) ∈ (db.planned tenantId requestId scope exports).tombstoneSubjects requestId :=
  mem_tombstoneSubjects.mpr (mem_planned_of_inventory h)

theorem mem_removed_extractedArtifact
    (hfresh : ∀ i ∈ db.privacyDeletionItems, i.requestId ≠ requestId) {id : Uuid} :
    id ∈ (db.planned tenantId requestId scope exports).itemIds requestId .extractedArtifact
        .remove ↔
      ∃ a ∈ db.extractedArtifacts, a.exportId ∈ exports.map (·.id) ∧ a.id = id := by
  rw [mem_itemIds_planned hfresh]
  simp [inventory, and_assoc, @eq_comm _ id]

end Database

def Category.isRecord : Category → Bool
  | .export | .project | .conversation | .message | .contentPart | .revision
  | .extractedArtifact => true
  | _ => false

def RunScoped (g : Registry) (db : Database) (tenantId id : Uuid) : Prop :=
  id < db.nextUuid ∧ ∀ r ∈ db.importRuns, r.id = id →
    ∃ e, r.exportId = some e ∧ (Tie.owned e tenantId).Holds g db.nextUuid

/-- The inventory of a planned request: what it removes and retains is the tenant's, and what it
removes of the shared records is to be tombstoned. -/
structure Scoped (g : Registry) (db : Database) (request : PrivacyDeletionRequestRow) : Prop where
  removed : ∀ category, category.isRecord = true → ∀ id ∈ db.removedIds request.id category,
    (Tie.owned id request.tenantId).Holds g db.nextUuid
  retained : ∀ category, category = .project ∨ category = .conversation →
    ∀ id ∈ db.itemIds request.id category .retainEvidenced,
      (Tie.owned id request.tenantId).Holds g db.nextUuid
  runs : ∀ id ∈ db.removedIds request.id .importRun, RunScoped g db request.tenantId id
  outbox : ∀ id ∈ db.serialItemIds request.id .outboxEvent, id < db.nextOutboxId ∧
    ∀ row ∈ db.outboxEvents, row.id = id → row.tenantId = some request.tenantId
  account : ∀ id ∈ db.removedIds request.id .account, id = request.tenantId
  archives : ∀ e ∈ db.exports, e.id ∈ db.removedIds request.id .export →
    (.archive, e.aiArchiveId) ∈ db.tombstoneSubjects request.id
  conversations : ∀ id ∈ db.removedIds request.id .conversation,
    (.conversation, id) ∈ db.tombstoneSubjects request.id
  projects : ∀ id ∈ db.removedIds request.id .project,
    (.project, id) ∈ db.tombstoneSubjects request.id

/-! ## From a plan to its row phase -/

namespace Database

variable {db db' db'' : Database} {requestId : Uuid}

section

variable (h : SameItems db db' requestId)
include h

theorem SameItems.exists_iff {P : PrivacyDeletionItemRow → Prop} :
    (∃ i ∈ db'.privacyDeletionItems, i.requestId = requestId ∧ P i) ↔
      ∃ i ∈ db.privacyDeletionItems, i.requestId = requestId ∧ P i := by
  refine exists_congr fun i => ⟨fun ⟨hi, hr, hrest⟩ => ?_, fun ⟨hi, hr, hrest⟩ => ?_⟩
  · exact ⟨(h i hr).mp hi, hr, hrest⟩
  · exact ⟨(h i hr).mpr hi, hr, hrest⟩

theorem SameItems.mem_itemIds {category : Category} {action : DeletionAction} {id : Uuid} :
    id ∈ db'.itemIds requestId category action ↔ id ∈ db.itemIds requestId category action := by
  rw [Database.mem_itemIds, Database.mem_itemIds]
  exact h.exists_iff

theorem SameItems.mem_serialItemIds {category : Category} {id : Nat} :
    id ∈ db'.serialItemIds requestId category ↔ id ∈ db.serialItemIds requestId category := by
  rw [Database.mem_serialItemIds, Database.mem_serialItemIds]
  exact h.exists_iff

theorem SameItems.mem_tombstoneSubjects {kind : SubjectKind} {id : Uuid} :
    (kind, id) ∈ db'.tombstoneSubjects requestId ↔ (kind, id) ∈ db.tombstoneSubjects requestId := by
  rw [Database.mem_tombstoneSubjects, Database.mem_tombstoneSubjects]
  exact h.exists_iff

end

/-- What commits between a plan and its row phase: new exports and runs have new identities, and a
run keeps the export it is stored under. -/
structure Evolves (db db' : Database) : Prop where
  next_le : db.nextUuid ≤ db'.nextUuid
  exports : ∀ e ∈ db'.exports, e ∈ db.exports ∨ db.nextUuid ≤ e.id
  runs : ∀ r ∈ db'.importRuns, db.nextUuid ≤ r.id ∨ ∃ old ∈ db.importRuns, old.id = r.id ∧
    ∀ e, old.exportId = some e → r.exportId = some e

namespace Evolves

theorem of_subset (hnext : db.nextUuid ≤ db'.nextUuid) (hexports : db'.exports ⊆ db.exports)
    (hruns : db'.importRuns ⊆ db.importRuns) : Evolves db db' :=
  ⟨hnext, fun _ he => .inl (hexports he), fun r hr => .inr ⟨r, hruns hr, rfl, fun _ h => h⟩⟩

theorem of_held (h : db'.held = db.held) : Evolves db db' := by
  have hnext : db'.nextUuid = db.nextUuid := held_frame h fun _ => rfl
  have hexports : db'.exports = db.exports := held_frame h fun _ => rfl
  have hruns : db'.importRuns = db.importRuns := held_frame h fun _ => rfl
  exact .of_subset hnext.ge (hexports ▸ List.Subset.refl _) (hruns ▸ List.Subset.refl _)

theorem trans (h : Evolves db db') (h' : Evolves db' db'') : Evolves db db'' := by
  refine ⟨h.next_le.trans h'.next_le, fun e he => ?_, fun r hr => ?_⟩
  · rcases h'.exports e he with he | hle
    · exact h.exports e he
    · exact .inr (h.next_le.trans hle)
  · rcases h'.runs r hr with hle | ⟨old, hold, hid, hkept⟩
    · exact .inl (h.next_le.trans hle)
    · rcases h.runs old hold with hle | ⟨older, holder, hid', hkept'⟩
      · exact .inl (hid ▸ hle)
      · exact .inr ⟨older, holder, hid'.trans hid, fun e he => hkept e (hkept' e he)⟩

end Evolves

end Database

namespace Owned

variable {g : Registry} {db db' : Database}

/-- A statement on the records gives new exports and runs new identities. -/
theorem recordStep_evolves (h : Owned g db) {w : Option Uuid} (hstep : RecordStep w db db') :
    Evolves db db' := by
  cases hstep with
  | same heq => exact .of_held heq
  | skip heq =>
    have hnext : db'.nextUuid = db.nextUuid + 1 := held_frame (f := (·.nextUuid)) heq fun _ => rfl
    have hexports : db'.exports = db.exports := held_frame (f := (·.exports)) heq fun _ => rfl
    have hruns : db'.importRuns = db.importRuns :=
      held_frame (f := (·.importRuns)) heq fun _ => rfl
    exact .of_subset (hnext ▸ Nat.le_succ _) (hexports ▸ List.Subset.refl _)
      (hruns ▸ List.Subset.refl _)
  | createRun now accountRef mode mediaType =>
    refine ⟨Nat.le_succ _, fun e he => .inl he, fun r hr => ?_⟩
    rcases mem_inserted.mp hr with hr | rfl
    · exact .inr ⟨r, hr, rfl, fun _ he => he⟩
    · exact .inl (le_refl _)
  | insertExport now accountId request =>
    refine ⟨Nat.le_add_right _ 2, fun e he => ?_, fun r hr => .inr ⟨r, hr, rfl, fun _ he => he⟩⟩
    rcases mem_inserted.mp he with he | rfl
    · exact .inl he
    · exact .inr (le_refl _)
  | updateRuns hupdate =>
    refine ⟨le_refl _, fun e he => .inl he, fun r hr => .inr ?_⟩
    rcases mem_updateWhere.mp hr with ⟨hr, -⟩ | ⟨old, hold, hp, rfl⟩
    · exact ⟨r, hr, rfl, fun _ he => he⟩
    · refine ⟨old, hold, (hupdate.id old).symm, fun e he => ?_⟩
      rcases hupdate.exportId old hold hp with heq | ⟨hstate, -⟩
      · exact heq.trans he
      · rw [h.received old hold hstate] at he
        cases he
  | insertArtifact hrow blobRef ordinal =>
    exact .of_subset (Nat.le_succ _) (List.Subset.refl _) (List.Subset.refl _)
  | write hrow _ hwrite =>
    obtain ⟨g', hextends, -⟩ := h.write (h.ofExport hrow) hwrite
    have hruns : db'.importRuns = db.importRuns :=
      unwritten_frame hwrite.grows.unwritten fun _ => rfl
    exact .of_subset hextends.next_le (hwrite.grows.exports ▸ List.Subset.refl _)
      (hruns ▸ List.Subset.refl _)

theorem records_evolves (h : Owned g db) {w : Option Uuid} (hrecords : Records w db db') :
    Evolves db db' := by
  have hall : OwnedAfter g db db' ∧ Evolves db db' :=
    hrecords.preserves (P := fun db' => OwnedAfter g db db' ∧ Evolves db db')
      ⟨.same h rfl, .of_held rfl⟩ fun hstep ⟨hafter, hevolves⟩ => by
        refine ⟨hafter.trans fun _ _ howned => howned.recordStep hstep, ?_⟩
        obtain ⟨g', -, howned⟩ := hafter
        exact hevolves.trans (howned.recordStep_evolves hstep)
  exact hall.2

end Owned

namespace Scoped

variable {g g' : Registry} {db db' : Database} {request : PrivacyDeletionRequestRow}

/-- The inventory of a deletion lists what its tenant owns and nothing else. -/
theorem planned (h : Owned g db) (hkept : Kept db) {tenantId requestId : Uuid}
    {scope : PrivacyDeletionScope} {exports : List ExportRow}
    (hselected : db.selectedExports tenantId scope = some exports)
    (hfresh : ∀ i ∈ db.privacyDeletionItems, i.requestId ≠ requestId)
    (hid : request.id = requestId) (htenant : request.tenantId = tenantId) :
    Scoped g (db.planned tenantId requestId scope exports) request := by
  subst hid
  subst htenant
  constructor
  case removed =>
    intro category hcategory id hid
    cases category with
    | «export» => exact h.selected hselected ((mem_removed_export hfresh).mp hid)
    | project => exact (h.entityIds hselected ((mem_items_project hfresh).mp hid).1).1
    | conversation => exact (h.entityIds hselected ((mem_items_conversation hfresh).mp hid).1).1
    | message => exact (h.messageIds hselected ((mem_items_message hfresh).mp hid).1).1
    | contentPart =>
      obtain ⟨p, hp, hmessage, -, rfl⟩ := (mem_removed_contentPart hfresh).mp hid
      have hsame := h.contentParts p hp _ mem_cons_self
      exact ⟨hsame.1, hsame.2.2.trans (h.messageIds hselected hmessage).1.2⟩
    | revision =>
      obtain ⟨r, hr, hexport, rfl⟩ := (mem_removed_revision hfresh).mp hid
      have hsame := h.revisions r hr _ (mem_cons_of_mem _ mem_cons_self)
      exact ⟨hsame.1, hsame.2.2.trans (h.selected hselected hexport).2⟩
    | extractedArtifact =>
      obtain ⟨a, ha, hexport, rfl⟩ := (mem_removed_extractedArtifact hfresh).mp hid
      have hsame := h.extractedArtifacts a ha _ mem_cons_self
      exact ⟨hsame.1, hsame.2.2.trans (h.selected hselected hexport).2⟩
    | _ => cases hcategory
  case retained =>
    rintro category (rfl | rfl) id hid
    · exact (h.entityIds hselected ((mem_items_project hfresh).mp hid).1).1
    · exact (h.entityIds hselected ((mem_items_conversation hfresh).mp hid).1).1
  case runs =>
    intro id hid
    obtain ⟨r, hr, hany, rfl⟩ := (mem_removed_importRun hfresh).mp hid
    refine ⟨h.importRuns r hr _ mem_cons_self, fun r' hr' heq => ?_⟩
    obtain rfl := inj_on_of_nodup_map h.importRunIds hr' hr heq
    obtain ⟨e, he, hexport⟩ := any_contains.mp hany
    exact ⟨e, hexport, h.selected hselected he⟩
  case outbox =>
    intro id hid
    obtain ⟨e, he, rfl, htenant, -⟩ := (mem_planned_outbox hfresh).mp hid
    refine ⟨hkept.fresh e he, fun row hrow heq => ?_⟩
    rwa [hkept.eq_of_id hrow he heq]
  case account => exact fun id hid => ((mem_removed_account hfresh).mp hid).2
  case archives =>
    intro e he hid
    obtain ⟨row, hrow, heq⟩ := mem_map.mp ((mem_removed_export hfresh).mp hid)
    obtain rfl := inj_on_of_nodup_map h.exportIds (mem_selectedExports hselected hrow).1 he heq
    refine mem_tombstoneSubjects_planned (mem_append_right _ ?_)
    exact mem_map_of_mem (f := fun e => tombstoneItem .archive e.aiArchiveId) hrow
  case conversations =>
    intro id hid
    obtain ⟨hid, haction⟩ := (mem_items_conversation hfresh).mp hid
    have hlookup := h.lookup_entityActions hselected (.inl rfl) hid
    rw [haction] at hlookup
    refine mem_tombstoneSubjects_planned ?_
    simp [inventory, hid, hlookup]
  case projects =>
    intro id hid
    obtain ⟨hid, haction⟩ := (mem_items_project hfresh).mp hid
    have hlookup := h.lookup_entityActions hselected (.inr rfl) hid
    rw [haction] at hlookup
    refine mem_tombstoneSubjects_planned ?_
    simp [inventory, hid, hlookup]

/-- Rows that are added later have other identities than the listed ones. -/
theorem evolve (h : Scoped g db request) (hextends : Extends g db.nextUuid g' db'.nextUuid)
    (hevolves : Evolves db db') (hitems : SameItems db db' request.id)
    (hnext : db.nextOutboxId ≤ db'.nextOutboxId)
    (houtbox : ∀ row ∈ db'.outboxEvents, db.nextOutboxId ≤ row.id ∨
      ∃ old ∈ db.outboxEvents, old.id = row.id ∧ old.tenantId = row.tenantId) :
    Scoped g' db' request := by
  have hremoved : ∀ {category : Category} {id : Uuid},
      id ∈ db'.removedIds request.id category ↔ id ∈ db.removedIds request.id category :=
    hitems.mem_itemIds
  constructor
  case removed =>
    intro category hcategory id hid
    exact hextends.holds (h.removed category hcategory id (hremoved.mp hid))
  case retained =>
    intro category hcategory id hid
    exact hextends.holds (h.retained category hcategory id (hitems.mem_itemIds.mp hid))
  case runs =>
    intro id hid
    obtain ⟨hlt, hrun⟩ := h.runs id (hremoved.mp hid)
    refine ⟨hlt.trans_le hextends.next_le, fun r hr heq => ?_⟩
    rcases hevolves.runs r hr with hle | ⟨old, hold, holdid, hkept⟩
    · exact absurd (heq ▸ hle) (Nat.not_le.mpr hlt)
    · obtain ⟨e, hexport, hholds⟩ := hrun old hold (holdid.trans heq)
      exact ⟨e, hkept e hexport, hextends.holds hholds⟩
  case outbox =>
    intro id hid
    obtain ⟨hlt, hrow⟩ := h.outbox id (hitems.mem_serialItemIds.mp hid)
    refine ⟨hlt.trans_le hnext, fun row hmem heq => ?_⟩
    rcases houtbox row hmem with hle | ⟨old, hold, holdid, htenant⟩
    · exact absurd (heq ▸ hle) (Nat.not_le.mpr hlt)
    · exact htenant ▸ hrow old hold (holdid.trans heq)
  case account => exact fun id hid => h.account id (hremoved.mp hid)
  case archives =>
    intro e he hid
    have hid := hremoved.mp hid
    rcases hevolves.exports e he with he | hle
    · exact hitems.mem_tombstoneSubjects.mpr (h.archives e he hid)
    · exact absurd hle (Nat.not_le.mpr (h.removed .export rfl e.id hid).1)
  case conversations =>
    exact fun id hid => hitems.mem_tombstoneSubjects.mpr (h.conversations id (hremoved.mp hid))
  case projects =>
    exact fun id hid => hitems.mem_tombstoneSubjects.mpr (h.projects id (hremoved.mp hid))

end Scoped

end ChatgptArchive
