import ChatgptArchive.Integrity.Deletion

/-!
# What a plan lists

The identities a new plan lists for removal, category by category, and why they cover every
dependent row.
-/

namespace ChatgptArchive.Database

open List

variable {db : Database} {tenantId requestId : Uuid} {scope : PrivacyDeletionScope}
  {exports : List ExportRow} {category : Category} {action : DeletionAction} {id : Uuid}
  {kind : EntityKind}

def planned (db : Database) (tenantId requestId : Uuid) (scope : PrivacyDeletionScope)
    (exports : List ExportRow) : Database :=
  db.persistPlan tenantId requestId scope
    ((db.inventory tenantId scope exports).insertionSort inventoryOrder)

def phaseStart (db : Database) (tenantId requestId : Uuid) (scope : PrivacyDeletionScope)
    (exports : List ExportRow) : Database :=
  deleteRawRecords ((db.planned tenantId requestId scope exports).itemIds requestId .rawRecord
    .remove) (db.planned tenantId requestId scope exports)

def listed (db : Database) (tenantId requestId : Uuid) (scope : PrivacyDeletionScope)
    (exports : List ExportRow) (category : Category) : List Uuid :=
  (db.planned tenantId requestId scope exports).itemIds requestId category .remove

theorem any_contains {o : Option Uuid} {ids : List Uuid} :
    o.any ids.contains = true ↔ ∃ id ∈ ids, o = some id := by
  cases o <;> simp

theorem mem_itemIds :
    id ∈ db.itemIds requestId category action ↔ ∃ i ∈ db.privacyDeletionItems,
      i.requestId = requestId ∧ i.category = category ∧ i.action = action ∧ i.opaqueId = .uuid id := by
  simp only [itemIds, mem_filterMap, mem_filter, Bool.and_eq_true, decide_eq_true_eq]
  constructor
  · rintro ⟨i, ⟨hi, ⟨hr, hc⟩, ha⟩, hid⟩
    refine ⟨i, hi, hr, hc, ha, ?_⟩
    split at hid
    · rename_i heq
      rw [heq, Option.some.inj hid]
    · cases hid
  · rintro ⟨i, hi, hr, hc, ha, hid⟩
    exact ⟨i, ⟨hi, ⟨hr, hc⟩, ha⟩, by rw [hid]⟩

theorem exists_planned_iff {P : Category → DeletionAction → OpaqueId → Prop}
    (hfresh : ∀ i ∈ db.privacyDeletionItems, i.requestId ≠ requestId) :
    (∃ i ∈ (db.planned tenantId requestId scope exports).privacyDeletionItems,
        i.requestId = requestId ∧ P i.category i.action i.opaqueId) ↔
      ∃ x ∈ db.inventory tenantId scope exports, P x.category x.action x.opaqueId := by
  constructor
  · rintro ⟨i, hi, hr, hP⟩
    rcases mem_append.mp hi with hi | hi
    · exact absurd hr (hfresh i hi)
    · obtain ⟨⟨x, n⟩, hx, rfl⟩ := mem_map.mp hi
      exact ⟨x, (mem_insertionSort inventoryOrder).mp (fst_mem_of_mem_zipIdx hx), hP⟩
  · rintro ⟨x, hmem, hP⟩
    have hsorted := (mem_insertionSort inventoryOrder).mpr hmem
    obtain ⟨n, hn, hget⟩ := mem_iff_getElem.mp hsorted
    refine ⟨_, mem_append_right _ (mem_map.mpr ⟨(x, n), ?_, rfl⟩), rfl, hP⟩
    exact mem_zipIdx_iff_getElem?.mpr (by simp [getElem?_eq_getElem hn, hget])

theorem mem_itemIds_planned (hfresh : ∀ i ∈ db.privacyDeletionItems, i.requestId ≠ requestId) :
    id ∈ (db.planned tenantId requestId scope exports).itemIds requestId category action ↔
      ∃ b, ⟨category, .uuid id, action, b⟩ ∈ db.inventory tenantId scope exports := by
  rw [mem_itemIds, exists_planned_iff hfresh
    (P := fun c a opaqueId => c = category ∧ a = action ∧ opaqueId = .uuid id)]
  constructor
  · rintro ⟨⟨c, opaqueId, a, b⟩, hmem, rfl, rfl, rfl⟩
    exact ⟨b, hmem⟩
  · rintro ⟨b, hmem⟩
    exact ⟨_, hmem, rfl, rfl, rfl⟩

section Listed

variable (hfresh : ∀ i ∈ db.privacyDeletionItems, i.requestId ≠ requestId) {id : Uuid}
  {action : DeletionAction}
include hfresh

theorem mem_removed_export :
    id ∈ (db.planned tenantId requestId scope exports).itemIds requestId .export .remove ↔
      id ∈ exports.map (·.id) := by
  rw [mem_itemIds_planned hfresh]
  simp only [inventory, mem_map]
  simp [@eq_comm _ id]

theorem mem_removed_rawRecord :
    id ∈ (db.planned tenantId requestId scope exports).itemIds requestId .rawRecord .remove ↔
      ∃ r ∈ db.rawRecords, r.exportId ∈ exports.map (·.id) ∧ r.id = id := by
  rw [mem_itemIds_planned hfresh]
  simp [inventory, and_assoc]

theorem mem_removed_importRun :
    id ∈ (db.planned tenantId requestId scope exports).itemIds requestId .importRun .remove ↔
      ∃ r ∈ db.importRuns, r.exportId.any (exports.map (·.id)).contains = true ∧ r.id = id := by
  rw [mem_itemIds_planned hfresh]
  simp [inventory, and_assoc]

theorem mem_removed_completenessReport :
    id ∈ (db.planned tenantId requestId scope exports).itemIds requestId .completenessReport
        .remove ↔
      ∃ c ∈ db.completenessReports, (∃ r ∈ db.importRuns, r.id = c.importRunId ∧
        r.exportId.any (exports.map (·.id)).contains = true) ∧ c.id = id := by
  rw [mem_itemIds_planned hfresh]
  simp [inventory, and_assoc]

theorem mem_removed_revision :
    id ∈ (db.planned tenantId requestId scope exports).itemIds requestId .revision .remove ↔
      ∃ r ∈ db.revisions, r.observedIn ∈ exports.map (·.id) ∧ r.id = id := by
  rw [mem_itemIds_planned hfresh]
  simp [inventory, and_assoc]

theorem mem_removed_account :
    id ∈ (db.planned tenantId requestId scope exports).itemIds requestId .account .remove ↔
      scope = .tenant ∧ id = tenantId := by
  rw [mem_itemIds_planned hfresh]
  simp [inventory]

theorem mem_items_project :
    id ∈ (db.planned tenantId requestId scope exports).itemIds requestId .project action ↔
      id ∈ db.entityIds (exports.map (·.id)) tenantId scope .project ∧
        db.entityAction (exports.map (·.id)) .project id = action := by
  rw [mem_itemIds_planned hfresh]
  simp [inventory]

theorem mem_items_conversation :
    id ∈ (db.planned tenantId requestId scope exports).itemIds requestId .conversation action ↔
      id ∈ db.entityIds (exports.map (·.id)) tenantId scope .conversation ∧
        db.entityAction (exports.map (·.id)) .conversation id = action := by
  rw [mem_itemIds_planned hfresh]
  simp [inventory]

theorem mem_items_message :
    id ∈ (db.planned tenantId requestId scope exports).itemIds requestId .message action ↔
      id ∈ db.messageIds (exports.map (·.id)) tenantId scope ∧
        db.entityAction (exports.map (·.id)) .message id = action := by
  rw [mem_itemIds_planned hfresh]
  simp [inventory]

theorem mem_removed_contentPart :
    id ∈ (db.planned tenantId requestId scope exports).itemIds requestId .contentPart .remove ↔
      ∃ p ∈ db.contentParts, p.messageId ∈ db.messageIds (exports.map (·.id)) tenantId scope ∧
        ((db.entityActions (exports.map (·.id)) tenantId scope).lookup p.messageId).getD .remove =
          .remove ∧ p.id = id := by
  rw [mem_itemIds_planned hfresh]
  simp only [inventory]
  simp
  constructor
  · rintro ⟨p, ⟨hp, hmessage⟩, hid, haction⟩
    exact ⟨p, hp, hmessage, haction.symm, hid.symm⟩
  · rintro ⟨p, hp, hmessage, haction, hid⟩
    exact ⟨p, ⟨hp, hmessage⟩, hid.symm, haction.symm⟩

end Listed

/-! ## The decisions -/

theorem retainedObservation_iff {exports : List Uuid} :
    db.retainedObservation exports kind id = true ↔ db.Retained exports kind id := by
  simp only [retainedObservation, any_eq_true, Bool.and_eq_true, decide_eq_true_eq,
    Bool.not_eq_true', contains_eq_mem, decide_eq_false_iff_not]
  constructor
  · rintro ⟨o, ho, ⟨hk, hi⟩, hout⟩
    exact ⟨o.exportId, hout, o, ho, rfl, hk, hi⟩
  · rintro ⟨e, hout, o, ho, rfl, hk, hi⟩
    exact ⟨o, ho, ⟨hk, hi⟩, hout⟩

instance (exports : List Uuid) (kind : EntityKind) (id : Uuid) :
    Decidable (db.Retained exports kind id) :=
  decidable_of_iff _ retainedObservation_iff

theorem entityAction_eq_remove {exports : List Uuid} :
    db.entityAction exports kind id = .remove ↔ ¬db.Retained exports kind id := by
  rw [entityAction, ← retainedObservation_iff]
  split <;> simp_all

theorem mem_observedIds {exports : List Uuid} :
    id ∈ (db.observations.filter fun o => exports.contains o.exportId && o.kind = kind).map
      (·.entityId) ↔ ∃ e ∈ exports, db.Observes e kind id := by
  simp only [mem_map, mem_filter, Bool.and_eq_true, decide_eq_true_eq, contains_eq_mem]
  constructor
  · rintro ⟨o, ⟨ho, he, hk⟩, hi⟩
    exact ⟨o.exportId, he, o, ho, rfl, hk, hi⟩
  · rintro ⟨e, he, o, ho, rfl, hk, hi⟩
    exact ⟨o, ⟨ho, he, hk⟩, hi⟩

/-- What a scope selects of a kind: the observed records and those the scope itself names. -/
theorem mem_entityIds {exports : List Uuid} :
    id ∈ db.entityIds exports tenantId scope kind ↔ (∃ e ∈ exports, db.Observes e kind id) ∨
      (scope = .conversation id ∧ kind = .conversation) ∨
      (scope = .tenant ∧ id ∈ db.ownedIds tenantId kind) := by
  unfold entityIds
  rw [mem_ascending, mem_append, mem_observedIds]
  refine or_congr_right ?_
  cases scope with
  | archive _ => simp
  | conversation c => by_cases hk : kind = .conversation <;> simp [hk, eq_comm]
  | tenant => simp

theorem mem_messageIds {exports : List Uuid} :
    id ∈ db.messageIds exports tenantId scope ↔ id ∈ db.entityIds exports tenantId scope .message ∨
      ∃ m ∈ db.messages, m.conversationId ∈ db.entityIds exports tenantId scope .conversation ∧
        m.id = id := by
  simp [messageIds, mem_ascending, and_assoc]

/-! ## The selection -/

theorem selectedExports_account (h : db.selectedExports tenantId scope = some exports) :
    tenantId ∈ db.accounts.map (·.id) := by
  unfold selectedExports at h
  split at h
  · rename_i hany
    obtain ⟨a, ha, hid⟩ := any_eq_true.mp hany
    exact mem_map.mpr ⟨a, ha, by simpa using hid⟩
  · cases h

theorem mem_selectedExports (h : db.selectedExports tenantId scope = some exports) {e : ExportRow}
    (he : e ∈ exports) : e ∈ db.exports ∧ e.accountId = tenantId := by
  unfold selectedExports at h
  split at h
  · split at h
    · dsimp only at h
      split at h
      · cases h
      · cases h
        simp only [mem_filter, Bool.and_eq_true, decide_eq_true_eq] at he
        exact ⟨he.1, he.2.1⟩
    · split at h
      · cases h
        simp only [mem_filter, Bool.and_eq_true, decide_eq_true_eq] at he
        exact ⟨he.1, he.2.1⟩
      · cases h
    · cases h
      simpa using he
  · cases h

theorem selectedExports_tenant (h : db.selectedExports tenantId .tenant = some exports)
    {e : ExportRow} (he : e ∈ db.exports) (haccount : e.accountId = tenantId) : e ∈ exports := by
  unfold selectedExports at h
  split at h
  · cases h
    simpa using ⟨he, haccount⟩
  · cases h

theorem selectedExports_conversation {conversationId : Uuid}
    (h : db.selectedExports tenantId (.conversation conversationId) = some exports) :
    ∃ c ∈ db.conversations, c.id = conversationId ∧ c.accountId = tenantId := by
  unfold selectedExports at h
  split at h
  · dsimp only at h
    split at h
    · rename_i hany
      obtain ⟨c, hc, hid⟩ := any_eq_true.mp hany
      exact ⟨c, hc, by simpa using hid⟩
    · cases h
  · cases h

/-! ## In a sound database a plan covers every dependent row -/

section Planned

variable (h : Sound db) (hselected : db.selectedExports tenantId scope = some exports)
include h

theorem entityIds_asset (exports : List Uuid) :
    db.entityIds exports tenantId scope .asset = [] := by
  rw [eq_nil_iff_forall_not_mem]
  intro id hid
  rcases mem_entityIds.mp hid with ⟨e, -, o, ho, -, hk, -⟩ | ⟨-, hk⟩ | ⟨-, hid⟩
  · exact h.noAssetObservation o ho hk
  · cases hk
  · simp [ownedIds, h.noAssets] at hid

theorem lookup_entityActions_message {exports : List Uuid} {id : Uuid}
    (hid : id ∈ db.messageIds exports tenantId scope) :
    (db.entityActions exports tenantId scope).lookup id =
      some (db.entityAction exports .message id) := by
  have hlookup : ((db.messageIds exports tenantId scope).map fun i =>
      (i, db.entityAction exports .message i)).lookup id =
        some (db.entityAction exports .message id) := by
    generalize db.messageIds exports tenantId scope = ids at hid
    induction ids with
    | nil => cases hid
    | cons i ids ih =>
      rw [map_cons, lookup_cons]
      by_cases hi : id = i
      · simp [hi]
      · have hne : (id == i) = false := by simpa using hi
        rw [hne]
        exact ih ((mem_cons.mp hid).resolve_left hi)
  unfold entityActions
  rw [entityIds_asset h]
  simp only [map_nil, nil_append, append_assoc, lookup_append]
  rw [hlookup]
  rfl

theorem mem_removed_message_iff (hfresh : ∀ i ∈ db.privacyDeletionItems, i.requestId ≠ requestId)
    {m : MessageRow} (hm : m ∈ db.messages) :
    m.id ∈ (db.planned tenantId requestId scope exports).itemIds requestId .message .remove ↔
      ¬db.Retained (exports.map (·.id)) .message m.id := by
  rw [mem_items_message hfresh, entityAction_eq_remove]
  refine and_iff_right_of_imp fun hnot => ?_
  obtain ⟨e, he⟩ := h.messageObserved m hm
  have hselected : e ∈ exports.map (·.id) := by
    by_contra hne
    exact hnot ⟨e, hne, he⟩
  exact mem_messageIds.mpr (.inl (mem_entityIds.mpr (.inl ⟨e, hselected, he⟩)))

theorem retained_conversation_of_message {exports : List Uuid} {m : MessageRow}
    (hm : m ∈ db.messages) (hretained : db.Retained exports .message m.id) :
    db.Retained exports .conversation m.conversationId := by
  obtain ⟨e, he, o, ho, rfl, hk, hi⟩ := hretained
  obtain ⟨m', hm', hid, hobs⟩ := h.observedMessage o ho hk
  rw [h.message_eq_of_id hm hm' (hi.symm.trans hid.symm)]
  exact ⟨_, he, hobs⟩

theorem observes_project_account {e : Uuid} {p : ProjectRow} (hp : p ∈ db.projects)
    (ho : db.Observes e .project p.id) : db.HasExport e p.accountId := by
  obtain ⟨o, ho, rfl, hk, hi⟩ := ho
  obtain ⟨q, hq, hqid, hexport⟩ := h.observedProject o ho hk
  rwa [h.project_eq_of_id hp hq (hi.symm.trans hqid.symm)]

end Planned

theorem tenant_selects (hselected : db.selectedExports tenantId .tenant = some exports) {e : Uuid}
    (he : db.HasExport e tenantId) : e ∈ exports.map (·.id) := by
  obtain ⟨r, hr, rfl, haccount⟩ := he
  exact mem_map_of_mem (selectedExports_tenant hselected hr haccount)

section Removal

variable (h : Sound db) (hselected : db.selectedExports tenantId scope = some exports)
  (hfresh : ∀ i ∈ db.privacyDeletionItems, i.requestId ≠ requestId)
include h hselected hfresh

/-- The inventory lists with every row those that refer to it. -/
theorem planned_covers :
    Covers (db.phaseStart tenantId requestId scope exports) tenantId
      (db.listed tenantId requestId scope exports) where
  rawRecord r hr hmem := by
    obtain ⟨hr, hkept⟩ := Table.mem_deleteWhere.mp hr
    have hkept : r.id ∉ (db.planned tenantId requestId scope exports).itemIds requestId .rawRecord
        .remove := by simpa using hkept
    exact hkept ((mem_removed_rawRecord hfresh).mpr
      ⟨r, hr, (mem_removed_export hfresh).mp hmem, rfl⟩)
  importRun r hr e he hmem := by
    refine (mem_removed_importRun hfresh).mpr ⟨r, hr, ?_, rfl⟩
    simpa [he] using (mem_removed_export hfresh).mp hmem
  operationImport p hp hmem := by
    obtain ⟨r, hr, hrun, hid⟩ := (mem_removed_importRun hfresh).mp hmem
    obtain ⟨e, hmem, he⟩ := any_contains.mp hrun
    refine Bool.or_eq_true_iff.mpr (.inr (any_eq_true.mpr ⟨r, hr, ?_⟩))
    rw [Bool.and_eq_true, any_contains]
    exact ⟨by simpa using hid, e, (mem_removed_export hfresh).mpr hmem, he⟩
  completenessReport c hc hmem := by
    obtain ⟨r, hr, hrun, hid⟩ := (mem_removed_importRun hfresh).mp hmem
    exact (mem_removed_completenessReport hfresh).mpr ⟨c, hc, ⟨r, hr, hid, hrun⟩, rfl⟩
  contentPart p hp hmem := by
    obtain ⟨hid, haction⟩ := (mem_items_message hfresh).mp hmem
    refine (mem_removed_contentPart hfresh).mpr ⟨p, hp, hid, ?_, rfl⟩
    rw [lookup_entityActions_message h hid]
    exact haction
  revision r hr hmem :=
    (mem_removed_revision hfresh).mpr ⟨r, hr, (mem_removed_export hfresh).mp hmem, rfl⟩
  message m hm hmem := by
    obtain ⟨hid, haction⟩ := (mem_items_conversation hfresh).mp hmem
    refine (mem_items_message hfresh).mpr ⟨mem_messageIds.mpr (.inr ⟨m, hm, hid, rfl⟩), ?_⟩
    rw [entityAction_eq_remove] at haction ⊢
    exact fun hretained => haction (retained_conversation_of_message h hm hretained)
  accountExport hne e he haccount := by
    obtain ⟨id, hid⟩ := exists_mem_of_ne_nil _ hne
    obtain ⟨rfl, -⟩ := (mem_removed_account hfresh).mp hid
    exact (mem_removed_export hfresh).mpr (tenant_selects hselected ⟨e, he, rfl, haccount⟩)
  accountProject hne p hp haccount := by
    obtain ⟨id, hid⟩ := exists_mem_of_ne_nil _ hne
    obtain ⟨rfl, -⟩ := (mem_removed_account hfresh).mp hid
    refine (mem_items_project hfresh).mpr ⟨mem_entityIds.mpr (.inr (.inr ⟨rfl, ?_⟩)), ?_⟩
    · exact mem_map_of_mem (mem_filter.mpr ⟨hp, by simpa using haccount⟩)
    · rw [entityAction_eq_remove]
      rintro ⟨e, he, hobs⟩
      exact he (tenant_selects hselected (haccount ▸ observes_project_account h hp hobs))
  accountConversation hne c hc haccount := by
    obtain ⟨id, hid⟩ := exists_mem_of_ne_nil _ hne
    obtain ⟨rfl, -⟩ := (mem_removed_account hfresh).mp hid
    refine (mem_items_conversation hfresh).mpr ⟨mem_entityIds.mpr (.inr (.inr ⟨rfl, ?_⟩)), ?_⟩
    · exact mem_map_of_mem (mem_filter.mpr ⟨hc, by simpa using haccount⟩)
    · rw [entityAction_eq_remove]
      rintro ⟨e, he, hobs⟩
      exact he (tenant_selects hselected (haccount ▸ h.observes_conversation_account hc hobs))

omit hselected in
theorem planned_decides :
    Decides (db.phaseStart tenantId requestId scope exports)
      (db.listed tenantId requestId scope exports) := by
  have hcongr : ∀ {kind id},
      db.Retained (db.listed tenantId requestId scope exports .export) kind id ↔
        db.Retained (exports.map (·.id)) kind id :=
    Retained.congr fun _ => mem_removed_export hfresh
  refine ⟨fun id hid hretained => ?_, fun id hid hretained => ?_, fun m hm => ?_⟩
  · exact entityAction_eq_remove.mp ((mem_items_project hfresh).mp hid).2 (hcongr.mp hretained)
  · exact entityAction_eq_remove.mp ((mem_items_conversation hfresh).mp hid).2
      (hcongr.mp hretained)
  · exact (mem_removed_message_iff h hfresh hm).trans (not_congr hcongr).symm

end Removal

end ChatgptArchive.Database
