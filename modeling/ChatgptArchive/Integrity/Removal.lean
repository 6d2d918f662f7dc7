import ChatgptArchive.Integrity.Statements
import ChatgptArchive.PrivacyDeletion.Rows

/-!
# The constraints along a removal

A delete from a table that nothing references keeps every constraint. For each referenced table,
one lemma says which references can name its rows and one says when its delete keeps them.
-/

namespace ChatgptArchive.Database

open List Table

variable {db db' : Database} {t : TableName} {r : Reference} {exports ids : List Uuid} {α : Type*}
  {rows : List α} {id e : Uuid} {c : ConversationRow} {kind : EntityKind}

/-! ## Who references a table -/

section

variable (hr : r ∈ db.referencesOf t)
include hr

theorem reference_to_accounts (htarget : r.target = .accounts) :
    (∃ e ∈ db.exports, e.accountId = r.id) ∨ (∃ p ∈ db.projects, p.accountId = r.id) ∨
      (∃ c ∈ db.conversations, c.accountId = r.id) ∨
      ∃ a ∈ db.announcedSubjects, a.accountId = r.id := by
  cases t <;> simp only [referencesOf, mem_flatMap, not_mem_nil] at hr <;> grind

theorem reference_to_importRuns (htarget : r.target = .importRuns) :
    (∃ p ∈ db.platformOperationImports, p.importRunId = r.id) ∨
      ∃ c ∈ db.completenessReports, c.importRunId = r.id := by
  cases t <;> simp only [referencesOf, mem_flatMap, not_mem_nil] at hr <;> grind

theorem reference_to_projects (htarget : r.target = .projects) :
    ∃ c ∈ db.conversations, c.projectId = some r.id := by
  cases t <;> simp only [referencesOf, mem_flatMap, not_mem_nil] at hr <;> grind

theorem reference_to_conversations
    (htarget : r.target = .conversations) : ∃ m ∈ db.messages, m.conversationId = r.id := by
  cases t <;> simp only [referencesOf, mem_flatMap, not_mem_nil] at hr <;> grind

theorem reference_to_messages (htarget : r.target = .messages) :
    (∃ m ∈ db.messages, m.parentMessageId = some r.id ∧ r = ⟨.messages, m.id, .messages, r.id⟩) ∨
      (∃ p ∈ db.contentParts, p.messageId = r.id) ∨
      ∃ x ∈ db.messageRelations, x.fromMessageId = r.id ∨ x.toMessageId = r.id := by
  cases t <;> simp only [referencesOf, mem_flatMap, not_mem_nil] at hr <;> grind

end

/-- No row of a table that is not cascaded names one of the exports. -/
structure ReleasesExports (db : Database) (exports : List Uuid) : Prop where
  importRun : ∀ r ∈ db.importRuns, ∀ e, r.exportId = some e → e ∉ exports
  operationImport : ∀ p ∈ db.platformOperationImports, p.exportId ∉ exports
  projectFirst : ∀ p ∈ db.projects, ∀ e, p.firstSeenExport = some e → e ∉ exports
  projectLast : ∀ p ∈ db.projects, ∀ e, p.lastSeenExport = some e → e ∉ exports
  conversationFirst : ∀ c ∈ db.conversations, ∀ e, c.firstSeenExport = some e → e ∉ exports
  conversationLast : ∀ c ∈ db.conversations, ∀ e, c.lastSeenExport = some e → e ∉ exports
  revision : ∀ r ∈ db.revisions, r.observedIn ∉ exports
  rawRecord : ∀ r ∈ db.rawRecords, r.exportId ∉ exports
  reparseRun : ∀ r ∈ db.reparseRuns, r.exportId ∉ exports

theorem reference_to_exports (hassets : db.assets = []) (hrelations : db.messageRelations = [])
    (h : ReleasesExports db exports) (hr : r ∈ (deleteExports exports db).referencesOf t)
    (htarget : r.target = .exports) : r.id ∉ exports := by
  obtain ⟨hrun, hoperation, hpf, hpl, hcf, hcl, hrevision, hraw, hreparse⟩ := h
  cases t <;> simp only [referencesOf, deleteExports, mem_flatMap, not_mem_nil,
    mem_deleteWhere, hassets, hrelations] at hr <;> grind

/-! ## Deletes -/

theorem Consistent.shrink (h : db.Consistent) (hids : ∀ t, db'.ids t = db.ids t)
    (hrefs : ∀ t, ∀ r ∈ db'.referencesOf t, r ∈ db.referencesOf t) : db'.Consistent := by
  intro t r hr
  rw [hids]
  exact h t r (hrefs t r hr)

theorem Consistent.delete (h : db.Consistent) (table : TableName) (ids : List Uuid)
    (hids : ∀ t, t ≠ table → db'.ids t = db.ids t)
    (hrefs : ∀ t, ∀ r ∈ db'.referencesOf t, r ∈ db.referencesOf t)
    (hkeep : ∀ i ∈ db.ids table, i ∉ ids → i ∈ db'.ids table)
    (hfree : ∀ t, ∀ r ∈ db'.referencesOf t, r.target = table → r.id ∉ ids) : db'.Consistent := by
  intro t r hr
  by_cases ht : r.target = table
  · rw [ht]
    exact hkeep r.id (ht ▸ h t r (hrefs t r hr)) (hfree t r hr ht)
  · rw [hids _ ht]
    exact h t r (hrefs t r hr)

theorem mem_flatMap_deleteWhere {p : α → Bool} {references : α → List Reference}
    (hr : r ∈ (Table.deleteWhere p rows).flatMap references) : r ∈ rows.flatMap references := by
  obtain ⟨x, hx, hr⟩ := mem_flatMap.mp hr
  exact mem_flatMap.mpr ⟨x, (mem_deleteWhere.mp hx).1, hr⟩

theorem mem_ids_deleteWhere {id : α → Uuid} {i : Uuid} (hi : i ∈ rows.map id) (hids : i ∉ ids) :
    i ∈ (Table.deleteWhere (fun r => ids.contains (id r)) rows).map id :=
  mem_map_deleteWhere.mpr ⟨hi, by simpa using hids⟩

inductive LeafDelete : (Database → Database) → Prop
  | rawRecords (ids : List Uuid) : LeafDelete (deleteRawRecords ids)
  | operationImports (exports : List Uuid) : LeafDelete (deleteOperationImports exports)
  | reparseRuns (exports : List Uuid) : LeafDelete (deleteReparseRuns exports)
  | completenessReports (ids : List Uuid) : LeafDelete (deleteCompletenessReports ids)
  | messageRelations (ids : List Uuid) : LeafDelete (deleteMessageRelations ids)
  | contentParts (ids : List Uuid) : LeafDelete (deleteContentParts ids)
  | revisions (ids : List Uuid) : LeafDelete (deleteRevisions ids)
  | assets (ids : List Uuid) : LeafDelete (deleteAssets ids)
  | extractedArtifacts (ids : List Uuid) : LeafDelete (deleteExtractedArtifacts ids)
  | inboxEvents (ids : List Nat) : LeafDelete (deleteInboxEvents ids)
  | outboxEvents (ids : List Nat) (exports : List Uuid) :
      LeafDelete (dropPublishedFactRows ids exports)
  | observations (exports : List Uuid) : LeafDelete (deleteObservations exports)

theorem LeafDelete.consistent {statement : Database → Database} (hs : LeafDelete statement)
    (h : db.Consistent) : (statement db).Consistent := by
  cases hs <;>
  · refine h.shrink (fun t => ?_) fun t r hr => ?_
    · cases t <;> rfl
    · cases t <;> first | exact hr | exact mem_flatMap_deleteWhere hr

theorem Consistent.deleteMessages (h : db.Consistent) {ids : List Uuid}
    (hrelations : db.messageRelations = []) (hparts : ∀ p ∈ db.contentParts, p.messageId ∉ ids)
    (hparents : ∀ m ∈ db.messages, m.id ∉ ids → ∀ p, m.parentMessageId = some p → p ∉ ids) :
    (deleteMessages ids db).Consistent := by
  refine h.delete .messages ids (fun t ht => ?_) (fun t r hr => ?_)
    (fun i => mem_ids_deleteWhere) fun t r hr htarget => ?_
  · cases t <;> first | rfl | exact absurd rfl ht
  · cases t <;> first | exact hr | exact mem_flatMap_deleteWhere hr
  · rcases reference_to_messages hr htarget with ⟨m, hm, hparent, -⟩ | ⟨p, hp, hid⟩ | ⟨x, hx, -⟩
    · obtain ⟨hm, hkept⟩ := mem_deleteWhere.mp hm
      exact hparents m hm (by simpa using hkept) r.id hparent
    · exact hid ▸ hparts p hp
    · have hx : x ∈ db.messageRelations := hx
      rw [hrelations] at hx
      cases hx

theorem not_consistent_deleteMessages {m : MessageRow} (hm : m ∈ db.messages) (hkept : m.id ∉ ids)
    {p : Uuid} (hparent : m.parentMessageId = some p) (hp : p ∈ ids) :
    ¬(deleteMessages ids db).Consistent := by
  intro h
  have hmem : m ∈ (deleteMessages ids db).messages :=
    mem_deleteWhere.mpr ⟨hm, by simpa using hkept⟩
  have hid := h .messages ⟨.messages, m.id, .messages, p⟩
    (mem_flatMap.mpr ⟨m, hmem, by simp [MessageRow.references, mem_optionalReference, hparent]⟩)
  obtain ⟨n, hn, hnid⟩ := mem_map.mp hid
  have := (mem_deleteWhere.mp hn).2
  simp [hnid, hp] at this

theorem Consistent.deleteConversations (h : db.Consistent) (ids : List Uuid)
    (hmessages : ∀ m ∈ db.messages, m.conversationId ∉ ids) :
    (deleteConversations ids db).Consistent := by
  refine h.delete .conversations ids (fun t ht => ?_) (fun t r hr => ?_)
    (fun i => mem_ids_deleteWhere) fun t r hr htarget => ?_
  · cases t <;> first | rfl | exact absurd rfl ht
  · cases t <;> first | exact hr | exact mem_flatMap_deleteWhere hr
  · obtain ⟨m, hm, hid⟩ := reference_to_conversations hr htarget
    exact hid ▸ hmessages m hm

theorem Consistent.updateConversations (h : db.Consistent) {p : ConversationRow → Bool}
    {f : ConversationRow → ConversationRow} (hid : ∀ c, (f c).id = c.id)
    (haccount : ∀ c, (f c).accountId = c.accountId)
    (hproject : ∀ c ∈ db.conversations, ∀ q, (f c).projectId = some q → c.projectId = some q)
    (hfirst : ∀ c ∈ db.conversations, ∀ e, (f c).firstSeenExport = some e →
      e ∈ db.exports.map (·.id))
    (hlast : ∀ c ∈ db.conversations, ∀ e, (f c).lastSeenExport = some e →
      e ∈ db.exports.map (·.id)) :
    ({ db with conversations := Table.updateWhere p f db.conversations } :
      Database).Consistent := by
  refine h.setConversations (fun i hi => ?_) fun x hx => ?_
  · rwa [map_updateWhere hid]
  · rcases mem_updateWhere.mp hx with ⟨hx, -⟩ | ⟨c, hc, -, rfl⟩
    · exact .inl hx
    · refine .inr ⟨?_, fun q hq => ?_, hfirst c hc, hlast c hc⟩
      · rw [haccount]
        exact h.conversation_account hc
      · exact h.conversation_project hc (hproject c hc q hq)

theorem Consistent.unlinkProjects (h : db.Consistent) (ids : List Uuid) :
    (unlinkProjects ids db).Consistent :=
  h.updateConversations (fun _ => rfl) (fun _ => rfl) (fun _ _ _ hq => nomatch hq)
    (fun _ hc _ he => h.conversation_firstSeen hc he)
    (fun _ hc _ he => h.conversation_lastSeen hc he)

theorem unlinkProjects_unlinked (hc : c ∈ (unlinkProjects ids db).conversations) {p : Uuid}
    (hp : c.projectId = some p) : p ∉ ids := by
  rcases mem_updateWhere.mp hc with ⟨-, hkept⟩ | ⟨d, -, -, rfl⟩
  · simpa [hp] using hkept
  · cases hp

theorem Consistent.deleteProjects (h : db.Consistent) (ids : List Uuid)
    (hconversations : ∀ c ∈ db.conversations, ∀ p, c.projectId = some p → p ∉ ids) :
    (deleteProjects ids db).Consistent := by
  refine h.delete .projects ids (fun t ht => ?_) (fun t r hr => ?_)
    (fun i => mem_ids_deleteWhere) fun t r hr htarget => ?_
  · cases t <;> first | rfl | exact absurd rfl ht
  · cases t <;> first | exact hr | exact mem_flatMap_deleteWhere hr
  · obtain ⟨c, hc, hid⟩ := reference_to_projects hr htarget
    exact hconversations c hc r.id hid

theorem Consistent.deleteImportRuns (h : db.Consistent) (ids : List Uuid)
    (hoperations : ∀ p ∈ db.platformOperationImports, p.importRunId ∉ ids)
    (hreports : ∀ c ∈ db.completenessReports, c.importRunId ∉ ids) :
    (deleteImportRuns ids db).Consistent := by
  refine h.delete .importRuns ids (fun t ht => ?_) (fun t r hr => ?_)
    (fun i => mem_ids_deleteWhere) fun t r hr htarget => ?_
  · cases t <;> first | rfl | exact absurd rfl ht
  · cases t <;> first | exact hr | exact mem_flatMap_deleteWhere hr
  · rcases reference_to_importRuns hr htarget with ⟨p, hp, hid⟩ | ⟨c, hc, hid⟩
    · exact hid ▸ hoperations p hp
    · exact hid ▸ hreports c hc

/-! ## Repointed provenance -/

theorem mem_retainedObservers :
    e ∈ db.retainedObservers exports kind id ↔ db.Observes e kind id ∧ e ∉ exports := by
  simp only [retainedObservers, mem_insertionSort, mem_map, mem_filter,
    Bool.and_eq_true, decide_eq_true_eq, Bool.not_eq_true', contains_eq_mem,
    decide_eq_false_iff_not, Observes]
  constructor
  · rintro ⟨o, ⟨ho, ⟨hk, hi⟩, hx⟩, rfl⟩
    exact ⟨⟨o, ho, rfl, hk, hi⟩, hx⟩
  · rintro ⟨⟨o, ho, rfl, hk, hi⟩, hx⟩
    exact ⟨o, ⟨ho, ⟨hk, hi⟩, hx⟩, rfl⟩

theorem retainedObservers_head (he : (db.retainedObservers exports kind id).head? = some e) :
    db.Observes e kind id ∧ e ∉ exports :=
  mem_retainedObservers.mp (mem_of_mem_head? he)

theorem retainedObservers_getLast (he : (db.retainedObservers exports kind id).getLast? = some e) :
    db.Observes e kind id ∧ e ∉ exports :=
  mem_retainedObservers.mp (mem_of_mem_getLast? he)

theorem Consistent.observer_export (h : db.Consistent) {e : Uuid} {kind : EntityKind} {id : Uuid}
    (ho : db.Observes e kind id) : e ∈ db.exports.map (·.id) := by
  obtain ⟨o, ho, rfl, -⟩ := ho
  exact h.observation_export ho

theorem Consistent.repointProjects (h : db.Consistent) (exports : List Uuid) :
    (repointProjects exports db).Consistent := by
  refine h.setProjects (fun i hi => ?_) fun x hx => ?_
  · rw [map_updateWhere]
    · exact hi
    · exact fun _ => rfl
  · rcases mem_updateWhere.mp hx with ⟨hx, -⟩ | ⟨p, hp, -, rfl⟩
    · exact .inl hx
    · exact .inr ⟨h.project_account (p := p) hp,
        fun e he => h.observer_export (retainedObservers_head he).1,
        fun e he => h.observer_export (retainedObservers_getLast he).1⟩

theorem Consistent.repointConversations (h : db.Consistent) (exports : List Uuid) :
    (repointConversations exports db).Consistent :=
  h.updateConversations (fun _ => rfl) (fun _ => rfl) (fun _ _ _ hq => hq)
    (fun _ _ _ he => h.observer_export (retainedObservers_head he).1)
    (fun _ _ _ he => h.observer_export (retainedObservers_getLast he).1)

theorem Consistent.repointAssets (h : db.Consistent) (exports : List Uuid) :
    (repointAssets exports db).Consistent := by
  refine h.setAssets fun x hx => ?_
  rcases mem_updateWhere.mp hx with ⟨hx, -⟩ | ⟨a, -, -, rfl⟩
  · exact .inl hx
  · exact .inr fun e he => h.observer_export (retainedObservers_head he).1

theorem repointProjects_released {p : ProjectRow} (hp : p ∈ (repointProjects exports db).projects)
    {e : Uuid} (he : p.firstSeenExport = some e ∨ p.lastSeenExport = some e) : e ∉ exports := by
  rcases mem_updateWhere.mp hp with ⟨-, hkept⟩ | ⟨q, -, -, rfl⟩
  · simp only [Bool.or_eq_false_iff] at hkept
    rcases he with he | he
    · simpa [he] using hkept.1
    · simpa [he] using hkept.2
  · rcases he with he | he
    · exact (retainedObservers_head he).2
    · exact (retainedObservers_getLast he).2

theorem repointConversations_released (hc : c ∈ (repointConversations exports db).conversations)
    {e : Uuid} (he : c.firstSeenExport = some e ∨ c.lastSeenExport = some e) : e ∉ exports := by
  rcases mem_updateWhere.mp hc with ⟨-, hkept⟩ | ⟨q, -, -, rfl⟩
  · simp only [Bool.or_eq_false_iff] at hkept
    rcases he with he | he
    · simpa [he] using hkept.1
    · simpa [he] using hkept.2
  · rcases he with he | he
    · exact (retainedObservers_head he).2
    · exact (retainedObservers_getLast he).2

/-! ## Exports and the account -/

/-- What named the exports has been deleted or repointed before. -/
theorem Consistent.deleteExports (h : db.Consistent) {exports : List Uuid}
    (hassets : db.assets = []) (hrelations : db.messageRelations = [])
    (hreleased : ReleasesExports db exports) : (deleteExports exports db).Consistent := by
  refine h.delete .exports exports (fun t ht => ?_) (fun t r hr => ?_)
    (fun i => mem_ids_deleteWhere)
    fun t r hr htarget => reference_to_exports hassets hrelations hreleased hr htarget
  · cases t <;> first | rfl | exact absurd rfl ht
  · cases t <;> first | exact hr | exact mem_flatMap_deleteWhere hr

theorem Consistent.deleteAccount (h : db.Consistent) {tenantId : Uuid}
    (hexports : ∀ e ∈ db.exports, e.accountId ≠ tenantId)
    (hprojects : ∀ p ∈ db.projects, p.accountId ≠ tenantId)
    (hconversations : ∀ c ∈ db.conversations, c.accountId ≠ tenantId) :
    (deleteAccount tenantId db).Consistent := by
  refine h.delete .accounts [tenantId] (fun t ht => ?_) (fun t r hr => ?_)
    (fun i hi hne => ?_) fun t r hr htarget => ?_
  · cases t <;> first | rfl | exact absurd rfl ht
  · cases t <;> first | exact hr | exact mem_flatMap_deleteWhere hr
  · obtain ⟨a, ha, rfl⟩ := mem_map.mp hi
    exact mem_map.mpr ⟨a, mem_deleteWhere.mpr ⟨ha, by simpa using hne⟩, rfl⟩
  · rw [mem_singleton]
    rcases reference_to_accounts hr htarget with ⟨e, he, hid⟩ | ⟨p, hp, hid⟩ | ⟨c, hc, hid⟩ |
      ⟨a, ha, hid⟩
    · exact hid ▸ hexports e he
    · exact hid ▸ hprojects p hp
    · exact hid ▸ hconversations c hc
    · simpa [hid] using (mem_deleteWhere.mp ha).2

end ChatgptArchive.Database
