import ChatgptArchive.ForeignKeys

/-!
# Replacing one table

One lemma per table: the constraints survive a statement that leaves the table with `rows` when no
identity leaves it and each row is an old one or resolves its references.
-/

namespace ChatgptArchive.Database

open List

variable {db : Database}

/-- The references of one table, where each row is an old one or resolves its references. -/
theorem resolve_rows {α : Type*} {references : α → List Reference} {rows old : List α}
    {db' : Database} (hrow : ∀ x ∈ rows, x ∈ old ∨ ∀ r ∈ references x, r.id ∈ db'.ids r.target) :
    ∀ r ∈ rows.flatMap references, r ∈ old.flatMap references ∨ r.id ∈ db'.ids r.target := by
  intro r hr
  obtain ⟨x, hx, hr⟩ := mem_flatMap.mp hr
  rcases hrow x hx with hold | hres
  · exact .inl (mem_flatMap.mpr ⟨x, hold, hr⟩)
  · exact .inr (hres r hr)

section Shapes

variable {α : Type*} {rows old : List α} {db' : Database} {table target : TableName} {key : α → Nat}

theorem resolve_reference {column : α → Uuid}
    (hrow : ∀ x ∈ rows, x ∈ old ∨ column x ∈ db'.ids target) :
    ∀ r ∈ rows.flatMap (fun x => [Reference.mk table (key x) target (column x)]),
      r ∈ old.flatMap (fun x => [Reference.mk table (key x) target (column x)]) ∨
        r.id ∈ db'.ids r.target := by
  refine resolve_rows fun x hx => (hrow x hx).imp_right fun hx r hr => ?_
  rw [mem_singleton.mp hr]
  exact hx

theorem resolve_optional {column : α → Option Uuid}
    (hrow : ∀ x ∈ rows, x ∈ old ∨ ∀ id, column x = some id → id ∈ db'.ids target) :
    ∀ r ∈ rows.flatMap (fun x => optionalReference table (key x) target (column x)),
      r ∈ old.flatMap (fun x => optionalReference table (key x) target (column x)) ∨
        r.id ∈ db'.ids r.target := by
  refine resolve_rows fun x hx => (hrow x hx).imp_right fun hx r hr => ?_
  obtain ⟨id, hid, rfl⟩ := mem_optionalReference.mp hr
  exact hx id hid

end Shapes

/-! ## What the references of a stored row resolve to -/

section Resolved

variable (h : db.Consistent) {p : ProjectRow} {c : ConversationRow} {m : MessageRow}
include h

theorem Consistent.export_account {e : ExportRow} (he : e ∈ db.exports) :
    e.accountId ∈ db.accounts.map (·.id) :=
  h .exports ⟨.exports, e.id, .accounts, e.accountId⟩ (mem_flatMap.mpr ⟨e, he, by grind⟩)

theorem Consistent.importRun_export {r : ImportRunRow} (hr : r ∈ db.importRuns) {e : Uuid}
    (he : r.exportId = some e) : e ∈ db.exports.map (·.id) :=
  h .importRuns ⟨.importRuns, r.id, .exports, e⟩ (mem_flatMap.mpr ⟨r, hr, by grind⟩)

theorem Consistent.operationImport_run {p : PlatformOperationImportRow}
    (hp : p ∈ db.platformOperationImports) : p.importRunId ∈ db.importRuns.map (·.id) :=
  h .platformOperationImports ⟨.platformOperationImports, p.operationId, .importRuns, p.importRunId⟩
    (mem_flatMap.mpr ⟨p, hp, by grind⟩)

theorem Consistent.operationImport_export {p : PlatformOperationImportRow}
    (hp : p ∈ db.platformOperationImports) : p.exportId ∈ db.exports.map (·.id) :=
  h .platformOperationImports ⟨.platformOperationImports, p.operationId, .exports, p.exportId⟩
    (mem_flatMap.mpr ⟨p, hp, by grind⟩)

theorem Consistent.completeness_run {c : CompletenessReportRow} (hc : c ∈ db.completenessReports) :
    c.importRunId ∈ db.importRuns.map (·.id) :=
  h .completenessReports ⟨.completenessReports, c.id, .importRuns, c.importRunId⟩
    (mem_flatMap.mpr ⟨c, hc, by grind⟩)

theorem Consistent.project_account (hp : p ∈ db.projects) : p.accountId ∈ db.accounts.map (·.id) :=
  h .projects ⟨.projects, p.id, .accounts, p.accountId⟩ (mem_flatMap.mpr ⟨p, hp, by grind⟩)

theorem Consistent.project_firstSeen (hp : p ∈ db.projects) {e : Uuid}
    (he : p.firstSeenExport = some e) : e ∈ db.exports.map (·.id) :=
  h .projects ⟨.projects, p.id, .exports, e⟩ (mem_flatMap.mpr ⟨p, hp, by grind⟩)

theorem Consistent.project_lastSeen (hp : p ∈ db.projects) {e : Uuid}
    (he : p.lastSeenExport = some e) : e ∈ db.exports.map (·.id) :=
  h .projects ⟨.projects, p.id, .exports, e⟩ (mem_flatMap.mpr ⟨p, hp, by grind⟩)

section

variable (hc : c ∈ db.conversations)
include hc

theorem Consistent.conversation_account :
    c.accountId ∈ db.accounts.map (·.id) :=
  h .conversations ⟨.conversations, c.id, .accounts, c.accountId⟩
    (mem_flatMap.mpr ⟨c, hc, by grind⟩)

theorem Consistent.conversation_project {p : Uuid}
    (hp : c.projectId = some p) : p ∈ db.projects.map (·.id) :=
  h .conversations ⟨.conversations, c.id, .projects, p⟩ (mem_flatMap.mpr ⟨c, hc, by grind⟩)

theorem Consistent.conversation_firstSeen {e : Uuid}
    (he : c.firstSeenExport = some e) : e ∈ db.exports.map (·.id) :=
  h .conversations ⟨.conversations, c.id, .exports, e⟩ (mem_flatMap.mpr ⟨c, hc, by grind⟩)

theorem Consistent.conversation_lastSeen {e : Uuid}
    (he : c.lastSeenExport = some e) : e ∈ db.exports.map (·.id) :=
  h .conversations ⟨.conversations, c.id, .exports, e⟩ (mem_flatMap.mpr ⟨c, hc, by grind⟩)

end

theorem Consistent.message_conversation (hm : m ∈ db.messages) :
    m.conversationId ∈ db.conversations.map (·.id) :=
  h .messages ⟨.messages, m.id, .conversations, m.conversationId⟩
    (mem_flatMap.mpr ⟨m, hm, by grind⟩)

theorem Consistent.message_parent (hm : m ∈ db.messages) {p : Uuid}
    (hp : m.parentMessageId = some p) : p ∈ db.messages.map (·.id) :=
  h .messages ⟨.messages, m.id, .messages, p⟩ (mem_flatMap.mpr ⟨m, hm, by grind⟩)

theorem Consistent.observation_export {o : ObservationRow} (ho : o ∈ db.observations) :
    o.exportId ∈ db.exports.map (·.id) :=
  h .observations ⟨.observations, o.entityId, .exports, o.exportId⟩
    (mem_flatMap.mpr ⟨o, ho, by grind⟩)

theorem Consistent.item_request {i : PrivacyDeletionItemRow} (hi : i ∈ db.privacyDeletionItems) :
    i.requestId ∈ db.privacyDeletionRequests.map (·.id) :=
  h .privacyDeletionItems ⟨.privacyDeletionItems, i.ordinal, .privacyDeletionRequests, i.requestId⟩
    (mem_flatMap.mpr ⟨i, hi, by grind⟩)

end Resolved

/-! ## Statements on one table -/

variable (h : db.Consistent)
include h

theorem Consistent.setAccounts {rows : List AccountRow}
    (hids : ∀ id ∈ db.accounts.map (·.id), id ∈ rows.map (·.id)) :
    ({ db with accounts := rows } : Database).Consistent := by
  refine h.of_growth .accounts ?_ hids (fun r hr => nomatch hr)
  intro t ht; cases t <;> first | exact ⟨rfl, rfl⟩ | exact absurd rfl ht

theorem Consistent.setExports {rows : List ExportRow}
    (hids : ∀ id ∈ db.exports.map (·.id), id ∈ rows.map (·.id))
    (hrow : ∀ x ∈ rows, x ∈ db.exports ∨ x.accountId ∈ db.accounts.map (·.id)) :
    ({ db with exports := rows } : Database).Consistent := by
  refine h.of_growth .exports ?_ hids (resolve_reference hrow)
  intro t ht; cases t <;> first | exact ⟨rfl, rfl⟩ | exact absurd rfl ht

theorem Consistent.setImportRuns {rows : List ImportRunRow}
    (hids : ∀ id ∈ db.importRuns.map (·.id), id ∈ rows.map (·.id))
    (hrow : ∀ x ∈ rows, x ∈ db.importRuns ∨
      ∀ e, x.exportId = some e → e ∈ db.exports.map (·.id)) :
    ({ db with importRuns := rows } : Database).Consistent := by
  refine h.of_growth .importRuns ?_ hids (resolve_optional hrow)
  intro t ht; cases t <;> first | exact ⟨rfl, rfl⟩ | exact absurd rfl ht

theorem Consistent.setOperationImports {rows : List PlatformOperationImportRow}
    (hrow : ∀ x ∈ rows, x ∈ db.platformOperationImports ∨
      (x.importRunId ∈ db.importRuns.map (·.id) ∧ x.exportId ∈ db.exports.map (·.id))) :
    ({ db with platformOperationImports := rows } : Database).Consistent := by
  refine h.of_growth .platformOperationImports ?_ (fun _ hid => nomatch hid)
    (resolve_rows fun x hx => (hrow x hx).imp_right fun hx r hr => ?_)
  · intro t ht; cases t <;> first | exact ⟨rfl, rfl⟩ | exact absurd rfl ht
  · simp only [PlatformOperationImportRow.references, mem_cons, not_mem_nil, or_false] at hr
    rcases hr with rfl | rfl
    · exact hx.1
    · exact hx.2

theorem Consistent.setProjects {rows : List ProjectRow}
    (hids : ∀ id ∈ db.projects.map (·.id), id ∈ rows.map (·.id))
    (hrow : ∀ x ∈ rows, x ∈ db.projects ∨ (x.accountId ∈ db.accounts.map (·.id) ∧
      (∀ e, x.firstSeenExport = some e → e ∈ db.exports.map (·.id)) ∧
      ∀ e, x.lastSeenExport = some e → e ∈ db.exports.map (·.id))) :
    ({ db with projects := rows } : Database).Consistent := by
  refine h.of_growth .projects ?_ hids
    (resolve_rows fun x hx => (hrow x hx).imp_right fun hx r hr => ?_)
  · intro t ht; cases t <;> first | exact ⟨rfl, rfl⟩ | exact absurd rfl ht
  · simp only [ProjectRow.references, mem_cons, mem_append, mem_optionalReference] at hr
    obtain rfl | ⟨e, he, rfl⟩ | ⟨e, he, rfl⟩ := hr
    · exact hx.1
    · exact hx.2.1 e he
    · exact hx.2.2 e he

theorem Consistent.setConversations {rows : List ConversationRow}
    (hids : ∀ id ∈ db.conversations.map (·.id), id ∈ rows.map (·.id))
    (hrow : ∀ x ∈ rows, x ∈ db.conversations ∨ (x.accountId ∈ db.accounts.map (·.id) ∧
      (∀ p, x.projectId = some p → p ∈ db.projects.map (·.id)) ∧
      (∀ e, x.firstSeenExport = some e → e ∈ db.exports.map (·.id)) ∧
      ∀ e, x.lastSeenExport = some e → e ∈ db.exports.map (·.id))) :
    ({ db with conversations := rows } : Database).Consistent := by
  refine h.of_growth .conversations ?_ hids
    (resolve_rows fun x hx => (hrow x hx).imp_right fun hx r hr => ?_)
  · intro t ht; cases t <;> first | exact ⟨rfl, rfl⟩ | exact absurd rfl ht
  · simp only [ConversationRow.references, mem_cons, mem_append, mem_optionalReference] at hr
    obtain rfl | ⟨p, hp, rfl⟩ | ⟨e, he, rfl⟩ | ⟨e, he, rfl⟩ := hr
    · exact hx.1
    · exact hx.2.1 p hp
    · exact hx.2.2.1 e he
    · exact hx.2.2.2 e he

theorem Consistent.setMessages {rows : List MessageRow}
    (hids : ∀ id ∈ db.messages.map (·.id), id ∈ rows.map (·.id))
    (hrow : ∀ x ∈ rows, x ∈ db.messages ∨ (x.conversationId ∈ db.conversations.map (·.id) ∧
      ∀ p, x.parentMessageId = some p → p ∈ rows.map (·.id))) :
    ({ db with messages := rows } : Database).Consistent := by
  refine h.of_growth .messages ?_ hids
    (resolve_rows fun x hx => (hrow x hx).imp_right fun hx r hr => ?_)
  · intro t ht; cases t <;> first | exact ⟨rfl, rfl⟩ | exact absurd rfl ht
  · simp only [MessageRow.references, mem_cons, mem_optionalReference] at hr
    obtain rfl | ⟨p, hp, rfl⟩ := hr
    · exact hx.1
    · exact hx.2 p hp

theorem Consistent.setContentParts {rows : List ContentPartRow}
    (hrow : ∀ x ∈ rows, x ∈ db.contentParts ∨ x.messageId ∈ db.messages.map (·.id)) :
    ({ db with contentParts := rows } : Database).Consistent := by
  refine h.of_growth .contentParts ?_ (fun _ hid => nomatch hid) (resolve_reference hrow)
  intro t ht; cases t <;> first | exact ⟨rfl, rfl⟩ | exact absurd rfl ht

theorem Consistent.setAssets {rows : List AssetRow}
    (hrow : ∀ x ∈ rows, x ∈ db.assets ∨ ∀ e, x.observedIn = some e → e ∈ db.exports.map (·.id)) :
    ({ db with assets := rows } : Database).Consistent := by
  refine h.of_growth .assets ?_ (fun _ hid => nomatch hid) (resolve_optional hrow)
  intro t ht; cases t <;> first | exact ⟨rfl, rfl⟩ | exact absurd rfl ht

theorem Consistent.setRevisions {rows : List RevisionRow}
    (hrow : ∀ x ∈ rows, x ∈ db.revisions ∨ x.observedIn ∈ db.exports.map (·.id)) :
    ({ db with revisions := rows } : Database).Consistent := by
  refine h.of_growth .revisions ?_ (fun _ hid => nomatch hid) (resolve_reference hrow)
  intro t ht; cases t <;> first | exact ⟨rfl, rfl⟩ | exact absurd rfl ht

theorem Consistent.setObservations {rows : List ObservationRow}
    (hrow : ∀ x ∈ rows, x ∈ db.observations ∨ x.exportId ∈ db.exports.map (·.id)) :
    ({ db with observations := rows } : Database).Consistent := by
  refine h.of_growth .observations ?_ (fun _ hid => nomatch hid) (resolve_reference hrow)
  intro t ht; cases t <;> first | exact ⟨rfl, rfl⟩ | exact absurd rfl ht

theorem Consistent.setExtractedArtifacts {rows : List ExtractedArtifactRow}
    (hrow : ∀ x ∈ rows, x ∈ db.extractedArtifacts ∨ x.exportId ∈ db.exports.map (·.id)) :
    ({ db with extractedArtifacts := rows } : Database).Consistent := by
  refine h.of_growth .extractedArtifacts ?_ (fun _ hid => nomatch hid) (resolve_reference hrow)
  intro t ht; cases t <;> first | exact ⟨rfl, rfl⟩ | exact absurd rfl ht

theorem Consistent.setCompletenessReports {rows : List CompletenessReportRow}
    (hrow : ∀ x ∈ rows, x ∈ db.completenessReports ∨
      x.importRunId ∈ db.importRuns.map (·.id)) :
    ({ db with completenessReports := rows } : Database).Consistent := by
  refine h.of_growth .completenessReports ?_ (fun _ hid => nomatch hid) (resolve_reference hrow)
  intro t ht; cases t <;> first | exact ⟨rfl, rfl⟩ | exact absurd rfl ht

theorem Consistent.setOutboxEvents {rows : List OutboxEventRow}
    (hrow : ∀ x ∈ rows, x ∈ db.outboxEvents ∨
      ∀ e, x.exportId = some e → e ∈ db.exports.map (·.id)) :
    ({ db with outboxEvents := rows } : Database).Consistent := by
  refine h.of_growth .outboxEvents ?_ (fun _ hid => nomatch hid) (resolve_optional hrow)
  intro t ht; cases t <;> first | exact ⟨rfl, rfl⟩ | exact absurd rfl ht

theorem Consistent.setAnnouncedSubjects {rows : List AnnouncedSubjectRow}
    (hrow : ∀ x ∈ rows, x ∈ db.announcedSubjects ∨ x.accountId ∈ db.accounts.map (·.id)) :
    ({ db with announcedSubjects := rows } : Database).Consistent := by
  refine h.of_growth .announcedSubjects ?_ (fun _ hid => nomatch hid) (resolve_reference hrow)
  intro t ht; cases t <;> first | exact ⟨rfl, rfl⟩ | exact absurd rfl ht

theorem Consistent.setReparseRuns {rows : List ReparseRunRow}
    (hrow : ∀ x ∈ rows, x ∈ db.reparseRuns ∨ x.exportId ∈ db.exports.map (·.id)) :
    ({ db with reparseRuns := rows } : Database).Consistent := by
  refine h.of_growth .reparseRuns ?_ (fun _ hid => nomatch hid) (resolve_reference hrow)
  intro t ht; cases t <;> first | exact ⟨rfl, rfl⟩ | exact absurd rfl ht

theorem Consistent.setRequests {rows : List PrivacyDeletionRequestRow}
    (hids : ∀ id ∈ db.privacyDeletionRequests.map (·.id), id ∈ rows.map (·.id)) :
    ({ db with privacyDeletionRequests := rows } : Database).Consistent := by
  refine h.of_growth .privacyDeletionRequests ?_ hids (fun r hr => nomatch hr)
  intro t ht; cases t <;> first | exact ⟨rfl, rfl⟩ | exact absurd rfl ht

theorem Consistent.setItems {rows : List PrivacyDeletionItemRow}
    (hrow : ∀ x ∈ rows, x ∈ db.privacyDeletionItems ∨
      x.requestId ∈ db.privacyDeletionRequests.map (·.id)) :
    ({ db with privacyDeletionItems := rows } : Database).Consistent := by
  refine h.of_growth .privacyDeletionItems ?_ (fun _ hid => nomatch hid) (resolve_reference hrow)
  intro t ht; cases t <;> first | exact ⟨rfl, rfl⟩ | exact absurd rfl ht

theorem Consistent.setAudits {rows : List PrivacyDeletionAuditRow}
    (hrow : ∀ x ∈ rows, x ∈ db.privacyDeletionAudits ∨
      x.requestId ∈ db.privacyDeletionRequests.map (·.id)) :
    ({ db with privacyDeletionAudits := rows } : Database).Consistent := by
  refine h.of_growth .privacyDeletionAudits ?_ (fun _ hid => nomatch hid) (resolve_reference hrow)
  intro t ht; cases t <;> first | exact ⟨rfl, rfl⟩ | exact absurd rfl ht

end ChatgptArchive.Database
