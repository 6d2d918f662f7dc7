import ChatgptArchive.Schema

/-!
# Foreign keys

Every reference of the schema as data: the referencing row, and the table and identity it names.
A statement violates a constraint exactly when a reference is dangling at its end.
-/

namespace ChatgptArchive

inductive TableName where
  | accounts | exports | importRuns | platformOperationImports | projects | conversations
  | messages | messageRelations | contentParts | assets | revisions | rawRecords | observations
  | extractedArtifacts | completenessReports | outboxEvents | announcedSubjects | inboxEvents
  | privacyDeletionRequests | privacyDeletionItems | privacyDeletionAudits | reparseRuns
  deriving DecidableEq, Repr

structure Reference where
  source : TableName
  row : Nat
  target : TableName
  id : Uuid
  deriving DecidableEq, Repr

def optionalReference (source : TableName) (row : Nat) (target : TableName) (id : Option Uuid) :
    List Reference :=
  id.toList.map fun id => ⟨source, row, target, id⟩

@[grind =] theorem mem_optionalReference {source : TableName} {row : Nat} {target : TableName}
    {id : Option Uuid} {r : Reference} :
    r ∈ optionalReference source row target id ↔ ∃ i, id = some i ∧ r = ⟨source, row, target, i⟩ := by
  cases id <;> simp [optionalReference]

@[grind] def ExportRow.references (r : ExportRow) : List Reference :=
  [⟨.exports, r.id, .accounts, r.accountId⟩]

@[grind] def ImportRunRow.references (r : ImportRunRow) : List Reference :=
  optionalReference .importRuns r.id .exports r.exportId

@[grind] def PlatformOperationImportRow.references (r : PlatformOperationImportRow) : List Reference :=
  [⟨.platformOperationImports, r.operationId, .importRuns, r.importRunId⟩,
    ⟨.platformOperationImports, r.operationId, .exports, r.exportId⟩]

@[grind] def ProjectRow.references (r : ProjectRow) : List Reference :=
  ⟨.projects, r.id, .accounts, r.accountId⟩ ::
    (optionalReference .projects r.id .exports r.firstSeenExport ++
      optionalReference .projects r.id .exports r.lastSeenExport)

@[grind] def ConversationRow.references (r : ConversationRow) : List Reference :=
  ⟨.conversations, r.id, .accounts, r.accountId⟩ ::
    (optionalReference .conversations r.id .projects r.projectId ++
      (optionalReference .conversations r.id .exports r.firstSeenExport ++
        optionalReference .conversations r.id .exports r.lastSeenExport))

@[grind] def MessageRow.references (r : MessageRow) : List Reference :=
  ⟨.messages, r.id, .conversations, r.conversationId⟩ ::
    optionalReference .messages r.id .messages r.parentMessageId

@[grind] def MessageRelationRow.references (r : MessageRelationRow) : List Reference :=
  [⟨.messageRelations, r.id, .messages, r.fromMessageId⟩,
    ⟨.messageRelations, r.id, .messages, r.toMessageId⟩] ++
    optionalReference .messageRelations r.id .exports r.observedInExport

@[grind] def ContentPartRow.references (r : ContentPartRow) : List Reference :=
  [⟨.contentParts, r.id, .messages, r.messageId⟩]

@[grind] def AssetRow.references (r : AssetRow) : List Reference :=
  optionalReference .assets r.id .exports r.observedIn

@[grind] def RevisionRow.references (r : RevisionRow) : List Reference :=
  [⟨.revisions, r.id, .exports, r.observedIn⟩]

@[grind] def RawRecordRow.references (r : RawRecordRow) : List Reference :=
  [⟨.rawRecords, r.id, .exports, r.exportId⟩]

@[grind] def ObservationRow.references (r : ObservationRow) : List Reference :=
  [⟨.observations, r.entityId, .exports, r.exportId⟩]

@[grind] def ExtractedArtifactRow.references (r : ExtractedArtifactRow) : List Reference :=
  [⟨.extractedArtifacts, r.id, .exports, r.exportId⟩]

@[grind] def CompletenessReportRow.references (r : CompletenessReportRow) : List Reference :=
  [⟨.completenessReports, r.id, .importRuns, r.importRunId⟩]

@[grind] def OutboxEventRow.references (r : OutboxEventRow) : List Reference :=
  optionalReference .outboxEvents r.id .exports r.exportId

@[grind] def AnnouncedSubjectRow.references (r : AnnouncedSubjectRow) : List Reference :=
  [⟨.announcedSubjects, r.subjectId, .accounts, r.accountId⟩]

@[grind] def InboxEventRow.references (r : InboxEventRow) : List Reference :=
  optionalReference .inboxEvents r.id .exports r.exportId

@[grind] def PrivacyDeletionItemRow.references (r : PrivacyDeletionItemRow) : List Reference :=
  [⟨.privacyDeletionItems, r.ordinal, .privacyDeletionRequests, r.requestId⟩]

@[grind] def PrivacyDeletionAuditRow.references (r : PrivacyDeletionAuditRow) : List Reference :=
  [⟨.privacyDeletionAudits, r.id, .privacyDeletionRequests, r.requestId⟩]

@[grind] def ReparseRunRow.references (r : ReparseRunRow) : List Reference :=
  [⟨.reparseRuns, r.id, .exports, r.exportId⟩]

def TableName.all : List TableName :=
  [.accounts, .exports, .importRuns, .platformOperationImports, .projects, .conversations,
    .messages, .messageRelations, .contentParts, .assets, .revisions, .rawRecords, .observations,
    .extractedArtifacts, .completenessReports, .outboxEvents, .announcedSubjects, .inboxEvents,
    .privacyDeletionRequests, .privacyDeletionItems, .privacyDeletionAudits, .reparseRuns]

namespace Database

variable {db db' : Database}

def ids (db : Database) : TableName → List Uuid
  | .accounts => db.accounts.map (·.id)
  | .exports => db.exports.map (·.id)
  | .importRuns => db.importRuns.map (·.id)
  | .projects => db.projects.map (·.id)
  | .conversations => db.conversations.map (·.id)
  | .messages => db.messages.map (·.id)
  | .privacyDeletionRequests => db.privacyDeletionRequests.map (·.id)
  | _ => []

def referencesOf (db : Database) : TableName → List Reference
  | .accounts | .privacyDeletionRequests => []
  | .exports => db.exports.flatMap (·.references)
  | .importRuns => db.importRuns.flatMap (·.references)
  | .platformOperationImports => db.platformOperationImports.flatMap (·.references)
  | .projects => db.projects.flatMap (·.references)
  | .conversations => db.conversations.flatMap (·.references)
  | .messages => db.messages.flatMap (·.references)
  | .messageRelations => db.messageRelations.flatMap (·.references)
  | .contentParts => db.contentParts.flatMap (·.references)
  | .assets => db.assets.flatMap (·.references)
  | .revisions => db.revisions.flatMap (·.references)
  | .rawRecords => db.rawRecords.flatMap (·.references)
  | .observations => db.observations.flatMap (·.references)
  | .extractedArtifacts => db.extractedArtifacts.flatMap (·.references)
  | .completenessReports => db.completenessReports.flatMap (·.references)
  | .outboxEvents => db.outboxEvents.flatMap (·.references)
  | .announcedSubjects => db.announcedSubjects.flatMap (·.references)
  | .inboxEvents => db.inboxEvents.flatMap (·.references)
  | .privacyDeletionItems => db.privacyDeletionItems.flatMap (·.references)
  | .privacyDeletionAudits => db.privacyDeletionAudits.flatMap (·.references)
  | .reparseRuns => db.reparseRuns.flatMap (·.references)

def danglingReferences (db : Database) : List Reference :=
  (TableName.all.flatMap db.referencesOf).filter fun r => !(db.ids r.target).contains r.id

def Consistent (db : Database) : Prop :=
  ∀ table, ∀ r ∈ db.referencesOf table, r.id ∈ db.ids r.target

theorem mem_danglingReferences {r : Reference} :
    r ∈ db.danglingReferences ↔ (∃ table, r ∈ db.referencesOf table) ∧ r.id ∉ db.ids r.target := by
  have hall : ∀ table : TableName, table ∈ TableName.all := by
    intro table
    cases table <;> decide
  simp [danglingReferences, hall]

theorem danglingReferences_eq_nil_iff : db.danglingReferences = [] ↔ db.Consistent := by
  rw [List.eq_nil_iff_forall_not_mem]
  constructor
  · intro h table r hr
    by_contra hid
    exact h r (mem_danglingReferences.mpr ⟨⟨table, hr⟩, hid⟩)
  · rintro h r hr
    obtain ⟨⟨table, hr⟩, hid⟩ := mem_danglingReferences.mp hr
    exact hid (h table r hr)

/-- A statement that changes one table keeps the constraints when the references its rows make
resolve and no row that is still referenced left it. -/
theorem Consistent.of_change (h : db.Consistent) (table : TableName)
    (hrefs : ∀ t, t ≠ table → db'.referencesOf t = db.referencesOf t)
    (hids : ∀ t, t ≠ table → db'.ids t = db.ids t)
    (hrow : ∀ r ∈ db'.referencesOf table, r ∈ db.referencesOf table ∨ r.id ∈ db'.ids r.target)
    (hkeep : ∀ t, ∀ r ∈ db'.referencesOf t, r.target = table → r.id ∈ db.ids table →
      r.id ∈ db'.ids table) : db'.Consistent := by
  have hold : ∀ t, ∀ r ∈ db'.referencesOf t, r ∈ db.referencesOf t → r.id ∈ db'.ids r.target := by
    intro t r hr hr'
    by_cases ht : r.target = table
    · rw [ht]
      exact hkeep t r hr ht (ht ▸ h t r hr')
    · rw [hids _ ht]
      exact h t r hr'
  intro t r hr
  by_cases ht : t = table
  · subst ht
    rcases hrow r hr with hr' | hid
    · exact hold t r hr hr'
    · exact hid
  · exact hold t r hr (hrefs t ht ▸ hr)

theorem Consistent.of_growth (h : db.Consistent) (table : TableName)
    (hframe : ∀ t, t ≠ table → db'.referencesOf t = db.referencesOf t ∧ db'.ids t = db.ids t)
    (hgrow : ∀ id ∈ db.ids table, id ∈ db'.ids table)
    (hrow : ∀ r ∈ db'.referencesOf table, r ∈ db.referencesOf table ∨ r.id ∈ db'.ids r.target) :
    db'.Consistent :=
  h.of_change table (fun t ht => (hframe t ht).1) (fun t ht => (hframe t ht).2) hrow
    fun _ r _ _ hid => hgrow r.id hid

theorem Consistent.empty : Database.empty.Consistent := by
  intro table r hr
  cases table <;> cases hr

end Database

end ChatgptArchive
