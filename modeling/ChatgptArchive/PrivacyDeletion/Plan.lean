import Mathlib.Data.List.Dedup
import ChatgptArchive.ContractProjection
import ChatgptArchive.ForeignKeys

/-!
# Planning a privacy deletion

The inventory of a scope: every selected export with its dependents, every project, conversation and
message the exports observe with the decision to remove or retain it, and the tombstones the removal
owes.
-/

namespace ChatgptArchive

inductive PrivacyDeletionError where
  | conflict
  | store
  | encode
  | projection (error : ProjectionError)
  /-- A statement left references that name no row. -/
  | foreignKey (dangling : List Reference)
  deriving DecidableEq, Repr

structure InventoryItem where
  category : Category
  opaqueId : OpaqueId
  action : DeletionAction
  blobRef : Option BlobRef
  deriving DecidableEq, Repr

@[simp] def item (category : Category) (id : Uuid) (action : DeletionAction) : InventoryItem :=
  ⟨category, .uuid id, action, none⟩

@[simp] def blobItem (category : Category) (id : Uuid) (action : DeletionAction) (blobRef : BlobRef) :
    InventoryItem :=
  ⟨category, .uuid id, action, some blobRef⟩

@[simp] def serialItem (category : Category) (id : Nat) : InventoryItem :=
  ⟨category, .serial id, .remove, none⟩

@[simp] def tombstoneItem (kind : SubjectKind) (id : Uuid) : InventoryItem :=
  ⟨.downstreamTombstone, .subject kind id, .emitTombstone, none⟩

def ascending (ids : List Uuid) : List Uuid := ids.dedup.insertionSort (· ≤ ·)

theorem mem_ascending {ids : List Uuid} {id : Uuid} : id ∈ ascending ids ↔ id ∈ ids := by
  simp [ascending]

namespace Database

variable (db : Database)

def selectedExports (tenantId : Uuid) (scope : PrivacyDeletionScope) :
    Option (List ExportRow) :=
  -- the exports of a scope; `none` stands for an unknown or foreign subject
  if db.accounts.any fun a => a.id = tenantId then
    match scope with
    | .archive aiArchiveId =>
      let rows := db.exports.filter fun e => e.accountId = tenantId && e.aiArchiveId = aiArchiveId
      if rows.isEmpty then none else some rows
    | .conversation conversationId =>
      if db.conversations.any fun c => c.id = conversationId && c.accountId = tenantId then
        some (db.exports.filter fun e =>
          e.accountId = tenantId && db.observes e.id .conversation conversationId)
      else none
    | .tenant => some (db.exports.filter fun e => e.accountId = tenantId)
  else none

def sourceBlobIsShared (exportIds : List Uuid) (blobRef : BlobRef) : Bool :=
  -- another export or artifact outside the selection carries the same reference
  (db.exports.any fun e => !exportIds.contains e.id && e.blobRef = blobRef) ||
    db.extractedArtifacts.any fun a => !exportIds.contains a.exportId && a.blobRef = blobRef

def sourceBlobAction (exportIds : List Uuid) (blobRef : BlobRef) :
    DeletionAction :=
  if db.sourceBlobIsShared exportIds blobRef then .retainShared else .erase

@[simp] def exportItems (exportIds : List Uuid) (exports : List ExportRow) :
    List InventoryItem :=
  exports.flatMap fun e =>
    [item .export e.id .remove,
      blobItem .rawArchiveBlob e.id (db.sourceBlobAction exportIds e.blobRef) e.blobRef]

def boundToExports (exportIds : List Uuid) (p : PlatformOperationImportRow) :
    Bool :=
  exportIds.contains p.exportId ||
    db.importRuns.any fun r => r.id = p.importRunId && r.exportId.any exportIds.contains

@[simp] def sourceRowItems (exportIds : List Uuid) : List InventoryItem :=
  ((db.observations.filter fun o => exportIds.contains o.exportId).map fun o =>
      ⟨.exportObservation, .observation o.exportId o.kind o.entityId, .remove, none⟩) ++
    ((db.extractedArtifacts.filter fun a => exportIds.contains a.exportId).flatMap fun a =>
      [item .extractedArtifact a.id .remove,
        blobItem .extractedArtifactBlob a.id (db.sourceBlobAction exportIds a.blobRef) a.blobRef]) ++
    ((db.importRuns.filter fun r => r.exportId.any exportIds.contains).map fun r =>
      item .importRun r.id .remove) ++
    ((db.completenessReports.filter fun c => db.importRuns.any fun r =>
        r.id = c.importRunId && r.exportId.any exportIds.contains).map fun c =>
      item .completenessReport c.id .remove) ++
    ((db.rawRecords.filter fun r => exportIds.contains r.exportId).map fun r =>
      item .rawRecord r.id .remove) ++
    ((db.platformOperationImports.filter (db.boundToExports exportIds)).map fun p =>
      item .platformOperationImport p.operationId .remove) ++
    ((db.reparseRuns.filter fun r => exportIds.contains r.exportId).map fun r =>
      item .reparseRun r.id .remove)

def ownedIds (tenantId : Uuid) : EntityKind → List Uuid
  -- what a tenant-scope deletion selects of a kind beyond what its exports observe
  | .project => (db.projects.filter fun p => p.accountId = tenantId).map (·.id)
  | .conversation => (db.conversations.filter fun c => c.accountId = tenantId).map (·.id)
  | .message => (db.messages.filter fun m => db.conversations.any fun c =>
      c.id = m.conversationId && c.accountId = tenantId).map (·.id)
  | .asset => (db.assets.filter fun a => db.exports.any fun e =>
      a.observedIn = some e.id && e.accountId = tenantId).map (·.id)

def entityIds (exportIds : List Uuid) (tenantId : Uuid)
    (scope : PrivacyDeletionScope) (kind : EntityKind) : List Uuid :=
  let observed := (db.observations.filter fun o =>
    exportIds.contains o.exportId && o.kind = kind).map (·.entityId)
  ascending (observed ++ match scope with
    | .conversation conversationId => if kind = .conversation then [conversationId] else []
    | .tenant => db.ownedIds tenantId kind
    | .archive _ => [])

def messageIds (exportIds : List Uuid) (tenantId : Uuid)
    (scope : PrivacyDeletionScope) : List Uuid :=
  -- the messages of a scope: the observed ones and every message of a selected conversation
  let conversationIds := db.entityIds exportIds tenantId scope .conversation
  ascending (db.entityIds exportIds tenantId scope .message ++
    (db.messages.filter fun m => conversationIds.contains m.conversationId).map (·.id))

def retainedObservation (exportIds : List Uuid) (kind : EntityKind)
    (entityId : Uuid) : Bool :=
  db.observations.any fun o =>
    o.kind = kind && o.entityId = entityId && !exportIds.contains o.exportId

def entityAction (exportIds : List Uuid) (kind : EntityKind) (entityId : Uuid) :
    DeletionAction :=
  if db.retainedObservation exportIds kind entityId then .retainEvidenced else .remove

def entityActions (exportIds : List Uuid) (tenantId : Uuid)
    (scope : PrivacyDeletionScope) : List (Uuid × DeletionAction) :=
  -- the decisions of a scope by identity; a later kind replaces an earlier one
  let decide (kind : EntityKind) (id : Uuid) := (id, db.entityAction exportIds kind id)
  (db.entityIds exportIds tenantId scope .asset).map (decide .asset) ++
    (db.messageIds exportIds tenantId scope).map (decide .message) ++
    (db.entityIds exportIds tenantId scope .conversation).map (decide .conversation) ++
    (db.entityIds exportIds tenantId scope .project).map (decide .project)

@[simp] def entityItems (exportIds : List Uuid) (tenantId : Uuid)
    (scope : PrivacyDeletionScope) : List InventoryItem :=
  ((db.entityIds exportIds tenantId scope .project).map fun id =>
      item .project id (db.entityAction exportIds .project id)) ++
    ((db.entityIds exportIds tenantId scope .conversation).map fun id =>
      item .conversation id (db.entityAction exportIds .conversation id)) ++
    ((db.messageIds exportIds tenantId scope).map fun id =>
      item .message id (db.entityAction exportIds .message id)) ++
    ((db.entityIds exportIds tenantId scope .asset).map fun id =>
      item .asset id (db.entityAction exportIds .asset id))

@[simp] def messageRelationItems (exportIds messageIds : List Uuid) :
    List InventoryItem :=
  (db.messageRelations.filter fun r =>
    messageIds.contains r.fromMessageId || messageIds.contains r.toMessageId ||
      r.observedInExport.any exportIds.contains).map fun r => item .messageRelation r.id .remove

@[simp] def contentPartItems (messageIds : List Uuid)
    (actions : List (Uuid × DeletionAction)) : List InventoryItem :=
  (db.contentParts.filter fun p => messageIds.contains p.messageId).flatMap fun p =>
    let action := (actions.lookup p.messageId).getD .remove
    item .contentPart p.id action :: (p.blobRef.toList.map fun blobRef =>
      blobItem .contentPartBlob p.id
        (if action = .retainEvidenced then .retainShared else .erase) blobRef)

@[simp] def assetBlobItems (assetIds : List Uuid)
    (actions : List (Uuid × DeletionAction)) : List InventoryItem :=
  (db.assets.filter fun a => assetIds.contains a.id).flatMap fun a =>
    a.blobRef.toList.map fun blobRef => blobItem .assetBlob a.id
      (if actions.lookup a.id = some .retainEvidenced then .retainShared else .erase) blobRef

@[simp] def revisionAndTombstoneItems (exportIds : List Uuid) (tenantId : Uuid)
    (scope : PrivacyDeletionScope) (actions : List (Uuid × DeletionAction)) :
    List InventoryItem :=
  ((db.revisions.filter fun r => exportIds.contains r.observedIn).map fun r =>
      item .revision r.id .remove) ++
    (if scope = .tenant then [item .account tenantId .remove] else []) ++
    (((db.entityIds exportIds tenantId scope .project).filter fun id =>
      actions.lookup id = some .remove).map (tombstoneItem .project)) ++
    (((db.entityIds exportIds tenantId scope .conversation).filter fun id =>
      actions.lookup id = some .remove).map (tombstoneItem .conversation))

def undeliveredRetraction (e : OutboxEventRow) : Bool :=
  -- a tombstone that is not acknowledged and an erasure command that is not published are the only
  -- record of what they ask for
  (e.eventType = .subjectTombstoned && e.acknowledgedAt.isNone) ||
    (e.eventType = .streamErasureRequested && e.publishedAt.isNone)

@[simp] def deliveryItems (exportIds : List Uuid) (tenantId : Uuid)
    (scope : PrivacyDeletionScope) : List InventoryItem :=
  let inScope (exportId : Option Uuid) : Bool :=
    scope = .tenant || exportId.any exportIds.contains
  ((db.inboxEvents.filter fun e => e.tenantId = some tenantId && inScope e.exportId).map fun e =>
      serialItem .inboxEvent e.id) ++
    ((db.outboxEvents.filter fun e => e.tenantId = some tenantId && inScope e.exportId &&
      !undeliveredRetraction e).map fun e => serialItem .outboxEvent e.id)

def inventory (tenantId : Uuid) (scope : PrivacyDeletionScope)
    (exports : List ExportRow) : List InventoryItem :=
  let exportIds := exports.map (·.id)
  let actions := db.entityActions exportIds tenantId scope
  let messageIds := db.messageIds exportIds tenantId scope
  db.exportItems exportIds exports ++
    db.sourceRowItems exportIds ++
    db.entityItems exportIds tenantId scope ++
    db.messageRelationItems exportIds messageIds ++
    db.contentPartItems messageIds actions ++
    db.assetBlobItems (db.entityIds exportIds tenantId scope .asset) actions ++
    db.revisionAndTombstoneItems exportIds tenantId scope actions ++
    db.deliveryItems exportIds tenantId scope ++
    exports.map fun e => tombstoneItem .archive e.aiArchiveId

end Database

/-! ## The order of an inventory -/

def Category.name : Category → String
  | .account => "account"
  | .asset => "asset"
  | .assetBlob => "asset_blob"
  | .completenessReport => "completeness_report"
  | .contentPart => "content_part"
  | .contentPartBlob => "content_part_blob"
  | .conversation => "conversation"
  | .downstreamTombstone => "downstream_tombstone"
  | .export => "export"
  | .exportObservation => "export_observation"
  | .extractedArtifact => "extracted_artifact"
  | .extractedArtifactBlob => "extracted_artifact_blob"
  | .importRun => "import_run"
  | .inboxEvent => "inbox_event"
  | .message => "message"
  | .messageRelation => "message_relation"
  | .outboxEvent => "outbox_event"
  | .platformOperationImport => "platform_operation_import"
  | .project => "project"
  | .rawArchiveBlob => "raw_archive_blob"
  | .rawRecord => "raw_record"
  | .reparseRun => "reparse_run"
  | .revision => "revision"

def EntityKind.rank : EntityKind → Nat
  | .asset => 0
  | .conversation => 1
  | .message => 2
  | .project => 3

def SubjectKind.rank : SubjectKind → Nat
  | .archive => 0
  | .conversation => 1
  | .project => 2

def OpaqueId.key : OpaqueId → Nat × Nat × Nat
  | .uuid id => (id, 0, 0)
  | .serial id => (id, 0, 0)
  | .observation exportId kind entityId => (exportId, kind.rank, entityId)
  | .subject kind id => (kind.rank, id, 0)

def DeletionAction.rank : DeletionAction → Nat
  | .erase => 0
  | .remove => 1
  | .retainShared => 2
  | .retainEvidenced => 3
  | .emitTombstone => 4

def inventoryOrder (a b : InventoryItem) : Prop :=
  ((compare a.category.name b.category.name).then
    ((compare a.opaqueId.key.1 b.opaqueId.key.1).then
      ((compare a.opaqueId.key.2.1 b.opaqueId.key.2.1).then
        ((compare a.opaqueId.key.2.2 b.opaqueId.key.2.2).then
          (compare a.action.rank b.action.rank))))) ≠ .gt

instance : DecidableRel inventoryOrder := fun _ _ => inferInstanceAs (Decidable (_ ≠ _))

namespace Database

def persistPlan (db : Database) (tenantId requestId : Uuid) (scope : PrivacyDeletionScope)
    (items : List InventoryItem) : Database :=
  { db with
    privacyDeletionRequests := db.privacyDeletionRequests ++ [{
      id := requestId, tenantId, scope, status := .planned, correlationId := none
      evidenceRef := none, rowsRemovedAt := none }]
    privacyDeletionItems := db.privacyDeletionItems ++ items.zipIdx.map fun (item, ordinal) =>
      { requestId, ordinal, category := item.category, opaqueId := item.opaqueId
        action := item.action, state := .planned, blobRef := item.blobRef } }

def plan (db : Database) (tenantId requestId : Uuid) (scope : PrivacyDeletionScope) :
    Except PrivacyDeletionError (Option Database) :=
  -- persists the inventory of a scope under a new request identity. A known identity answers with
  -- its stored plan, or contradicts it
  match db.selectedExports tenantId scope with
  | none => .ok none
  | some exports =>
    match db.privacyDeletionRequests.find? fun r => r.id = requestId with
    | some existing =>
      if existing.tenantId = tenantId ∧ existing.scope = scope then .ok (some db)
      else .error .conflict
    | none =>
      .ok (some (db.persistPlan tenantId requestId scope
        ((db.inventory tenantId scope exports).insertionSort inventoryOrder)))

end Database

end ChatgptArchive
