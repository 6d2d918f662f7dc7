import ChatgptArchive.PrivacyDeletion.Restore

/-!
# Announcing survivors again

When a deletion tombstones an archive, each retained record whose latest fact names that archive
is announced again under the earliest retained export that presented what the record holds.
-/

namespace ChatgptArchive

open NormalizedArchiveEvent

/-- The retained records whose latest announced fact names a deleted archive. -/
structure Survivors where
  projects : List Uuid
  conversations : List Uuid
  deriving DecidableEq, Repr

def EventPayload.announcedArchive : EventPayload → Option Uuid
  | .conversationAdded fact | .conversationUpdated fact => some fact.importProvenance.aiArchiveId
  | .projectAdded fact | .projectUpdated fact => some fact.importProvenance.aiArchiveId
  | _ => none

structure RetainedImport where
  exportId : Uuid
  archiveId : Uuid
  owner : TenantRef
  sourceExport : BlobRef
  importedAt : Instant
  parser : Option ParserId
  deriving DecidableEq, Repr

abbrev Repair := RetainedImport × NormalizedArchiveEvent

namespace Database

def itemIds (db : Database) (requestId : Uuid) (category : Category) (action : DeletionAction) :
    List Uuid :=
  (db.privacyDeletionItems.filter fun i =>
    i.requestId = requestId && i.category = category && i.action = action).filterMap fun i =>
      match i.opaqueId with
      | .uuid id => some id
      | _ => none

def retainedUnderDeleted (db : Database) (requestId : Uuid) (category : Category)
    (types : List EventType) (archives : List Uuid) : List Uuid :=
  (db.itemIds requestId category .retainEvidenced).filter fun id =>
    ((db.latestFact id types).bind fun e => e.envelope.payload.announcedArchive).any
      archives.contains

def findSurvivors (db : Database) (requestId : Uuid) : Survivors :=
  -- finds the survivors before the scope's rows are removed
  let exports := db.itemIds requestId .export .remove
  let archives := (db.exports.filter fun e => exports.contains e.id).map (·.aiArchiveId)
  { projects := db.retainedUnderDeleted requestId .project projectTypes archives
    conversations :=
      db.retainedUnderDeleted requestId .conversation conversationTypes archives }

def heldDigest (db : Database) : EntityKind → Uuid → Option ContentDigest
  | .project, id => (db.projects.find? fun p => p.id = id).bind (·.contentDigest)
  | .conversation, id => (db.conversations.find? fun c => c.id = id).bind (·.contentDigest)
  | _, _ => none

def earliestRetained (db : Database) (kind : EntityKind) (id : Uuid) : Option Uuid :=
  -- the earliest retained export that presented the content the record holds now; one that
  -- presented other content is named only when no export presented this
  let differs (o : ObservationRow) : Bool := o.contentDigest ≠ db.heldDigest kind id
  ((db.observations.filter fun o => o.kind = kind && o.entityId = id).flatMap fun o =>
    (db.exports.filter fun e => e.id = o.exportId).map fun e => (o, e)).insertionSort
      (fun a b => (differs a.1 = false ∧ differs b.1 = true) ∨
        (differs a.1 = differs b.1 ∧ arrivalOrder a.2 b.2)) |>.head?.map (·.2.id)

def announcedImportedAt (db : Database) (archiveId : Uuid) : Option Instant :=
  ((db.outboxEvents.filter fun e =>
      e.eventType = .archiveImported && e.aggregateId = archiveId).insertionSort
    fun a b => a.id ≤ b.id).head?.bind fun e =>
      match e.envelope.payload with
      | .archiveImported head => some head.importedAt
      | _ => none

def runParser (db : Database) (exportId : Uuid) : Option ParserId :=
  ((db.importRuns.filter fun r => r.exportId = some exportId && r.parserName.isSome &&
      r.parserVersion.isSome).insertionSort
    fun a b => b.startedAt < a.startedAt ∨ (b.startedAt = a.startedAt ∧ b.id ≤ a.id)).head?.bind
      fun r => r.parserName.bind fun name => r.parserVersion.map fun version => ⟨name, version⟩

end Database

section Contract

variable (contracts : Contracts)

def contractParser (parser : ParserId) : Except ProjectionError ParserId := do
  let name ← represented (contractParserName contracts parser.name)
  let version ← represented (parseText contracts.parserVersion parser.version)
  return ⟨name, version⟩

def RetainedImport.stampedParser (retained : RetainedImport) :
    Option ParserId → Except ProjectionError ParserId
  -- the parser a fact is stamped with: the record's own stamp, or the import's parser
  | some parser => contractParser contracts parser
  | none => represented retained.parser

def RetainedImport.base (retained : RetainedImport) (stamp : Option ParserId) :
    Except ProjectionError AiArchiveProvenance := do
  let parser ← retained.stampedParser contracts stamp
  let provider ← represented (parseText contracts.aiProvider "chatgpt")
  return { aiArchiveId := retained.archiveId, provider, owner := retained.owner
           sourceExport := retained.sourceExport, importedAt := retained.importedAt
           parserName := parser.name, parserVersion := parser.version }

def stampOf (parserName parserVersion : Option String) : Option ParserId :=
  parserName.bind fun name => parserVersion.map fun version => ⟨name, version⟩

namespace Database

def contractRunParser (db : Database) (exportId : Uuid) :
    Except ProjectionError (Option ParserId) :=
  match db.runParser exportId with
  | none => .ok none
  | some parser => (contractParser contracts parser).map some

def loadRetainedImport (db : Database) (exportId : Uuid) (tombstonedAt : Instant) :
    Except ProjectionError (Option RetainedImport) :=
  -- `none` when the retained archive was never announced
  match db.exports.find? fun e => e.id = exportId with
  | none => .error .store
  | some row =>
    match db.ownerOfArchive row.aiArchiveId with
    | none => .ok none
    | some owner => do
      let parser ← db.contractRunParser contracts exportId
      return some
        { exportId, archiveId := row.aiArchiveId, owner, sourceExport := row.blobRef
          importedAt := (db.announcedImportedAt row.aiArchiveId).getD tombstonedAt, parser }

def enqueueRepair (db : Database) (requestId accountId : Uuid) (tombstonedAt : Instant)
    (ordinal : Nat) (retained : RetainedImport) (event : NormalizedArchiveEvent) : Database :=
  -- queues one repair fact, stamped after the tombstone and in the order of the repair
  (db.enqueueNormalizedEvent tombstonedAt (event.occurringAt (tombstonedAt + 1000 + ordinal))
    { accountId, exportId := some retained.exportId
      deduplicationKey := .reannounce requestId event.eventType event.aggregateId }).2

def survivorProvenance (db : Database) (kind : EntityKind) (id : Uuid) (stamp : Option ParserId)
    (tombstonedAt : Instant) :
    Except ProjectionError (Option (RetainedImport × AiArchiveProvenance)) :=
  match db.earliestRetained kind id with
  | none => .ok none
  | some exportId => do
    match ← db.loadRetainedImport contracts exportId tombstonedAt with
    | none => return none
    | some retained =>
      let base ← retained.base contracts stamp
      return some (retained, base)

/-- What a survivor is announced with: the retained import and the event of its rows as they now
stand, if there is an archive to announce it under. -/
def survivorRepair (db : Database) (kind : EntityKind) (id : Uuid) (stamp : Option ParserId)
    (tombstonedAt : Instant)
    (event : AiArchiveProvenance → Except ProjectionError NormalizedArchiveEvent) :
    Except ProjectionError (Option Repair) := do
  match ← db.survivorProvenance contracts kind id stamp tombstonedAt with
  | none => return none
  | some (retained, base) => return some (retained, ← event base)

def projectRepair (tombstonedAt : Instant) (db : Database) (row : ProjectRow) :
    Except ProjectionError (Option Repair) :=
  db.survivorRepair contracts .project row.id (stampOf row.parserName row.parserVersion)
    tombstonedAt fun base => do
      let fact ← projectFact contracts row base
      ofOutbox (projectUpdated contracts fact)

def conversationRepair (tombstonedAt : Instant) (db : Database) (row : ConversationRow) :
    Except ProjectionError (Option Repair) :=
  db.survivorRepair contracts .conversation row.id (stampOf row.parserName row.parserVersion)
    tombstonedAt fun base => do
      let fact ← db.conversationFact contracts row base
      ofOutbox (conversationUpdated contracts fact)

def repairRows {ρ : Type} (repair : Database → ρ → Except ProjectionError (Option Repair))
    (requestId accountId : Uuid) (tombstonedAt : Instant) :
    Database → Nat → List ρ → Except ProjectionError (Database × Nat)
  -- the loop over the survivors of one kind; a survivor without a repair is passed over
  | db, ordinal, [] => .ok (db, ordinal)
  | db, ordinal, row :: rows => do
    match ← repair db row with
    | none => repairRows repair requestId accountId tombstonedAt db ordinal rows
    | some (retained, event) =>
      repairRows repair requestId accountId tombstonedAt
        (db.enqueueRepair requestId accountId tombstonedAt ordinal retained event) (ordinal + 1)
        rows

/-- Announces every survivor again, projects first and then conversations, as the rows now
stand. -/
def reannounce (db : Database) (requestId accountId : Uuid) (tombstonedAt : Instant)
    (survivors : Survivors) : Except ProjectionError Database := do
  let (db, ordinal) ← repairRows (projectRepair contracts tombstonedAt) requestId accountId
    tombstonedAt db 0
    ((db.projects.filter fun p => survivors.projects.contains p.id).insertionSort projectRowOrder)
  let (db, _) ← repairRows (conversationRepair contracts tombstonedAt) requestId accountId
    tombstonedAt db ordinal
    ((db.conversations.filter fun c => survivors.conversations.contains c.id).insertionSort
      conversationRowOrder)
  return db

end Database

end Contract

end ChatgptArchive
