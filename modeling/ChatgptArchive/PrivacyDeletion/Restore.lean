import ChatgptArchive.PrivacyDeletion.Plan

/-!
# Restoring the records a deletion keeps

A record is stale when some version it keeps is named by no retained export. It is rebuilt from
the versions retained exports name, oldest export first.
-/

namespace ChatgptArchive

structure Held where
  exportId : Uuid
  digest : ContentDigest
  snapshot : Snapshot
  deriving DecidableEq, Repr

def arrivalOrder (a b : ExportRow) : Prop :=
  a.receivedAt < b.receivedAt ∨ (a.receivedAt = b.receivedAt ∧ a.id ≤ b.id)

instance : DecidableRel arrivalOrder := fun _ _ => inferInstanceAs (Decidable (_ ∨ _))

def recordOrder (a b : EntityKind × Uuid) : Prop :=
  a.1.rank < b.1.rank ∨ (a.1.rank = b.1.rank ∧ a.2 ≤ b.2)

instance : DecidableRel recordOrder := fun _ _ => inferInstanceAs (Decidable (_ ∨ _))

namespace Database

variable (db : Database)

def hasRecord (kind : EntityKind) (id : Uuid) : Bool :=
  (kind = .project && db.projects.any fun p => p.id = id) ||
    (kind = .conversation && db.conversations.any fun c => c.id = id)

def dropVersionsOfMissing : Database :=
  { db with
    entityVersions := Table.deleteWhere (fun v => !db.hasRecord v.kind v.entityId)
      db.entityVersions }

def ownsRecord (tenantId id : Uuid) : Bool :=
  (db.projects.any fun p => p.id = id && p.accountId = tenantId) ||
    db.conversations.any fun c => c.id = id && c.accountId = tenantId

def staleRecords (tenantId : Uuid) : List (EntityKind × Uuid) :=
  -- the records of the tenant that keep a version no observation names
  ((db.entityVersions.filter fun v =>
      !named db.observations v && db.ownsRecord tenantId v.entityId).map
    fun v => (v.kind, v.entityId)).dedup.insertionSort recordOrder

def retainedVersions (kind : EntityKind) (id : Uuid) : List Held :=
  -- the versions retained exports presented of one record, oldest export first
  ((db.observations.filter fun o => o.kind = kind && o.entityId = id).flatMap fun o =>
    (db.exports.filter fun e => e.id = o.exportId).flatMap fun e =>
      (db.entityVersions.filter fun v => v.kind = o.kind && v.entityId = o.entityId &&
        some v.contentDigest = o.contentDigest).map fun v =>
          (e, Held.mk e.id v.contentDigest v.snapshot)).insertionSort
    (fun a b => arrivalOrder a.1 b.1) |>.map (·.2)

def restoreProject (id : Uuid) (held : Held) :
    Except PrivacyDeletionError Database :=
  -- a project holds one state, so it takes the newest retained version
  match held.snapshot with
  | .conversation _ => .error .encode
  | .project version =>
    .ok { db with
      projects := Table.updateWhere (fun p => p.id = id)
        (fun p => { p with
          title := version.title, description := version.description
          instructions := version.instructions, parserName := some version.parserName
          parserVersion := some version.parserVersion
          contentDigest := some held.digest }) db.projects }

def findProject (tenantId : Uuid) (externalId : String) : Option Uuid :=
  (db.projects.find? fun p => p.accountId = tenantId && p.externalId = externalId).map (·.id)

def replayVersions (tenantId id : Uuid) :
    Database → Option ContentDigest → List Held → Except PrivacyDeletionError Database
  -- writes the retained versions again in the order the exports arrived; a version equal to the one
  -- just written is skipped
  | db, _, [] => .ok db
  | db, previous, held :: rest =>
    if previous = some held.digest then replayVersions tenantId id db previous rest
    else match held.snapshot with
      | .project _ => .error .encode
      | .conversation version =>
        replayVersions tenantId id
          (db.persistConversationDetail held.exportId id
            (version.projectExternalId.bind (db.findProject tenantId)) version.conversation
            ⟨version.parserName, version.parserVersion⟩) (some held.digest) rest

def clearProjectLink (id : Uuid) : Database :=
  { db with
    conversations := Table.updateWhere (fun c => c.id = id)
      (fun c => { c with projectId := none }) db.conversations }

def clearParts (conversationId : Uuid) : Database :=
  { db with
    contentParts := Table.deleteWhere
      (fun p => db.messages.any fun m => m.id = p.messageId && m.conversationId = conversationId)
      db.contentParts }

def restoreConversation (tenantId id : Uuid) (held : List Held) :
    Except PrivacyDeletionError Database := do
  let db ← replayVersions tenantId id ((db.clearProjectLink id).clearParts id) none held
  match held.getLast? with
  -- a conversation's parts are a history, so they are written again from the retained versions
  | none => return db
  | some last =>
    match last.snapshot with
    | .project _ => .error .encode
    | .conversation version =>
      return (db.setConversationDigest id last.digest).appendRevision id last.exportId last.digest
        ⟨version.parserName, version.parserVersion⟩

def dropUnnamedVersions (kind : EntityKind) (id : Uuid) : Database :=
  { db with
    entityVersions := Table.deleteWhere
      (fun v => v.kind = kind && v.entityId = id && !named db.observations v)
      db.entityVersions }

def rebuildRecord (tenantId : Uuid) (kind : EntityKind) (id : Uuid) :
    Except PrivacyDeletionError Database :=
  -- writes a record again from the versions retained exports presented. A record that none of them
  -- presents keeps whatever it holds
  let held := db.retainedVersions kind id
  match held.getLast?, kind with
  | none, _ => .ok db
  | some newest, .project => db.restoreProject id newest
  | some _, .conversation => db.restoreConversation tenantId id held
  | some _, _ => .error .encode

def restoreRecord (tenantId : Uuid) (kind : EntityKind) (id : Uuid) :
    Except PrivacyDeletionError Database := do
  let db ← db.rebuildRecord tenantId kind id
  return db.dropUnnamedVersions kind id

def restoreRecords (tenantId : Uuid) :
    Database → List (EntityKind × Uuid) → Except PrivacyDeletionError Database
  | db, [] => .ok db
  | db, (kind, id) :: records => do
    let db ← db.restoreRecord tenantId kind id
    restoreRecords tenantId db records

def restoreRetainedVersions (tenantId : Uuid) :
    Except PrivacyDeletionError Database :=
  -- restores every project and conversation of the tenant that keeps content no retained export
  -- holds, and drops the versions of records that no longer exist
  let db := db.dropVersionsOfMissing
  restoreRecords tenantId db (db.staleRecords tenantId)

end Database

end ChatgptArchive
