import ChatgptArchive.Schema

/-!
# The versions of the records that cumulative exports share

A project or conversation is one row per account however many exports contain it. Each export
that observes the record names the digest of the version it presented, and `entityVersions` keeps
one snapshot per distinct digest.
-/

namespace ChatgptArchive

def named (observations : List ObservationRow) (version : EntityVersionRow) : Bool :=
  observations.any fun o =>
    o.kind = version.kind && o.entityId = version.entityId &&
      o.contentDigest = some version.contentDigest

namespace Database

variable (db : Database)

def freshUuid : Uuid × Database :=
  (db.nextUuid, { db with nextUuid := db.nextUuid + 1 })

def recordObservation (exportId : Uuid) (kind : EntityKind) (entityId : Uuid)
    (digest : ContentDigest) : Database :=
  { db with
    observations := (Table.upsert
      (fun o => o.exportId = exportId && o.kind = kind && o.entityId = entityId)
      ⟨exportId, kind, entityId, some digest⟩
      (fun o => { o with contentDigest := some digest }) db.observations).2 }

def dropLeftVersions (kind : EntityKind) (entityId : Uuid)
    (digest : ContentDigest) : Database :=
  -- a version no export presents is not evidence of anything, so it goes
  { db with
    entityVersions := Table.deleteWhere
      (fun v => v.kind = kind && v.entityId = entityId && v.contentDigest ≠ digest &&
        !named db.observations v) db.entityVersions }

def observe (exportId : Uuid) (kind : EntityKind) (entityId : Uuid)
    (digest : ContentDigest) : Database :=
  (db.recordObservation exportId kind entityId digest).dropLeftVersions kind entityId digest

def keepSnapshot (kind : EntityKind) (entityId : Uuid) (digest : ContentDigest)
    (snapshot : Snapshot) : Database :=
  -- keeps the snapshot of a version the first time any export presents its digest
  { db with
    entityVersions := Table.insertAbsent
      (fun v => v.kind = kind && v.entityId = entityId && v.contentDigest = digest)
      ⟨kind, entityId, digest, snapshot⟩ db.entityVersions }

def keepProjectVersion (projectId : Uuid) (version : ProjectVersion) : Database :=
  db.keepSnapshot .project projectId version.digest (.project version)

def setConversationDigest (conversationId : Uuid) (digest : ContentDigest) :
    Database :=
  { db with
    conversations := Table.updateWhere (fun c => c.id = conversationId)
      (fun c => { c with contentDigest := some digest }) db.conversations }

def keepConversationVersion (conversationId : Uuid) (digest : ContentDigest)
    (version : ConversationVersion) : Database :=
  (db.keepSnapshot .conversation conversationId digest (.conversation version)).setConversationDigest
    conversationId digest

def revisionsOf (conversationId : Uuid) : List RevisionRow :=
  db.revisions.filter fun r => r.entityId = conversationId

def latestRevisionDigest (conversationId : Uuid) : Option ContentDigest :=
  ((db.revisionsOf conversationId).insertionSort
    fun a b => b.revisionNumber ≤ a.revisionNumber).head?.map (·.digest)

def appendRevision (conversationId exportId : Uuid) (digest : ContentDigest)
    (parser : ParserId) : Database :=
  -- appends a revision of a conversation when the digest is not already the latest
  if db.latestRevisionDigest conversationId = some digest then db
  else
    let (id, db) := db.freshUuid
    { db with
    revisions := db.revisions ++ [{
        id, entityId := conversationId
        revisionNumber :=
          ((db.revisionsOf conversationId).map (·.revisionNumber)).max?.getD 0 + 1
        observedIn := exportId, digest
        parserName := parser.name, parserVersion := parser.version }] }

end Database

end ChatgptArchive
