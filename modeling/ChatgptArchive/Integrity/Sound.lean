import ChatgptArchive.Integrity.Tables
import ChatgptArchive.Reparse

/-!
# Sound databases

What every committed state satisfies: the constraints of the schema (references, identities and
unique keys), and that observations and records belong together.
-/

namespace ChatgptArchive

namespace Database

def Observes (db : Database) (exportId : Uuid) (kind : EntityKind) (entityId : Uuid) : Prop :=
  ∃ o ∈ db.observations, o.exportId = exportId ∧ o.kind = kind ∧ o.entityId = entityId

theorem observes_iff {db : Database} {exportId : Uuid} {kind : EntityKind} {entityId : Uuid} :
    db.observes exportId kind entityId = true ↔ db.Observes exportId kind entityId := by
  simp [observes, Observes, and_assoc]

def HasExport (db : Database) (exportId accountId : Uuid) : Prop :=
  ∃ e ∈ db.exports, e.id = exportId ∧ e.accountId = accountId

/-- The shared records with what they rest on. The tables of runs, deliveries and deletions are left
out. -/
def records (db : Database) : Database :=
  { empty with
    accounts := db.accounts, exports := db.exports, projects := db.projects
    conversations := db.conversations, messages := db.messages, contentParts := db.contentParts
    revisions := db.revisions, observations := db.observations
    entityVersions := db.entityVersions, extractedArtifacts := db.extractedArtifacts }

section Records

variable {db db' : Database} (h : db'.records = db.records)
include h

theorem records_frame {α : Type*} {f : Database → α} (hf : ∀ db, f db.records = f db) :
    f db' = f db := by
  rw [← hf db', h, hf]

theorem exports_of_records : db'.exports = db.exports := records_frame h fun _ => rfl

theorem accounts_of_records : db'.accounts = db.accounts := records_frame h fun _ => rfl

theorem hasExport_of_records {e a : Uuid} : db'.HasExport e a ↔ db.HasExport e a := by
  rw [HasExport, HasExport, exports_of_records h]

end Records

end Database

def ObservationRow.key (o : ObservationRow) : Uuid × EntityKind × Uuid :=
  (o.exportId, o.kind, o.entityId)

def EntityVersionRow.key (v : EntityVersionRow) : EntityKind × Uuid × ContentDigest :=
  (v.kind, v.entityId, v.contentDigest)

def ExportRow.key (e : ExportRow) : Uuid × String := (e.accountId, e.sha256Hex)

def ProjectRow.key (p : ProjectRow) : Uuid × String := (p.accountId, p.externalId)

def ConversationRow.key (c : ConversationRow) : Uuid × String := (c.accountId, c.externalId)

def MessageRow.key (m : MessageRow) : Uuid × String := (m.conversationId, m.externalId)

structure Sound (db : Database) : Prop where
  consistent : db.Consistent
  exportFresh : ∀ e ∈ db.exports, e.id < db.nextUuid
  projectFresh : ∀ p ∈ db.projects, p.id < db.nextUuid
  conversationFresh : ∀ c ∈ db.conversations, c.id < db.nextUuid
  messageFresh : ∀ m ∈ db.messages, m.id < db.nextUuid
  exportIds : (db.exports.map (·.id)).Nodup
  projectIds : (db.projects.map (·.id)).Nodup
  conversationIds : (db.conversations.map (·.id)).Nodup
  messageIds : (db.messages.map (·.id)).Nodup
  exportKeys : (db.exports.map ExportRow.key).Nodup
  projectKeys : (db.projects.map ProjectRow.key).Nodup
  conversationKeys : (db.conversations.map ConversationRow.key).Nodup
  messageKeys : (db.messages.map MessageRow.key).Nodup
  observationKeys : (db.observations.map ObservationRow.key).Nodup
  versionKeys : (db.entityVersions.map EntityVersionRow.key).Nodup
  observedProject : ∀ o ∈ db.observations, o.kind = .project →
    ∃ p ∈ db.projects, p.id = o.entityId ∧ db.HasExport o.exportId p.accountId
  observedConversation : ∀ o ∈ db.observations, o.kind = .conversation →
    ∃ c ∈ db.conversations, c.id = o.entityId ∧ db.HasExport o.exportId c.accountId
  observedMessage : ∀ o ∈ db.observations, o.kind = .message →
    ∃ m ∈ db.messages, m.id = o.entityId ∧
      db.Observes o.exportId .conversation m.conversationId
  messageObserved : ∀ m ∈ db.messages, ∃ e, db.Observes e .message m.id
  noAssetObservation : ∀ o ∈ db.observations, o.kind ≠ .asset
  noAssets : db.assets = []
  noMessageRelations : db.messageRelations = []
  noPartBlobs : ∀ p ∈ db.contentParts, p.blobRef = none

namespace Sound

variable {db : Database}

theorem empty : Sound Database.empty := by
  constructor <;> first
    | exact Database.Consistent.empty
    | exact List.nodup_nil
    | rfl
    | exact fun _ h => nomatch h

theorem freshUuid (h : Sound db) : Sound db.freshUuid.2 :=
  { h with
    exportFresh := fun e he => Nat.lt_succ_of_lt (h.exportFresh e he)
    projectFresh := fun p hp => Nat.lt_succ_of_lt (h.projectFresh p hp)
    conversationFresh := fun c hc => Nat.lt_succ_of_lt (h.conversationFresh c hc)
    messageFresh := fun m hm => Nat.lt_succ_of_lt (h.messageFresh m hm) }

end Sound

end ChatgptArchive
