import ChatgptArchive.Integrity.Events
import ChatgptArchive.Integrity.RowPhase

/-!
# A deletion keeps a database sound

What the row phase leaves, the restoration of the survivors, the tombstones and the facts that are
announced again.
-/

namespace ChatgptArchive

open List Table Outcome

namespace Database

variable {db : Database} {kind : EntityKind} {id tenantId : Uuid} {e : PrivacyDeletionError}

def Retained (db : Database) (exports : List Uuid) (kind : EntityKind) (id : Uuid) : Prop :=
  ∃ e, e ∉ exports ∧ db.Observes e kind id

theorem Retained.congr {exports exports' : List Uuid} (h : ∀ e, e ∈ exports ↔ e ∈ exports') :
    db.Retained exports kind id ↔ db.Retained exports' kind id :=
  exists_congr fun e => and_congr_left' (not_congr (h e))

/-- No listed record is observed outside the listed exports, and every message that no export
outside them observes is listed. -/
structure Decides (db : Database) (removed : Category → List Uuid) : Prop where
  project : ∀ id ∈ removed .project, ¬db.Retained (removed .export) .project id
  conversation : ∀ id ∈ removed .conversation, ¬db.Retained (removed .export) .conversation id
  message : ∀ m ∈ db.messages,
    m.id ∈ removed .message ↔ ¬db.Retained (removed .export) .message m.id

/-! ## What follows the restoration leaves the records alone -/

section Frame

variable {α : Type*} {f : Database → α} (hf : Undelivered f)
include hf

theorem enqueueTombstones_undelivered (now : Instant) (tenantId requestId : Uuid)
    (evidenceRef : BlobRef) (kind : SubjectKind) (subjectId : Uuid)
    (owners : List (TenantRef × Uuid)) : ∀ db : Database,
    f (enqueueTombstones now tenantId requestId evidenceRef kind subjectId db owners) = f db := by
  induction owners with
  | nil => exact fun _ => rfl
  | cons owner owners ih => exact fun db => (ih _).trans (enqueueNormalizedEvent_frame hf.delivery ..)

theorem insertTombstones_undelivered {requestId : Uuid}
    (hfinal : ∀ db kind subjectId, f (finalizeTombstone db requestId kind subjectId) = f db)
    (now : Instant) (tenantId : Uuid) (evidenceRef : BlobRef)
    (announcements : List Announcement) : ∀ db : Database,
    f (insertTombstones now tenantId requestId evidenceRef db announcements) = f db := by
  induction announcements with
  | nil => exact fun _ => rfl
  | cons announcement announcements ih =>
    intro db
    refine (ih _).trans ((hfinal _ _ _).trans ?_)
    exact (hf.delivery _ _ _ _).trans (enqueueTombstones_undelivered hf ..)

theorem enqueueOwnerErasure_undelivered (now : Instant) (requestRef : Uuid)
    (accountId : Option Uuid) (owner : TenantRef) (key : Nat → DeduplicationKey)
    (chunks : List (List Nat × Nat)) : ∀ db : Database,
    f (enqueueOwnerErasure now requestRef accountId owner key db chunks) = f db := by
  induction chunks with
  | nil => exact fun _ => rfl
  | cons chunk chunks ih => exact fun db => (ih _).trans (insertOutboxEvent_frame hf.delivery ..)

theorem enqueueErasureCommands_undelivered (db : Database) (now : Instant)
    (tenantId requestId : Uuid) (facts : PublishedFacts) :
    f (db.enqueueErasureCommands now tenantId requestId facts) = f db := by
  unfold enqueueErasureCommands
  generalize ascending (facts.map fun fact => fact.1.user) = users
  induction users generalizing db with
  | nil => rfl
  | cons user users ih => exact (ih _).trans (enqueueOwnerErasure_undelivered hf ..)

end Frame

theorem insertTombstones_records (now : Instant) (tenantId requestId : Uuid)
    (evidenceRef : BlobRef) (announcements : List Announcement) (db : Database) :
    (insertTombstones now tenantId requestId evidenceRef db announcements).records =
      db.records :=
  insertTombstones_undelivered undelivered_records (fun _ _ _ => rfl) ..

/-! ## A restoration that fails could not read a snapshot -/

theorem replayVersions_error (held : List Held) :
    ∀ {db : Database} {previous : Option ContentDigest} {e : PrivacyDeletionError},
      replayVersions tenantId id db previous held = .error e → e = .encode := by
  induction held with
  | nil =>
    intro db previous e h
    cases h
  | cons v held ih =>
    intro db previous e h
    unfold replayVersions at h
    split at h
    · exact ih h
    · split at h
      · cases h
        rfl
      · exact ih h

theorem rebuildRecord_error (h : db.rebuildRecord tenantId kind id = .error e) : e = .encode := by
  unfold rebuildRecord at h
  dsimp only at h
  split at h
  · cases h
  · unfold restoreProject at h
    split at h <;> cases h
    rfl
  · rcases bind_eq_error.mp h with hreplay | ⟨db₁, -, hrest⟩
    · exact replayVersions_error _ hreplay
    · split at hrest
      · cases hrest
      · split at hrest <;> cases hrest
        rfl
  · cases h
    rfl

theorem restoreRetainedVersions_error (h : db.restoreRetainedVersions tenantId = .error e) :
    e = .encode := by
  unfold restoreRetainedVersions at h
  dsimp only at h
  generalize db.dropVersionsOfMissing.staleRecords tenantId = records at h
  generalize db.dropVersionsOfMissing = db at h
  induction records generalizing db with
  | nil => cases h
  | cons record records ih =>
    rcases bind_eq_error.mp h with hrecord | ⟨db₁, -, hrest⟩
    · rcases bind_eq_error.mp hrecord with hrebuild | ⟨db₁, -, hdrop⟩
      · exact rebuildRecord_error hrebuild
      · cases hdrop
    · exact ih db₁ hrest

section Contract

variable {contracts : Contracts} {db : Database}

section Frame

variable {α : Type*} {f : Database → α} (hf : Undelivered f) {requestId accountId : Uuid}
  {tombstonedAt : Instant}
include hf

theorem enqueueRepair_undelivered (db : Database) (requestId accountId : Uuid)
    (tombstonedAt : Instant) (ordinal : Nat) (retained : RetainedImport)
    (event : NormalizedArchiveEvent) :
    f (db.enqueueRepair requestId accountId tombstonedAt ordinal retained event) = f db :=
  enqueueNormalizedEvent_frame hf.delivery ..

theorem repairRows_undelivered {ρ : Type}
    {repair : Database → ρ → Except ProjectionError (Option Repair)} (rows : List ρ) :
    ∀ {db db' : Database} {ordinal ordinal' : Nat},
    repairRows repair requestId accountId tombstonedAt db ordinal rows = .ok (db', ordinal') →
      f db' = f db := by
  induction rows with
  | nil =>
    intro db db' ordinal ordinal' hok
    cases hok
    rfl
  | cons row rows ih =>
    intro db db' ordinal ordinal' hok
    obtain ⟨outcome, -, hrest⟩ := bind_eq_ok.mp hok
    cases outcome with
    | none => exact ih hrest
    | some r => exact (ih hrest).trans (enqueueRepair_undelivered hf ..)

theorem reannounce_undelivered {db db' : Database} {survivors : Survivors}
    (hok : db.reannounce contracts requestId accountId tombstonedAt survivors = .ok db') :
    f db' = f db := by
  obtain ⟨⟨db₁, ordinal⟩, hprojects, hrest⟩ := bind_eq_ok.mp hok
  obtain ⟨⟨db₂, _⟩, hconversations, hdb⟩ := bind_eq_ok.mp hrest
  cases hdb
  exact (repairRows_undelivered hf _ hconversations).trans
    (repairRows_undelivered hf _ hprojects)

end Frame

section Finish

variable {db' : Database} {now : Instant} {evidenceRef : BlobRef} {requestId tenantId : Uuid}
  {survivors : Survivors} {announcements : List Announcement} {dropped : PublishedFacts}

theorem finishRemoval_eq_ok
    (hok : db.finishRemoval contracts now evidenceRef requestId tenantId survivors announcements
      dropped = .ok db') :
    ∃ restored announced, db.restoreRetainedVersions tenantId = .ok restored ∧
      restored.checked = .ok restored ∧
      ((insertTombstones now tenantId requestId evidenceRef restored
        announcements).enqueueErasureCommands now tenantId requestId dropped).reannounce contracts
          requestId tenantId now survivors = .ok announced ∧
      db' = (announced.recomputeBlobSharing requestId).markPurging now requestId evidenceRef := by
  obtain ⟨restored, hrestored, hrest⟩ := bind_eq_ok.mp hok
  obtain ⟨checked, hchecked, hrest⟩ := bind_eq_ok.mp hrest
  obtain ⟨announced, hannounced, hrest⟩ := bind_eq_ok.mp hrest
  obtain ⟨recomputed, hrecomputed, hdb⟩ := bind_eq_ok.mp hrest
  cases hdb
  obtain rfl := checked_eq_ok hchecked
  obtain rfl := checked_eq_ok hrecomputed
  exact ⟨restored, announced, hrestored, hchecked, mapError_eq_ok.mp hannounced, rfl⟩

theorem finishRemoval_records
    (hok : db.finishRemoval contracts now evidenceRef requestId tenantId survivors announcements
      dropped = .ok db') :
    ∃ restored, db.restoreRetainedVersions tenantId = .ok restored ∧
      db'.records = restored.records := by
  obtain ⟨restored, announced, hrestored, -, hannounced, rfl⟩ := finishRemoval_eq_ok hok
  refine ⟨restored, hrestored, ?_⟩
  have hlast : ((announced.recomputeBlobSharing requestId).markPurging now requestId
    evidenceRef).records = announced.records := rfl
  rw [hlast, reannounce_undelivered undelivered_records hannounced,
    enqueueErasureCommands_undelivered undelivered_records, insertTombstones_records]

end Finish

theorem survivorProvenance_names {kind : EntityKind} {id : Uuid} {stamp : Option ParserId}
    {now : Instant} {retained : RetainedImport} {base : AiArchiveProvenance}
    (hok : db.survivorProvenance contracts kind id stamp now = .ok (some (retained, base))) :
    ∃ row ∈ db.exports, retained.exportId = row.id ∧ base.aiArchiveId = row.aiArchiveId ∧
      db.earliestRetained kind id = some row.id := by
  unfold survivorProvenance at hok
  split at hok
  · cases hok
  · rename_i exportId hearliest
    obtain ⟨loaded, hload, hrest⟩ := bind_eq_ok.mp hok
    split at hrest
    · cases hrest
    · obtain ⟨base', hbase, heq⟩ := bind_eq_ok.mp hrest
      obtain ⟨parser, -, hbase⟩ := bind_eq_ok.mp hbase
      obtain ⟨provider, -, hbase⟩ := bind_eq_ok.mp hbase
      cases heq
      cases hbase
      unfold loadRetainedImport at hload
      split at hload
      · cases hload
      · rename_i row hfind
        split at hload
        · cases hload
        · obtain ⟨parser, -, heq⟩ := bind_eq_ok.mp hload
          cases heq
          have hid : row.id = exportId := by simpa using find?_some hfind
          exact ⟨row, mem_of_find?_eq_some hfind, hid.symm, rfl, hid ▸ hearliest⟩

section Repairs

variable {kind : EntityKind} {id : Uuid} {stamp : Option ParserId} {now : Instant} {repair : Repair}

theorem survivorRepair_eq_ok
    {event : AiArchiveProvenance → Except ProjectionError NormalizedArchiveEvent}
    (h : db.survivorRepair contracts kind id stamp now event = .ok (some repair)) :
    ∃ base, db.survivorProvenance contracts kind id stamp now = .ok (some (repair.1, base)) ∧
      event base = .ok repair.2 := by
  obtain ⟨provenance, hprovenance, h⟩ := bind_eq_ok.mp h
  cases provenance with
  | none => cases h
  | some provenance =>
    obtain ⟨event, hevent, h⟩ := bind_eq_ok.mp h
    cases h
    exact ⟨_, hprovenance, hevent⟩

theorem survivorRepair_export
    {event : AiArchiveProvenance → Except ProjectionError NormalizedArchiveEvent}
    (h : db.survivorRepair contracts kind id stamp now event = .ok (some repair)) :
    repair.1.exportId ∈ db.exports.map (·.id) := by
  obtain ⟨base, hprovenance, -⟩ := survivorRepair_eq_ok h
  obtain ⟨row, hrow, hid, -⟩ := survivorProvenance_names hprovenance
  exact mem_map.mpr ⟨row, hrow, hid.symm⟩

end Repairs

end Contract

end Database

namespace Sound

open Database

variable {db : Database} {tenantId : Uuid} {removed : Category → List Uuid}
  {inbox outbox : List Nat} {id : Uuid}

theorem persistPlan (h : Sound db) (tenantId requestId : Uuid) (scope : PrivacyDeletionScope)
    (items : List InventoryItem) : Sound (db.persistPlan tenantId requestId scope items) := by
  have hrequests : ({ db with
      privacyDeletionRequests :=
        (db.persistPlan tenantId requestId scope items).privacyDeletionRequests } :
        Database).Consistent := by
    refine h.consistent.setRequests fun i hi => ?_
    show i ∈ (db.privacyDeletionRequests ++ [_]).map PrivacyDeletionRequestRow.id
    rw [map_append]
    exact mem_append_left _ hi
  refine { h with consistent := hrequests.setItems fun i hi => ?_ }
  rcases mem_append.mp hi with hi | hi
  · exact .inl hi
  · obtain ⟨_, -, rfl⟩ := mem_map.mp hi
    exact .inr (mem_map.mpr
      ⟨_, mem_append_right _ (mem_singleton_self _), rfl⟩)

theorem deleteRawRecords (h : Sound db) (ids : List Uuid) :
    Sound (Database.deleteRawRecords ids db) :=
  { h with consistent := (LeafDelete.rawRecords ids).consistent h.consistent }

theorem deleteAccount (h : Sound db)
    (hconsistent : (Database.deleteAccount tenantId db).Consistent) :
    Sound (Database.deleteAccount tenantId db) :=
  { h with consistent := hconsistent }

/-- What a retained export observes stays, so the observations keep their records. -/
theorem deletedExports (h : Sound db) (hdecides : Decides db removed)
    (hconsistent : (exportsRemoved removed inbox outbox db).Consistent) :
    Sound (exportsRemoved removed inbox outbox db) := by
  have hobservations : ∀ {o}, o ∈ (exportsRemoved removed inbox outbox db).observations ↔
        o ∈ db.observations ∧ o.exportId ∉ removed .export := by
    intro o
    show o ∈ Table.deleteWhere _ (Table.deleteWhere _ db.observations) ↔ _
    simp
  have hobserves : ∀ {e k i}, db.Observes e k i → e ∉ removed .export →
      (exportsRemoved removed inbox outbox db).Observes e k i := by
    rintro e k i ⟨o, ho, rfl, hrest⟩ he
    exact ⟨o, hobservations.mpr ⟨ho, he⟩, rfl, hrest⟩
  have hexport : ∀ {e a}, db.HasExport e a → e ∉ removed .export →
      (exportsRemoved removed inbox outbox db).HasExport e a := by
    rintro e a ⟨r, hr, rfl, rfl⟩ he
    exact ⟨r, mem_deleteWhere.mpr ⟨hr, by simpa using he⟩, rfl, rfl⟩
  have hmessages : ∀ {m}, m ∈ (exportsRemoved removed inbox outbox db).messages ↔
        m ∈ db.messages ∧ m.id ∉ removed .message := by
    intro m
    show m ∈ Table.deleteWhere _ db.messages ↔ _
    simp
  have hretained : ∀ {o}, o ∈ db.observations → o.exportId ∉ removed .export →
      db.Retained (removed .export) o.kind o.entityId :=
    fun ho he => ⟨_, he, _, ho, rfl, rfl, rfl⟩
  constructor
  case consistent => exact hconsistent
  case exportFresh =>
    intro e he
    exact h.exportFresh e (mem_deleteWhere.mp he).1
  case projectFresh =>
    intro p hp
    obtain ⟨q, hq, -, _, _, rfl⟩ := mem_repointedProjects hp
    exact h.projectFresh q hq
  case conversationFresh =>
    intro c hc
    obtain ⟨d, hd, -, _, _, rfl⟩ := mem_repointedConversations hc
    show (unlinked (removed .project) d).id < db.nextUuid
    rw [unlinked_id]
    exact h.conversationFresh d hd
  case messageFresh =>
    intro m hm
    exact h.messageFresh m (hmessages.mp hm).1
  case exportIds => exact nodup_map_deleteWhere h.exportIds
  case exportKeys => exact nodup_map_deleteWhere h.exportKeys
  case projectIds =>
    refine nodup_map_updateWhere (nodup_map_deleteWhere h.projectIds) ?_
    exact fun _ => rfl
  case projectKeys =>
    refine nodup_map_updateWhere (nodup_map_deleteWhere h.projectKeys) ?_
    exact fun _ => rfl
  case conversationIds =>
    refine nodup_map_updateWhere (nodup_map_updateWhere
      (nodup_map_deleteWhere h.conversationIds) ?_) ?_ <;>
    exact fun _ => rfl
  case conversationKeys =>
    refine nodup_map_updateWhere (nodup_map_updateWhere
      (nodup_map_deleteWhere h.conversationKeys) ?_) ?_ <;>
    exact fun _ => rfl
  case messageIds => exact nodup_map_deleteWhere h.messageIds
  case messageKeys => exact nodup_map_deleteWhere h.messageKeys
  case observationKeys =>
    exact nodup_map_deleteWhere (nodup_map_deleteWhere h.observationKeys)
  case versionKeys => exact h.versionKeys
  case observedProject =>
    intro o ho hkind
    obtain ⟨ho, he⟩ := hobservations.mp ho
    obtain ⟨p, hp, hpid, haccount⟩ := h.observedProject o ho hkind
    -- a project that goes has no observation left
    have hkept : p.id ∉ removed .project := fun hmem =>
      hdecides.project p.id hmem (hpid ▸ hkind ▸ hretained ho he)
    obtain ⟨first, last, hmem⟩ := repointedProject_mem hp hkept
    exact ⟨_, hmem, hpid, hexport haccount he⟩
  case observedConversation =>
    intro o ho hkind
    obtain ⟨ho, he⟩ := hobservations.mp ho
    obtain ⟨c, hc, hcid, haccount⟩ := h.observedConversation o ho hkind
    have hkept : c.id ∉ removed .conversation := fun hmem =>
      hdecides.conversation c.id hmem (hcid ▸ hkind ▸ hretained ho he)
    obtain ⟨first, last, hmem⟩ := repointedConversation_mem hc hkept
    exact ⟨_, hmem, by simpa using hcid, hexport (by simpa using haccount) he⟩
  case observedMessage =>
    intro o ho hkind
    obtain ⟨ho, he⟩ := hobservations.mp ho
    obtain ⟨m, hm, hmid, hobs⟩ := h.observedMessage o ho hkind
    have hkept : m.id ∉ removed .message := fun hmem =>
      (hdecides.message m hm).mp hmem (hmid ▸ hkind ▸ hretained ho he)
    exact ⟨m, hmessages.mpr ⟨hm, hkept⟩, hmid, hobserves hobs he⟩
  case messageObserved =>
    intro m hm
    obtain ⟨hm, hkept⟩ := hmessages.mp hm
    obtain ⟨e, he, hobs⟩ := not_not.mp (mt (hdecides.message m hm).mpr hkept)
    exact ⟨e, hobserves hobs he⟩
  case noAssetObservation =>
    intro o ho
    exact h.noAssetObservation o (hobservations.mp ho).1
  case noAssets =>
    show Table.updateWhere _ _ (Table.deleteWhere _ db.assets) = []
    rw [h.noAssets]
    rfl
  case noMessageRelations =>
    show Table.deleteWhere _ db.messageRelations = []
    rw [h.noMessageRelations]
    rfl
  case noPartBlobs => exact fun p hp => h.noPartBlobs p (mem_deleteWhere.mp hp).1

theorem rowsRemoved (h : Sound db) (hdecides : Decides db removed)
    (hexports : (exportsRemoved removed inbox outbox db).Consistent)
    (hconsistent : (rowsRemoved removed inbox outbox tenantId db).Consistent) :
    Sound (rowsRemoved removed inbox outbox tenantId db) := by
  have hdeleted := h.deletedExports hdecides hexports
  unfold Database.rowsRemoved at hconsistent ⊢
  dsimp only at hconsistent ⊢
  split at hconsistent
  · rw [if_pos ‹_›]
    exact hdeleted
  · rw [if_neg ‹_›]
    exact hdeleted.deleteAccount hconsistent

/-! ## Restoration -/

theorem updateProjects (h : Sound db) {p : ProjectRow → Bool} {f : ProjectRow → ProjectRow}
    (hid : ∀ r, (f r).id = r.id) (hkey : ∀ r, (f r).key = r.key)
    (hfirst : ∀ r, (f r).firstSeenExport = r.firstSeenExport)
    (hlast : ∀ r, (f r).lastSeenExport = r.lastSeenExport) :
    Sound { db with projects := Table.updateWhere p f db.projects } := by
  have haccount : ∀ r, (f r).accountId = r.accountId := fun r => (Prod.ext_iff.mp (hkey r)).1
  have hmap : (Table.updateWhere p f db.projects).map (·.id) = db.projects.map (·.id) :=
    map_updateWhere hid _
  refine { h with
    consistent := h.consistent.setProjects (fun i hi => hmap.symm ▸ hi) fun x hx => ?_
    projectFresh := fun x hx => ?_
    projectIds := hmap.symm ▸ h.projectIds
    projectKeys := (map_updateWhere hkey db.projects).symm ▸ h.projectKeys
    observedProject := fun o ho hkind => ?_ }
  · rcases mem_updateWhere.mp hx with ⟨hx, -⟩ | ⟨q, hq, -, rfl⟩
    · exact .inl hx
    · exact .inr ⟨haccount q ▸ h.consistent.project_account hq,
        fun e he => h.consistent.project_firstSeen hq (hfirst q ▸ he),
        fun e he => h.consistent.project_lastSeen hq (hlast q ▸ he)⟩
  · rcases mem_updateWhere.mp hx with ⟨hx, -⟩ | ⟨q, hq, -, rfl⟩
    · exact h.projectFresh x hx
    · rw [hid]
      exact h.projectFresh q hq
  · obtain ⟨q, hq, hqid, hexport⟩ := h.observedProject o ho hkind
    by_cases hp : p q = true
    · exact ⟨f q, mem_updateWhere.mpr (.inr ⟨q, hq, hp, rfl⟩), (hid q).trans hqid,
        haccount q ▸ hexport⟩
    · exact ⟨q, mem_updateWhere.mpr (.inl ⟨hq, by simpa using hp⟩), hqid, hexport⟩

theorem restoreProject (h : Sound db) {id : Uuid} {held : Held} {db' : Database}
    (hok : db.restoreProject id held = .ok db') :
    Sound db' ∧ db'.unwritten = db.unwritten := by
  unfold Database.restoreProject at hok
  split at hok
  · cases hok
  · cases hok
    exact ⟨h.updateProjects (fun _ => rfl) (fun _ => rfl) (fun _ => rfl) (fun _ => rfl), rfl⟩

theorem clearProjectLink (h : Sound db) (id : Uuid) : Sound (db.clearProjectLink id) :=
  h.updateConversations (fun _ => rfl) (fun _ => rfl) (fun _ _ _ hq => nomatch hq)
    (fun _ hc _ => h.consistent.conversation_firstSeen hc)
    (fun _ hc _ => h.consistent.conversation_lastSeen hc)

theorem clearParts (h : Sound db) (conversationId : Uuid) : Sound (db.clearParts conversationId) :=
  { h with
    consistent := h.consistent.setContentParts fun _ hp => .inl (mem_deleteWhere.mp hp).1
    noPartBlobs := fun p hp => h.noPartBlobs p (mem_deleteWhere.mp hp).1 }

theorem findProject_mem {externalId : String} (hfind : db.findProject tenantId externalId = some id) :
    id ∈ db.projects.map (·.id) := by
  obtain ⟨p, hp, rfl⟩ := Option.map_eq_some_iff.mp hfind
  exact mem_map_of_mem (mem_of_find?_eq_some hp)

theorem replayVersions (held : List Held) :
    ∀ {db db' : Database} {previous : Option ContentDigest}, Sound db →
      (∀ v ∈ held, db.Observes v.exportId .conversation id) →
      Database.replayVersions tenantId id db previous held = .ok db' →
      Sound db' ∧ Grows db db' := by
  induction held with
  | nil =>
    intro db db' previous h _ hok
    cases hok
    exact ⟨h, .refl db⟩
  | cons v held ih =>
    intro db db' previous h hobs hok
    unfold Database.replayVersions at hok
    split at hok
    · exact ih h (fun w hw => hobs w (mem_cons_of_mem _ hw)) hok
    · split at hok
      · cases hok
      · rename_i version _
        have hproject : ∀ p, version.projectExternalId.bind (db.findProject tenantId) = some p →
            p ∈ db.projects.map (·.id) := by
          intro p hp
          obtain ⟨externalId, -, hfind⟩ := Option.bind_eq_some_iff.mp hp
          exact findProject_mem hfind
        obtain ⟨hdetail, hgrows⟩ := h.persistConversationDetail version.conversation
          ⟨version.parserName, version.parserVersion⟩ (hobs v (mem_cons_self ..)) hproject
        obtain ⟨hsound, hrest⟩ := ih hdetail
          (fun w hw => hgrows.observes (hobs w (mem_cons_of_mem _ hw))) hok
        exact ⟨hsound, hgrows.trans hrest⟩

theorem mem_retainedVersions {kind : EntityKind} {v : Held} (hv : v ∈ db.retainedVersions kind id) :
    db.Observes v.exportId kind id := by
  obtain ⟨⟨e, w⟩, hw, rfl⟩ := mem_map.mp hv
  rw [mem_insertionSort] at hw
  simp only [mem_flatMap, mem_filter, mem_map, Prod.mk.injEq, Bool.and_eq_true,
    decide_eq_true_eq] at hw
  obtain ⟨o, ⟨ho, hk, hi⟩, e', ⟨-, he⟩, v', -, -, rfl⟩ := hw
  exact ⟨o, ho, he.symm, hk, hi⟩

theorem restoreConversation (h : Sound db) {tenantId id : Uuid} {held : List Held}
    {db' : Database} (hobs : ∀ v ∈ held, db.Observes v.exportId .conversation id)
    (hok : db.restoreConversation tenantId id held = .ok db') :
    Sound db' ∧ db'.unwritten = db.unwritten := by
  obtain ⟨db₁, hreplay, hrest⟩ := bind_eq_ok.mp hok
  obtain ⟨hsound, hgrows⟩ := replayVersions held ((h.clearProjectLink id).clearParts id) hobs hreplay
  split at hrest
  · cases hrest
    exact ⟨hsound, hgrows.unwritten⟩
  · rename_i last hlast
    split at hrest
    · cases hrest
    · cases hrest
      have hobserved := hgrows.observes (hobs last (mem_of_mem_getLast? hlast))
      exact ⟨(hsound.setConversationDigest id last.digest).appendRevision id last.digest _
          (hsound.observes_export hobserved),
        (Grows.appendRevision ..).unwritten.trans hgrows.unwritten⟩

theorem rebuildRecord (h : Sound db) {tenantId : Uuid} {kind : EntityKind} {id : Uuid}
    {db' : Database} (hok : db.rebuildRecord tenantId kind id = .ok db') :
    Sound db' ∧ db'.unwritten = db.unwritten := by
  unfold Database.rebuildRecord at hok
  dsimp only at hok
  split at hok
  · cases hok
    exact ⟨h, rfl⟩
  · exact h.restoreProject hok
  · exact h.restoreConversation (fun _ hv => mem_retainedVersions hv) hok
  · cases hok

theorem restoreRecord (h : Sound db) {tenantId : Uuid} {kind : EntityKind} {id : Uuid}
    {db' : Database} (hok : db.restoreRecord tenantId kind id = .ok db') :
    Sound db' ∧ db'.unwritten = db.unwritten := by
  obtain ⟨db₁, hrebuilt, hdrop⟩ := bind_eq_ok.mp hok
  cases hdrop
  obtain ⟨h₁, hframe⟩ := h.rebuildRecord hrebuilt
  exact ⟨h₁.setVersions (nodup_map_deleteWhere h₁.versionKeys), hframe⟩

theorem restoreRecords (records : List (EntityKind × Uuid)) :
    ∀ {db db' : Database}, Sound db → Database.restoreRecords tenantId db records = .ok db' →
      Sound db' ∧ db'.unwritten = db.unwritten := by
  induction records with
  | nil =>
    intro db db' h hok
    cases hok
    exact ⟨h, rfl⟩
  | cons record records ih =>
    intro db db' h hok
    obtain ⟨db₁, hrecord, hrest⟩ := bind_eq_ok.mp hok
    obtain ⟨h₁, hframe⟩ := h.restoreRecord hrecord
    obtain ⟨hsound, hframe'⟩ := ih h₁ hrest
    exact ⟨hsound, hframe'.trans hframe⟩

theorem restoreRetainedVersions (h : Sound db) {tenantId : Uuid} {db' : Database}
    (hok : db.restoreRetainedVersions tenantId = .ok db') :
    Sound db' ∧ db'.unwritten = db.unwritten := by
  have hdropped : Sound db.dropVersionsOfMissing :=
    h.setVersions (nodup_map_deleteWhere h.versionKeys)
  obtain ⟨hsound, hframe⟩ := restoreRecords (db.dropVersionsOfMissing.staleRecords tenantId)
    hdropped hok
  exact ⟨hsound, hframe⟩

/-! ## Tombstones and erasure commands -/

theorem enqueueTombstones (now : Instant) (tenantId requestId : Uuid) (evidenceRef : BlobRef)
    (kind : SubjectKind) (subjectId : Uuid) (owners : List (TenantRef × Uuid)) :
    ∀ {db : Database}, Sound db →
      Sound (Database.enqueueTombstones now tenantId requestId evidenceRef kind subjectId db
        owners) := by
  induction owners with
  | nil => exact fun h => h
  | cons owner owners ih =>
    intro db h
    exact ih (h.enqueueNormalizedEvent _ _ _ (fun e he => nomatch he) fun ha => nomatch ha)

theorem forgetSubject (h : Sound db) (accountId : Uuid) (kind : SubjectKind) (subjectId : Uuid) :
    Sound (db.forgetSubject accountId kind subjectId) :=
  { h with
    consistent := h.consistent.setAnnouncedSubjects fun _ ha =>
      .inl (mem_deleteWhere.mp ha).1 }

theorem updateItems (h : Sound db) {p : PrivacyDeletionItemRow → Bool}
    {f : PrivacyDeletionItemRow → PrivacyDeletionItemRow}
    (hrequest : ∀ i, (f i).requestId = i.requestId) :
    Sound { db with
      privacyDeletionItems := Table.updateWhere p f db.privacyDeletionItems } := by
  refine { h with consistent := h.consistent.setItems fun x hx => ?_ }
  rcases mem_updateWhere.mp hx with ⟨hx, -⟩ | ⟨i, hi, -, rfl⟩
  · exact .inl hx
  · exact .inr (hrequest i ▸ h.consistent.item_request hi)

theorem insertTombstones (now : Instant) (tenantId requestId : Uuid) (evidenceRef : BlobRef)
    (announcements : List Announcement) : ∀ {db : Database}, Sound db →
      Sound (Database.insertTombstones now tenantId requestId evidenceRef db announcements) := by
  induction announcements with
  | nil => exact fun h => h
  | cons announcement announcements ih =>
    intro db h
    refine ih (((enqueueTombstones now tenantId requestId evidenceRef announcement.kind
      announcement.subjectId announcement.owners h).forgetSubject tenantId announcement.kind
        announcement.subjectId).updateItems fun _ => rfl)

theorem enqueueErasureChunks (now : Instant) (tenantId requestId : Uuid) (owner : TenantRef)
    (chunks : List (List Nat × Nat)) : ∀ {db : Database}, Sound db →
      Sound (Database.enqueueErasureChunks now tenantId requestId owner db chunks) := by
  induction chunks with
  | nil => exact fun h => h
  | cons chunk chunks ih =>
    intro db h
    exact ih (h.insertOutboxEvent _ _ _ _ fun e he => nomatch he)

theorem enqueueErasureCommands (h : Sound db) (now : Instant) (tenantId requestId : Uuid)
    (facts : PublishedFacts) :
    Sound (db.enqueueErasureCommands now tenantId requestId facts) := by
  unfold Database.enqueueErasureCommands
  generalize ascending (facts.map fun fact => fact.1.user) = users
  induction users generalizing db with
  | nil => exact h
  | cons user users ih => exact ih (enqueueErasureChunks now tenantId requestId ⟨user⟩ _ h)

/-! ## Announcing survivors -/

section Contract

variable {contracts : Contracts} {now : Instant} {requestId accountId : Uuid}

theorem enqueueRepair (h : Sound db) (ordinal : Nat) {retained : RetainedImport}
    (event : NormalizedArchiveEvent) (hexport : retained.exportId ∈ db.exports.map (·.id))
    (haccount : accountId ∈ db.accounts.map (·.id)) :
    Sound (db.enqueueRepair requestId accountId now ordinal retained event) :=
  h.enqueueNormalizedEvent _ _ _ (fun _ he => Option.some.inj he ▸ hexport) fun _ => haccount

theorem repairRows {ρ : Type} {repair : Database → ρ → Except ProjectionError (Option Repair)}
    (hexport : ∀ {db row r}, repair db row = .ok (some r) → r.1.exportId ∈ db.exports.map (·.id))
    (rows : List ρ) :
    ∀ {db db' : Database} {ordinal ordinal' : Nat}, Sound db →
      (rows ≠ [] → accountId ∈ db.accounts.map (·.id)) →
      Database.repairRows repair requestId accountId now db ordinal rows =
        .ok (db', ordinal') → Sound db' := by
  induction rows with
  | nil =>
    intro db db' ordinal ordinal' h _ hok
    cases hok
    exact h
  | cons row rows ih =>
    intro db db' ordinal ordinal' h haccount hok
    have haccount := haccount (cons_ne_nil _ _)
    obtain ⟨outcome, hrepair, hrest⟩ := bind_eq_ok.mp hok
    cases outcome with
    | none => exact ih h (fun _ => haccount) hrest
    | some r =>
      refine ih (h.enqueueRepair ordinal r.2 (hexport hrepair) haccount) (fun _ => ?_) hrest
      rwa [accounts_of_records (enqueueRepair_undelivered undelivered_records ..)]

theorem reannounce (h : Sound db) {survivors : Survivors} {db' : Database}
    (haccount : accountId ∈ db.accounts.map (·.id) ∨
      (survivors.projects = [] ∧ survivors.conversations = []))
    (hok : db.reannounce contracts requestId accountId now survivors = .ok db') : Sound db' := by
  obtain ⟨⟨db₁, ordinal⟩, hprojects, hrest⟩ := bind_eq_ok.mp hok
  obtain ⟨⟨db₂, _⟩, hconversations, hdb⟩ := bind_eq_ok.mp hrest
  cases hdb
  have hrecords := repairRows_undelivered undelivered_records _ hprojects
  refine repairRows survivorRepair_export _
    (repairRows survivorRepair_export _ h (fun hne => ?_) hprojects) (fun hne => ?_) hconversations
  · rcases haccount with haccount | ⟨hnone, -⟩
    · exact haccount
    · simp [hnone] at hne
  · rw [accounts_of_records hrecords]
    rcases haccount with haccount | ⟨-, hnone⟩
    · exact haccount
    · simp [hnone] at hne

end Contract

/-! ## The end of the phase -/

theorem recomputeBlobSharing (h : Sound db) (requestId : Uuid) :
    Sound (db.recomputeBlobSharing requestId) := by
  refine h.updateItems fun i => ?_
  split <;> rfl

theorem markPurging (h : Sound db) (now : Instant) (requestId : Uuid) (evidenceRef : BlobRef) :
    Sound (db.markPurging now requestId evidenceRef) := by
  refine { h with consistent := h.consistent.setRequests fun i hi => ?_ }
  rw [map_updateWhere]
  · exact hi
  · exact fun _ => rfl

section Finish

variable {contracts : Contracts} {now : Instant} {evidenceRef : BlobRef}
  {requestId tenantId : Uuid} {survivors : Survivors} {announcements : List Announcement}
  {dropped : PublishedFacts}

theorem tombstoned (h : Sound db) :
    Sound ((Database.insertTombstones now tenantId requestId evidenceRef db
      announcements).enqueueErasureCommands now tenantId requestId dropped) :=
  (insertTombstones now tenantId requestId evidenceRef announcements h).enqueueErasureCommands now
    tenantId requestId dropped

theorem recomputed (h : Sound db) {announced : Database}
    (haccount : tenantId ∈ db.accounts.map (·.id) ∨
      (survivors.projects = [] ∧ survivors.conversations = []))
    (hannounced : ((Database.insertTombstones now tenantId requestId evidenceRef db
      announcements).enqueueErasureCommands now tenantId requestId dropped).reannounce contracts
        requestId tenantId now survivors = .ok announced) :
    Sound (announced.recomputeBlobSharing requestId) := by
  refine (h.tombstoned.reannounce ?_ hannounced).recomputeBlobSharing requestId
  rwa [accounts_of_records (enqueueErasureCommands_undelivered undelivered_records ..),
    accounts_of_records (insertTombstones_records ..)]

theorem finishRemoval {db' : Database} (h : Sound db)
    (haccount : tenantId ∈ db.accounts.map (·.id) ∨
      (survivors.projects = [] ∧ survivors.conversations = []))
    (hok : db.finishRemoval contracts now evidenceRef requestId tenantId survivors announcements
      dropped = .ok db') : Sound db' := by
  obtain ⟨restored, hrestored, hrest⟩ := bind_eq_ok.mp hok
  obtain ⟨hsound, hframe⟩ := h.restoreRetainedVersions hrestored
  obtain ⟨checked, hchecked, hrest⟩ := bind_eq_ok.mp hrest
  rw [checked_of_consistent hsound.consistent] at hchecked
  cases hchecked
  obtain ⟨announced, hannounced, hrest⟩ := bind_eq_ok.mp hrest
  rw [← show restored.accounts = db.accounts from unwritten_frame hframe fun _ => rfl] at haccount
  have hrecomputed := hsound.recomputed haccount (mapError_eq_ok.mp hannounced)
  rw [checked_of_consistent hrecomputed.consistent] at hrest
  cases hrest
  exact hrecomputed.markPurging now requestId evidenceRef

theorem finishRemoval_error (h : Sound db) (refs : List Reference)
    (haccount : tenantId ∈ db.accounts.map (·.id) ∨
      (survivors.projects = [] ∧ survivors.conversations = [])) :
    db.finishRemoval contracts now evidenceRef requestId tenantId survivors announcements
      dropped ≠ .error (.foreignKey refs) := by
  intro herror
  rcases bind_eq_error.mp herror with hrestore | ⟨restored, hrestored, hrest⟩
  · cases restoreRetainedVersions_error hrestore
  obtain ⟨hsound, hframe⟩ := h.restoreRetainedVersions hrestored
  rw [checked_of_consistent hsound.consistent] at hrest
  rcases bind_eq_error.mp hrest with hchecked | ⟨checked, hchecked, hrest⟩
  · cases hchecked
  cases hchecked
  rcases bind_eq_error.mp hrest with hannounce | ⟨announced, hannounced, hrest⟩
  · obtain ⟨e, -, he⟩ := mapError_eq_error.mp hannounce
    cases he
  rw [← show restored.accounts = db.accounts from unwritten_frame hframe fun _ => rfl] at haccount
  have hrecomputed := hsound.recomputed haccount (mapError_eq_ok.mp hannounced)
  rw [checked_of_consistent hrecomputed.consistent] at hrest
  cases hrest

end Finish

end Sound

end ChatgptArchive
