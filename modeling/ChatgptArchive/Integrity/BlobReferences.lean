import ChatgptArchive.Integrity.PhaseA

/-!
# Stored blob references

The references the rows of a database carry, and the ones each event can add: a published archive
and the artifacts of an import. Every other transaction only removes references.
-/

namespace ChatgptArchive

open List

namespace Database

def blobRefs (db : Database) : List BlobRef :=
  db.exports.map (·.blobRef) ++ db.extractedArtifacts.map (·.blobRef) ++
    db.assets.filterMap (·.blobRef) ++ db.contentParts.filterMap (·.blobRef)

theorem blobIsReferenced_iff {db : Database} {blobRef : BlobRef} :
    db.blobIsReferenced blobRef = true ↔ blobRef ∈ db.blobRefs := by
  simp [blobIsReferenced, blobRefs, or_assoc]

end Database

def Event.registers : Event → List BlobRef
  | .publish _ request => [request.blobRef]
  | .importRun _ _ _ artifacts => artifacts
  | .reparse _ _ _ _ _ _ artifacts => artifacts
  | _ => []

namespace Database

def sourceRefs (db : Database) : List BlobRef :=
  db.exports.map (·.blobRef) ++ db.extractedArtifacts.map (·.blobRef)

variable {db db' : Database} {r : BlobRef}

theorem sourceRefs_of_records (h : db'.records = db.records) : db'.sourceRefs = db.sourceRefs :=
  records_frame h fun _ => rfl

theorem sourceRefs_of_unwritten (h : db'.unwritten = db.unwritten) :
    db'.sourceRefs = db.sourceRefs :=
  unwritten_frame h fun _ => rfl

theorem mem_sourceRefs :
    r ∈ db.sourceRefs ↔
      (∃ e ∈ db.exports, e.blobRef = r) ∨ ∃ a ∈ db.extractedArtifacts, a.blobRef = r := by
  simp [sourceRefs]

theorem sourceRefs_insertArtifacts (exportId : Uuid) {r : BlobRef}
    (references : List (BlobRef × Nat)) : ∀ {db : Database},
    r ∈ (insertArtifacts exportId db references).sourceRefs →
      r ∈ db.sourceRefs ∨ r ∈ references.map (·.1) := by
  induction references with
  | nil => exact fun h => .inl h
  | cons head references ih =>
    intro db hr
    rcases ih hr with hr | hr
    · rcases mem_sourceRefs.mp hr with he | ⟨a, ha, hrow⟩
      · exact .inl (mem_sourceRefs.mpr (.inl he))
      · rcases Table.mem_insertAbsent.mp ha with ha | ⟨rfl, -⟩
        · exact .inl (mem_sourceRefs.mpr (.inr ⟨a, ha, hrow⟩))
        · exact .inr (mem_cons.mpr (.inl hrow.symm))
    · exact .inr (mem_cons_of_mem _ hr)

theorem sourceRefs_persistArtifacts {plan : ReparsePlan}
    (hr : r ∈ (db.persistArtifacts plan).sourceRefs) : r ∈ db.sourceRefs ∨ r ∈ plan.artifacts := by
  refine (sourceRefs_insertArtifacts _ _ hr).imp_right fun hr => ?_
  rwa [zipIdx_map_fst] at hr

theorem sourceRefs_guardedRunUpdate {runId : Uuid} {expected : ImportState}
    {update : ImportRunRow → ImportRunRow} (hok : db.guardedRunUpdate runId expected update = .ok db') :
    db'.sourceRefs = db.sourceRefs := by
  unfold guardedRunUpdate at hok
  dsimp only at hok
  split at hok <;> cases hok
  rfl

theorem sourceRefs_publishExport {now : Instant} {request : PublishRequest}
    (hok : db.publishExport now request = .ok db') (hr : r ∈ db'.sourceRefs) :
    r ∈ db.sourceRefs ∨ r = request.blobRef := by
  have haccount : (db.upsertAccount request.accountExternalRef).2.sourceRefs = db.sourceRefs := rfl
  unfold publishExport at hok
  generalize db.upsertAccount request.accountExternalRef = upserted at hok haccount
  obtain ⟨account, db₁⟩ := upserted
  dsimp only at hok haccount
  split at hok
  · cases hok
  · split at hok
    · cases hok
    · rename_i db₂ hupdate
      have hr : r ∈ (db₁.insertExport now account.id request).2.sourceRefs := by
        rw [← sourceRefs_guardedRunUpdate hupdate]
        split at hok <;> (cases hok; exact hr)
      rw [← haccount]
      rcases mem_sourceRefs.mp hr with ⟨e, he, hrow⟩ | ha
      · rcases Table.mem_inserted.mp he with he | rfl
        · exact .inl (mem_sourceRefs.mpr (.inl ⟨e, he, hrow⟩))
        · exact .inr hrow.symm
      · exact .inl (mem_sourceRefs.mpr (.inr ha))

theorem sourceRefs_rowsRemoved {removed : Category → List Uuid} {inbox outbox : List Nat}
    {tenantId : Uuid} (hr : r ∈ (rowsRemoved removed inbox outbox tenantId db).sourceRefs) :
    r ∈ db.sourceRefs := by
  have hdeleted : r ∈ (exportsRemoved removed inbox outbox db).sourceRefs := by
    unfold rowsRemoved at hr
    dsimp only at hr
    split at hr <;> exact hr
  rcases mem_sourceRefs.mp hdeleted with ⟨e, he, hrow⟩ | ⟨a, ha, hrow⟩
  · exact mem_sourceRefs.mpr (.inl ⟨e, (Table.mem_deleteWhere.mp he).1, hrow⟩)
  · have ha := (Table.mem_deleteWhere.mp ha).1
    exact mem_sourceRefs.mpr (.inr ⟨a, (Table.mem_deleteWhere.mp ha).1, hrow⟩)

end Database

namespace Sound

open Database

variable {db : Database} {contracts : Contracts} {config : ImportConfig}

theorem mem_blobRefs (h : Sound db) {r : BlobRef} : r ∈ db.blobRefs ↔ r ∈ db.sourceRefs := by
  have hparts : db.contentParts.filterMap (·.blobRef) = [] :=
    filterMap_eq_nil_iff.mpr h.noPartBlobs
  simp only [blobRefs, h.noAssets, hparts, filterMap_nil, append_nil, sourceRefs]

theorem persistProjection_sourceRefs (h : Sound db) {plan : ReparsePlan} {r : BlobRef}
    (hexport : db.HasExport plan.exportId plan.tenantId)
    (hr : r ∈ ((db.persistArtifacts plan).persistProjection plan).sourceRefs) :
    r ∈ db.sourceRefs ∨ r ∈ plan.artifacts := by
  obtain ⟨hartifacts, -, -, hexport'⟩ := h.persistArtifacts hexport
  rw [sourceRefs_of_unwritten (hartifacts.persistProjection plan hexport').2.unwritten] at hr
  exact sourceRefs_persistArtifacts hr

theorem committed_blobRefs {ε : Type} {outcome : Except ε Database} {refs : List BlobRef}
    {r : BlobRef} (hok : ∀ db', outcome = .ok db' → r ∈ db'.sourceRefs →
      r ∈ db.sourceRefs ∨ r ∈ refs) (hr : r ∈ (ChatgptArchive.committed db outcome).sourceRefs) :
    r ∈ db.sourceRefs ∨ r ∈ refs := by
  cases outcome with
  | ok db' => exact hok db' rfl hr
  | error e => exact .inl hr

theorem importPending_sourceRefs (h : Sound db) {now : Instant} {runId : Uuid}
    {parsed : ParsedConversations} {artifacts : List BlobRef} {db' : Database} {r : BlobRef}
    (hok : db.importPending contracts config now runId parsed artifacts = .ok db')
    (hr : r ∈ db'.sourceRefs) : r ∈ db.sourceRefs ∨ r ∈ artifacts := by
  unfold Database.importPending at hok
  split at hok
  · cases hok
  · rename_i run row hrun
    rcases persistInitialPlan_records hok with rfl | hrecords
    · exact .inl hr
    · rw [sourceRefs_of_records hrecords] at hr
      exact h.persistProjection_sourceRefs (hasExport_of_runInState hrun) hr

theorem reparseArchive_sourceRefs (h : Sound db) {now : Instant} {tenantId archiveId : Uuid}
    {inputProjection : List (String × Option ContentDigest)} {registryFingerprint : List ParserId}
    {parsed : ParsedConversations}
    {artifacts : List BlobRef} {db' : Database} {r : BlobRef}
    (hok : db.reparseArchive contracts config now tenantId archiveId inputProjection
      registryFingerprint parsed artifacts = .ok db')
    (hr : r ∈ db'.sourceRefs) : r ∈ db.sourceRefs ∨ r ∈ artifacts := by
  obtain ⟨plan, hplan, hcommit⟩ := Outcome.bind_eq_ok.mp hok
  obtain ⟨row, hrow, haccount, -, hplan⟩ := reparsePlan_cases hplan
  have hexport : db.HasExport plan.exportId plan.tenantId := by
    rw [hplan]
    exact ⟨row, hrow, rfl, haccount⟩
  have hartifacts : plan.artifacts = artifacts := by rw [hplan]
  rw [← hartifacts]
  rcases commitReparse_records hcommit with rfl | hrecords
  · exact .inl hr
  · rw [sourceRefs_of_records hrecords] at hr
    have hreparse := h.insertReparseRun (hasExport_id hexport)
    exact hreparse.persistProjection_sourceRefs hexport hr

theorem deleteScope_sourceRefs (h : Sound db) {now : Instant} {evidenceRef : BlobRef}
    {tenantId requestId : Uuid} {scope : PrivacyDeletionScope} {db' : Database} {r : BlobRef}
    (hok : db.deleteScope contracts now evidenceRef tenantId requestId scope = .ok db')
    (hr : r ∈ db'.sourceRefs) : r ∈ db.sourceRefs := by
  rcases deleteScope_cases hok with rfl | ⟨exports, removed, hselected, hfresh, hremoved, rfl⟩
  · exact hr
  · by_cases hparents : db.RetainsParents (exports.map (·.id))
    · rw [removeRows_removed h hselected hfresh hparents] at hremoved
      obtain ⟨restored, hrestored, hrecords⟩ := finishRemoval_records hremoved
      have hsound := (deleteScopedRows_planned h hselected hfresh hparents).2
      have hframe := sourceRefs_of_unwritten (hsound.restoreRetainedVersions hrestored).2
      have hcompleted := sourceRefs_of_records (complete_records removed requestId)
      rw [hcompleted, sourceRefs_of_records hrecords, hframe, phaseRows] at hr
      have hstart := sourceRefs_rowsRemoved hr
      exact hstart
    · obtain ⟨refs, herror⟩ := removeRows_violated h hfresh hparents
      rw [herror] at hremoved
      cases hremoved

/-- A transaction adds no reference but those it registers. -/
theorem step_blobRefs (h : Sound db) (event : Event) {r : BlobRef}
    (hr : r ∈ (db.step contracts config event).blobRefs) :
    r ∈ db.blobRefs ∨ r ∈ event.registers := by
  rw [(h.step contracts config event).mem_blobRefs] at hr
  rw [h.mem_blobRefs]
  cases event with
  | createRun now accountRef mode mediaType => exact .inl hr
  | recordHash runId sha256Hex byteLength =>
    refine committed_blobRefs (fun db' hok hr => ?_) hr
    rw [sourceRefs_guardedRunUpdate hok] at hr
    exact .inl hr
  | markRun now runId expected target =>
    refine committed_blobRefs (fun db' hok hr => ?_) hr
    unfold markRun at hok
    split at hok
    · rw [sourceRefs_guardedRunUpdate hok] at hr
      exact .inl hr
    · cases hok
  | publish now request =>
    exact committed_blobRefs (fun db' hok hr =>
      (sourceRefs_publishExport hok hr).imp_right mem_singleton.mpr) hr
  | bindOperation exportId operationId =>
    refine committed_blobRefs (fun db' hok hr => ?_) hr
    unfold Database.bindPlatformOperation at hok
    split at hok <;> cases hok
    exact .inl hr
  | importRun now runId parsed artifacts =>
    exact committed_blobRefs (fun db' hok hr => h.importPending_sourceRefs hok hr) hr
  | failRun now runId =>
    rw [Database.step] at hr
    split at hr
    · exact .inl hr
    · refine committed_blobRefs (fun db' hok hr => ?_) hr
      rw [sourceRefs_of_records (enqueueReports_undelivered undelivered_records _ hok)] at hr
      exact .inl hr
  | reportRun now runId =>
    rw [Database.step] at hr
    split at hr
    · exact .inl hr
    · refine committed_blobRefs (fun db' hok hr => ?_) hr
      obtain ⟨summary, -, hreports⟩ := Outcome.bind_eq_ok.mp hok
      rw [sourceRefs_of_records (enqueueReports_undelivered undelivered_records _ hreports)] at hr
      exact .inl hr
  | reparse now tenantId archiveId inputProjection registryFingerprint parsed artifacts =>
    exact committed_blobRefs (fun db' hok hr => h.reparseArchive_sourceRefs hok hr) hr
  | delete now evidenceRef tenantId requestId scope =>
    exact committed_blobRefs (fun db' hok hr => .inl (h.deleteScope_sourceRefs hok hr)) hr

end Sound

end ChatgptArchive
