import ChatgptArchive.Integrity.Announcements
import ChatgptArchive.Integrity.PhaseA
import ChatgptArchive.Integrity.Ownership

/-!
# What an event does to the shared records

Receipts, imports, failures and reparses reach the records and the runs through a few statements.
Each event is a sequence of them, so what every statement keeps every event keeps.
-/

namespace ChatgptArchive

open List

namespace Database

variable {db db' db'' : Database}

def held (db : Database) : Database :=
  { empty with
    exports := db.exports, importRuns := db.importRuns, projects := db.projects
    conversations := db.conversations, messages := db.messages, contentParts := db.contentParts
    revisions := db.revisions, observations := db.observations
    entityVersions := db.entityVersions, extractedArtifacts := db.extractedArtifacts
    assets := db.assets, inboxEvents := db.inboxEvents, nextUuid := db.nextUuid }

theorem undelivered_held : Undelivered held := ⟨fun _ _ _ _ => rfl, fun _ _ _ => rfl⟩

theorem held_frame (h : db'.held = db.held) {α : Type*} {f : Database → α}
    (hf : ∀ db, f db.held = f db) : f db' = f db := by
  rw [← hf db', h, hf]

structure RunUpdate (db : Database) (p : ImportRunRow → Bool) (f : ImportRunRow → ImportRunRow) :
    Prop where
  id : ∀ r, (f r).id = r.id
  exportId : ∀ r ∈ db.importRuns, p r = true → (f r).exportId = r.exportId ∨
    ((r.state = .received ∨ r.state = .hashed) ∧ ∃ e ∈ db.exports, (f r).exportId = some e.id)
  received : ∀ r ∈ db.importRuns, p r = true → (f r).state = .received ∨ (f r).state = .hashed →
    (f r).exportId = r.exportId ∧ (r.state = .received ∨ r.state = .hashed)

/-- One statement on the shared records or the runs; the statements of a projection are those of
the export `written`. -/
inductive RecordStep (written : Option Uuid) : Database → Database → Prop
  | same {db db' : Database} (h : db'.held = db.held) : RecordStep written db db'
  | skip {db db' : Database} (h : db'.held = { db with nextUuid := db.nextUuid + 1 }.held) :
      RecordStep written db db'
  | createRun (db : Database) (now : Instant) (accountRef : String) (mode : AcquisitionMode)
      (mediaType : String) : RecordStep written db (db.createRun now accountRef mode mediaType).2
  | insertExport (db : Database) (now : Instant) (accountId : Uuid) (request : PublishRequest) :
      RecordStep written db (db.insertExport now accountId request).2
  | updateRuns {db : Database} {p : ImportRunRow → Bool} {f : ImportRunRow → ImportRunRow}
      (h : db.RunUpdate p f) :
      RecordStep written db { db with importRuns := Table.updateWhere p f db.importRuns }
  | insertArtifact {db : Database} {row : ExportRow} (h : row ∈ db.exports) (blobRef : BlobRef)
      (ordinal : Nat) : RecordStep written db (insertArtifact row.id db blobRef ordinal)
  | write {db db' : Database} {row : ExportRow} (h : row ∈ db.exports)
      (hwritten : written = some row.id) (hwrite : Write row.accountId row.id db db') :
      RecordStep written db db'

def Records (written : Option Uuid) : Database → Database → Prop :=
  Relation.ReflTransGen (RecordStep written)

namespace Records

variable {w : Option Uuid} {runId : Uuid} {now : Instant} {row : ExportRow} {plan : ReparsePlan}
  {contracts : Contracts} {config : ImportConfig} {parsed : ParsedConversations}
  {artifacts : List BlobRef}

theorem refl (db : Database) : Records w db db := Relation.ReflTransGen.refl

theorem single (h : RecordStep w db db') : Records w db db' := Relation.ReflTransGen.single h

theorem trans (h : Records w db db') (h' : Records w db' db'') : Records w db db'' :=
  Relation.ReflTransGen.trans h h'

theorem preserves {P : Database → Prop} (h : Records w db db') (hP : P db)
    (hstep : ∀ {db db' : Database}, RecordStep w db db' → P db → P db') : P db' := by
  induction h with
  | refl => exact hP
  | tail _ hwrite ih => exact hstep hwrite ih

theorem of_held (h : db'.held = db.held) : Records w db db' := single (.same h)

theorem committed {ε : Type} {result : Except ε Database}
    (h : ∀ db', result = .ok db' → Records w db db') :
    Records w db (ChatgptArchive.committed db result) :=
  committed_of (.refl db) h

/-! ## Receipts -/

theorem guardedRunUpdate {expected : ImportState} {update : ImportRunRow → ImportRunRow}
    (hupdate : db.RunUpdate (fun r => r.id = runId && r.state = expected) update)
    (hok : db.guardedRunUpdate runId expected update = .ok db') : Records w db db' := by
  unfold Database.guardedRunUpdate at hok
  dsimp only at hok
  split at hok <;> cases hok
  exact single (.updateRuns hupdate)

theorem publishExport {request : PublishRequest} (hok : db.publishExport now request = .ok db') :
    Records w db db' := by
  unfold Database.publishExport at hok
  dsimp only at hok
  have haccount : Records w db (db.upsertAccount request.accountExternalRef).2 := single (.skip rfl)
  generalize db.upsertAccount request.accountExternalRef = upserted at hok haccount
  obtain ⟨account, db₁⟩ := upserted
  split at hok
  · cases hok
  · have hexport : Records w db₁ (db₁.insertExport now account.id request).2 :=
      single (.insertExport db₁ now account.id request)
    have hmem : ∃ e ∈ (db₁.insertExport now account.id request).2.exports,
        e.id = (db₁.insertExport now account.id request).1 :=
      ⟨_, mem_append_right _ mem_cons_self, rfl⟩
    generalize db₁.insertExport now account.id request = inserted at hok hexport hmem
    obtain ⟨exportId, db₂⟩ := inserted
    obtain ⟨e, he, heq⟩ := hmem
    split at hok
    · cases hok
    · rename_i db₃ hrun
      have hstored : Records w db₂ db₃ := by
        refine guardedRunUpdate ?_ hrun
        refine ⟨fun _ => rfl, fun r _ hmatch => .inr ⟨.inr ?_, e, he, congrArg some heq.symm⟩,
          fun r _ _ hstate => ?_⟩
        · simp only [Bool.and_eq_true, decide_eq_true_eq] at hmatch
          exact hmatch.2
        · rcases hstate with hstate | hstate <;> cases hstate
      have hall := haccount.trans (hexport.trans hstored)
      split at hok <;> cases hok
      · exact hall.trans (of_held rfl)
      · exact hall

/-! ## Plans -/

theorem insertArtifacts (references : List (BlobRef × Nat)) :
    ∀ {db : Database}, row ∈ db.exports →
      Records w db (Database.insertArtifacts row.id db references) := by
  induction references with
  | nil => exact fun _ => .refl _
  | cons head references ih =>
    intro db hrow
    exact (single (.insertArtifact hrow head.1 head.2)).trans (ih hrow)

theorem insertArtifacts_exports (exportId : Uuid) (references : List (BlobRef × Nat)) :
    ∀ db : Database, (Database.insertArtifacts exportId db references).exports = db.exports := by
  induction references with
  | nil => exact fun _ => rfl
  | cons head references ih => exact fun db => ih _

theorem of_writes (h : row ∈ db.exports) (hwrites : Writes row.accountId row.id db db') :
    Records (some row.id) db db' := by
  have hall : Records (some row.id) db db' ∧ row ∈ db'.exports :=
    hwrites.preserves (P := fun db' => Records (some row.id) db db' ∧ row ∈ db'.exports)
      ⟨.refl db, h⟩ fun hwrite ⟨hrecords, hrow⟩ =>
        ⟨hrecords.trans (single (.write hrow rfl hwrite)), hwrite.grows.exports.symm ▸ hrow⟩
  exact hall.1

theorem persistPlanRows (h : db.HasExport plan.exportId plan.tenantId) :
    Records (some plan.exportId) db ((db.persistArtifacts plan).persistProjection plan) := by
  obtain ⟨row, hrow, hid, haccount⟩ := h
  have hartifacts := insertArtifacts (w := some row.id) plan.artifacts.zipIdx hrow
  have hexports := insertArtifacts_exports row.id plan.artifacts.zipIdx db
  have hwrites := Writes.persistProjection (db.persistArtifacts plan) plan
  rw [persistArtifacts] at hwrites ⊢
  rw [← hid, ← haccount] at hwrites
  rw [← hid]
  exact hartifacts.trans (of_writes (hexports.symm ▸ hrow) hwrites)

theorem projectAndReport_held {summary : ImportSummary}
    (hok : projectAndReport contracts config now db runId plan summary = .ok db') :
    db'.held = db.held := by
  obtain ⟨⟨db₁, outcome⟩, hfacts, hrest⟩ := Outcome.bind_eq_ok.mp hok
  have hreports := enqueueReports_undelivered undelivered_held _ hrest
  exact hreports.trans (projectImportFacts_undelivered undelivered_held
    (ofProjection_eq_ok.mp hfacts) :)

theorem finishRun (db : Database) (now : Instant) (runId : Uuid) {state : ImportState}
    (hstate : ¬(state = .received ∨ state = .hashed)) (parsed : ParsedConversations) :
    Records w db (db.finishRun now runId state parsed) :=
  single (.updateRuns ⟨fun _ => rfl, fun _ _ _ => .inl rfl, fun _ _ _ h => absurd h hstate⟩)

theorem persistRows (h : db.HasExport plan.exportId plan.tenantId) (now : Instant) (runId : Uuid)
    (summary : ImportSummary) (gaps : List AiGap) :
    Records (some plan.exportId) db (db.persistRows now runId plan summary gaps) := by
  have hreport : Records (some plan.exportId) ((db.persistArtifacts plan).persistProjection plan)
      (((db.persistArtifacts plan).persistProjection plan).insertCompletenessReport runId summary
        gaps plan.parsed) := single (.skip rfl)
  refine ((persistPlanRows h).trans hreport).trans (finishRun _ now runId ?_ plan.parsed)
  split <;> decide

theorem importPending (hok : db.importPending contracts config now runId parsed artifacts = .ok db') :
    Records ((Event.importRun now runId parsed artifacts).written db) db db' := by
  rcases importPending_eq_ok hok with ⟨-, rfl⟩ | ⟨run, row, _, gaps, plan, -, hrun, -, -, hplan, hrest⟩
  · exact .refl _
  · have hid : plan.exportId = row.id := by rw [hplan]; rfl
    have haccount : plan.tenantId = row.accountId := by rw [hplan]; rfl
    have hexport : db.HasExport plan.exportId plan.tenantId :=
      ⟨row, runInState_export hrun, hid.symm, haccount.symm⟩
    have hwritten : (Event.importRun now runId parsed artifacts).written db =
        some plan.exportId := by
      rw [Event.written, hrun, hid]
      rfl
    rw [hwritten]
    exact (persistRows hexport _ _ _ _).trans (of_held (projectAndReport_held hrest))

theorem commitReparse {owners : OwnerResolver} {maxEventBytes : Nat}
    (hok : db.commitReparse contracts owners maxEventBytes now plan = .ok db') :
    Records (some plan.exportId) db db' := by
  rcases commitReparse_cases hok with rfl | ⟨row, hrow, hid, haccount, outcome, hfacts⟩
  · exact .refl _
  · have hrun : Records (some plan.exportId) db (db.insertReparseRun plan) := single (.skip rfl)
    have hrows : Records (some plan.exportId) (db.insertReparseRun plan) (db.reparsedRows plan) :=
      persistPlanRows ⟨row, hrow, hid, haccount⟩
    exact (hrun.trans hrows).trans (of_held (projectImportFacts_undelivered undelivered_held
      hfacts))

theorem reparseArchive {tenantId archiveId : Uuid}
    {inputProjection : List (String × Option ContentDigest)} {registryFingerprint : List ParserId}
    (hok : db.reparseArchive contracts config now tenantId archiveId inputProjection
      registryFingerprint parsed artifacts = .ok db') :
    Records ((Event.reparse now tenantId archiveId inputProjection
        registryFingerprint parsed artifacts).written db) db db' := by
  obtain ⟨plan, hplan, hcommit⟩ := Outcome.bind_eq_ok.mp hok
  have hwritten : (Event.reparse now tenantId archiveId inputProjection
      registryFingerprint parsed artifacts).written db = some plan.exportId := by
    unfold reparsePlan at hplan
    split at hplan
    · cases hplan
    · rename_i row hrow
      split at hplan <;> cases hplan
      rw [Event.written, hrow]
      rfl
  exact hwritten ▸ commitReparse hcommit

end Records

/-! ## Events -/

/-- What a transaction other than a deletion writes, as statements on the records. -/
theorem step_records (db : Database) (contracts : Contracts) (config : ImportConfig) {event : Event}
    (hevent : event.isDeletion = false) :
    Records (event.written db) db (db.step contracts config event) := by
  cases event with
  | createRun now accountRef mode mediaType => exact .single (.createRun ..)
  | recordHash runId sha256Hex byteLength =>
    refine .committed fun db' hok => .guardedRunUpdate ?_ hok
    refine ⟨fun _ => rfl, fun _ _ _ => .inl rfl, fun r _ hmatch _ => ?_⟩
    simp only [Bool.and_eq_true, decide_eq_true_eq] at hmatch
    exact ⟨rfl, .inl hmatch.2⟩
  | markRun now runId expected target =>
    refine .committed fun db' hok => ?_
    unfold markRun at hok
    split at hok
    · rename_i hstates
      refine .guardedRunUpdate ?_ hok
      refine ⟨fun _ => rfl, fun _ _ _ => .inl rfl, fun r _ _ hstate => ?_⟩
      rcases hstates with rfl | ⟨-, rfl⟩ <;> rcases hstate with hstate | hstate <;> cases hstate
    · cases hok
  | publish now request => exact .committed fun db' hok => .publishExport hok
  | bindOperation exportId operationId =>
    refine .committed fun db' hok => ?_
    unfold bindPlatformOperation at hok
    split at hok <;> cases hok
    exact .of_held rfl
  | importRun now runId parsed artifacts => exact .committed fun db' hok => .importPending hok
  | failRun now runId =>
    simp only [step]
    split
    · exact .refl db
    · refine .committed fun db' hok => ?_
      have hreports := enqueueReports_undelivered undelivered_held _ hok
      refine (Records.single (.updateRuns ?_)).trans (.of_held hreports)
      refine ⟨fun _ => rfl, fun _ _ _ => .inl rfl, fun r _ _ hstate => ?_⟩
      rcases hstate with hstate | hstate <;> cases hstate
  | reportRun now runId =>
    simp only [step]
    split
    · exact .refl db
    · refine .committed fun db' hok => ?_
      obtain ⟨summary, -, hok⟩ := Outcome.bind_eq_ok.mp hok
      exact .of_held (enqueueReports_undelivered undelivered_held _ hok)
  | reparse now tenantId archiveId inputProjection registryFingerprint parsed artifacts =>
    exact .committed fun db' hok => .reparseArchive hok
  | delete now evidenceRef tenantId requestId scope => cases hevent

end Database

namespace Owned

open Database

variable {g : Registry} {db db' : Database} {w : Option Uuid}

variable (h : Owned g db)
include h

theorem congr (heq : db'.held = db.held) : Owned g db' := by
  have hheld : Owned g db.held :=
    ⟨h.exports, h.importRuns, h.projects, h.conversations, h.messages, h.contentParts,
      h.revisions, h.observations, h.entityVersions, h.extractedArtifacts, h.exportIds,
      h.projectIds, h.conversationIds, h.importRunIds, h.received, h.noAssets, h.noInbox⟩
  rw [← heq] at hheld
  exact ⟨hheld.exports, hheld.importRuns, hheld.projects, hheld.conversations, hheld.messages,
    hheld.contentParts, hheld.revisions, hheld.observations, hheld.entityVersions,
    hheld.extractedArtifacts, hheld.exportIds, hheld.projectIds, hheld.conversationIds,
    hheld.importRunIds, hheld.received, hheld.noAssets, hheld.noInbox⟩

theorem skip (heq : db'.held = { db with nextUuid := db.nextUuid + 1 }.held) :
    OwnedAfter g db db' := by
  have hnext : db'.nextUuid = db.nextUuid + 1 := held_frame (f := (·.nextUuid)) heq fun _ => rfl
  exact ⟨g, ⟨hnext ▸ Nat.le_succ _, .refl g _⟩, (h.mono (.refl g _) (Nat.le_succ _)).congr heq⟩

theorem createRun (now : Instant) (accountRef : String) (mode : AcquisitionMode)
    (mediaType : String) : OwnedAfter g db (db.createRun now accountRef mode mediaType).2 := by
  have hnext := h.mono (.refl g _) (Nat.le_succ db.nextUuid)
  refine ⟨g, ⟨Nat.le_succ _, .refl g _⟩,
    { hnext with importRuns := ?_, importRunIds := ?_, received := ?_ }⟩
  · refine hnext.importRuns.append fun tie htie => ?_
    obtain rfl := mem_singleton.mp htie
    exact Nat.lt_succ_self _
  · rw [Database.createRun, map_append]
    refine Nodup.append h.importRunIds (nodup_singleton _)
      (disjoint_singleton.mpr fun hmem => ?_)
    obtain ⟨r, hr, heq⟩ := mem_map.mp hmem
    have hlt : r.id < db.nextUuid := h.importRuns r hr _ mem_cons_self
    exact hlt.ne heq
  · intro r hr hstate
    rcases Table.mem_inserted.mp hr with hr | rfl
    · exact h.received r hr hstate
    · rfl

theorem insertExport (now : Instant) (accountId : Uuid)
    (request : PublishRequest) : OwnedAfter g db (db.insertExport now accountId request).2 := by
  obtain ⟨hextends, howned⟩ := h.assign accountId .asset
  obtain ⟨hextends', howned'⟩ := howned.assign accountId .asset
  refine ⟨_, hextends.trans hextends', { howned' with exports := ?_, exportIds := ?_ }⟩
  · refine howned'.exports.append fun tie htie => ?_
    rcases mem_cons.mp htie with rfl | htie
    · exact hextends'.holds (g.assign_owned db.nextUuid accountId .asset)
    · obtain rfl := mem_singleton.mp htie
      exact Registry.assign_owned ..
  · rw [Database.insertExport, map_append]
    refine Nodup.append h.exportIds (nodup_singleton _)
      (disjoint_singleton.mpr fun hmem => ?_)
    obtain ⟨e, he, heq⟩ := mem_map.mp hmem
    exact (h.exports e he _ mem_cons_self).1.ne heq

theorem ofExport {row : ExportRow} (hrow : row ∈ db.exports) :
    (Tie.owned row.id row.accountId).Holds g db.nextUuid :=
  h.exports row hrow _ mem_cons_self

theorem updateRuns {p : ImportRunRow → Bool} {f : ImportRunRow → ImportRunRow}
    (hupdate : db.RunUpdate p f) :
    Owned g { db with importRuns := Table.updateWhere p f db.importRuns } := by
  refine { h with
    importRuns := h.importRuns.updateWhere fun r hr hp tie htie => ?_
    importRunIds := Table.nodup_map_updateWhere h.importRunIds hupdate.id
    received := ?_ }
  · rcases mem_cons.mp htie with rfl | htie
    · rw [hupdate.id]
      exact .inl mem_cons_self
    · obtain ⟨exportId, hexport, rfl⟩ := mem_map.mp htie
      rcases hupdate.exportId r hr hp with heq | ⟨-, e, he, heq⟩
      · rw [heq] at hexport
        exact .inl (mem_cons_of_mem _ (mem_map_of_mem hexport))
      · rw [heq, Option.toList_some, mem_singleton] at hexport
        exact .inr (hexport ▸ (h.ofExport he).1)
  · intro r hr hstate
    rcases Table.mem_updateWhere.mp hr with ⟨hr, -⟩ | ⟨old, hold, hp, rfl⟩
    · exact h.received r hr hstate
    · obtain ⟨heq, hold'⟩ := hupdate.received old hold hp hstate
      exact heq.trans (h.received old hold hold')

theorem insertArtifact {row : ExportRow} (hrow : row ∈ db.exports)
    (blobRef : BlobRef) (ordinal : Nat) :
    OwnedAfter g db (Database.insertArtifact row.id db blobRef ordinal) := by
  obtain ⟨hextends, howned⟩ := h.assign row.accountId .asset
  refine ⟨_, hextends, { howned with extractedArtifacts := ?_ }⟩
  refine howned.extractedArtifacts.insertAbsent fun tie htie => ?_
  obtain rfl := mem_singleton.mp htie
  exact Tie.same_of_owned (g.assign_owned ..) (hextends.holds (h.ofExport hrow))

theorem recordStep (hstep : RecordStep w db db') : OwnedAfter g db db' := by
  cases hstep with
  | same heq => exact .same (h.congr heq) (held_frame heq fun _ => rfl)
  | skip heq => exact h.skip heq
  | createRun now accountRef mode mediaType => exact h.createRun now accountRef mode mediaType
  | insertExport now accountId request => exact h.insertExport now accountId request
  | updateRuns hupdate => exact .same (h.updateRuns hupdate) rfl
  | insertArtifact hrow blobRef ordinal => exact h.insertArtifact hrow blobRef ordinal
  | write hrow _ hwrite => exact h.write (h.ofExport hrow) hwrite

theorem records (hrecords : Records w db db') : OwnedAfter g db db' :=
  hrecords.preserves (P := OwnedAfter g db) (.same h rfl) fun hstep hafter =>
    hafter.trans fun _ _ howned => howned.recordStep hstep

end Owned

end ChatgptArchive
