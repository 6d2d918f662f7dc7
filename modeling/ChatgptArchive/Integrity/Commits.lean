import ChatgptArchive.Integrity.Records
import ChatgptArchive.Integrity.Retractions

/-!
# What a transaction can do

One case per kind of transaction, with everything that happens to the records, the outbox, the
ledger, the requests and their inventories. Every invariant of a run of the service starts from
these cases.
-/

namespace ChatgptArchive

namespace Database

variable {db db' : Database} {contracts : Contracts} {now : Instant} {runId : Uuid}
  {config : ImportConfig} {parsed : ParsedConversations} {artifacts : List BlobRef}

def deletions (db : Database) :
    List PrivacyDeletionRequestRow × List PrivacyDeletionItemRow :=
  (db.privacyDeletionRequests, db.privacyDeletionItems)

def registers (db : Database) : Database :=
  { empty with
    accounts := db.accounts, reparseRuns := db.reparseRuns
    privacyDeletionRequests := db.privacyDeletionRequests
    privacyDeletionItems := db.privacyDeletionItems }

theorem undelivered_registers : Undelivered registers := ⟨fun _ _ _ _ => rfl, fun _ _ _ => rfl⟩

theorem registers_frame (h : db'.registers = db.registers) {α : Type*} {f : Database → α}
    (hf : ∀ db, f db.registers = f db) : f db' = f db := by
  rw [← hf db', h, hf]

theorem undelivered_deletions : Undelivered deletions := ⟨fun _ _ _ _ => rfl, fun _ _ _ => rfl⟩

theorem requests_of_deletions (h : db'.deletions = db.deletions) :
    db'.privacyDeletionRequests = db.privacyDeletionRequests :=
  congrArg Prod.fst h

theorem guardedRunUpdate_registers {expected : ImportState} {update : ImportRunRow → ImportRunRow}
    (hok : db.guardedRunUpdate runId expected update = .ok db') : db'.registers = db.registers := by
  unfold guardedRunUpdate at hok
  dsimp only at hok
  split at hok <;> cases hok
  rfl

theorem publishExport_registers {request : PublishRequest}
    (hok : db.publishExport now request = .ok db') :
    db'.registers = (db.upsertAccount request.accountExternalRef).2.registers := by
  unfold publishExport at hok
  dsimp only at hok
  split at hok
  · cases hok
  · split at hok
    · cases hok
    · rename_i db₁ hupdate
      have hupdate := guardedRunUpdate_registers hupdate
      split at hok <;> cases hok <;> exact hupdate

theorem persistPlanRows_registers (db : Database) (plan : ReparsePlan) :
    ((db.persistArtifacts plan).persistProjection plan).registers = db.registers := by
  have hgrows := (Writes.persistProjection (db.persistArtifacts plan) plan).grows
  have hartifacts : ∀ (references : List (BlobRef × Nat)) (db : Database),
      (insertArtifacts plan.exportId db references).registers = db.registers := by
    intro references
    induction references with
    | nil => exact fun _ => rfl
    | cons head references ih => exact fun db => ih _
  exact (unwritten_frame hgrows.unwritten fun _ => rfl).trans (hartifacts _ db)

theorem importPending_registers
    (hok : db.importPending contracts config now runId parsed artifacts = .ok db') :
    db'.registers = db.registers := by
  rcases importPending_eq_ok hok with ⟨-, rfl⟩ | ⟨_, _, _, gaps, plan, -, -, -, -, -, hrest⟩
  · rfl
  · obtain ⟨⟨db₁, outcome⟩, hfacts, hreports⟩ := Outcome.bind_eq_ok.mp hrest
    have hfacts := projectImportFacts_undelivered undelivered_registers
      (ofProjection_eq_ok.mp hfacts)
    have hreports := enqueueReports_undelivered undelivered_registers _ hreports
    exact hreports.trans (hfacts.trans (db.persistPlanRows_registers plan))

inductive Registers (db : Database) : Database → Prop
  | same {db' : Database} (h : db'.registers = db.registers) : Registers db db'
  | account {db' : Database} (externalRef : String)
      (h : db'.registers = (db.upsertAccount externalRef).2.registers) : Registers db db'
  | reparse {db' : Database} {plan : ReparsePlan} {row : ExportRow} (hrow : row ∈ db.exports)
      (hexport : plan.exportId = row.id) (htenant : plan.tenantId = row.accountId)
      (h : db'.registers = (db.insertReparseRun plan).registers) : Registers db db'

theorem Registers.committed {ε : Type} {result : Except ε Database}
    (h : ∀ db', result = .ok db' → Registers db db') :
    Registers db (ChatgptArchive.committed db result) :=
  committed_of (.same rfl) h

theorem Registers.deletions (h : Registers db db') : db'.deletions = db.deletions := by
  cases h with
  | same h => exact registers_frame h fun _ => rfl
  | account externalRef h => exact registers_frame (f := Database.deletions) h fun _ => rfl
  | reparse _ _ _ h => exact registers_frame (f := Database.deletions) h fun _ => rfl

theorem commitReparse_registers {owners : OwnerResolver} {maxEventBytes : Nat} {plan : ReparsePlan}
    (hok : db.commitReparse contracts owners maxEventBytes now plan = .ok db') :
    Registers db db' := by
  rcases commitReparse_cases hok with rfl | ⟨row, hrow, hid, haccount, outcome, hfacts⟩
  · exact .same rfl
  · exact .reparse hrow hid.symm haccount.symm
      ((projectImportFacts_undelivered undelivered_registers hfacts).trans
        ((db.insertReparseRun plan).persistPlanRows_registers plan))

theorem reparseArchive_registers {tenantId archiveId : Uuid}
    {inputProjection : List (String × Option ContentDigest)} {registryFingerprint : List ParserId}
    (hok : db.reparseArchive contracts config now tenantId archiveId inputProjection
      registryFingerprint parsed artifacts = .ok db') : Registers db db' := by
  obtain ⟨plan, -, hcommit⟩ := Outcome.bind_eq_ok.mp hok
  exact commitReparse_registers hcommit

/-- What such a transaction does to the accounts, the requests and the reparse runs. -/
theorem step_registers (config : ImportConfig) {event : Event} (hevent : event.isDeletion = false) :
    Registers db (db.step contracts config event) := by
  cases event with
  | createRun now accountRef mode mediaType => exact .same rfl
  | recordHash runId sha256Hex byteLength =>
    exact .committed fun db' hok => .same (guardedRunUpdate_registers hok)
  | markRun now runId expected target =>
    refine .committed fun db' hok => .same ?_
    unfold markRun at hok
    split at hok
    · exact guardedRunUpdate_registers hok
    · cases hok
  | publish now request =>
    exact .committed fun db' hok => .account _ (publishExport_registers hok)
  | bindOperation exportId operationId =>
    refine .committed fun db' hok => .same ?_
    unfold bindPlatformOperation at hok
    split at hok <;> cases hok
    rfl
  | importRun now runId parsed artifacts =>
    exact .committed fun db' hok => .same (importPending_registers hok)
  | failRun now runId =>
    simp only [step]
    split
    · exact .same rfl
    · refine .committed fun db' hok => .same ?_
      exact (enqueueReports_undelivered undelivered_registers _ hok :)
  | reportRun now runId =>
    simp only [step]
    split
    · exact .same rfl
    · refine .committed fun db' hok => .same ?_
      obtain ⟨summary, -, hok⟩ := Outcome.bind_eq_ok.mp hok
      exact enqueueReports_undelivered undelivered_registers _ hok
  | reparse now tenantId archiveId inputProjection registryFingerprint parsed artifacts =>
    exact .committed fun db' hok => reparseArchive_registers hok
  | delete now evidenceRef tenantId requestId scope => cases hevent

/-! ## The cases -/

inductive Commits (db : Database) : Database → Prop
  | same : Commits db db
  | work {db' : Database} {origin : Option (Uuid × Instant)}
      (hdelivers : Delivers (db'.ImportStep origin) db db')
      (hdeletions : db'.deletions = db.deletions) {w : Option Uuid}
      (hrecords : Records w db db') : Commits db db'
  | plan {tenantId requestId : Uuid} {scope : PrivacyDeletionScope} {exports : List ExportRow}
      (hexports : db.selectedExports tenantId scope = some exports)
      (hnew : ∀ r ∈ db.privacyDeletionRequests, r.id ≠ requestId) :
      Commits db (db.persistPlan tenantId requestId scope
        ((db.inventory tenantId scope exports).insertionSort inventoryOrder))
  | removeRows {now : Instant} {evidenceRef : BlobRef} {request : PrivacyDeletionRequestRow}
      {db' : Database} (h : db.RowPhase now evidenceRef request db') : Commits db db'
  | complete {requestId : Uuid} (h : db.purging requestId = true) :
      Commits db (db.complete requestId)

theorem plan_cases (contracts : Contracts) (tenantId requestId : Uuid)
    (scope : PrivacyDeletionScope) :
    db.commit contracts (.plan tenantId requestId scope) = db ∨
      ∃ exports, db.selectedExports tenantId scope = some exports ∧
        (∀ r ∈ db.privacyDeletionRequests, r.id ≠ requestId) ∧
        db.commit contracts (.plan tenantId requestId scope) =
          db.persistPlan tenantId requestId scope
            ((db.inventory tenantId scope exports).insertionSort inventoryOrder) := by
  simp only [commit]
  unfold plan
  cases hexports : db.selectedExports tenantId scope with
  | none => exact .inl rfl
  | some exports =>
    cases hfind : db.privacyDeletionRequests.find? fun r => r.id = requestId with
    | some existing =>
      dsimp only
      split
      · rename_i planned hplanned
        split at hplanned <;> cases hplanned
        exact .inl rfl
      · exact .inl rfl
    | none => exact .inr ⟨exports, rfl, by simpa using hfind, rfl⟩

theorem plan_commits (tenantId requestId : Uuid) (scope : PrivacyDeletionScope) :
    db.Commits (db.commit contracts (.plan tenantId requestId scope)) := by
  rcases plan_cases contracts tenantId requestId scope with heq | ⟨exports, hexports, hnew, heq⟩
  · rw [heq]
    exact .same
  · rw [heq]
    exact .plan hexports hnew

theorem commit_commits (db : Database) (contracts : Contracts) (transaction : ServiceTransaction) :
    db.Commits (db.commit contracts transaction) := by
  cases transaction with
  | work config event =>
    simp only [commit]
    split
    · exact .same
    · rename_i hevent
      have hevent : event.isDeletion = false := by simpa using hevent
      refine .work (step_delivers config event ?_) (step_registers config hevent).deletions
        (step_records _ _ config hevent)
      rintro now evidenceRef tenantId requestId scope rfl
      cases hevent
  | plan tenantId requestId scope => exact plan_commits tenantId requestId scope
  | removeRows now evidenceRef requestId =>
    simp only [commit]
    rcases committed_cases db (db.removeRows contracts now evidenceRef requestId) with heq | hok
    · rw [heq]
      exact .same
    · rcases removeRows_cases hok with heq | ⟨request, -, hphase⟩
      · rw [heq]
        exact .same
      · exact .removeRows hphase
  | complete requestId =>
    simp only [commit]
    split
    · rename_i hpurging
      exact .complete hpurging
    · exact .same

end Database

end ChatgptArchive
