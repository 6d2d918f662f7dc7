import ChatgptArchive.Integrity.Emitted
import ChatgptArchive.Integrity.Governed

/-!
# The sizes of the queued facts

An import and a reparse measure each fact before they queue it. A deletion does not: what it
announces again of a survivor is queued whatever its size.
-/

namespace ChatgptArchive

open List

def EventPayload.isFact : EventPayload → Bool
  | .archiveImported _ | .conversationAdded _ | .conversationUpdated _ | .projectAdded _
  | .projectUpdated _ => true
  | .operationReported _ | .tombstoned _ | .streamErasureRequested _ => false

def ServiceTransaction.runsWith (maxEventBytes : Nat) : ServiceTransaction → Bool
  | .work config _ => config.maxEventBytes = maxEventBytes
  | .plan _ _ _ | .removeRows _ _ _ | .complete _ => true

namespace Database

variable {contracts : Contracts} {maxEventBytes : Nat} {db db' : Database} {now : Instant}
  {tenantId : Uuid} {config : ImportConfig} {parsed : ParsedConversations}
  {artifacts : List BlobRef}

/-! ## What is queued by an import or a reparse -/

def Fits (contracts : Contracts) (maxEventBytes : Nat) (step : DeliveryStep) : Prop :=
  ∀ e, step = .emit e → e.envelope.payload.isFact = true →
    contracts.serializedLen e.envelope ≤ maxEventBytes

theorem projectImportFacts_fits {owners : OwnerResolver} {scope : FactScope}
    {outcome : ProjectionOutcome}
    (hok : db.projectImportFacts contracts owners scope now = .ok (db', outcome)) :
    Delivers (Fits contracts scope.maxEventBytes) db db' := by
  refine projectImportFacts_emits (fun owner c subject _ hsize e he _ => ?_) hok
  cases he
  exact hsize

theorem enqueueReports_fits {exportId : Uuid}
    {report : Uuid → Except ReparseError OperationReported} {operations : List Uuid}
    (hok : enqueueReports now tenantId exportId report db operations = .ok db') :
    Delivers (Fits contracts maxEventBytes) db db' := by
  refine enqueueReports_delivers _ (fun _ _ reported _ e he hfact => ?_) hok
  cases he
  cases hfact

theorem importPending_fits {runId : Uuid}
    (hok : db.importPending contracts config now runId parsed artifacts = .ok db') :
    Delivers (Fits contracts config.maxEventBytes) db db' := by
  rcases importPending_eq_ok hok with ⟨-, rfl⟩ | ⟨run, row, found, gaps, plan, -, -, -, -, -, hrest⟩
  · exact .of_eq rfl
  · obtain ⟨⟨db₁, outcome⟩, hfacts, hreports⟩ := Outcome.bind_eq_ok.mp hrest
    have hfacts := projectImportFacts_fits (ofProjection_eq_ok.mp hfacts)
    have hreports : Delivers (Fits contracts config.maxEventBytes) _ db' :=
      enqueueReports_fits hreports
    exact (hfacts.trans (hreports.of_left rfl)).of_left (db.persistPlanRows_deliveries plan).1

theorem reparseArchive_fits {archiveId : Uuid}
    {inputProjection : List (String × Option ContentDigest)} {registryFingerprint : List ParserId}
    (hok : db.reparseArchive contracts config now tenantId archiveId inputProjection
      registryFingerprint parsed artifacts = .ok db') :
    Delivers (Fits contracts config.maxEventBytes) db db' := by
  obtain ⟨plan, -, hcommit⟩ := Outcome.bind_eq_ok.mp hok
  rcases commitReparse_cases hcommit with rfl | ⟨row, -, -, -, outcome, hfacts⟩
  · exact .of_eq rfl
  · exact (projectImportFacts_fits hfacts).of_left
      ((db.insertReparseRun plan).persistPlanRows_deliveries plan).1

theorem delivers_committed {ε : Type} {P : DeliveryStep → Prop} {result : Except ε Database}
    (h : ∀ db', result = .ok db' → Delivers P db db') : Delivers P db (committed db result) :=
  committed_of (.of_eq rfl) h

theorem step_fits (db : Database) (contracts : Contracts) (config : ImportConfig)
    {event : Event} (hevent : event.isDeletion = false) :
    Delivers (Fits contracts config.maxEventBytes) db (db.step contracts config event) := by
  cases event with
  | importRun now runId parsed artifacts =>
    exact delivers_committed fun db' hok => importPending_fits hok
  | failRun now runId =>
    simp only [step]
    split
    · exact .of_eq rfl
    · refine delivers_committed fun db' hok => (enqueueReports_fits hok).of_left ?_
      rfl
  | reportRun now runId =>
    simp only [step]
    split
    · exact .of_eq rfl
    · refine delivers_committed fun db' hok => ?_
      obtain ⟨summary, -, hok⟩ := Outcome.bind_eq_ok.mp hok
      exact enqueueReports_fits hok
  | reparse now tenantId archiveId inputProjection registryFingerprint parsed artifacts =>
    exact delivers_committed fun db' hok => reparseArchive_fits hok
  | delete now evidenceRef tenantId requestId scope => cases hevent
  | _ => exact .of_eq (receipt_deliveries config rfl)

/-! ## What a deletion queues -/

def waiting (db : Database) (requestId : Uuid) : Bool :=
  (db.privacyDeletionRequests.find? fun r => r.id = requestId).any fun r => r.status = .planned

/-- A row phase that is to run finds no survivor: the latest fact of every retained project and
conversation names an archive that is retained too. -/
def findsNoSurvivor (db : Database) : ServiceTransaction → Bool
  | .removeRows _ _ requestId => !db.waiting requestId || db.findSurvivors requestId = ⟨[], []⟩
  | _ => true

/-- A row phase stores retractions and the facts of its survivors, and nothing else. -/
theorem removeRows_stores_no_fact (hkept : Kept db) {evidenceRef : BlobRef} {requestId : Uuid}
    (hok : db.removeRows contracts now evidenceRef requestId = .ok db')
    (hnone : db.findsNoSurvivor (.removeRows now evidenceRef requestId) = true)
    {row : OutboxEventRow} (hrow : row ∈ db.stored db') :
    row.envelope.payload.isFact = false := by
  rcases removeRows_eq_ok hok with rfl | ⟨request, rfl, hplanned, -, hfinish⟩
  · rw [stored_eq_nil hkept rfl] at hrow
    cases hrow
  · obtain ⟨repairs, -, hcount, heq⟩ := finishRemoval_emits hfinish
    have hwaiting : db.waiting request.id = true := by
      simp [waiting, hplanned.1, hplanned.2]
    have hsurvivors : db.findSurvivors request.id = ⟨[], []⟩ := by
      simpa [findsNoSurvivor, hwaiting] using hnone
    -- without survivors there is nothing to announce again
    obtain rfl : repairs = [] := by
      simpa [hsurvivors, survivingProjects, survivingConversations] using hcount
    have hstored : db.stored db' = (db.remaining request).emitted
        (db.retractions now evidenceRef request ++
          repairSteps now request.id request.tenantId 0 []) := by
      refine stored_deliverAll ?_ (fun row hrow => hkept.fresh row (mem_remaining hrow))
        (heq.trans (deliverAll_congr (cleared_deliveries db request) _))
      rfl
    rw [hstored] at hrow
    obtain ⟨e, he, hrow, -⟩ := mem_emitted _ hrow
    rw [hrow]
    rcases mem_append.mp he with he | he
    · rcases mem_retractions he with ⟨kind, subjectId, -, owner, -, rfl⟩ | ⟨owner, chunk, rfl⟩ <;>
        rfl
    · cases he

/-- A projection measures its facts; a row phase without survivors has none. -/
theorem commit_fits {g : Registry} (h : Governed g db) {transaction : ServiceTransaction}
    (hconfig : transaction.runsWith maxEventBytes = true)
    (hnone : db.findsNoSurvivor transaction = true) {row : OutboxEventRow}
    (hrow : row ∈ db.stored (db.commit contracts transaction))
    (hfact : row.envelope.payload.isFact = true) :
    contracts.serializedLen row.envelope ≤ maxEventBytes := by
  have hunchanged : ∀ db', db'.deliveries = db.deliveries → row ∉ db.stored db' := by
    intro db' heq hrow
    rw [stored_eq_nil h.toKept heq] at hrow
    cases hrow
  cases transaction with
  | work config event =>
    simp only [commit] at hrow
    split at hrow
    · exact absurd hrow (hunchanged _ rfl)
    · rename_i hevent
      obtain ⟨steps, hsteps, heq⟩ := step_fits db contracts config
        (Bool.eq_false_iff.mpr hevent)
      rw [stored_deliverAll rfl h.fresh heq] at hrow
      obtain ⟨e, he, hrow, -⟩ := mem_emitted steps hrow
      rw [hrow] at hfact ⊢
      rw [← of_decide_eq_true hconfig]
      exact hsteps _ he e rfl hfact
  | plan tenantId requestId scope =>
    rcases plan_cases contracts tenantId requestId scope with heq | ⟨exports, -, -, heq⟩
    · rw [heq] at hrow
      exact absurd hrow (hunchanged _ rfl)
    · rw [heq] at hrow
      exact absurd hrow (hunchanged _ rfl)
  | removeRows now evidenceRef requestId =>
    simp only [commit] at hrow
    rcases committed_cases db (db.removeRows contracts now evidenceRef requestId) with heq | hok
    · rw [heq] at hrow
      exact absurd hrow (hunchanged _ rfl)
    · rw [removeRows_stores_no_fact h.toKept hok hnone hrow] at hfact
      cases hfact
  | complete requestId =>
    simp only [commit] at hrow
    split at hrow
    · exact absurd hrow (hunchanged _ (complete_deliveries db requestId))
    · exact absurd hrow (hunchanged _ rfl)

end Database

/-- When no row phase finds a survivor to announce again, no fact that is ever stored is above the
limit. -/
theorem facts_within_limit (contracts : Contracts) (maxEventBytes : Nat)
    (transactions : List ServiceTransaction)
    (hconfig : ∀ transaction ∈ transactions, transaction.runsWith maxEventBytes = true)
    (hmeets : Run.Meets (Database.commit contracts)
      (fun db transaction => db.findsNoSurvivor transaction = true) .empty transactions)
    (before : List ServiceTransaction) (transaction : ServiceTransaction)
    (after : List ServiceTransaction) (hrun : transactions = before ++ transaction :: after) :
    let db := Run.run (Database.commit contracts) .empty before
    ∀ row ∈ db.stored (db.commit contracts transaction), row.envelope.payload.isFact = true →
      contracts.serializedLen row.envelope ≤ maxEventBytes := by
  intro db row hrow hfact
  subst hrun
  obtain ⟨g, h⟩ : ∃ g, Governed g db := by
    refine Run.run_preserves (P := fun db => ∃ g, Governed g db) (fun db transaction ⟨g, h⟩ => ?_)
      ⟨⟨fun _ => 0, fun _ => .asset⟩, .empty _⟩
    obtain ⟨g', -, h'⟩ := h.commits (Database.commit_commits _ _ transaction)
    exact ⟨g', h'⟩
  obtain ⟨-, hnone, -⟩ := Run.meets_append.mp hmeets
  have hconfig := hconfig transaction (List.mem_append_right _ List.mem_cons_self)
  exact Database.commit_fits h hconfig hnone hrow hfact

/-- Contracts under which an envelope is as long as the texts of its conversation. -/
def Contracts.measuring : Contracts :=
  { Contracts.permissive with
    serializedLen := fun envelope =>
      match envelope.payload with
      | .conversationAdded fact | .conversationUpdated fact => fact.conversation.contentDigest.length
      | _ => 0 }

def limited (event : Event) : ServiceTransaction := .work ⟨[(7, "account")], 8⟩ event

def firstImported (text : String) : List ServiceTransaction :=
  (Event.receipt 0 0 "account" "first" ++
    [Event.importRun 1 0 (.ofRecords [] [.ofMessages "c" [.ofText "p" none text]]) []] ++
    Event.receipt 2 9 "account" "second").map limited

def secondImport (text : String) : ServiceTransaction :=
  limited (.importRun 3 9 (.ofRecords [] [.ofMessages "c" [.ofText "p" none text]]) [])

def firstPlanned : ServiceTransaction := .plan 1 999 (.archive 3)

def firstDeleted : ServiceTransaction := .removeRows 4 ⟨"evidence", 1, "application/json"⟩ 999

/-- The text of the second archive is too long to be announced by its import; the deletion of the
first one announces it. -/
theorem secondSurvives_announced_too_large :
    let db := Run.run (Database.commit .measuring) .empty
      (firstImported "old" ++ [secondImport "a long text", firstPlanned])
    ∃ row ∈ db.stored (db.commit .measuring firstDeleted),
      row.envelope.payload.isFact = true ∧ 8 < Contracts.measuring.serializedLen row.envelope := by
  decide +kernel

/-- A short text is announced by the import of the second archive, so that the deletion of the first
one finds no survivor. -/
theorem secondImport_within_limit :
    let db := Run.run (Database.commit .measuring) .empty (firstImported "old")
    ∃ row ∈ db.stored (db.commit .measuring (secondImport "new")),
      row.envelope.payload.isFact = true ∧ Contracts.measuring.serializedLen row.envelope ≤ 8 := by
  intro db
  let run := firstImported "old" ++ [secondImport "new", firstPlanned, firstDeleted]
  obtain ⟨row, hrow, hfact⟩ : ∃ row ∈ db.stored (db.commit .measuring (secondImport "new")),
      row.envelope.payload.isFact = true := by decide +kernel
  have hconfig : ∀ transaction ∈ run, transaction.runsWith 8 = true := by decide +kernel
  have hmeets : Run.Meets (Database.commit .measuring)
      (fun db transaction => db.findsNoSurvivor transaction = true) .empty run := by
    decide +kernel
  exact ⟨row, hrow, hfact, facts_within_limit .measuring 8 run hconfig hmeets (firstImported "old")
    (secondImport "new") [firstPlanned, firstDeleted] rfl row hrow hfact⟩

end ChatgptArchive
