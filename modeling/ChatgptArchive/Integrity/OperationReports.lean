import ChatgptArchive.Integrity.RunStates
import ChatgptArchive.Integrity.Emitted

/-!
# Operation reports

Which report a transaction of the import workers queues for an operation, against the state it
leaves the operation's run in. A report is stored under its operation's deduplication key, so an
operation has at most one.
-/

namespace ChatgptArchive

open List

def OutboxEventRow.report (row : OutboxEventRow) : Option OperationReported :=
  match row.envelope.payload with
  | .operationReported report => some report
  | _ => none

def Emission.report (e : Emission) : Option OperationReported :=
  match e.envelope.payload with
  | .operationReported report => some report
  | _ => none

theorem Emission.report_of_announces {e : Emission} {subject : AnnouncedSubject}
    (h : e.envelope.payload.announces = some subject) : e.report = none := by
  unfold report
  split
  · rename_i report hpayload
    rw [hpayload] at h
    cases h
  · rfl

section Reports

variable {contracts : Contracts} {operationId : Uuid} {report : OperationReported}

theorem checkedReport_eq_ok {reported : OperationReported}
    (h : (if contracts.operationReportValid reported then Except.ok reported
      else .error ReparseError.conflict) = .ok report) : reported = report := by
  split at h <;> cases h
  rfl

theorem failedReport_eq_ok (h : failedReport contracts operationId = .ok report) :
    report.operationId = operationId ∧ report.status = .failed := by
  unfold failedReport at h
  dsimp only at h
  split at h
  · obtain rfl := checkedReport_eq_ok h
    exact ⟨rfl, rfl⟩
  · cases h

theorem importedReport_eq_ok {archiveId : Uuid} {summary : ImportSummary}
    (h : importedReport contracts operationId archiveId summary = .ok report) :
    report.operationId = operationId ∧ report.status ≠ .failed := by
  unfold importedReport at h
  dsimp only at h
  split at h
  · obtain rfl := checkedReport_eq_ok h
    refine ⟨rfl, ?_⟩
    dsimp only
    split <;> exact nofun
  · cases h

end Reports

namespace Database

variable {db db' : Database} {contracts : Contracts} {now : Instant}
  {operationId runId tenantId exportId : Uuid} {state : ImportState} {g : Registry}

theorem mem_outbox_of_delivers {P : DeliveryStep → Prop} (h : Delivers P db db')
    {row : OutboxEventRow} (hrow : row ∈ db'.outboxEvents) :
    row ∈ db.outboxEvents ∨ ∃ e, P (.emit e) ∧ row = e.row row.id := by
  obtain ⟨steps, hsteps, heq⟩ := h
  have houtbox : db'.outboxEvents = (db.deliverAll steps).outboxEvents :=
    deliveries_frame heq fun _ => rfl
  rw [houtbox, deliverAll_outboxEvents] at hrow
  rcases mem_append.mp hrow with hrow | hrow
  · exact .inl hrow
  · obtain ⟨e, he, hrow, -⟩ := mem_emitted steps hrow
    exact .inr ⟨e, hsteps _ he, hrow⟩

/-! ## At most one report -/

structure Keyed (db : Database) : Prop where
  report : ∀ row ∈ db.outboxEvents, ∀ report, row.report = some report →
    row.deduplicationKey = some (.operationReported report.operationId)
  distinct : db.outboxEvents.Pairwise fun row row' =>
    ∀ key, row.deduplicationKey = some key → row'.deduplicationKey ≠ some key

namespace Keyed

theorem congr (h : Keyed db) (heq : db'.deliveries = db.deliveries) : Keyed db' := by
  have houtbox : db'.outboxEvents = db.outboxEvents := deliveries_frame heq fun _ => rfl
  exact ⟨houtbox ▸ h.report, houtbox ▸ h.distinct⟩

theorem deliver (h : Keyed db) {step : DeliveryStep}
    (hstep : ∀ e report, step = .emit e → e.report = some report →
      e.key = .operationReported report.operationId) : Keyed (db.deliver step) := by
  refine ⟨?_, ?_⟩
  · intro row hrow report hreport
    rw [deliver_outboxEvents] at hrow
    rcases mem_append.mp hrow with hrow | hrow
    · exact h.report row hrow report hreport
    · obtain ⟨e, rfl, -, rfl⟩ := mem_added hrow
      exact congrArg some (hstep e report rfl hreport)
  · rw [deliver_outboxEvents]
    refine pairwise_append.mpr ⟨h.distinct, ?_, fun row hrow row' hrow' key hkey hkey' => ?_⟩
    · cases step with
      | forget accountId kind subjectId => exact .nil
      | emit e =>
        rw [added]
        split
        · exact .nil
        · exact pairwise_singleton _ _
    · obtain ⟨e, rfl, hfree, rfl⟩ := mem_added hrow'
      obtain rfl := Option.some.inj hkey'
      rw [hasDeduplicationKey_iff.mpr ⟨row, hrow, hkey⟩] at hfree
      cases hfree

theorem step (h : Keyed db) (config : ImportConfig) {event : Event}
    (hevent : event.isDeletion = false) : Keyed (db.step contracts config event) := by
  have hdelivers : Delivers _ db (db.step contracts config event) :=
    step_delivers config event (by rintro now evidenceRef tenantId requestId scope rfl; cases hevent)
  refine hdelivers.preserves h (fun heq h => h.congr heq) fun hkeyed hstep => hkeyed.deliver ?_
  rintro e report rfl hreport
  cases hstep with
  | fact hrow hannounces harchive hpresents horigin hat digest =>
    rw [Emission.report_of_announces hannounces.payload] at hreport
    cases hreport
  | report hrow now reported =>
    obtain rfl := Option.some.inj hreport
    rfl

theorem reported_once (h : Keyed db) (operationId : Uuid) :
    (db.outboxEvents.filter fun row => row.report.any (·.operationId = operationId)).length ≤ 1 := by
  have hkey : ∀ row ∈ db.outboxEvents.filter fun row =>
      row.report.any (·.operationId = operationId),
      row.deduplicationKey = some (.operationReported operationId) := by
    intro row hrow
    obtain ⟨hmem, hreport⟩ := mem_filter.mp hrow
    cases hrow : row.report with
    | none =>
      rw [hrow] at hreport
      cases hreport
    | some report =>
      rw [hrow, Option.any_some, decide_eq_true_eq] at hreport
      exact hreport ▸ h.report row hmem report hrow
  have hdistinct := h.distinct.filter fun row => row.report.any (·.operationId = operationId)
  generalize db.outboxEvents.filter _ = rows at hkey hdistinct
  match rows with
  | [] => exact Nat.zero_le _
  | [_] => exact le_refl _
  | first :: second :: rest =>
    have hfirst := hkey first mem_cons_self
    have hsecond := hkey second (mem_cons_of_mem _ mem_cons_self)
    exact absurd hsecond (rel_of_pairwise_cons hdistinct mem_cons_self _ hfirst)

end Keyed

/-! ## The report and the state of the run -/

def ReportAgrees (db : Database) (report : OperationReported) : Prop :=
  ∃ p ∈ db.platformOperationImports, p.operationId = report.operationId ∧
    ∃ state, db.runState p.importRunId = some state ∧ state.isTerminal = true ∧
      (report.status = .failed ↔ state = .failed)

def AddsAgreeing (db db' : Database) : Prop :=
  ∀ row ∈ db'.outboxEvents, row ∉ db.outboxEvents → ∀ report, row.report = some report →
    db'.ReportAgrees report

theorem AddsAgreeing.of_eq (h : db'.outboxEvents = db.outboxEvents) : AddsAgreeing db db' :=
  fun _ hrow hnew => absurd (h ▸ hrow) hnew

def bindings (db : Database) : List (Uuid × Uuid) :=
  db.platformOperationImports.map fun p => (p.operationId, p.importRunId)

theorem mem_bindings : (operationId, runId) ∈ db.bindings ↔
      ∃ p ∈ db.platformOperationImports, p.operationId = operationId ∧ p.importRunId = runId := by
  simp [bindings]

theorem bindings_of_unreported (h : operationId ∈ db.unreportedOperations runId) :
    (operationId, runId) ∈ db.bindings := by
  rw [unreportedOperations, mem_insertionSort, mem_map] at h
  obtain ⟨p, hp, rfl⟩ := h
  obtain ⟨hmem, hmatch⟩ := mem_filter.mp hp
  simp only [Bool.and_eq_true, decide_eq_true_eq] at hmatch
  exact mem_bindings.mpr ⟨p, hmem, rfl, hmatch.1⟩

theorem markReported_bindings (db : Database) (now : Instant) (operationId : Uuid) :
    (db.markReported now operationId).bindings = db.bindings := by
  unfold bindings markReported
  dsimp only
  rw [Table.map_updateWhere]
  exact fun _ => rfl

theorem undelivered_bindings : Undelivered bindings :=
  ⟨fun _ _ _ _ => rfl, markReported_bindings⟩

theorem enqueueReports_agree {report : Uuid → Except ReparseError OperationReported}
    (hreport : ∀ operationId reported, report operationId = .ok reported →
      reported.operationId = operationId ∧ (reported.status = .failed ↔ state = .failed))
    (hok : enqueueReports now tenantId exportId report db (db.unreportedOperations runId) = .ok db')
    (hstate : db'.runState runId = some state) (hterminal : state.isTerminal = true) :
    AddsAgreeing db db' := by
  intro row hrow hnew reported hreported
  have hdelivers := enqueueReports_delivers (P := fun step => ∀ e, step = .emit e →
      ∀ reported, e.report = some reported → db'.ReportAgrees reported) _
    (fun operationId hoperation reported hok' e he reported' hreported' => ?_) hok
  · rcases mem_outbox_of_delivers hdelivers hrow with hold | ⟨e, he, heq⟩
    · exact absurd hold hnew
    · rw [heq] at hreported
      exact he e rfl reported hreported
  · obtain rfl := DeliveryStep.emit.inj he
    obtain rfl := Option.some.inj hreported'
    obtain ⟨hid, hstatus⟩ := hreport operationId reported hok'
    have hbinding := bindings_of_unreported hoperation
    rw [← enqueueReports_undelivered undelivered_bindings _ hok] at hbinding
    obtain ⟨p, hp, hoperation, hrun⟩ := mem_bindings.mp hbinding
    exact ⟨p, hp, hoperation.trans hid.symm, state, hrun ▸ hstate, hterminal, hstatus⟩

theorem AddsAgreeing.of_left {start : Database} (h : AddsAgreeing start db')
    (hstart : ∀ row ∈ start.outboxEvents, row ∈ db.outboxEvents ∨ row.report = none) :
    AddsAgreeing db db' := by
  intro row hrow hnew report hreport
  refine h row hrow (fun hmem => ?_) report hreport
  rcases hstart row hmem with hold | hnone
  · exact hnew hold
  · rw [hnone] at hreport
    cases hreport

theorem AddsAgreeing.committed {ε : Type} {result : Except ε Database}
    (h : ∀ db', result = .ok db' → AddsAgreeing db db') :
    AddsAgreeing db (ChatgptArchive.committed db result) :=
  committed_of (.of_eq rfl) h

theorem projectImportFacts_no_reports {owners : OwnerResolver} {scope : FactScope}
    {outcome : ProjectionOutcome}
    (hok : db.projectImportFacts contracts owners scope now = .ok (db', outcome)) :
    ∀ row ∈ db'.outboxEvents, row ∈ db.outboxEvents ∨ row.report = none := by
  have hdelivers := projectImportFacts_emits (P := fun step => ∀ e, step = .emit e →
    e.report = none) (fun owner c subject hfact _ e he => ?_) hok
  · intro row hrow
    rcases mem_outbox_of_delivers hdelivers hrow with hold | ⟨e, he, heq⟩
    · exact .inl hold
    · rw [heq]
      exact .inr (he e rfl)
  · obtain rfl := DeliveryStep.emit.inj he
    exact Emission.report_of_announces hfact.announces.payload

theorem importPending_agrees (h : Owned g db) {config : ImportConfig} {runId : Uuid}
    {parsed : ParsedConversations} {artifacts : List BlobRef}
    (hok : db.importPending contracts config now runId parsed artifacts = .ok db') :
    AddsAgreeing db db' := by
  rcases importPending_eq_ok hok with ⟨-, rfl⟩ | ⟨run, row, found, gaps, plan, -, hrun, -, -, -, hrest⟩
  · exact .of_eq rfl
  · obtain ⟨state, hstate, -⟩ := runState_runInState h hrun
    obtain ⟨target, htarget, hmoved⟩ := db.persistRows_runState now runId plan
      (importSummary parsed gaps.length) gaps
    have htarget' : db'.runState runId = some target := by
      rw [runState_congr (projectAndReport_importRuns hrest), hmoved, hstate, Option.map_some,
        if_pos rfl]
    obtain ⟨⟨db₁, outcome⟩, hfacts, hreports⟩ := Outcome.bind_eq_ok.mp hrest
    have hagrees : AddsAgreeing (db₁.storeFactsTooLarge runId outcome.tooLarge) db' := by
      refine enqueueReports_agree (fun operationId reported hreported => ?_) hreports htarget' ?_
      · obtain ⟨hid, hstatus⟩ := importedReport_eq_ok hreported
        refine ⟨hid, iff_of_false hstatus ?_⟩
        rintro rfl
        cases htarget
      · revert htarget
        cases target <;> decide
    refine hagrees.of_left fun added hadded => ?_
    have hpersisted : ((db.persistArtifacts plan).persistProjection plan).outboxEvents =
        db.outboxEvents := deliveries_frame (db.persistPlanRows_deliveries plan).1 fun _ => rfl
    rw [← hpersisted]
    exact projectImportFacts_no_reports (ofProjection_eq_ok.mp hfacts) added hadded

theorem markPermanentFailure_agrees (hstate : db.runState runId = some state)
    (himported : state.imported = false)
    (hok : db.markPermanentFailure contracts now runId exportId tenantId = .ok db') :
    AddsAgreeing db db' := by
  have hfailed : db'.runState runId = some .failed := by
    rw [markPermanentFailure_runState hok, hstate, Option.map_some]
    revert himported
    cases state <;> simp [ImportState.finished, ImportState.imported]
  refine (enqueueReports_agree (fun operationId reported hreported => ?_) hok hfailed rfl).of_left
    fun row hrow => .inl hrow
  obtain ⟨hid, hstatus⟩ := failedReport_eq_ok hreported
  exact ⟨hid, iff_of_true hstatus rfl⟩

theorem enqueueOperationReports_agree {archiveId : Uuid} {summary : ImportSummary}
    (hstate : db.runState runId = some state) (himported : state.imported = true)
    (hok : db.enqueueOperationReports contracts now runId exportId archiveId tenantId summary =
      .ok db') : AddsAgreeing db db' := by
  have hruns := enqueueReports_undelivered undelivered_importRuns _ hok
  refine enqueueReports_agree (fun operationId reported hreported => ?_) hok
    ((runState_congr hruns runId).trans hstate) ?_
  · obtain ⟨hid, hstatus⟩ := importedReport_eq_ok hreported
    refine ⟨hid, iff_of_false hstatus ?_⟩
    rintro rfl
    cases himported
  · revert himported
    cases state <;> decide

/-- A transaction that reports the outcome of its run, a late correlation of a run that is finished,
adds reports that agree. -/
theorem step_agrees (h : Owned g db) (config : ImportConfig) {event : Event}
    (hevent : event.isDeletion = false) (houtcome : db.reportsOutcome event = true)
    (hlate : ∀ now runId, event = .reportRun now runId → ∀ state,
      db.runState runId = some state → state.finished = true) :
    AddsAgreeing db (db.step contracts config event) := by
  cases event with
  | importRun now runId parsed artifacts =>
    exact .committed fun db' hok => importPending_agrees h hok
  | failRun now runId =>
    simp only [step]
    split
    · exact .of_eq rfl
    · rename_i run row hrun
      obtain ⟨state, hstate, -⟩ := runState_runInState h hrun
      refine .committed fun db' hok => markPermanentFailure_agrees hstate ?_ hok
      simpa [reportsOutcome, hstate] using houtcome
  | reportRun now runId =>
    simp only [step]
    split
    · exact .of_eq rfl
    · rename_i run row hrun
      obtain ⟨state, hstate, -⟩ := runState_runInState h hrun
      have hfinished := hlate now runId rfl state hstate
      have hfailed : state ≠ .failed := by simpa [reportsOutcome, hstate] using houtcome
      refine .committed fun db' hok => ?_
      obtain ⟨summary, -, hok⟩ := Outcome.bind_eq_ok.mp hok
      refine enqueueOperationReports_agree hstate ?_ hok
      simpa [ImportState.finished, hfailed] using hfinished
  | reparse now tenantId archiveId inputProjection registryFingerprint parsed artifacts =>
    refine .committed fun db' hok => ?_
    obtain ⟨plan, -, hcommit⟩ := Outcome.bind_eq_ok.mp hok
    rcases commitReparse_cases hcommit with rfl | ⟨row, -, -, -, outcome, hfacts⟩
    · exact .of_eq rfl
    · have hpersisted : (db.reparsedRows plan).outboxEvents = db.outboxEvents :=
        deliveries_frame ((db.insertReparseRun plan).persistPlanRows_deliveries plan).1 fun _ => rfl
      intro added hadded hnew report hreport
      rcases projectImportFacts_no_reports hfacts added hadded with hold | hnone
      · exact absurd (hpersisted ▸ hold) hnew
      · rw [hnone] at hreport
        cases hreport
  | delete now evidenceRef tenantId requestId scope => cases hevent
  | _ => exact .of_eq (deliveries_frame (receipt_deliveries config rfl) fun _ => rfl)

end Database

/-! ## The workers -/

theorem StateMove.finished {event : Event} {id : Uuid} {state state' : ImportState}
    (h : StateMove event id state state') (hstate : state.finished = true) :
    state'.finished = true := by
  cases h with
  | hash | publish => cases hstate
  | mark now runId htarget =>
    rcases htarget with rfl | ⟨rfl, -⟩
    · rfl
    · cases hstate
  | imports now runId parsed artifacts hattempted himported htarget =>
    rw [ImportState.finished, htarget, Bool.true_or]
  | fail now runId hfinished hattempted => rfl

namespace ImportWorkers

open Database

variable {contracts : Contracts} {s : ImportWorkers}

structure Selected (s : ImportWorkers) : Prop where
  owned : ∃ g, Owned g s.db
  finished : ∀ worker selected, (worker, selected) ∈ s.attempts →
    selected.state.finished = true →
    ∃ state, s.db.runState selected.id = some state ∧ state.finished = true

/-- A finished run stays finished while its worker holds it. -/
theorem Selected.step (h : Selected s) (action : WorkerAction) :
    Selected (s.step contracts action) := by
  obtain ⟨g, howned⟩ := h.owned
  have hmoves : ∀ id state, s.db.runState id = some state → state.finished = true →
      ∃ state, (s.committedDb contracts action).runState id = some state ∧
        state.finished = true := by
    intro id state hstate hfinished
    unfold committedDb
    split
    · rename_i event htransaction
      obtain ⟨state', hstate', rfl | hmove⟩ := step_movesRuns howned contracts
        (configOf action) (transaction_not_deletion htransaction) id state hstate
      · exact ⟨_, hstate', hfinished⟩
      · exact ⟨_, hstate', hmove.finished hfinished⟩
    · exact ⟨state, hstate, hfinished⟩
  refine ⟨?_, fun worker selected hmem hfinished => ?_⟩
  · show ∃ g, Owned g (s.committedDb contracts action)
    unfold committedDb
    split
    · rename_i event htransaction
      exact owned_step h.owned _ (transaction_not_deletion htransaction)
    · exact h.owned
  · have hkept : (worker, selected) ∈ s.attempts ∨ selected ∈ s.db.importRuns := by
      cases action with
      | select other =>
        simp only [ImportWorkers.step] at hmem
        split at hmem
        · exact .inl hmem
        · split at hmem
          · rename_i run row hselect
            rcases mem_cons.mp hmem with heq | hmem
            · cases heq
              exact .inr (selectPending_cases hselect).1
            · exact .inl hmem
          · exact .inl hmem
      | finish other config now built => exact .inl (mem_filter.mp hmem).1
      | receipt event => exact .inl hmem
    rcases hkept with hmem | hrun
    · obtain ⟨state, hstate, hstill⟩ := h.finished worker selected hmem hfinished
      exact hmoves _ state hstate hstill
    · exact hmoves _ _ (runState_of_mem howned hrun) hfinished

theorem run_selected (actions : List WorkerAction) : Selected (run contracts actions) := by
  refine Run.run_preserves (P := Selected) (fun s action h => h.step action) ?_
  exact ⟨⟨⟨fun _ => 0, fun _ => .asset⟩, .empty _⟩, fun _ _ h => absurd h not_mem_nil⟩

theorem transaction_reportRun {action : WorkerAction} {now : Instant} {runId : Uuid}
    (h : s.transaction action = some (.reportRun now runId)) :
    ∃ worker selected, (worker, selected) ∈ s.attempts ∧ selected.id = runId ∧
      selected.state.finished = true := by
  cases action with
  | select worker => cases h
  | finish worker config started built =>
    obtain ⟨selected, hlookup, h⟩ := Option.bind_eq_some_iff.mp h
    obtain ⟨_, _, hattempts, -⟩ := List.lookup_eq_some_iff.mp hlookup
    have hmem : (worker, selected) ∈ s.attempts := by
      rw [hattempts]
      exact mem_append_right _ mem_cons_self
    refine ⟨worker, selected, hmem, ?_⟩
    unfold attemptEvent at h
    split at h
    · cases h
    · split at h
      · rename_i himported
        cases h
        exact ⟨rfl, by rw [ImportState.finished, himported, Bool.true_or]⟩
      · split at h
        · cases h
        · split at h <;> cases h
  | receipt event =>
    simp only [transaction] at h
    split at h <;> cases h
    contradiction

theorem step_agrees (h : Selected s) (action : WorkerAction)
    (houtcome : (s.transaction action).all s.db.reportsOutcome = true) :
    s.db.AddsAgreeing (s.step contracts action).db := by
  show s.db.AddsAgreeing (s.committedDb contracts action)
  obtain ⟨g, howned⟩ := h.owned
  unfold committedDb
  split
  · rename_i event htransaction
    rw [htransaction] at houtcome
    refine Database.step_agrees howned _ (transaction_not_deletion htransaction) houtcome ?_
    rintro now runId rfl state hstate
    obtain ⟨worker, selected, hmem, rfl, hfinished⟩ := transaction_reportRun htransaction
    obtain ⟨state', hstate', hstill⟩ := h.finished worker selected hmem hfinished
    obtain rfl := Option.some.inj (hstate.symm.trans hstate')
    exact hstill
  · exact .of_eq rfl

theorem run_keyed {cond : Database → Event → Bool} {actions : List WorkerAction}
    (hmeets : Run.Meets (step contracts)
      (fun s action => (s.transaction action).all (cond s.db) = true) initial actions) :
    (run contracts actions).db.Keyed :=
  run_preserves (fun _ config _ h hevent _ => h.step config hevent)
    ⟨fun _ h => absurd h not_mem_nil, .nil⟩ hmeets

end ImportWorkers

/-- Every operation has at most one report. When no failure is reported for a run that was imported
since its selection and no import for one that failed since, a report is added in a transaction
that leaves the operation's run in a terminal state, and says failed exactly when that state does. -/
theorem reports_agree_with_runs (contracts : Contracts) (actions : List WorkerAction)
    (hmeets : Run.Meets (ImportWorkers.step contracts)
      (fun s action => (s.transaction action).all s.db.reportsOutcome = true) .initial actions) :
    (∀ operationId, ((ImportWorkers.run contracts actions).db.outboxEvents.filter fun row =>
      row.report.any (·.operationId = operationId)).length ≤ 1) ∧
    ∀ before action after, actions = before ++ action :: after →
      let s := ImportWorkers.run contracts before
      let s' := s.step contracts action
      ∀ row ∈ s'.db.outboxEvents, row ∉ s.db.outboxEvents → ∀ report, row.report = some report →
        ∃ p ∈ s'.db.platformOperationImports, p.operationId = report.operationId ∧
          ∃ state, s'.db.runState p.importRunId = some state ∧ state.isTerminal = true ∧
            (report.status = .failed ↔ state = .failed) := by
  refine ⟨(ImportWorkers.run_keyed hmeets).reported_once, ?_⟩
  rintro before action after rfl s s'
  obtain ⟨-, houtcome, -⟩ := Run.meets_append.mp hmeets
  exact ImportWorkers.step_agrees (ImportWorkers.run_selected before) action houtcome

def boundAfterImport : List WorkerAction :=
  selectedTwice ++ [.finish 1 default 1 builtOne, .receipt (.bindOperation 2 77)]

def reportedStatuses (db : Database) : List (Uuid × OperationStatus) :=
  db.outboxEvents.filterMap fun row => row.report.map fun report =>
    (report.operationId, report.status)

/-- The second worker could not read the archive: it reports the operation failed although its run
is completed. -/
theorem boundAfterImport_reported_failed :
    let s := ImportWorkers.run .permissive
      (boundAfterImport ++ [.finish 2 default 2 (.error .blobMissing)])
    reportedStatuses s.db = [(77, .failed)] ∧ s.db.runState 0 = some .completed ∧
      s.db.platformOperationImports.map (fun p => (p.operationId, p.importRunId)) = [(77, 0)] := by
  decide +kernel

/-- A late correlation reports the operation by the completed run. -/
theorem boundAfterImport_reported :
    let s := ImportWorkers.run .permissive (boundAfterImport ++ [.select 3])
    let s' := s.step .permissive (.finish 3 default 2 builtOne)
    ∃ row ∈ s'.db.outboxEvents, row ∉ s.db.outboxEvents ∧ ∃ report, row.report = some report ∧
      ∃ p ∈ s'.db.platformOperationImports, p.operationId = report.operationId ∧
        ∃ state, s'.db.runState p.importRunId = some state ∧ state.isTerminal = true ∧
          (report.status = .failed ↔ state = .failed) := by
  intro s s'
  obtain ⟨row, hrow, hnew, hsome⟩ : ∃ row ∈ s'.db.outboxEvents, row ∉ s.db.outboxEvents ∧
      row.report.isSome = true := by decide +kernel
  obtain ⟨report, hreport⟩ := Option.isSome_iff_exists.mp hsome
  have hmeets : Run.Meets (ImportWorkers.step .permissive)
      (fun s action => (s.transaction action).all s.db.reportsOutcome = true) .initial
      (boundAfterImport ++ [.select 3] ++ [.finish 3 default 2 builtOne]) := by decide +kernel
  exact ⟨row, hrow, hnew, report, hreport, (reports_agree_with_runs .permissive _ hmeets).2 _ _ []
    rfl row hrow hnew report hreport⟩

end ChatgptArchive
