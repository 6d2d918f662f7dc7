import ChatgptArchive.ImportWorkers
import ChatgptArchive.Integrity.Records

/-!
# The states of the import runs

Which moves one transaction can make with the state of a run, and from them what the workers, the
receipts and the resumptions leave of a terminal state over a whole run.
-/

namespace ChatgptArchive

open List Option ImportState

inductive StateMove : Event → Uuid → ImportState → ImportState → Prop
  | hash (runId : Uuid) (sha256Hex : String) (byteLength : Nat) :
      StateMove (.recordHash runId sha256Hex byteLength) runId .received .hashed
  | mark (now : Instant) (runId : Uuid) {expected target : ImportState}
      (h : target = .failed ∨ (expected = .hashed ∧ target = .duplicate)) :
      StateMove (.markRun now runId expected target) runId expected target
  | publish (now : Instant) (request : PublishRequest) :
      StateMove (.publish now request) request.runId .hashed .stored
  | imports (now : Instant) (runId : Uuid) (parsed : ParsedConversations) (artifacts : List BlobRef)
      {state target : ImportState} (hattempted : state.attempted = true)
      (hstate : state.imported = false) (htarget : target.imported = true) :
      StateMove (.importRun now runId parsed artifacts) runId state target
  | fail (now : Instant) (runId : Uuid) {state : ImportState} (hstate : state.finished = false)
      (hattempted : state.attempted = true) : StateMove (.failRun now runId) runId state .failed

namespace Database

variable {db db' : Database} {contracts : Contracts} {now : Instant} {runId : Uuid}
  {target : ImportState} {g : Registry} {config : ImportConfig} {event : Event}

theorem runState_congr (h : db'.importRuns = db.importRuns) (id : Uuid) :
    db'.runState id = db.runState id := by
  rw [runState, h, runState]

theorem runState_append (h : ∃ rows, db'.importRuns = db.importRuns ++ rows) {id : Uuid}
    {state : ImportState} (hstate : db.runState id = some state) : db'.runState id = some state := by
  obtain ⟨rows, h⟩ := h
  obtain ⟨run, hfind, hrun⟩ := map_eq_some_iff.mp hstate
  rw [runState, h, List.find?_append, hfind, some_or, map_some, hrun]

theorem runState_updateRuns {p : ImportRunRow → Bool} {f : ImportRunRow → ImportRunRow}
    {runId : Uuid} {q : ImportState → Bool} {target : ImportState}
    (h : db'.importRuns = Table.updateWhere p f db.importRuns)
    (hp : ∀ r, p r = (decide (r.id = runId) && q r.state)) (hid : ∀ r, (f r).id = r.id)
    (htarget : ∀ r, (f r).state = target) (id : Uuid) :
    db'.runState id = (db.runState id).map fun state =>
      if id = runId ∧ q state = true then target else state := by
  rw [runState, h, Table.find?_updateWhere (fun r => by rw [hid]), runState, Option.map_map,
    Option.map_map]
  refine Option.map_congr fun r hr => ?_
  have hr : r.id = id := by simpa using List.find?_some hr
  simp only [Function.comp_apply, hp, Bool.and_eq_true, decide_eq_true_eq, hr]
  split
  · exact htarget r
  · rfl

theorem runState_guardedRunUpdate {expected : ImportState} {update : ImportRunRow → ImportRunRow}
    (hok : db.guardedRunUpdate runId expected update = .ok db') (hid : ∀ r, (update r).id = r.id)
    (htarget : ∀ r, (update r).state = target) (id : Uuid) :
    db'.runState id = (db.runState id).map fun state =>
      if id = runId ∧ state = expected then target else state := by
  unfold guardedRunUpdate at hok
  dsimp only at hok
  split at hok <;> cases hok
  refine (@runState_updateRuns db _ _ _ _ (· = expected) _ rfl (fun _ => rfl) hid htarget id).trans ?_
  simp only [decide_eq_true_eq]

theorem persistPlanRows_frame {α : Type*} {f : Database → α}
    (hprojection : ∀ db : Database, f db.unwritten = f db)
    (hartifact : ∀ (db : Database) (extractedArtifacts : List ExtractedArtifactRow)
      (nextUuid : Uuid), f { db with extractedArtifacts, nextUuid } = f db)
    (db : Database) (plan : ReparsePlan) :
    f ((db.persistArtifacts plan).persistProjection plan) = f db := by
  have hartifacts : ∀ (references : List (BlobRef × Nat)) (db : Database),
      f (insertArtifacts plan.exportId db references) = f db := by
    intro references
    induction references with
    | nil => exact fun _ => rfl
    | cons head references ih => exact fun db => (ih _).trans (hartifact db _ _)
  exact (unwritten_frame (Writes.persistProjection (db.persistArtifacts plan) plan).grows.unwritten
    hprojection).trans (hartifacts _ db)

theorem persistPlanRows_importRuns (db : Database) (plan : ReparsePlan) :
    ((db.persistArtifacts plan).persistProjection plan).importRuns = db.importRuns :=
  persistPlanRows_frame (fun _ => rfl) (fun _ _ _ => rfl) db plan

theorem undelivered_importRuns : Undelivered (·.importRuns) := ⟨fun _ _ _ _ => rfl, fun _ _ _ => rfl⟩

theorem runState_of_mem (h : Owned g db) {run : ImportRunRow} (hrun : run ∈ db.importRuns) :
    db.runState run.id = some run.state := by
  rw [runState, Table.find?_of_key h.importRunIds hrun (decide_eq_true rfl) fun _ => of_decide_eq_true]
  rfl

theorem runState_runInState (h : Owned g db) {p : ImportState → Bool} {runId : Uuid}
    {run : ImportRunRow} {row : ExportRow} (hrun : db.runInState p runId = some (run, row)) :
    ∃ state, db.runState runId = some state ∧ p state = true := by
  obtain ⟨found, hfind, -⟩ := bind_eq_some_iff.mp hrun
  have hmatch := List.find?_some hfind
  simp only [Bool.and_eq_true, decide_eq_true_eq] at hmatch
  exact ⟨found.state, hmatch.1 ▸ runState_of_mem h (mem_of_find?_eq_some hfind), hmatch.2⟩

theorem persistRows_runState (db : Database) (now : Instant) (runId : Uuid) (plan : ReparsePlan)
    (summary : ImportSummary) (gaps : List AiGap) :
    ∃ target : ImportState, target.imported = true ∧ ∀ id,
      (db.persistRows now runId plan summary gaps).runState id =
        (db.runState id).map fun state => if id = runId then target else state := by
  generalize htarget : (if summary.completeness = .complete then completed
    else .partiallyCompleted) = target
  have hrow (r : ImportRunRow) : (if summary.completeness = .complete then completed
    else .partiallyCompleted) = target := htarget
  refine ⟨target, ?_, fun id => ?_⟩
  · rw [← htarget]
    split <;> rfl
  · have hmoved := @runState_updateRuns db (db.persistRows now runId plan summary gaps) _ _ _
      (fun _ => true) _ (congrArg _ (db.persistPlanRows_importRuns plan))
      (fun r => (Bool.and_true _).symm) (fun _ => rfl) hrow id
    simpa using hmoved

theorem projectAndReport_importRuns {plan : ReparsePlan} {summary : ImportSummary}
    (hok : projectAndReport contracts config now db runId plan summary = .ok db') :
    db'.importRuns = db.importRuns := by
  obtain ⟨⟨db₁, outcome⟩, hfacts, hreports⟩ := Outcome.bind_eq_ok.mp hok
  have hfacts := projectImportFacts_undelivered undelivered_importRuns
    (ofProjection_eq_ok.mp hfacts)
  exact (enqueueReports_undelivered undelivered_importRuns _ hreports).trans hfacts

theorem importPending_runState {parsed : ParsedConversations} {artifacts : List BlobRef}
    (hok : db.importPending contracts config now runId parsed artifacts = .ok db') :
    db' = db ∨ ((∃ run row, db.runInState attempted runId = some (run, row)) ∧
      (∀ state, db.runState runId = some state → state.imported = false) ∧
      ∃ target : ImportState, target.imported = true ∧ ∀ id,
        db'.runState id = (db.runState id).map fun state =>
          if id = runId then target else state) := by
  rcases importPending_eq_ok hok with
    ⟨-, rfl⟩ | ⟨run, row, found, gaps, plan, -, hrun, hfind, himported, -, hrest⟩
  · exact .inl rfl
  · obtain ⟨target, htarget, hmoved⟩ := db.persistRows_runState now runId plan
      (importSummary parsed gaps.length) gaps
    refine .inr ⟨⟨run, row, hrun⟩, fun state hstate => ?_, target, htarget, fun id => ?_⟩
    · rw [runState, hfind, map_some, Option.some.injEq] at hstate
      exact hstate ▸ himported
    · rw [← hmoved]
      exact runState_congr (projectAndReport_importRuns hrest) id

theorem markPermanentFailure_runState {exportId tenantId : Uuid}
    (hok : db.markPermanentFailure contracts now runId exportId tenantId = .ok db') (id : Uuid) :
    db'.runState id = (db.runState id).map fun state =>
      if id = runId ∧ state.finished = false then .failed else state := by
  have hruns := enqueueReports_undelivered undelivered_importRuns _ hok
  have hmoved := runState_updateRuns (q := fun state => !state.finished) hruns (fun _ => rfl)
    (fun _ => rfl) (fun _ => rfl) id
  simpa using hmoved

theorem publishExport_runState {request : PublishRequest}
    (hok : db.publishExport now request = .ok db') (id : Uuid) :
    db'.runState id = (db.runState id).map fun state =>
      if id = request.runId ∧ state = .hashed then .stored else state := by
  unfold publishExport at hok
  dsimp only at hok
  split at hok
  · cases hok
  · split at hok
    · cases hok
    · rename_i db₁ hupdate
      have hmoved := runState_guardedRunUpdate hupdate (fun _ => rfl) (fun _ => rfl) id
      split at hok <;> cases hok <;> exact hmoved

def MovesRuns (event : Event) (db db' : Database) : Prop :=
  ∀ id state, db.runState id = some state → ∃ state', db'.runState id = some state' ∧
    (state' = state ∨ StateMove event id state state')

theorem MovesRuns.of_eq (h : db'.importRuns = db.importRuns) : MovesRuns event db db' :=
  fun id state hstate =>
  ⟨state, (runState_congr h id).trans hstate, .inl rfl⟩

theorem MovesRuns.of_map {q : ImportState → Prop} [DecidablePred q]
    (h : ∀ id, db'.runState id = (db.runState id).map fun state =>
      if id = runId ∧ q state then target else state)
    (hmove : ∀ state, db.runState runId = some state → q state → StateMove event runId state target) :
    MovesRuns event db db' := by
  intro id state hstate
  rw [h, hstate]
  refine ⟨_, rfl, ?_⟩
  dsimp only
  split
  · rename_i hmatch
    obtain ⟨rfl, hq⟩ := hmatch
    exact .inr (hmove state hstate hq)
  · exact .inl rfl

theorem MovesRuns.committed {ε : Type} {result : Except ε Database}
    (h : ∀ db', result = .ok db' → MovesRuns event db db') :
    MovesRuns event db (ChatgptArchive.committed db result) :=
  committed_of (.of_eq rfl) h

/-- A transaction moves no run but by `StateMove`. -/
theorem step_movesRuns (h : Owned g db) (contracts : Contracts) (config : ImportConfig)
    {event : Event} (hevent : event.isDeletion = false) :
    MovesRuns event db (db.step contracts config event) := by
  cases event with
  | createRun now accountRef mode mediaType =>
    exact fun id state hstate => ⟨state, runState_append ⟨_, rfl⟩ hstate, .inl rfl⟩
  | recordHash runId sha256Hex byteLength =>
    refine .committed fun db' hok => .of_map
      (runState_guardedRunUpdate hok (fun _ => rfl) fun _ => rfl) fun state _ heq => ?_
    exact heq ▸ .hash ..
  | markRun now runId expected target =>
    refine .committed fun db' hok => ?_
    unfold markRun at hok
    split at hok
    · rename_i hstates
      refine .of_map (runState_guardedRunUpdate hok (fun _ => rfl) fun _ => rfl)
        fun state _ heq => ?_
      obtain rfl := heq
      exact .mark now runId hstates
    · cases hok
  | publish now request =>
    exact .committed fun db' hok => .of_map (publishExport_runState hok)
      fun state _ heq => heq ▸ .publish now request
  | bindOperation exportId operationId =>
    refine .committed fun db' hok => .of_eq ?_
    unfold bindPlatformOperation at hok
    split at hok <;> cases hok
    rfl
  | importRun now runId parsed artifacts =>
    refine .committed fun db' hok => ?_
    rcases importPending_runState hok with rfl | ⟨⟨run, row, hrun⟩, himported, target, htarget, hmap⟩
    · exact .of_eq rfl
    · obtain ⟨state, hstate, hattempted⟩ := runState_runInState h hrun
      refine .of_map (q := fun _ => True) (by simpa using hmap) fun state' hstate' _ => ?_
      -- the run is in the state the worker found it in
      obtain rfl := Option.some.inj (hstate.symm.trans hstate')
      exact .imports now runId parsed artifacts hattempted (himported _ hstate) htarget
  | failRun now runId =>
    simp only [step]
    split
    · exact .of_eq rfl
    · rename_i run row hrun
      obtain ⟨state, hstate, hattempted⟩ := runState_runInState h hrun
      refine .committed fun db' hok => .of_map (markPermanentFailure_runState hok)
        fun state' hstate' hfinished => ?_
      obtain rfl := Option.some.inj (hstate.symm.trans hstate')
      exact .fail now runId hfinished hattempted
  | reportRun now runId =>
    simp only [step]
    split
    · exact .of_eq rfl
    · refine .committed fun db' hok => .of_eq ?_
      obtain ⟨summary, -, hok⟩ := Outcome.bind_eq_ok.mp hok
      exact enqueueReports_undelivered undelivered_importRuns _ hok
  | reparse now tenantId archiveId inputProjection registryFingerprint parsed artifacts =>
    refine .committed fun db' hok => .of_eq ?_
    obtain ⟨plan, -, hcommit⟩ := Outcome.bind_eq_ok.mp hok
    rcases commitReparse_cases hcommit with rfl | ⟨row, -, -, -, outcome, hfacts⟩
    · rfl
    · exact (projectImportFacts_undelivered undelivered_importRuns hfacts).trans
        ((db.insertReparseRun plan).persistPlanRows_importRuns plan)
  | delete now evidenceRef tenantId requestId scope => cases hevent

end Database

theorem StateMove.not_terminal {db : Database} {event : Event} {id : Uuid} {state state' : ImportState}
    (h : StateMove event id state state') (hspares : db.sparesTerminal event = true)
    (hstate : db.runState id = some state) : state.isTerminal = false := by
  cases h with
  | hash => rfl
  | mark now runId htarget => simpa [Database.sparesTerminal] using hspares
  | publish => rfl
  | imports now runId parsed artifacts hattempted himported htarget =>
    have hfailed : state ≠ .failed := by
      rintro rfl
      simp [Database.sparesTerminal, hstate] at hspares
    revert hattempted himported hfailed
    cases state <;> decide
  | fail now runId hfinished hattempted =>
    revert hattempted hfinished
    cases state <;> decide

/-! ## The workers -/

namespace Database

variable {db db' : Database} {contracts : Contracts} {now : Instant} {g : Registry}

theorem selectPending_cases {run : ImportRunRow} {row : ExportRow}
    (h : db.selectPending = some (run, row)) :
    run ∈ db.importRuns ∧ row ∈ db.exports ∧ run.exportId = some row.id ∧
      run.state.attempted = true := by
  have hmem := mem_of_head? h
  rw [mem_insertionSort, mem_flatMap] at hmem
  obtain ⟨selected, hselected, hpair⟩ := hmem
  obtain ⟨e, he, heq⟩ := mem_map.mp hpair
  cases heq
  obtain ⟨hrun, hselectable⟩ := mem_filter.mp hselected
  obtain ⟨hrow, hexport⟩ := mem_filter.mp he
  refine ⟨hrun, hrow, of_decide_eq_true hexport, ?_⟩
  simp only [selectable, Bool.or_eq_true, Bool.and_eq_true] at hselectable
  simp only [attempted, Bool.or_eq_true]
  exact hselectable.imp id And.left

theorem runInState_selected (h : Owned g db) {run : ImportRunRow} {row : ExportRow}
    (hselect : db.selectPending = some (run, row)) :
    db.runInState attempted run.id = some (run, row) := by
  obtain ⟨hrun, hrow, hexport, hattempted⟩ := selectPending_cases hselect
  have hfound : db.importRuns.find? (fun r => r.id = run.id && r.state.attempted) = some run :=
    Table.find?_of_key h.importRunIds hrun (by simp [hattempted]) fun r hr =>
      of_decide_eq_true (Bool.and_eq_true_iff.mp hr).1
  have hfoundRow : db.exports.find? (fun e => run.exportId = some e.id) = some row :=
    Table.find?_of_key h.exportIds hrow (by simp [hexport]) fun e he =>
      Option.some.inj ((of_decide_eq_true he).symm.trans hexport)
  rw [runInState, hfound, bind_some, hfoundRow, map_some]

/-- A run that is finished already is not marked again: only its operations are reported. -/
theorem markPermanentFailure_of_finished (h : Owned g db) {run : ImportRunRow}
    (hrun : run ∈ db.importRuns) (hfinished : run.state.finished = true) (exportId tenantId : Uuid) :
    db.markPermanentFailure contracts now run.id exportId tenantId =
      db.enqueueFailedReports contracts now run.id exportId tenantId := by
  have hruns : Table.updateWhere (fun r => decide (r.id = run.id) && !r.state.finished)
      (fun r => { r with state := .failed, finishedAt := some now }) db.importRuns =
      db.importRuns := by
    refine (map_congr_left fun r hr => if_neg ?_).trans (map_id _)
    simp only [Bool.and_eq_true, decide_eq_true_eq, Bool.not_eq_true', not_and]
    intro hid
    rw [inj_on_of_nodup_map h.importRunIds hr hrun hid, hfinished]
    exact Bool.noConfusion
  unfold markPermanentFailure
  dsimp only
  rw [hruns]

/-- A call with no other writer commits the transaction that ends the attempt it selects. -/
theorem committed_processPendingOnce (h : Owned g db) (config : ImportConfig) (built : Built) :
    committed db ((processPendingOnce contracts config now (fun row => built.map fun read =>
      initialPlan row (db.currentProjection row.id) read.1 read.2) db).map Prod.snd) =
      match db.selectPending.bind fun selected => attemptEvent now selected.1 built with
      | some event => db.step contracts config event
      | none => db := by
  unfold processPendingOnce
  cases hselect : db.selectPending with
  | none => rfl
  | some selected =>
    obtain ⟨run, row⟩ := selected
    have hfound := runInState_selected h hselect
    obtain ⟨hrun, -, -, -⟩ := selectPending_cases hselect
    simp only [bind_some, attemptEvent]
    split
    · rename_i hfailed
      have hfinished : run.state.finished = true := by rw [hfailed]; rfl
      simp only [step, hfound, markPermanentFailure_of_finished h hrun hfinished]
      cases db.enqueueFailedReports contracts now run.id row.id row.accountId <;> rfl
    · split
      · simp only [step, hfound]
        cases db.loadImportSummary run.id with
        | error e => rfl
        | ok summary =>
          cases hreports : db.enqueueOperationReports contracts now run.id row.id row.aiArchiveId
            row.accountId summary <;> simp only [bind, Except.bind, hreports] <;> rfl
      · cases built with
        | ok read =>
          simp only [step, importPending, hfound, Except.map]
          cases db.persistInitialPlan contracts config now run.id (initialPlan row
            (db.currentProjection row.id) read.1 read.2) <;> rfl
        | error e =>
          by_cases hpermanent : e.permanent = true
          · simp only [Except.map, if_pos hpermanent, step, hfound]
            cases db.markPermanentFailure contracts now run.id row.id row.accountId <;> rfl
          · simp only [Except.map, if_neg hpermanent, committed]

end Database

namespace ImportWorkers

open Database

variable {contracts : Contracts} {s : ImportWorkers} {cond : Database → Event → Bool}

theorem transaction_not_deletion {action : WorkerAction} {event : Event}
    (h : s.transaction action = some event) : event.isDeletion = false := by
  cases action with
  | select worker => cases h
  | finish worker config now built =>
    obtain ⟨selected, -, h⟩ := bind_eq_some_iff.mp h
    unfold attemptEvent at h
    split at h
    · cases h
      rfl
    · split at h
      · cases h
        rfl
      · split at h
        · cases h
          rfl
        · split at h <;> cases h
          rfl
  | receipt event =>
    simp only [transaction] at h
    split at h <;> cases h
    rename_i hreceipt
    cases event with
    | delete => cases hreceipt
    | _ => rfl

theorem run_preserves {P : Database → Prop}
    (hstep : ∀ db config event, P db → event.isDeletion = false → cond db event = true →
      P (db.step contracts config event)) (hs : P s.db) {actions : List WorkerAction}
    (hmeets : Run.Meets (step contracts)
      (fun s action => (s.transaction action).all (cond s.db) = true) s actions) :
    P (Run.run (step contracts) s actions).db := by
  refine Run.run_invariant (P := fun s : ImportWorkers => P s.db) (fun s action hs hcond => ?_) hs
    hmeets
  show P (s.committedDb contracts action)
  unfold committedDb
  split
  · rename_i event htransaction
    rw [htransaction] at hcond
    exact hstep _ _ event hs (transaction_not_deletion htransaction) hcond
  · exact hs

theorem owned_step {db : Database} (h : ∃ g, Owned g db) (config : ImportConfig) {event : Event}
    (hevent : event.isDeletion = false) : ∃ g, Owned g (db.step contracts config event) := by
  obtain ⟨g, h⟩ := h
  obtain ⟨g', -, howned⟩ := h.records (step_records _ _ config hevent)
  exact ⟨g', howned⟩

theorem run_owned {actions : List WorkerAction} (hmeets : Run.Meets (step contracts)
      (fun s action => (s.transaction action).all (cond s.db) = true) initial actions) :
    ∃ g, Owned g (run contracts actions).db :=
  run_preserves (P := fun db => ∃ g, Owned g db)
    (fun _ config _ h hevent _ => owned_step h config hevent)
    ⟨⟨fun _ => 0, fun _ => .asset⟩, .empty _⟩ hmeets

/-- A call of `processPendingOnce` beside no other writer does what a worker does that selects a
run and finishes its attempt, in every state the workers reach, and whatever it makes of the
archive. -/
theorem processPendingOnce_eq_attempt (contracts : Contracts) (actions : List WorkerAction)
    (worker : Nat) (config : ImportConfig) (now : Instant) (built : Built) :
    let s := run contracts actions
    s.attempts.lookup worker = none →
    committed s.db ((processPendingOnce contracts config now (fun row => built.map fun read =>
      initialPlan row (s.db.currentProjection row.id) read.1 read.2) s.db).map Prod.snd) =
      (Run.run (step contracts) s [.select worker, .finish worker config now built]).db := by
  intro s hidle
  obtain ⟨g, h⟩ := @run_owned contracts (fun _ _ => true) actions <| .of_steps
    (fun s action => by cases s.transaction action <;> rfl) _ _
  rw [Database.committed_processPendingOnce h config built]
  have hselected : (s.step contracts (.select worker)).attempts.lookup worker =
      s.db.selectPending.map Prod.fst := by
    simp only [step, hidle]
    cases s.db.selectPending with
    | none => exact hidle
    | some selected => exact List.lookup_cons_self
  show _ = ((s.step contracts (.select worker)).committedDb contracts (.finish worker config now built))
  rw [committedDb, transaction, hselected]
  cases s.db.selectPending <;> rfl

end ImportWorkers

/-- When no import commits for a run that failed since its selection and no receipt ends a run a
second time, a terminal state is final. -/
theorem terminal_state_final (contracts : Contracts) (actions later : List WorkerAction)
    (hmeets : Run.Meets (ImportWorkers.step contracts)
      (fun s action => (s.transaction action).all s.db.sparesTerminal = true) .initial
      (actions ++ later))
    (runId : Uuid) (state : ImportState) (hterminal : state.isTerminal = true)
    (hstate : (ImportWorkers.run contracts actions).db.runState runId = some state) :
    (ImportWorkers.run contracts (actions ++ later)).db.runState runId = some state := by
  obtain ⟨hactions, hlater⟩ := Run.meets_append.mp hmeets
  have howned := ImportWorkers.run_owned hactions
  rw [ImportWorkers.run, Run.run_append]
  refine (ImportWorkers.run_preserves
    (P := fun db => (∃ g, Owned g db) ∧ db.runState runId = some state)
    (fun db config event ⟨h, hdb⟩ hevent hspares => ?_) ⟨howned, hstate⟩ hlater).2
  refine ⟨ImportWorkers.owned_step h config hevent, ?_⟩
  obtain ⟨g, h⟩ := h
  obtain ⟨state', hstate', hmoved⟩ := Database.step_movesRuns h _ config hevent runId state hdb
  rcases hmoved with rfl | hmove
  · exact hstate'
  · rw [hmove.not_terminal hspares hdb] at hterminal
    cases hterminal

def selectedTwice : List WorkerAction :=
  (Event.receipt 0 0 "account" "digest").map .receipt ++ [.select 1, .select 2]

def builtOne : Built := .ok (.ofRecords [] [.ofMessages "c" [.ofText "p" none "text"]], [])

theorem selectedTwice_eq_attempt :
    let s := ImportWorkers.run .permissive selectedTwice
    s.attempts.lookup 3 = none ∧
      committed s.db ((processPendingOnce .permissive default 1 (fun row => builtOne.map fun read =>
        initialPlan row (s.db.currentProjection row.id) read.1 read.2) s.db).map Prod.snd) =
        (Run.run (ImportWorkers.step .permissive) s
          [.select 3, .finish 3 default 1 builtOne]).db := by
  have hidle : (ImportWorkers.run .permissive selectedTwice).attempts.lookup 3 = none := by
    decide +kernel
  exact ⟨hidle, ImportWorkers.processPendingOnce_eq_attempt _ _ 3 _ _ _ hidle⟩

/-- The second worker can not read the archive and fails the run; the first has read it and
completes the run afterwards. -/
theorem selectedTwice_failed_then_completed :
    let failed := selectedTwice ++ [.finish 2 default 1 (.error .blobMissing)]
    (ImportWorkers.run .permissive failed).db.runState 0 = some .failed ∧
      (ImportWorkers.run .permissive (failed ++ [.finish 1 default 2 builtOne])).db.runState 0 =
        some .completed := by
  decide +kernel

/-- The first worker completes the run; the second one's failure leaves it completed. -/
theorem selectedTwice_completed :
    (ImportWorkers.run .permissive (selectedTwice ++ [.finish 1 default 1 builtOne] ++
      [.finish 2 default 2 (.error .blobMissing)])).db.runState 0 = some .completed := by
  have hmeets : Run.Meets (ImportWorkers.step .permissive)
      (fun s action => (s.transaction action).all s.db.sparesTerminal = true) .initial
      (selectedTwice ++ [.finish 1 default 1 builtOne] ++
        [.finish 2 default 2 (.error .blobMissing)]) := by decide +kernel
  have hcompleted : (ImportWorkers.run .permissive
      (selectedTwice ++ [.finish 1 default 1 builtOne])).db.runState 0 = some .completed := by
    decide +kernel
  exact terminal_state_final .permissive _ _ hmeets 0 .completed rfl hcompleted

end ChatgptArchive
