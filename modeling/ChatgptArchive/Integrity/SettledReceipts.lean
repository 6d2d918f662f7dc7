import ChatgptArchive.Integrity.Uploads

/-!
# One export for one content

The duplicate check, the publication, the binding and the state change of a receipt are separate
transactions. What a call has read from a staging file stays true of the file once it is no longer
written.
-/

namespace ChatgptArchive

open Database Intake Call

/-- A resume reads a staging file only when no receive is writing it any more. -/
def Call.ReadsClosed (s : Intake) (call : Call) : Prop :=
  ∀ record ∈ call.loadedRecord, ∀ file ∈ s.files record.id,
    file.linked = true → file.writing = false

instance (s : Intake) (call : Call) : Decidable (call.ReadsClosed s) :=
  inferInstanceAs (Decidable (∀ record ∈ call.loadedRecord, ∀ file ∈ s.files record.id, _ → _))

def ReceiptOutcome.exportId : ReceiptOutcome → Uuid
  | .stored exportId _ _ _ => exportId
  | .duplicate existingExportId _ _ => existingExportId

def Call.answer (call : Call) : Option ReceiptOutcome :=
  match call.stage with
  | .returned (.ok outcome) => outcome
  | _ => none

/-- One export and one `Stored` answer for each account and content; a call that answers `Duplicate`
names the export, and an operation is bound to the run that owns it, unless it was bound before. -/
structure Receiver.SettlesOnce (s : Receiver) : Prop where
  contents : ∀ e ∈ s.shared.db.exports, ∀ e' ∈ s.shared.db.exports, e.accountId = e'.accountId →
    e.sha256Hex = e'.sha256Hex → e = e'
  stored : ∀ {c c' call call' exportId exportId' archiveId archiveId' sha256Hex length length'},
    s.threads c = some call → s.threads c' = some call' →
    call.answer = some (.stored exportId archiveId sha256Hex length) →
    call'.answer = some (.stored exportId' archiveId' sha256Hex length') →
    (∃ e ∈ s.shared.db.exports, ∃ e' ∈ s.shared.db.exports, e.id = exportId ∧ e'.id = exportId' ∧
      e.accountId = e'.accountId) → c = c'
  names : ∀ {c call outcome}, s.threads c = some call → call.answer = some outcome →
    ∃ r ∈ s.shared.db.importRuns, r.id = call.runId ∧
      ∃ e ∈ s.shared.db.exports, e.id = outcome.exportId ∧
        (∃ a ∈ s.shared.db.accounts, a.id = e.accountId ∧ a.externalRef = r.accountRef) ∧
        match outcome with
        | .stored _ _ sha256Hex _ => e.sha256Hex = sha256Hex ∧ r.exportId = some e.id
        | .duplicate _ sha256Hex _ => e.sha256Hex = sha256Hex ∧ r.state = .duplicate
  bound : ∀ {c call outcome operationId}, s.threads c = some call → call.answer = some outcome →
    call.platformOperation = some operationId → call.boundBefore = false →
    ∃ owner ∈ s.shared.db.importRuns, owner.exportId = some outcome.exportId ∧
      (∀ r ∈ s.shared.db.importRuns, r.exportId = some outcome.exportId → r = owner) ∧
      ∃ p ∈ s.shared.db.platformOperationImports, p.operationId = operationId ∧
        p.importRunId = owner.id ∧ p.exportId = outcome.exportId ∧
        ∀ q ∈ s.shared.db.platformOperationImports, q.operationId = operationId → q = p

namespace Intake

variable {sha256 : Bytes → String} {s s' : Intake} {id : Uuid} {digest : String} {length : Nat}

/-- The file, no longer written, has the digest and length. It may have lost its name. -/
def Evidence (sha256 : Bytes → String) (s : Intake) (id : Uuid) (sha256Hex : String)
    (byteLength : Nat) : Prop :=
  ∃ file, s.files id = some file ∧ file.writing = false ∧ sha256 file.content = sha256Hex ∧
    file.content.length = byteLength

theorem Evidence.unique {digest' : String} {length' : Nat} (h : s.Evidence sha256 id digest length)
    (h' : s.Evidence sha256 id digest' length') : digest = digest' ∧ length = length' := by
  obtain ⟨file, hfile, -, rfl, rfl⟩ := h
  obtain ⟨file', hfile', -, rfl, rfl⟩ := h'
  rw [hfile] at hfile'
  cases hfile'
  exact ⟨rfl, rfl⟩

structure Keeps (sha256 : Bytes → String) (s : Intake) (r r' : ImportRunRow) : Prop where
  account : r'.accountRef = r.accountRef
  recorded : r.state ≠ .received →
    r'.state ≠ .received ∧ r'.sha256Hex = r.sha256Hex ∧ r'.byteLength = r.byteLength
  duplicate : r.state = .duplicate → r'.state = .duplicate
  stored : ∀ {e}, r.exportId = some e → r'.exportId = some e
  marked : r'.state = .duplicate → r.state = .duplicate ∨ ∃ digest length,
    r.sha256Hex = some digest ∧ r.byteLength = some length ∧
      s.Evidence sha256 r.id digest length

theorem Keeps.refl (r : ImportRunRow) : Keeps sha256 s r r :=
  ⟨rfl, fun h => ⟨h, rfl, rfl⟩, fun h => h, fun h => h, .inl⟩

structure Continues (sha256 : Bytes → String) (s s' : Intake) : Prop where
  row : ∀ {id r}, s.db.loadRun id = some r →
    ∃ r', s'.db.loadRun id = some r' ∧ Keeps sha256 s r r'
  evidence : ∀ {id digest length}, s.Evidence sha256 id digest length →
    s'.Evidence sha256 id digest length
  recorded : Database.Retains s.db s'.db

theorem Continues.refl (s : Intake) : Continues sha256 s s :=
  ⟨fun h => ⟨_, h, Keeps.refl _⟩, fun h => h, .refl _⟩

theorem Continues.files (hdb : s'.db = s.db)
    (hevidence : ∀ {id digest length}, s.Evidence sha256 id digest length →
      s'.Evidence sha256 id digest length) : Continues sha256 s s' :=
  ⟨fun h => ⟨_, hdb ▸ h, Keeps.refl _⟩, hevidence, hdb ▸ .refl _⟩

theorem Continues.moves {db : Database} {r r' : ImportRunRow}
    (hmoves : Database.Moves r r' s.db db) (hretains : Database.Retains s.db db)
    (hkeeps : Keeps sha256 s r r') : Continues sha256 s { s with db } := by
  refine ⟨fun {id q} hload => ?_, fun h => h, hretains⟩
  by_cases hid : id = r.id
  · subst hid
    rw [hmoves.before] at hload
    cases hload
    exact ⟨r', hmoves.after, hkeeps⟩
  · exact ⟨q, (hmoves.others hid).trans hload, Keeps.refl q⟩

theorem Evidence.beside {runId : Uuid} (h : s.Evidence sha256 id digest length)
    (hwriting : ∀ file, s.files runId = some file → file.writing = true)
    (hfiles : ∀ {id}, id ≠ runId → s'.files id = s.files id) :
    s'.Evidence sha256 id digest length := by
  obtain ⟨file, hfile, hclosed, hrest⟩ := h
  have hne : id ≠ runId := by
    rintro rfl
    rw [hwriting file hfile] at hclosed
    cases hclosed
  exact ⟨file, (hfiles hne).trans hfile, hclosed, hrest⟩

theorem Evidence.removeFile (h : s.Evidence sha256 id digest length) (runId : Uuid) :
    (s.removeFile runId).Evidence sha256 id digest length := by
  obtain ⟨file, hfile, hrest⟩ := h
  by_cases hid : id = runId
  · exact ⟨{ file with linked := false }, (if_pos hid).trans (congrArg (Option.map _) hfile), hrest⟩
  · exact ⟨file, (updateFile_files_of_ne hid).trans hfile, hrest⟩

end Intake

namespace Call

variable {sha256 : Bytes → String} {now : Instant} {s s' : Intake} {call call' : Call}
  {outcome : ReceiptOutcome} {context : HashedContext}

def Binds (s : Intake) (call : Call) (exportId : Uuid) : Prop :=
  ∀ operationId, call.platformOperation = some operationId → call.boundBefore = false →
    s.db.BoundTo operationId exportId

def SettlementStands (s : Intake) (call : Call) (context : HashedContext) : Settlement → Prop
  | .binding operationId existing => call.platformOperation = some operationId ∧
      s.db.ExportOf context.tenant context.sha256Hex existing
  | .inserting operationId existing owner => call.platformOperation = some operationId ∧
      s.db.ExportOf context.tenant context.sha256Hex existing ∧ s.db.Owns owner existing
  | .marking existing => s.db.ExportOf context.tenant context.sha256Hex existing ∧
      call.Binds s existing
  | .looking | .storing | .publishing _ => True

theorem stage_of_answer (h : call.answer = some outcome) :
    call.stage = .returned (.ok (some outcome)) := by
  unfold answer at h
  split at h
  · rename_i hstage
    rw [hstage, h]
  · cases h

def OutcomeStands (s : Intake) (call : Call) : ReceiptOutcome → Prop
  | .stored exportId _ sha256Hex _ => call.Binds s exportId ∧
      ∃ r, s.db.loadRun call.runId = some r ∧ r.exportId = some exportId ∧
        s.db.ExportOf r.accountRef sha256Hex exportId
  | .duplicate exportId sha256Hex _ => call.Binds s exportId ∧
      ∃ r, s.db.loadRun call.runId = some r ∧ r.state = .duplicate ∧
        s.db.ExportOf r.accountRef sha256Hex exportId

/-- What a call knows of its run, its file and the exports. -/
def Stands (sha256 : Bytes → String) (s : Intake) (call : Call) : Prop :=
  match call.stage with
  | .accepted upload | .streaming upload _ _ | .staged upload _ =>
    ∃ r, s.db.loadRun call.runId = some r ∧ r.accountRef = upload.accountRef
  | .failing expected _ => expected = .received ∨ expected = .hashed
  | .loaded record => record.id = call.runId ∧ ∃ r, s.db.loadRun call.runId = some r ∧
      r.accountRef = record.accountRef ∧ (record.state = .received ∨ record.state = .hashed) ∧
      (record.state = .hashed → r.state ≠ .received ∧ r.sha256Hex = record.sha256Hex ∧
        r.byteLength = record.byteLength ∧ record.byteLength.isSome = true ∧
        (r.state = .duplicate → ∀ digest length, r.sha256Hex = some digest →
          r.byteLength = some length → s.Evidence sha256 call.runId digest length))
  | .rehashed record digest length => s.Evidence sha256 call.runId digest length ∧
      ∃ r, s.db.loadRun call.runId = some r ∧ r.accountRef = record.accountRef
  | .drifted digest length => s.Evidence sha256 call.runId digest length ∧
      ∃ r, s.db.loadRun call.runId = some r ∧ r.state ≠ .received ∧ r.state ≠ .duplicate ∧
        ¬(r.sha256Hex = some digest ∧ r.byteLength = some length)
  | .reloaded state => state ≠ .duplicate
  | .settling context settlement =>
    s.Evidence sha256 call.runId context.sha256Hex context.byteLength ∧
      (∃ r, s.db.loadRun call.runId = some r ∧ r.state ≠ .received ∧
        r.accountRef = context.tenant ∧ r.sha256Hex = some context.sha256Hex ∧
        r.byteLength = some context.byteLength) ∧ SettlementStands s call context settlement
  | .clearing (.ok outcome) | .returned (.ok (some outcome)) => OutcomeStands s call outcome
  | _ => True

theorem Binds.continues {exportId : Uuid} (h : call.Binds s exportId)
    (hc : s.Continues sha256 s') : call.Binds s' exportId :=
  fun operationId hop hfirst => hc.recorded.boundTo (h operationId hop hfirst)

theorem SettlementStands.continues {settlement : Settlement}
    (h : SettlementStands s call context settlement) (hc : s.Continues sha256 s') :
    SettlementStands s' call context settlement := by
  cases settlement with
  | binding => exact ⟨h.1, hc.recorded.exportOf h.2⟩
  | inserting => exact ⟨h.1, hc.recorded.exportOf h.2.1, hc.recorded.owns h.2.2⟩
  | marking => exact ⟨hc.recorded.exportOf h.1, h.2.continues hc⟩
  | looking | storing | publishing => trivial

theorem OutcomeStands.continues (h : OutcomeStands s call outcome) (hc : s.Continues sha256 s') :
    OutcomeStands s' call outcome := by
  cases outcome with
  | stored =>
    obtain ⟨hbinds, r, hload, hexport, hof⟩ := h
    obtain ⟨r', hload', hkeeps⟩ := hc.row hload
    exact ⟨hbinds.continues hc, r', hload', hkeeps.stored hexport,
      hkeeps.account ▸ hc.recorded.exportOf hof⟩
  | duplicate =>
    obtain ⟨hbinds, r, hload, hstate, hof⟩ := h
    obtain ⟨r', hload', hkeeps⟩ := hc.row hload
    exact ⟨hbinds.continues hc, r', hload', hkeeps.duplicate hstate,
      hkeeps.account ▸ hc.recorded.exportOf hof⟩

/-- What a call has read of its run, no other call takes back. -/
theorem Stands.continues (h : call.Stands sha256 s) (hs : s.db.Ledger)
    (hc : s.Continues sha256 s') : call.Stands sha256 s' := by
  unfold Stands at h ⊢
  split at h
  · obtain ⟨r, hload, haccount⟩ := h
    obtain ⟨r', hload', hkeeps⟩ := hc.row hload
    exact ⟨r', hload', hkeeps.account.trans haccount⟩
  · obtain ⟨r, hload, haccount⟩ := h
    obtain ⟨r', hload', hkeeps⟩ := hc.row hload
    exact ⟨r', hload', hkeeps.account.trans haccount⟩
  · obtain ⟨r, hload, haccount⟩ := h
    obtain ⟨r', hload', hkeeps⟩ := hc.row hload
    exact ⟨r', hload', hkeeps.account.trans haccount⟩
  · exact h
  · obtain ⟨hid, r, hload, haccount, hstate, hhashed⟩ := h
    obtain ⟨r', hload', hkeeps⟩ := hc.row hload
    refine ⟨hid, r', hload', hkeeps.account.trans haccount, hstate, fun hcase => ?_⟩
    obtain ⟨hne, hdigest, hlength, hsome, hduplicate⟩ := hhashed hcase
    obtain ⟨hne', hdigest', hlength'⟩ := hkeeps.recorded hne
    refine ⟨hne', hdigest'.trans hdigest, hlength'.trans hlength, hsome, ?_⟩
    intro hmarked digest length hd hl
    refine hc.evidence ?_
    rw [hdigest'] at hd
    rw [hlength'] at hl
    rcases hkeeps.marked hmarked with hold | ⟨digest₁, length₁, hd₁, hl₁, hevidence⟩
    · exact hduplicate hold digest length hd hl
    · rw [hd] at hd₁
      rw [hl] at hl₁
      cases hd₁
      cases hl₁
      rwa [((loadRun_eq_some hs).mp hload).2] at hevidence
  · obtain ⟨hevidence, r, hload, haccount⟩ := h
    obtain ⟨r', hload', hkeeps⟩ := hc.row hload
    exact ⟨hc.evidence hevidence, r', hload', hkeeps.account.trans haccount⟩
  · obtain ⟨hevidence, r, hload, hne, hnot, hdrift⟩ := h
    obtain ⟨r', hload', hkeeps⟩ := hc.row hload
    obtain ⟨hne', hdigest', hlength'⟩ := hkeeps.recorded hne
    refine ⟨hc.evidence hevidence, r', hload', hne', fun hmarked => ?_, ?_⟩
    · -- a run is marked a duplicate with evidence of what it recorded, which this call did not find
      rcases hkeeps.marked hmarked with hold | ⟨digest₁, length₁, hd₁, hl₁, hevidence₁⟩
      · exact hnot hold
      · rw [((loadRun_eq_some hs).mp hload).2] at hevidence₁
        obtain ⟨rfl, rfl⟩ := hevidence.unique hevidence₁
        exact hdrift ⟨hd₁, hl₁⟩
    · rwa [hdigest', hlength']
  · exact h
  · obtain ⟨hevidence, ⟨r, hload, hne, haccount, hdigest, hlength⟩, hsettlement⟩ := h
    obtain ⟨r', hload', hkeeps⟩ := hc.row hload
    obtain ⟨hne', hdigest', hlength'⟩ := hkeeps.recorded hne
    exact ⟨hc.evidence hevidence, ⟨r', hload', hne', hkeeps.account.trans haccount,
      hdigest'.trans hdigest, hlength'.trans hlength⟩, hsettlement.continues hc⟩
  · exact h.continues hc
  · exact h.continues hc
  · trivial

theorem Stands.settling (h : call.Stands sha256 s) {context : HashedContext}
    {settlement : Settlement} (hstage : call.stage = .settling context settlement) :
    s.Evidence sha256 call.runId context.sha256Hex context.byteLength ∧
      (∃ r, s.db.loadRun call.runId = some r ∧ r.state ≠ .received ∧
        r.accountRef = context.tenant ∧ r.sha256Hex = some context.sha256Hex ∧
        r.byteLength = some context.byteLength) ∧
      SettlementStands s call context settlement := by
  rw [Stands, hstage] at h
  exact h

theorem markRun_continues (hs : s.db.Ledger) {expected : ImportState} {db : Database}
    (hne : expected ≠ .duplicate) (hok : s.db.markRun now call.runId expected .failed = .ok db) :
    s.Continues sha256 { s with db } := by
  obtain ⟨-, -, hretains, -, r, -, hstate, hmoves⟩ := markRun_eq_ok hs hok
  refine Intake.Continues.moves hmoves hretains ⟨rfl, fun _ => ⟨nofun, rfl, rfl⟩, fun hcase => ?_,
    fun he => he, nofun⟩
  exact absurd (hstate.symm.trans hcase) hne

theorem recordHash_continues (hs : s.db.Ledger) {digest : String} {length : Nat} {db : Database}
    (hok : s.db.recordHash call.runId digest length = .ok db) :
    s.Continues sha256 { s with db } := by
  obtain ⟨-, hretains, -, r, -, hstate, hmoves⟩ := recordHash_eq_ok hs hok
  refine Intake.Continues.moves hmoves hretains ⟨rfl, fun hne => absurd hstate hne, fun hcase => ?_,
    fun he => he, nofun⟩
  rw [hstate] at hcase
  cases hcase

theorem Proceeds.continues (hs : s.Tracks) (htracked : call.Tracked s)
    (hcall : call.Stands sha256 s) (h : Proceeds sha256 now s call s' call') :
    s.Continues sha256 s' := by
  cases h with
  | @openFile upload hstage =>
    have hwriting := (htracked.receiving (by rw [isReceiving, hstage])).2.2
    exact .files rfl fun he => he.beside hwriting fun hne => setFile_files_of_ne hne
  | @discard upload received rest error hstage =>
    have hwriting := (htracked.receiving (by rw [isReceiving, hstage])).2.2
    exact .files rfl fun he => he.beside hwriting fun hne => updateFile_files_of_ne hne
  | @finish upload received hstage =>
    have hwriting := (htracked.receiving (by rw [isReceiving, hstage])).2.2
    exact .files rfl fun he => he.beside hwriting fun hne => updateFile_files_of_ne hne
  | removeDiscarded | removeAnswered => exact .files rfl fun he => he.removeFile _
  | recordStaged _ _ hok | recordRehashed _ hok => exact recordHash_continues hs.ledger hok
  | fail hstage hok =>
    rw [Stands, hstage] at hcall
    refine markRun_continues hs.ledger ?_ hok
    rcases hcall with rfl | rfl <;> decide
  | failReloaded hstage hok =>
    rw [Stands, hstage] at hcall
    exact markRun_continues hs.ledger hcall hok
  | bind => exact ⟨fun h => ⟨_, h, .refl _⟩, fun h => h, bindOperation_retains ..⟩
  | mark hstage hok =>
    obtain ⟨hevidence, ⟨r, hload, -, -, hdigest, hlength⟩, -⟩ := hcall.settling hstage
    obtain ⟨-, -, hretains, -, q, hid, hstate, hmoves⟩ := markRun_eq_ok hs.ledger hok
    rw [← hid, hmoves.before] at hload
    cases hload
    refine .moves hmoves hretains ⟨rfl, fun _ => ⟨by simp, rfl, rfl⟩, fun _ => rfl, fun he => he,
      fun _ => .inr ⟨_, _, hdigest, hlength, hid ▸ hevidence⟩⟩
  | store => exact .files rfl fun he => he
  | publish hstage hok =>
    obtain ⟨-, hretains, r, e, hid, hstate, hmoves, -⟩ :=
      publishExport_eq_ok hs.ledger hok
    refine .moves hmoves hretains ⟨rfl, fun _ => ⟨by simp, rfl, rfl⟩, fun hcase => ?_, fun he => ?_,
      fun h => by cases h⟩
    · rw [hstate] at hcase
      cases hcase
    · have hmem := ((loadRun_eq_some hs.ledger).mp hmoves.before).1
      rw [hs.ledger.pending r hmem (.inr hstate)] at he
      cases he
  | _ => exact .refl s

theorem stands_of_isInert {stage : Stage} (h : stage.isInert = true) :
    (call.moveTo stage).Stands sha256 s := by
  cases stage with
  | accepted | streaming | staged | loaded | rehashed | drifted | reloaded | settling => cases h
  | discarding => trivial
  | failing expected error =>
    simp only [Stage.isInert, Bool.or_eq_true, decide_eq_true_eq] at h
    exact h
  | clearing result =>
    cases result with
    | error => trivial
    | ok => cases h
  | returned result =>
    cases result with
    | error => trivial
    | ok outcome =>
      cases outcome with
      | none => trivial
      | some => cases h

theorem readFile_evidence (sha256 : Bytes → String) {record : ImportRunRow} {content : Bytes}
    (hreads : call.ReadsClosed s)
    (hstage : call.stage = .loaded record) (hid : record.id = call.runId)
    (hread : s.readFile call.runId = some content) :
    s.Evidence sha256 call.runId (sha256 content) content.length := by
  obtain ⟨file, hfile, hlinked, rfl⟩ := readFile_eq_some hread
  refine ⟨file, hfile, ?_, rfl, rfl⟩
  exact hreads record (by rw [loadedRecord, hstage]; rfl) file (hid ▸ hfile) hlinked

theorem stands_settleDuplicate {existing : Uuid}
    (hevidence : s.Evidence sha256 call.runId context.sha256Hex context.byteLength)
    (hrow : ∃ r, s.db.loadRun call.runId = some r ∧ r.state ≠ .received ∧
      r.accountRef = context.tenant ∧ r.sha256Hex = some context.sha256Hex ∧
      r.byteLength = some context.byteLength)
    (hexport : s.db.ExportOf context.tenant context.sha256Hex existing) :
    (call.settleDuplicate context existing).Stands sha256 s := by
  unfold settleDuplicate
  split
  · rename_i operationId hop
    exact ⟨hevidence, hrow, hop, hexport⟩
  · rename_i hop
    refine ⟨hevidence, hrow, hexport, fun operationId hcase => ?_⟩
    rw [show (call.settleAt context (.marking existing)).platformOperation =
      call.platformOperation from rfl, hop] at hcase
    cases hcase

theorem stands_recorded (hs : s.db.Ledger) {context : HashedContext} {db : Database}
    (hevidence : s.Evidence sha256 call.runId context.sha256Hex context.byteLength)
    (hrow : ∃ r, s.db.loadRun call.runId = some r ∧ r.accountRef = context.tenant)
    (hok : s.db.recordHash call.runId context.sha256Hex context.byteLength = .ok db) :
    (call.settleAt context .looking).Stands sha256 { s with db } := by
  obtain ⟨-, -, -, r, hid, -, hmoves⟩ := recordHash_eq_ok hs hok
  obtain ⟨q, hload, haccount⟩ := hrow
  rw [← hid, hmoves.before] at hload
  cases hload
  have hafter := hmoves.after
  rw [hid] at hafter
  exact ⟨hevidence, ⟨_, hafter, nofun, haccount, rfl, rfl⟩, trivial⟩

/-- The call brings what it has read to its next stage. -/
theorem stands_proceeds (hs : s.Tracks) (htracked : call.Tracked s)
    (hcall : call.Stands sha256 s) (hreads : call.ReadsClosed s)
    (h : Proceeds sha256 now s call s' call') : call'.Stands sha256 s' := by
  have hcontinues := h.continues hs htracked hcall
  cases h with
  | rest => exact hcall
  | quit hinert => exact stands_of_isInert hinert
  | openFile hstage | chunk hstage | finish hstage =>
    rw [Stands, hstage] at hcall
    exact hcall
  | discard | fail => trivial
  | @recordStaged upload received db hstage hadmits hok =>
    rw [Tracked, hstage] at htracked
    rw [Stands, hstage] at hcall
    obtain ⟨-, -, -, file, hfile, hclosed, rfl⟩ := htracked
    exact stands_recorded hs.ledger ⟨file, hfile, hclosed, rfl, rfl⟩ hcall hok
  | removeDiscarded => exact .inl rfl
  | @answer result hstage | @removeAnswered result hstage =>
    rw [Stands, hstage] at hcall
    cases result with
    | error => trivial
    | ok => exact hcall
  | rehash hstage hstate hread =>
    have hrow := hcall
    rw [Stands, hstage] at hrow
    obtain ⟨hid, r, hload, haccount, -⟩ := hrow
    have hevidence := readFile_evidence sha256 hreads hstage hid hread
    exact ⟨hevidence, r, hload, haccount⟩
  | @verify record content hstage hstate hread hdigest hlength =>
    have hrow := hcall
    rw [Stands, hstage] at hrow
    obtain ⟨hid, r, hload, haccount, hcase, hhashed⟩ := hrow
    obtain ⟨hne, hd, hl, hsome, -⟩ := hhashed (hcase.resolve_left hstate)
    obtain ⟨length, hl'⟩ := Option.isSome_iff_exists.mp hsome
    rw [hl', Option.getD_some] at hlength
    subst hlength
    have hevidence := readFile_evidence sha256 hreads hstage hid hread
    exact ⟨hevidence, ⟨r, hload, hne, haccount, hd.trans hdigest, hl.trans hl'⟩, trivial⟩
  | @drift record expected content hstage hstate hread hexpected hdrift =>
    have hrow := hcall
    rw [Stands, hstage] at hrow
    obtain ⟨hid, r, hload, haccount, hcase, hhashed⟩ := hrow
    obtain ⟨hne, hd, hl, hsome, hduplicate⟩ := hhashed (hcase.resolve_left hstate)
    obtain ⟨length, hl'⟩ := Option.isSome_iff_exists.mp hsome
    rw [hl', Option.getD_some] at hdrift
    have hevidence := readFile_evidence sha256 hreads hstage hid hread
    -- the evidence of a duplicate is unique, so nothing of it has drifted
    refine ⟨hevidence, r, hload, hne, fun hmarked => ?_, fun hsame => ?_⟩
    · obtain ⟨hdigest, hlength⟩ := hevidence.unique
        (hduplicate hmarked expected length (hd.trans hexpected) (hl.trans hl'))
      exact hdrift ⟨hdigest, hlength⟩
    · rw [hd, hexpected, hl, hl'] at hsame
      exact hdrift ⟨(Option.some.inj hsame.1).symm, (Option.some.inj hsame.2).symm⟩
  | recordRehashed hstage hok =>
    rw [Stands, hstage] at hcall
    exact stands_recorded hs.ledger hcall.1 hcall.2 hok
  | @reload digest length record hstage hload =>
    rw [Stands, hstage] at hcall
    obtain ⟨-, r, hload', -, hne, -⟩ := hcall
    rw [hload] at hload'
    cases hload'
    exact hne
  | failReloaded => exact .inr rfl
  | found hstage hfind =>
    obtain ⟨hevidence, hrow, -⟩ := hcall.settling hstage
    exact stands_settleDuplicate hevidence hrow (findExportByDigest_exportOf hfind)
  | absent hstage =>
    obtain ⟨hevidence, hrow, -⟩ := hcall.settling hstage
    exact ⟨hevidence, hrow, trivial⟩
  | select hstage howner =>
    obtain ⟨hevidence, hrow, hop, hexport⟩ := hcall.settling hstage
    exact ⟨hevidence, hrow, hop, hexport, owningRun_owns hs.ledger howner⟩
  | @bind context operationId existing owner hstage =>
    obtain ⟨hevidence, hrow, hop, hexport, howns⟩ := hcall.settling hstage
    refine ⟨hevidence, hrow, (bindOperation_retains ..).exportOf hexport, ?_⟩
    intro operationId' hop' hfirst
    have hop' : call.platformOperation = some operationId' := hop'
    have hfirst : call.platformOperation.any s.db.isBound = false := hfirst
    rw [hop] at hop' hfirst
    cases hop'
    exact bindOperation_boundTo howns hfirst
  | @mark context existing db hstage hok =>
    obtain ⟨-, ⟨r, hload, -, haccount, -⟩, hexport, hbinds⟩ := hcall.settling hstage
    obtain ⟨-, -, hretains, -, q, hid, -, hmoves⟩ := markRun_eq_ok hs.ledger hok
    rw [← hid, hmoves.before] at hload
    cases hload
    refine ⟨hbinds.continues hcontinues, _, hid ▸ hmoves.after, rfl, ?_⟩
    exact hretains.exportOf (haccount ▸ hexport)
  | store hstage =>
    obtain ⟨hevidence, hrow, -⟩ := hcall.settling hstage
    exact ⟨hevidence, hrow, trivial⟩
  | @publish context blobRef db hstage hok =>
    obtain ⟨-, ⟨r, hload, -, haccount, -⟩, -⟩ := hcall.settling hstage
    obtain ⟨-, -, q, e, hid, -, hmoves, hexports, -, -, -, hexport, hbound⟩ :=
      publishExport_eq_ok hs.ledger hok
    have hid : q.id = call.runId := hid
    rw [← hid, hmoves.before] at hload
    cases hload
    have hanswer : storedOutcome context db =
        .ok (.stored e.id e.aiArchiveId context.sha256Hex context.byteLength) := by
      rw [storedOutcome, hexports, List.getLast?_concat]
    rw [hanswer]
    refine ⟨fun operationId hop hfirst => ?_, _, hid ▸ hmoves.after, rfl, ?_⟩
    · have hop : call.platformOperation = some operationId := hop
      have hfirst : call.platformOperation.any s.db.isBound = false := hfirst
      rw [hop] at hfirst
      exact hbound operationId hop hfirst
    · rw [haccount]
      exact hexport
  | publishDuplicate hstage hrefused =>
    obtain ⟨hevidence, hrow, -⟩ := hcall.settling hstage
    exact stands_settleDuplicate hevidence hrow
      (publishExport_duplicate hs.ledger hrefused)

def isStored (call : Call) : Bool :=
  match call.stage with
  | .clearing (.ok (.stored _ _ _ _)) | .returned (.ok (some (.stored _ _ _ _))) => true
  | _ => false

theorem Stands.stored (h : call.Stands sha256 s) (hstored : call.isStored = true) :
    ∃ r e, s.db.loadRun call.runId = some r ∧ r.exportId = some e := by
  unfold isStored at hstored
  unfold Stands at h
  split at hstored
  · rename_i hstage
    rw [hstage] at h
    obtain ⟨-, r, hload, hexport, -⟩ := h
    exact ⟨r, _, hload, hexport⟩
  · rename_i hstage
    rw [hstage] at h
    obtain ⟨-, r, hload, hexport, -⟩ := h
    exact ⟨r, _, hload, hexport⟩
  · cases hstored

theorem isStored_of_clearing {result : Except ReceiptError ReceiptOutcome}
    (hstage : call.stage = .clearing result)
    (hstored : (call.moveTo (.returned (result.map some))).isStored = true) :
    call.isStored = true := by
  rw [isStored, hstage]
  cases result with
  | error => cases hstored
  | ok outcome =>
    cases outcome with
    | stored => rfl
    | duplicate => cases hstored

theorem isStored_of_load (runId : Uuid) : (load s runId).isStored = false := by
  unfold load isStored
  cases s.db.loadRun runId with
  | none => rfl
  | some record =>
    by_cases hstate : record.state = .received ∨ record.state = .hashed <;> simp [hstate]

theorem accept_continues (hs : s.Tracks) (now : Instant) (upload : Upload) :
    s.Continues sha256 (accept s now upload).1 := by
  refine ⟨fun {id r} hload => ⟨r, ?_, .refl r⟩, fun h => h, createRun_retains hs.ledger ..⟩
  have hmem := (loadRun_eq_some hs.ledger).mp hload
  refine (createRun_loadRun _ _ _ _ ?_).trans hload
  exact hmem.2 ▸ Nat.ne_of_lt (hs.ledger.runFresh r hmem.1)

theorem stands_load (hs : s.db.Ledger) (runId : Uuid) : (load s runId).Stands sha256 s := by
  unfold load Stands
  cases hload : s.db.loadRun runId with
  | none => trivial
  | some record =>
    obtain ⟨hmem, hid⟩ := (loadRun_eq_some hs).mp hload
    by_cases hstate : record.state = .received ∨ record.state = .hashed
    · simp only [if_pos hstate]
      refine ⟨hid, record, rfl, rfl, hstate, fun hhashed => ?_⟩
      obtain ⟨digest, length, -, hlength⟩ := hs.hashed record hmem hhashed
      refine ⟨?_, rfl, rfl, by rw [hlength]; rfl, fun hduplicate => ?_⟩
      · rw [hhashed]
        decide
      · rw [hhashed] at hduplicate
        cases hduplicate
    · simp [hstate]

theorem write_continues (sha256 : Bytes → String) (htracked : call.Tracked s) (length : Nat) :
    s.Continues sha256 (call.write s length) := by
  unfold write
  split
  · rename_i hstage
    have hwriting := (htracked.receiving (by rw [isReceiving, hstage])).2.2
    exact .files rfl fun he => he.beside hwriting fun hne => updateFile_files_of_ne hne
  · exact .refl s

theorem Stands.crashed (h : call.Stands sha256 s) (hreturned : call.isReturned = true)
    (kept : Uuid → Nat) : call.Stands sha256 (s.crashed kept) := by
  unfold isReturned at hreturned
  split at hreturned
  · rename_i result hstage
    rw [Stands, hstage] at h ⊢
    cases result with
    | error => trivial
    | ok outcome =>
      cases outcome with
      | none => trivial
      | some outcome => cases outcome <;> exact h
  · cases hreturned

/-- Only one call on a run answers `Stored`: a publication finds the run without an export. -/
theorem Proceeds.exclusive {other : Call} (hs : s.Tracks) (hother : other.Stands sha256 s)
    (hexclusive : Exclusive isStored call other) (h : Proceeds sha256 now s call s' call') :
    Exclusive isStored call' other := by
  intro hid hstored
  rw [h.runId] at hid
  cases h with
  | rest => exact hexclusive hid hstored
  | @quit stage hinert =>
    cases stage with
    | clearing result =>
      cases result with
      | error => cases hstored
      | ok => cases hinert
    | returned result =>
      cases result with
      | error => cases hstored
      | ok outcome =>
        cases outcome with
        | none => cases hstored
        | some => cases hinert
    | _ => cases hstored
  | @answer result hstage =>
    exact hexclusive hid (isStored_of_clearing hstage hstored)
  | @removeAnswered result hstage =>
    exact hexclusive hid (isStored_of_clearing hstage hstored)
  | publish hstage hok =>
    by_contra hcon
    obtain ⟨r, e, hload, hexport⟩ := hother.stored (by simpa using hcon)
    obtain ⟨-, -, q, x, hqid, hstate, hmoves, -⟩ := publishExport_eq_ok hs.ledger hok
    have hqid : q.id = call.runId := hqid
    rw [← hid, ← hqid, hmoves.before] at hload
    cases hload
    have hmem := ((loadRun_eq_some hs.ledger).mp hmoves.before).1
    rw [hs.ledger.pending _ hmem (.inr hstate)] at hexport
    cases hexport
  | found | publishDuplicate =>
    obtain ⟨settlement, hsettling⟩ := call.settleDuplicate_stage _ _
    rw [isStored, hsettling] at hstored
    cases hstored
  | _ => cases hstored

end Call

namespace Receiver

variable {sha256 : Bytes → String}

/-- No other call interferes with what a call has read. -/
theorem stable_stands :
    Stable sha256 ReadsClosed Intake.Tracks
      (fun s call => call.Tracked s ∧ call.Stands sha256 s)
      (fun a b => Apart a b ∧ Exclusive isStored a b) where
  initial := tracks_initial
  symm h := ⟨h.1.symm, h.2.symm⟩
  accept {s now upload} hs := by
    obtain ⟨htracks, htracked, hothers⟩ := tracked_accept hs now upload
    obtain ⟨-, r, hnew, haccount, -⟩ := createRun_new hs.ledger now upload.accountRef
      upload.mode upload.mediaType
    refine ⟨htracks, ⟨htracked, r, hnew, haccount⟩, fun hother => ?_⟩
    obtain ⟨htracked', hapart⟩ := hothers hother.1
    exact ⟨⟨htracked', hother.2.continues hs.ledger (accept_continues hs now upload)⟩,
      hapart, fun _ hstored => nomatch hstored⟩
  load {s runId} hs := by
    obtain ⟨htracked, hreceiving⟩ := tracked_load (s := s) runId
    refine ⟨⟨htracked, stands_load hs.ledger runId⟩, fun _ => ⟨fun _ hcon => ?_, fun _ hcon => ?_⟩⟩
    · rw [hreceiving] at hcon
      cases hcon
    · rw [isStored_of_load] at hcon
      cases hcon
  proceeds {s s' call call' now} hs hcall hreads h := by
    obtain ⟨htracks, htracked, hothers⟩ := tracked_proceeds hs hcall.1 h
    refine ⟨htracks, ⟨htracked, stands_proceeds hs hcall.1 hcall.2 hreads h⟩, ?_⟩
    intro other hother hapart
    refine ⟨⟨hothers hother.1 hapart.1, ?_⟩, hapart.1.proceeds h, ?_⟩
    · exact hother.2.continues hs.ledger (h.continues hs hcall.1 hcall.2)
    · exact h.exclusive hs hother.2 hapart.2
  write {s call length} hs hcall := by
    obtain ⟨htracks, htracked, hothers⟩ := tracked_write hs hcall.1 length
    have hcontinues := write_continues sha256 hcall.1 length
    refine ⟨htracks, ⟨htracked, hcall.2.continues hs.ledger hcontinues⟩, fun hother hapart => ?_⟩
    exact ⟨hothers hother.1 hapart.1, hother.2.continues hs.ledger hcontinues⟩
  crash {s kept} hs := by
    obtain ⟨htracks, hothers⟩ := tracked_crash hs kept
    exact ⟨htracks, fun hreturned hother => ⟨hothers hreturned, hother.2.crashed hreturned kept⟩⟩

theorem settlesOnce_of_asserts {s : Receiver}
    (hs : s.Asserts Intake.Tracks (fun s call => call.Tracked s ∧ call.Stands sha256 s)
      (fun a b => Apart a b ∧ Exclusive isStored a b)) : s.SettlesOnce := by
  have hledger := hs.shared.ledger
  have houtcome : ∀ {c call outcome}, s.threads c = some call → call.answer = some outcome →
      call.OutcomeStands s.shared outcome := by
    intro c call outcome hc hanswer
    have hstands := (hs.thread hc).2
    rw [Stands, stage_of_answer hanswer] at hstands
    exact hstands
  constructor
  case contents => exact hledger.contents
  case stored =>
    rintro c c' call call' exportId exportId' archiveId archiveId' digest length length' hc hc'
      hanswer hanswer' ⟨e, he, e', he', rfl, rfl, haccount⟩
    obtain ⟨-, r, hload, hexport, x, hx, hxid, hxd, -⟩ := houtcome hc hanswer
    obtain ⟨-, r', hload', hexport', x', hx', hxid', hxd', -⟩ := houtcome hc' hanswer'
    obtain rfl : x = e := List.inj_on_of_nodup_map hledger.exportIds hx he hxid
    obtain rfl : x' = e' := List.inj_on_of_nodup_map hledger.exportIds hx' he' hxid'
    obtain rfl := hledger.contents x hx x' hx' haccount (hxd.trans hxd'.symm)
    -- both runs own the one export, so it is one run
    obtain ⟨hr, hid⟩ := (loadRun_eq_some hledger).mp hload
    obtain ⟨hr', hid'⟩ := (loadRun_eq_some hledger).mp hload'
    obtain rfl := hledger.owner r hr r' hr' x.id hexport hexport'
    by_contra hne
    have hstored' := (hs.apart hne hc hc').2 (hid.symm.trans hid')
      (by rw [isStored, stage_of_answer hanswer])
    rw [isStored, stage_of_answer hanswer'] at hstored'
    cases hstored'
  case names =>
    intro c call outcome hc hanswer
    cases outcome with
    | stored =>
      obtain ⟨-, r, hload, hexport, e, he, rfl, hdigest, haccount⟩ := houtcome hc hanswer
      obtain ⟨hr, hid⟩ := (loadRun_eq_some hledger).mp hload
      exact ⟨r, hr, hid, e, he, rfl, haccount, hdigest, hexport⟩
    | duplicate =>
      obtain ⟨-, r, hload, hstate, e, he, rfl, hdigest, haccount⟩ := houtcome hc hanswer
      obtain ⟨hr, hid⟩ := (loadRun_eq_some hledger).mp hload
      exact ⟨r, hr, hid, e, he, rfl, haccount, hdigest, hstate⟩
  case bound =>
    intro c call outcome operationId hc hanswer hop hfirst
    have hbinds : call.Binds s.shared outcome.exportId := by
      cases outcome <;> exact (houtcome hc hanswer).1
    obtain ⟨p, hp, hpop, hpe, owner, hload, hexport⟩ := hbinds operationId hop hfirst
    obtain ⟨howner, hid⟩ := (loadRun_eq_some hledger).mp hload
    refine ⟨owner, howner, hexport, fun r hr he => hledger.owner r hr owner howner _ he hexport,
      p, hp, hpop, hid.symm, hpe, fun q hq hqop => ?_⟩
    exact List.inj_on_of_nodup_map hledger.operationIds hq hp (hqop.trans hpop.symm)

end Receiver

/-- In every interleaving of receives, resumes and crashes each account keeps one export for a
content and the calls answer accordingly, as long as no resume reads a staging file that a receive
is still writing. -/
theorem receipts_settle_once (sha256 : Bytes → String) (maxArchiveBytes : Nat)
    (actions : List ReceiptAction)
    (hmeets : Run.Meets (Receiver.step sha256 maxArchiveBytes)
      (Receiver.Executes Call.ReadsClosed) Receiver.initial actions) :
    (Receiver.run sha256 maxArchiveBytes actions).SettlesOnce :=
  Receiver.settlesOnce_of_asserts (Receiver.stable_stands.run maxArchiveBytes hmeets)

def accountUpload (operationId : Uuid) (chunks : List Bytes) : Upload :=
  ⟨"account", .consumerExport, "application/zip", none, none, some operationId, chunks⟩

/-- The content `[1]` is stored. One resume hashes the first byte of a second receive and marks its
run a duplicate; the receive goes on, and another resume finds the file drifted. -/
def readWhileWritten : List ReceiptAction :=
  [.receive 0 1 (accountUpload 77 [[1]])] ++ List.replicate 8 (.advance 0 1 false) ++
    [.receive 1 2 (accountUpload 78 [[1], [2]]), .advance 1 2 false, .advance 1 2 false,
      .write 1 1, .resume 2 4, .advance 2 2 false, .advance 2 2 false, .resume 3 4,
      .advance 1 2 false, .write 1 2, .advance 2 2 false, .advance 2 2 false] ++
    List.replicate 3 (.advance 3 2 false) ++ [.advance 2 2 false]

/-- The first resume has answered `Duplicate`, and its run is failed. -/
theorem readWhileWritten_duplicate_failed :
    ¬(Receiver.run Bytes.spelled 100 readWhileWritten).SettlesOnce := by
  intro h
  have hanswer : ((Receiver.run Bytes.spelled 100 readWhileWritten).threads 2).map
      (fun call => (call.runId, call.answer)) =
      some (4, some (.duplicate 2 (Bytes.spelled [1]) 1)) := by
    decide +kernel
  have hfailed : ∀ r ∈ (Receiver.run Bytes.spelled 100 readWhileWritten).shared.db.importRuns,
      r.id = 4 → r.state = .failed := by
    decide +kernel
  obtain ⟨call, hcall, heq⟩ := Option.map_eq_some_iff.mp hanswer
  obtain ⟨hrun, hduplicate⟩ := Prod.mk.inj heq
  obtain ⟨r, hr, hid, e, -, -, -, -, hstate⟩ := h.names hcall hduplicate
  rw [hfailed r hr (hid.trans hrun)] at hstate
  cases hstate

def equalUploads : List ReceiptAction :=
  [.receive 0 1 (accountUpload 77 [[1], [2]]), .receive 1 2 (accountUpload 78 [[1, 2]])] ++
    (List.replicate 13 [.advance 0 1 false, .advance 1 2 false]).flatten

/-- One of the two is stored; the other one is its duplicate, found only by the publication. -/
theorem equalUploads_settle_once :
    (((Receiver.run Bytes.spelled 100 equalUploads).threads 0).bind Call.answer =
        some (.duplicate 3 (Bytes.spelled [1, 2]) 2) ∧
      ((Receiver.run Bytes.spelled 100 equalUploads).threads 1).bind Call.answer =
        some (.stored 3 4 (Bytes.spelled [1, 2]) 2)) ∧
      (Receiver.run Bytes.spelled 100 equalUploads).SettlesOnce :=
  ⟨by decide +kernel, receipts_settle_once _ _ _ (by decide +kernel)⟩

end ChatgptArchive
