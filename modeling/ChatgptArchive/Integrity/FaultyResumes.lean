import ChatgptArchive.Integrity.FaultyReceipts

/-!
# Resumes that return an error

A resume over an intact staging file returns an error only for a fault of the storage it works with.
-/

namespace ChatgptArchive

open Database Intake

def Intake.Resumable (s : Intake) (runId : Uuid) : Prop :=
  (∃ r, s.db.loadRun runId = some r ∧ (r.state = .received ∨ r.state = .hashed)) ∧
    ∃ content, s.readFile runId = some content

/-- The staging file of the run has the given content, which is what the run has recorded of it. -/
structure Intake.Holds (sha256 : Bytes → String) (s : Intake) (runId : Uuid) (r : ImportRunRow)
    (content : Bytes) : Prop where
  run : s.db.loadRun runId = some r
  recorded : r.state = .received ∨ r.state = .hashed ∧ r.sha256Hex = some (sha256 content) ∧
    r.byteLength = some content.length
  file : s.readFile runId = some content

theorem Intake.Holds.resumable {sha256 : Bytes → String} {s : Intake} {runId : Uuid}
    {r : ImportRunRow} {content : Bytes} (h : s.Holds sha256 runId r content) :
    s.Resumable runId :=
  ⟨⟨r, h.run, h.recorded.imp_right And.left⟩, content, h.file⟩

/-- The faults after which a resume has left everything as it was. -/
def FaultPoint.Spares (fault : FaultPoint → Bool) (state : ImportState) : Prop :=
  fault .loadRun = true ∨
    if fault .readFile then fault .failRun = true
    else (state = .received ∧ fault .recordHash = true) ∨ fault .clearFile = true

instance (fault : FaultPoint → Bool) (state : ImportState) :
    Decidable (FaultPoint.Spares fault state) := by
  unfold FaultPoint.Spares
  infer_instance

namespace Call

section

variable (sha256 : Bytes → String) (fault : FaultPoint → Bool) (record : ImportRunRow)
  (content : Bytes)

def Hashed (s : Intake) (call : Call) : Prop :=
  (∃ r, s.Holds sha256 call.runId r content ∧ r.state = .hashed) ∧
    call.platformOperation = none ∧ fault .readFile = false ∧
    ¬(record.state = .received ∧ fault .recordHash = true)

def Resumes (s : Intake) (call : Call) : Prop :=
  match call.stage with
  | .loaded r => r = record ∧ s.Holds sha256 call.runId record content ∧
    call.platformOperation = none
  | .failing expected _ => expected = record.state ∧
    s.Holds sha256 call.runId record content ∧ fault .readFile = true
  | .rehashed r digest length => r = record ∧ s.Holds sha256 call.runId record content ∧
    call.platformOperation = none ∧ record.state = .received ∧ digest = sha256 content ∧
    length = content.length ∧ fault .readFile = false
  | .settling _ (.binding _ _) | .settling _ (.inserting _ _ _) => False
  | .settling _ _ => Hashed sha256 fault record content s call
  | .clearing (.error _) => Hashed sha256 fault record content s call ∧
    ∃ point, fault point = true
  | .clearing (.ok _) => True
  | .returned (.error _) => (∃ point, fault point = true) ∧
    if FaultPoint.Spares fault record.state then
      ∃ r, s.Holds sha256 call.runId r content
    else ¬s.Resumable call.runId
  | .returned (.ok outcome) => outcome.isSome = true
  | _ => False

end

variable {sha256 : Bytes → String} {maxArchiveBytes : Nat} {fault : FaultPoint → Bool}
  {record : ImportRunRow} {content : Bytes} {s : Intake} {call : Call} {runId : Uuid}

/-- A statement of the settlement fails only by its fault. -/
theorem settle_resumes (hs : s.db.Ledger) (h : Hashed sha256 fault record content s call)
    (now : Instant) (context : HashedContext) {settlement : Settlement}
    (hstage : call.stage = .settling context settlement)
    (hresumes : Resumes sha256 fault record content s call) :
    Resumes sha256 fault record content
      (settle sha256 s call now (fault call.stage.faultPoint) context settlement).1
      (settle sha256 s call now (fault call.stage.faultPoint) context settlement).2 := by
  obtain ⟨⟨r, hholds, hstate⟩, hoperation, -⟩ := id h
  have hduplicate : ∀ existing,
      Resumes sha256 fault record content s (call.settleDuplicate context existing) := by
    intro existing
    rw [settleDuplicate, hoperation]
    exact h
  have hclears : ∀ error, fault call.stage.faultPoint = true →
      Resumes sha256 fault record content s (call.clear (.error error)) :=
    fun error hfault => ⟨h, _, hfault⟩
  cases settlement with
  | looking =>
    rw [settle]
    split
    · exact hclears _ ‹_›
    · split
      · exact hduplicate _
      · exact h
  | binding operationId existing =>
    rw [Resumes, hstage] at hresumes
    exact hresumes.elim
  | inserting operationId existing owner =>
    rw [Resumes, hstage] at hresumes
    exact hresumes.elim
  | marking existing =>
    rw [settle]
    obtain ⟨db, hok⟩ := markRun_duplicate_succeeds hholds.run hstate now
    split
    · trivial
    · rename_i e hrefused
      -- without its fault the guarded update finds the run hashed
      refine hclears _ ?_
      by_contra hfault
      rw [Bool.not_eq_true] at hfault
      rw [attempt, hfault, hok] at hrefused
      cases hrefused
  | storing =>
    rw [settle]
    split
    · exact ⟨⟨r, ⟨hholds.run, hholds.recorded, hholds.file⟩, hstate⟩, h.2⟩
    · rename_i hnone
      refine hclears _ ?_
      by_contra hfault
      rw [if_neg hfault, hholds.file] at hnone
      cases hnone
  | publishing blobRef =>
    rw [settle]
    split
    · rename_i published hok
      obtain ⟨db, hstatement, rfl⟩ := attempt_eq_ok hok
      obtain ⟨-, -, q, e, -, -, -, hexports, -⟩ := publishExport_eq_ok hs hstatement
      have houtcome : storedOutcome context db =
          .ok (.stored e.id e.aiArchiveId context.sha256Hex context.byteLength) := by
        rw [storedOutcome, hexports, List.getLast?_concat]
      dsimp only
      rw [houtcome]
      trivial
    · exact hduplicate _
    · rename_i e hne hrefused
      refine hclears _ ?_
      by_contra hfault
      rw [Bool.not_eq_true] at hfault
      have hload : s.db.loadRun (call.publishRequest context blobRef).runId = some r := hholds.run
      rcases publishExport_succeeds hload hstate now with ⟨db, hok⟩ | ⟨existing, hok⟩
      · rw [attempt, hfault, hok] at hrefused
        cases hrefused
      · rw [attempt, hfault, hok] at hrefused
        cases hrefused
        exact hne existing rfl

theorem not_resumable_of_failed {db : Database} {r : ImportRunRow}
    (hload : db.loadRun runId = some r) (hstate : r.state = .failed) :
    ¬({ s with db } : Intake).Resumable runId := by
  rintro ⟨⟨q, hq, hwaits⟩, -⟩
  rw [show db.loadRun runId = some q from hq, Option.some.injEq] at hload
  rw [hload, hstate] at hwaits
  rcases hwaits with h | h <;> cases h

theorem not_resumable_of_removed (runId : Uuid) : ¬(s.removeFile runId).Resumable runId := by
  rintro ⟨-, content, hread⟩
  obtain ⟨file, hfile, hlinked, -⟩ := readFile_eq_some hread
  rw [removeFile, updateFile_files_self] at hfile
  obtain ⟨old, -, rfl⟩ := Option.map_eq_some_iff.mp hfile
  cases hlinked

theorem readStaged_resumes (hholds : s.Holds sha256 call.runId record content)
    (hoperation : call.platformOperation = none) :
    Resumes sha256 fault record content (readStaged sha256 s call (fault .readFile) record).1
      (readStaged sha256 s call (fault .readFile) record).2 := by
  unfold readStaged
  rcases hholds.recorded with hstate | ⟨hstate, hdigest, hlength⟩
  · rw [if_pos hstate, hholds.file]
    split
    · exact ⟨hstate.symm, hholds, ‹_›⟩
    · exact ⟨rfl, hholds, hoperation, hstate, rfl, rfl, by simpa using ‹¬fault .readFile = true›⟩
  · have hne : record.state ≠ .received := by rw [hstate]; decide
    rw [if_neg hne, hdigest, hholds.file]
    dsimp only
    split
    · exact ⟨hstate.symm, hholds, ‹_›⟩
    · rw [if_pos ⟨rfl, by rw [hlength, Option.getD_some]⟩]
      refine ⟨⟨record, hholds, hstate⟩, hoperation, by simpa using ‹¬fault .readFile = true›, ?_⟩
      exact fun h => hne h.1

theorem Proceeds.ledger {now : Instant} {s' : Intake} {call' : Call} (hs : s.db.Ledger)
    (h : Proceeds sha256 now s call s' call') : s'.db.Ledger := by
  cases h with
  | recordStaged _ _ hok | recordRehashed _ hok => exact (recordHash_eq_ok hs hok).1
  | fail _ hok | failReloaded _ hok | mark _ hok => exact (markRun_eq_ok hs hok).2.1
  | bind => exact bindOperation_ledger hs ..
  | publish _ hok => exact (publishExport_eq_ok hs hok).1
  | _ => exact hs

/-- One step of the resumed call, stage by stage. -/
theorem Resumes.advance {s : Intake × Call} (hs : s.1.db.Ledger)
    (h : Resumes sha256 fault record content s.1 s.2) (hloadRun : fault .loadRun = false)
    (now : Instant) :
    Resumes sha256 fault record content (advance sha256 maxArchiveBytes fault s now).1
      (advance sha256 maxArchiveBytes fault s now).2 := by
  obtain ⟨s, call⟩ := s
  dsimp only at hs h
  have hresumes := h
  unfold Call.advance next
  unfold Resumes at h
  dsimp only
  split
  case h_5 expected error hstage =>
    rw [hstage] at h ⊢
    obtain ⟨rfl, hholds, hread⟩ := h
    have hspares : FaultPoint.Spares fault record.state ↔ fault .failRun = true := by
      simp [FaultPoint.Spares, hloadRun, hread]
    refine ⟨⟨_, hread⟩, ?_⟩
    rw [Stage.faultPoint]
    by_cases hfails : fault .failRun = true
    · rw [if_pos (hspares.mpr hfails), attemptOrSkip, attempt, hfails]
      exact ⟨record, hholds⟩
    · obtain ⟨db, hok⟩ := markRun_failed_succeeds hholds.run now
      obtain ⟨-, -, -, -, r, hid, -, hmoves⟩ := markRun_eq_ok hs hok
      rw [if_neg (mt hspares.mp hfails), Bool.eq_false_iff.mpr hfails, attemptOrSkip, attempt, hok]
      exact not_resumable_of_failed (hid ▸ hmoves.after) rfl
  case h_6 r hstage =>
    rw [hstage] at h ⊢
    obtain ⟨rfl, hholds, hoperation⟩ := h
    exact readStaged_resumes hholds hoperation
  case h_7 r digest length hstage =>
    rw [hstage] at h ⊢
    obtain ⟨rfl, hholds, hoperation, hstate, rfl, rfl, hread⟩ := h
    obtain ⟨db, hok⟩ := recordHash_succeeds hholds.run hstate (sha256 content)
      content.length
    rw [Stage.faultPoint]
    by_cases hfails : fault .recordHash = true
    · have hspares : FaultPoint.Spares fault r.state := by
        simp [FaultPoint.Spares, hread, hstate, hfails]
      rw [hfails, attempt]
      refine ⟨⟨_, hfails⟩, ?_⟩
      rw [if_pos hspares]
      exact ⟨r, hholds⟩
    · obtain ⟨-, -, -, q, hid, -, hmoves⟩ := recordHash_eq_ok hs hok
      rw [Bool.eq_false_iff.mpr hfails, attempt, hok]
      exact ⟨⟨_, ⟨hid ▸ hmoves.after, .inr ⟨rfl, rfl, rfl⟩, hholds.file⟩, rfl⟩, hoperation, hread,
        fun h => hfails h.2⟩
  case h_10 context settlement hstage =>
    rw [hstage] at h
    cases settlement with
    | binding => exact h.elim
    | inserting => exact h.elim
    | _ => exact settle_resumes hs h now context hstage hresumes
  case h_11 result hstage =>
    rw [hstage] at h ⊢
    cases result with
    | ok outcome => exact rfl
    | error error =>
      obtain ⟨⟨⟨r, hholds, hstate⟩, -, hread, hrecord⟩, hfault⟩ := h
      have hspares : FaultPoint.Spares fault record.state ↔ fault .clearFile = true := by
        simp [FaultPoint.Spares, hloadRun, hread, hrecord]
      refine ⟨hfault, ?_⟩
      rw [Stage.faultPoint]
      by_cases hfails : fault .clearFile = true
      · rw [if_pos (hspares.mpr hfails), hfails]
        exact ⟨r, hholds⟩
      · rw [if_neg (mt hspares.mp hfails), if_neg hfails]
        exact not_resumable_of_removed _
  case h_12 result hstage => exact hresumes
  all_goals
    rename_i hstage
    rw [hstage] at h
    exact h.elim

theorem load_resumes (hholds : s.Holds sha256 runId record content) :
    Resumes sha256 fault record content s (load s runId) := by
  have hwaits : record.state = .received ∨ record.state = .hashed :=
    hholds.recorded.imp_right And.left
  have hload : load s runId = ⟨runId, none, false, .loaded record⟩ := by
    rw [load, hholds.run]
    dsimp only
    rw [if_pos hwaits]
  rw [hload]
  exact ⟨rfl, hholds, rfl⟩

theorem Resumes.run (hs : s.db.Ledger) (hholds : s.Holds sha256 runId record content)
    (hloadRun : fault .loadRun = false) (clock : List Instant) :
    (resume sha256 maxArchiveBytes fault s runId clock).1.db.Ledger ∧
      Resumes sha256 fault record content (resume sha256 maxArchiveBytes fault s runId clock).1
        (resume sha256 maxArchiveBytes fault s runId clock).2 := by
  rw [resume, if_neg (by simp [hloadRun])]
  refine Run.run_preserves (P := fun s : Intake × Call => s.1.db.Ledger ∧
    Resumes sha256 fault record content s.1 s.2) (fun s now h => ?_) ⟨hs, load_resumes hholds⟩
  exact ⟨(next_proceeds sha256 maxArchiveBytes s.1 s.2 now _).ledger h.1,
    h.2.advance h.1 hloadRun now⟩

theorem load_remaining (s : Intake) (runId : Uuid) : (load s runId).stage.remaining ≤ 9 := by
  unfold load
  split
  · exact Nat.zero_le 9
  · split <;> simp [Stage.remaining]

theorem resume_returns (sha256 : Bytes → String) (maxArchiveBytes : Nat) (fault : FaultPoint → Bool)
    (s : Intake) (runId : Uuid) {clock : List Instant} (hclock : 9 ≤ clock.length) :
    ∃ result, (resume sha256 maxArchiveBytes fault s runId clock).2.stage = .returned result := by
  unfold resume
  split
  · exact ⟨_, rfl⟩
  · exact run_returns sha256 maxArchiveBytes fault _ ((load_remaining s runId).trans hclock)

theorem resume_runId (sha256 : Bytes → String) (maxArchiveBytes : Nat) (fault : FaultPoint → Bool)
    (s : Intake) (runId : Uuid) (clock : List Instant) :
    (resume sha256 maxArchiveBytes fault s runId clock).2.runId = runId := by
  unfold resume
  split
  · rfl
  · exact run_runId sha256 maxArchiveBytes fault (s, load s runId) clock

theorem resume_settles (hs : s.db.Ledger) (hholds : s.Holds sha256 runId record content)
    {clock : List Instant} (hclock : 9 ≤ clock.length) :
    ∃ outcome, (resume sha256 maxArchiveBytes (fun _ => false) s runId clock).2.stage =
      .returned (.ok (some outcome)) := by
  obtain ⟨result, hreturned⟩ :=
    resume_returns sha256 maxArchiveBytes (fun _ => false) s runId hclock
  have hresumes : Resumes sha256 (fun _ => false) record content
      (resume sha256 maxArchiveBytes (fun _ => false) s runId clock).1
      (resume sha256 maxArchiveBytes (fun _ => false) s runId clock).2 :=
    (Resumes.run hs hholds rfl clock).2
  rw [Resumes, hreturned] at hresumes
  cases result with
  | error error =>
    obtain ⟨⟨point, hpoint⟩, -⟩ := hresumes
    cases hpoint
  | ok outcome =>
    obtain ⟨outcome, rfl⟩ := Option.isSome_iff_exists.mp hresumes
    exact ⟨outcome, hreturned⟩

/-- A resume of a run with an intact staging file that returns an error leaves the run to a later
resume, which settles it, exactly after the faults that spare it. -/
theorem resume_error_spares_iff {runId : Uuid} (hs : s.db.Ledger)
    (hholds : s.Holds sha256 runId record content) {clock : List Instant}
    (hclock : 9 ≤ clock.length) :
    ∃ result, (resume sha256 maxArchiveBytes fault s runId clock).2.stage = .returned result ∧
      ∀ error, result = .error error →
        (((resume sha256 maxArchiveBytes fault s runId clock).1.Resumable runId ∧
          ∀ later : List Instant, 9 ≤ later.length →
            ∃ outcome, (resume sha256 maxArchiveBytes (fun _ => false)
              (resume sha256 maxArchiveBytes fault s runId clock).1 runId later).2.stage =
                .returned (.ok (some outcome))) ↔
          FaultPoint.Spares fault record.state) := by
  obtain ⟨result, hreturned⟩ := resume_returns sha256 maxArchiveBytes fault s runId hclock
  refine ⟨result, hreturned, ?_⟩
  rintro error rfl
  by_cases hloadRun : fault .loadRun = true
  · -- nothing was done
    have hsame : (resume sha256 maxArchiveBytes fault s runId clock).1 = s := by
      rw [resume, if_pos hloadRun]
    rw [hsame]
    exact ⟨fun _ => .inl hloadRun,
      fun _ => ⟨hholds.resumable, fun later hlater => resume_settles hs hholds hlater⟩⟩
  · have hrun : (resume sha256 maxArchiveBytes fault s runId clock).1.db.Ledger ∧
        Resumes sha256 fault record content (resume sha256 maxArchiveBytes fault s runId clock).1
          (resume sha256 maxArchiveBytes fault s runId clock).2 :=
      Resumes.run hs hholds (Bool.eq_false_iff.mpr hloadRun) clock
    obtain ⟨hledger, hresumes⟩ := hrun
    rw [Resumes, hreturned, resume_runId] at hresumes
    by_cases hspares : FaultPoint.Spares fault record.state
    · obtain ⟨-, hkept⟩ := hresumes
      rw [if_pos hspares] at hkept
      obtain ⟨r, hkept⟩ := hkept
      exact iff_of_true ⟨hkept.resumable, fun later hlater => resume_settles hledger hkept hlater⟩
        hspares
    · obtain ⟨-, hlost⟩ := hresumes
      rw [if_neg hspares] at hlost
      exact iff_of_false (fun h => hlost h.1) hspares

def unrecorded : Intake :=
  (receive Bytes.spelled 8 (· == .recordHash) Receiver.initial.shared 0 oneByte
    (List.replicate 11 0)).1

theorem unrecorded_holds : unrecorded.db.Ledger ∧
    ∃ r, unrecorded.Holds Bytes.spelled 0 r [1] ∧ r.state = .received := by
  have hstaging : Staging Bytes.spelled 8 (· == .recordHash) oneByte
      (receive Bytes.spelled 8 (· == .recordHash) Receiver.initial.shared 0 oneByte
        (List.replicate 11 0)) := .receive Database.Ledger.empty 0 _ rfl
  exact ⟨hstaging.ledger, _, ⟨rfl, .inl rfl, rfl⟩, rfl⟩

theorem unrecorded_spared :
    ∃ record, unrecorded.Holds Bytes.spelled 0 record [1] ∧
      ∃ result, (resume Bytes.spelled 8 (· == .recordHash) unrecorded 0
          (List.replicate 9 0)).2.stage = .returned result ∧
        ∀ error, result = .error error →
          (((resume Bytes.spelled 8 (· == .recordHash) unrecorded 0
            (List.replicate 9 0)).1.Resumable 0 ∧
            ∀ later : List Instant, 9 ≤ later.length →
              ∃ outcome, (resume Bytes.spelled 8 (fun _ => false)
                (resume Bytes.spelled 8 (· == .recordHash) unrecorded 0 (List.replicate 9 0)).1 0
                later).2.stage = .returned (.ok (some outcome))) ↔
            FaultPoint.Spares (· == .recordHash) record.state) := by
  obtain ⟨hledger, record, hholds, -⟩ := unrecorded_holds
  exact ⟨record, hholds, resume_error_spares_iff hledger hholds (by decide)⟩

/-- The file is intact. A fault of its read fails the run; a fault of the blob store costs the
file, and the next resume finds no evidence. -/
theorem unrecorded_lost :
    let faulted (point : FaultPoint) :=
      resume Bytes.spelled 8 (· == point) unrecorded 0 (List.replicate 9 0)
    ((faulted .readFile).2.stage = .returned (.error .storage) ∧
      ((faulted .readFile).1.db.loadRun 0).map (·.state) = some .failed) ∧
    ((faulted .publishStaged).2.stage = .returned (.error .storage) ∧
      (faulted .publishStaged).1.readFile 0 = none) ∧
    (resume Bytes.spelled 8 (fun _ => false) (faulted .publishStaged).1 0
      (List.replicate 9 0)).2.stage = .returned (.error .stagingEvidenceLost) :=
  ⟨⟨rfl, rfl⟩, ⟨rfl, rfl⟩, rfl⟩

end Call

end ChatgptArchive
