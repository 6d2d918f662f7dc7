import ChatgptArchive.Integrity.ReceiptRows

/-!
# What a call can do next

The statements of a call with the cases in which they succeed. A statement that fails or refuses
leaves the shared state and puts the call at a stage from which it only fails.
-/

namespace ChatgptArchive

def Upload.admits (sha256 : Bytes → String) (upload : Upload) (content : Bytes) : Bool :=
  upload.declaredLength.all (· = content.length) &&
    upload.expectedSha256Hex.all (· = sha256 content)

def Stage.isInert : Stage → Bool
  | .discarding _ | .clearing (.error _) | .returned (.error _) | .returned (.ok none) => true
  | .failing expected _ => expected = .received || expected = .hashed
  | _ => false

namespace Call

inductive Proceeds (sha256 : Bytes → String) (now : Instant) (s : Intake) (call : Call) :
    Intake → Call → Prop
  | rest : Proceeds sha256 now s call s call
  | quit {stage : Stage} (h : stage.isInert = true) :
      Proceeds sha256 now s call s (call.moveTo stage)
  | openFile {upload : Upload} (hstage : call.stage = .accepted upload) :
      Proceeds sha256 now s call (s.setFile call.runId ⟨[], true, true⟩)
        (call.moveTo (.streaming upload [] upload.chunks))
  | chunk {upload : Upload} {received chunk : Bytes} {rest : List Bytes}
      (hstage : call.stage = .streaming upload received (chunk :: rest)) :
      Proceeds sha256 now s call s (call.moveTo (.streaming upload (received ++ chunk) rest))
  | discard {upload : Upload} {received : Bytes} {rest : List Bytes} {error : ReceiptError}
      (hstage : call.stage = .streaming upload received rest) :
      Proceeds sha256 now s call
        (s.updateFile call.runId fun file => { file with writing := false })
        (call.moveTo (.discarding error))
  | finish {upload : Upload} {received : Bytes}
      (hstage : call.stage = .streaming upload received []) :
      Proceeds sha256 now s call
        ((s.updateFile call.runId fun file =>
          { file with content := received, writing := false }).endStream call.runId)
        (call.moveTo (.staged upload received))
  | recordStaged {upload : Upload} {received : Bytes} {db : Database}
      (hstage : call.stage = .staged upload received)
      (hadmits : upload.admits sha256 received = true)
      (hok : s.db.recordHash call.runId (sha256 received) received.length = .ok db) :
      Proceeds sha256 now s call { s with db } (call.settleAt ⟨upload.accountRef, upload.mode,
        upload.mediaType, sha256 received, received.length⟩ .looking)
  | removeDiscarded {error : ReceiptError} :
      Proceeds sha256 now s call (s.removeFile call.runId)
        (call.moveTo (.failing .received error))
  | answer {result : Except ReceiptError ReceiptOutcome}
      (hstage : call.stage = .clearing result) :
      Proceeds sha256 now s call s (call.moveTo (.returned (result.map some)))
  | removeAnswered {result : Except ReceiptError ReceiptOutcome}
      (hstage : call.stage = .clearing result) :
      Proceeds sha256 now s call (s.removeFile call.runId)
        (call.moveTo (.returned (result.map some)))
  | fail {expected : ImportState} {error : ReceiptError} {db : Database}
      (hstage : call.stage = .failing expected error)
      (hok : s.db.markRun now call.runId expected .failed = .ok db) :
      Proceeds sha256 now s call { s with db } (call.refuse error)
  | rehash {record : ImportRunRow} {content : Bytes} (hstage : call.stage = .loaded record)
      (hstate : record.state = .received) (hread : s.readFile call.runId = some content) :
      Proceeds sha256 now s call s
        (call.moveTo (.rehashed record (sha256 content) content.length))
  | verify {record : ImportRunRow} {content : Bytes} (hstage : call.stage = .loaded record)
      (hstate : record.state ≠ .received) (hread : s.readFile call.runId = some content)
      (hdigest : record.sha256Hex = some (sha256 content))
      (hlength : content.length = record.byteLength.getD 0) :
      Proceeds sha256 now s call s
        (call.settleAt (contextOf record (sha256 content) content.length) .looking)
  | drift {record : ImportRunRow} {expected : String} {content : Bytes}
      (hstage : call.stage = .loaded record) (hstate : record.state ≠ .received)
      (hread : s.readFile call.runId = some content) (hexpected : record.sha256Hex = some expected)
      (hne : ¬(sha256 content = expected ∧ content.length = record.byteLength.getD 0)) :
      Proceeds sha256 now s call s (call.moveTo (.drifted (sha256 content) content.length))
  | recordRehashed {record : ImportRunRow} {sha256Hex : String} {byteLength : Nat} {db : Database}
      (hstage : call.stage = .rehashed record sha256Hex byteLength)
      (hok : s.db.recordHash call.runId sha256Hex byteLength = .ok db) :
      Proceeds sha256 now s call { s with db }
        (call.settleAt (contextOf record sha256Hex byteLength) .looking)
  | reload {sha256Hex : String} {byteLength : Nat} {record : ImportRunRow}
      (hstage : call.stage = .drifted sha256Hex byteLength)
      (hload : s.db.loadRun call.runId = some record) :
      Proceeds sha256 now s call s (call.moveTo (.reloaded record.state))
  | failReloaded {state : ImportState} {db : Database} (hstage : call.stage = .reloaded state)
      (hok : s.db.markRun now call.runId state .failed = .ok db) :
      Proceeds sha256 now s call { s with db }
        (call.moveTo (.failing .hashed .stagingEvidenceLost))
  | found {context : HashedContext} {existing : Uuid}
      (hstage : call.stage = .settling context .looking)
      (hfind : s.db.findExportByDigest context.tenant context.sha256Hex = some existing) :
      Proceeds sha256 now s call s (call.settleDuplicate context existing)
  | absent {context : HashedContext} (hstage : call.stage = .settling context .looking) :
      Proceeds sha256 now s call s (call.settleAt context .storing)
  | select {context : HashedContext} {operationId existing : Uuid} {owner : ImportRunRow}
      (hstage : call.stage = .settling context (.binding operationId existing))
      (howner : s.db.owningRun existing = some owner) :
      Proceeds sha256 now s call s
        (call.settleAt context (.inserting operationId existing owner.id))
  | bind {context : HashedContext} {operationId existing owner : Uuid}
      (hstage : call.stage = .settling context (.inserting operationId existing owner)) :
      Proceeds sha256 now s call { s with db := s.db.bindOperation operationId owner existing }
        ((call.noteBound s.db).settleAt context (.marking existing))
  | mark {context : HashedContext} {existing : Uuid} {db : Database}
      (hstage : call.stage = .settling context (.marking existing))
      (hok : s.db.markRun now call.runId .hashed .duplicate = .ok db) :
      Proceeds sha256 now s call { s with db }
        (call.clear (.ok (.duplicate existing context.sha256Hex context.byteLength)))
  | store {context : HashedContext} {content : Bytes}
      (hstage : call.stage = .settling context .storing)
      (hread : s.readFile call.runId = some content) :
      Proceeds sha256 now s call (s.storeObject (sha256 content) content) (call.settleAt context
        (.publishing ⟨sha256 content, content.length, context.mediaType⟩))
  | publish {context : HashedContext} {blobRef : BlobRef} {db : Database}
      (hstage : call.stage = .settling context (.publishing blobRef))
      (hok : s.db.publishExport now (call.publishRequest context blobRef) = .ok db) :
      Proceeds sha256 now s call { s with db }
        ((call.noteBound s.db).clear (storedOutcome context db))
  | publishDuplicate {context : HashedContext} {blobRef : BlobRef} {existing : Uuid}
      (hstage : call.stage = .settling context (.publishing blobRef))
      (hrefused : s.db.publishExport now (call.publishRequest context blobRef) =
        .error (.duplicateExisting existing)) :
      Proceeds sha256 now s call s (call.settleDuplicate context existing)

end Call

namespace Intake

variable {s : Intake} {fault : Bool} {statement : Except RepositoryError Database}

theorem attempt_eq_ok {s' : Intake} (h : s.attempt fault statement = .ok s') :
    ∃ db, statement = .ok db ∧ s' = { s with db } := by
  unfold attempt at h
  split at h
  · cases h
  · cases hstatement : statement with
    | error e =>
      rw [hstatement] at h
      cases h
    | ok db =>
      rw [hstatement] at h
      cases h
      exact ⟨db, rfl, rfl⟩

theorem attempt_eq_duplicate {existing : Uuid}
    (h : s.attempt fault statement = .error (.duplicateExisting existing)) :
    statement = .error (.duplicateExisting existing) := by
  unfold attempt at h
  split at h
  · cases h
  · cases hstatement : statement with
    | error e =>
      rw [hstatement] at h
      cases h
      rfl
    | ok db =>
      rw [hstatement] at h
      cases h

theorem attemptOrSkip_cases (s : Intake) (fault : Bool)
    (statement : Except RepositoryError Database) :
    s.attemptOrSkip fault statement = s ∨
      ∃ db, statement = .ok db ∧ s.attemptOrSkip fault statement = { s with db } := by
  unfold attemptOrSkip
  split
  · rename_i s' hok
    obtain ⟨db, hstatement, rfl⟩ := attempt_eq_ok hok
    exact .inr ⟨db, hstatement, rfl⟩
  · exact .inl rfl

end Intake

namespace Call

variable {sha256 : Bytes → String} {maxArchiveBytes : Nat} {s : Intake} {call : Call}
  {now : Instant} {fault : Bool} {upload : Upload} {received : Bytes}

theorem settle_proceeds {context : HashedContext} {settlement : Settlement}
    (hstage : call.stage = .settling context settlement) :
    Proceeds sha256 now s call (settle sha256 s call now fault context settlement).1
      (settle sha256 s call now fault context settlement).2 := by
  cases settlement with
  | looking =>
    rw [settle]
    split
    · exact .quit (by rfl)
    · split
      · exact .found hstage ‹_›
      · exact .absent hstage
  | binding operationId existing =>
    rw [settle]
    split
    · exact .quit (by rfl)
    · split
      · exact .select hstage ‹_›
      · exact .quit (by rfl)
  | inserting operationId existing owner =>
    rw [settle]
    split
    · exact .quit (by rfl)
    · exact .bind hstage
  | marking existing =>
    rw [settle]
    split
    · rename_i s' hok
      obtain ⟨db, hstatement, rfl⟩ := Intake.attempt_eq_ok hok
      exact .mark hstage hstatement
    · exact .quit (by rfl)
  | storing =>
    rw [settle]
    split
    · rename_i content hread
      split at hread
      · cases hread
      · exact .store hstage hread
    · exact .quit (by rfl)
  | publishing blobRef =>
    rw [settle]
    split
    · rename_i s' hok
      obtain ⟨db, hstatement, rfl⟩ := Intake.attempt_eq_ok hok
      exact .publish hstage hstatement
    · rename_i existing hrefused
      exact .publishDuplicate hstage (Intake.attempt_eq_duplicate hrefused)
    · exact .quit (by rfl)

theorem stream_proceeds {rest : List Bytes} (hstage : call.stage = .streaming upload received rest) :
    Proceeds sha256 now s call (stream maxArchiveBytes s call fault upload received rest).1
      (stream maxArchiveBytes s call fault upload received rest).2 := by
  cases rest with
  | nil =>
    rw [stream]
    split
    · exact .discard hstage
    · exact .finish hstage
  | cons chunk rest =>
    rw [stream]
    split
    · exact .discard hstage
    · split
      · exact .discard hstage
      · exact .chunk hstage

theorem recordStaged_proceeds (hstage : call.stage = .staged upload received) :
    Proceeds sha256 now s call (recordStaged sha256 s call fault upload received).1
      (recordStaged sha256 s call fault upload received).2 := by
  unfold recordStaged
  split
  · exact .quit (by rfl)
  · rename_i hlength
    split
    · exact .quit (by rfl)
    · rename_i hdigest
      split
      · rename_i s' hok
        obtain ⟨db, hstatement, rfl⟩ := Intake.attempt_eq_ok hok
        refine .recordStaged hstage ?_ hstatement
        cases hl : upload.declaredLength <;> cases hd : upload.expectedSha256Hex <;>
          simp_all [Upload.admits]
      · exact .quit (by rfl)

theorem readStaged_proceeds {record : ImportRunRow} (hstage : call.stage = .loaded record) :
    Proceeds sha256 now s call (readStaged sha256 s call fault record).1
      (readStaged sha256 s call fault record).2 := by
  unfold readStaged
  split
  · rename_i hstate
    split
    · exact .quit (by rfl)
    · split
      · exact .rehash hstage hstate ‹_›
      · exact .quit (by rfl)
  · rename_i hstate
    split
    · exact .quit (by rfl)
    · rename_i expected hexpected
      split
      · exact .quit (by rfl)
      · split
        · rename_i content hread
          split
          · rename_i hmatch
            rw [← hmatch.1] at hexpected ⊢
            exact .verify hstage hstate hread hexpected hmatch.2
          · rename_i hne
            exact .drift hstage hstate hread hexpected hne
        · exact .quit (by rfl)

/-- Whatever faults, the step of a call is one of these moves. -/
theorem next_proceeds (sha256 : Bytes → String) (maxArchiveBytes : Nat) (s : Intake) (call : Call)
    (now : Instant) (fault : Bool) :
    Proceeds sha256 now s call (call.next sha256 maxArchiveBytes s now fault).1
      (call.next sha256 maxArchiveBytes s now fault).2 := by
  unfold next
  split
  case h_1 upload hstage =>
    split
    · exact .quit (by rfl)
    · split
      · exact .quit (by rfl)
      · exact .openFile hstage
  case h_2 upload received rest hstage => exact stream_proceeds hstage
  case h_3 upload received hstage => exact recordStaged_proceeds hstage
  case h_4 error hstage =>
    split
    · exact .quit (by rfl)
    · exact .removeDiscarded
  case h_5 expected error hstage =>
    rcases s.attemptOrSkip_cases fault (s.db.markRun now call.runId expected .failed) with
      heq | ⟨db, hok, heq⟩
    · rw [heq]
      exact .quit (by rfl)
    · rw [heq]
      exact .fail hstage hok
  case h_6 record hstage => exact readStaged_proceeds hstage
  case h_7 record sha256Hex byteLength hstage =>
    split
    · rename_i s' hok
      obtain ⟨db, hstatement, rfl⟩ := Intake.attempt_eq_ok hok
      exact .recordRehashed hstage hstatement
    · exact .quit (by rfl)
  case h_8 sha256Hex byteLength hstage =>
    split
    · rename_i record hload
      split at hload
      · cases hload
      · exact .reload hstage hload
    · exact .quit (by rfl)
  case h_9 state hstage =>
    rcases s.attemptOrSkip_cases fault (s.db.markRun now call.runId state .failed) with
      heq | ⟨db, hok, heq⟩
    · rw [heq]
      exact .quit (by rfl)
    · rw [heq]
      exact .failReloaded hstage hok
  case h_10 context settlement hstage => exact settle_proceeds hstage
  case h_11 result hstage =>
    split
    · exact .answer hstage
    · exact .removeAnswered hstage
  case h_12 => exact .rest

end Call

end ChatgptArchive
