import ChatgptArchive.ReceiptFaults
import ChatgptArchive.Integrity.SettledReceipts

/-!
# Receives that return an error

A receive fails its run where it finds the upload at fault while it stages it. An error of the
database or the blob store from `record_hash` on is returned as it is, and the run stays where it
was.
-/

namespace ChatgptArchive

open List Database Stage

/-! ## The settlement of a hashed run -/

namespace Database

variable {db : Database} {runId : Uuid} {r : ImportRunRow}

theorem guardedRunUpdate_succeeds {expected : ImportState} (hload : db.loadRun runId = some r)
    (hstate : r.state = expected) (update : ImportRunRow → ImportRunRow) :
    ∃ db', db.guardedRunUpdate runId expected update = .ok db' := by
  have hid : r.id = runId := by simpa using find?_some hload
  have hany : db.importRuns.any (fun r => r.id = runId && r.state = expected) = true :=
    any_eq_true.mpr ⟨r, mem_of_find?_eq_some hload, by simp [hid, hstate]⟩
  exact ⟨_, if_pos hany⟩

theorem recordHash_succeeds (hload : db.loadRun runId = some r) (hstate : r.state = .received)
    (sha256Hex : String) (byteLength : Nat) :
    ∃ db', db.recordHash runId sha256Hex byteLength = .ok db' :=
  guardedRunUpdate_succeeds hload hstate _

theorem markRun_failed_succeeds (hload : db.loadRun runId = some r) (now : Instant) :
    ∃ db', db.markRun now runId r.state .failed = .ok db' := by
  rw [markRun, if_pos (.inl rfl)]
  exact guardedRunUpdate_succeeds hload rfl _

theorem markRun_duplicate_succeeds (hload : db.loadRun runId = some r) (hstate : r.state = .hashed)
    (now : Instant) : ∃ db', db.markRun now runId .hashed .duplicate = .ok db' := by
  rw [markRun, if_pos (.inr ⟨rfl, rfl⟩)]
  exact guardedRunUpdate_succeeds hload hstate _

/-- A publication of a hashed run is refused for an export that is already there and nothing
else. -/
theorem publishExport_succeeds {request : PublishRequest}
    (hload : db.loadRun request.runId = some r) (hstate : r.state = .hashed) (now : Instant) :
    (∃ db', db.publishExport now request = .ok db') ∨
      ∃ existing, db.publishExport now request = .error (.duplicateExisting existing) := by
  unfold publishExport
  dsimp only
  split
  · exact .inr ⟨_, rfl⟩
  · have hstored : ((db.upsertAccount request.accountExternalRef).2.insertExport now
        (db.upsertAccount request.accountExternalRef).1.id request).2.loadRun request.runId =
        some r := hload
    obtain ⟨db', hok⟩ := guardedRunUpdate_succeeds hstored hstate fun r => { r with
      state := .stored
      exportId := some ((db.upsertAccount request.accountExternalRef).2.insertExport now
        (db.upsertAccount request.accountExternalRef).1.id request).1 }
    left
    rw [hok]
    dsimp only
    split <;> exact ⟨_, rfl⟩

end Database

namespace Call

variable {sha256 : Bytes → String} {maxArchiveBytes : Nat} {s : Intake} {call : Call}
  {now : Instant}

/-- What a statement of `settle_hashed` leaves: the run as it was, unless the settlement has an
outcome. The staging file stays. -/
structure Settles (s : Intake) (call : Call) (s' : Intake) (call' : Call) : Prop where
  runId : call'.runId = call.runId
  operation : call'.platformOperation = call.platformOperation
  ledger : s'.db.Ledger
  files : s'.files = s.files
  stage : ((∃ context settlement, call'.stage = .settling context settlement) ∨
      ∃ error, call'.stage = .clearing (.error error)) ∧
        s'.db.loadRun call.runId = s.db.loadRun call.runId ∨
    ∃ outcome r, call'.stage = .clearing (.ok outcome) ∧
      s'.db.loadRun call.runId = some r ∧ (r.state = .duplicate ∨ r.state = .stored)

theorem Settles.settling (hs : s.db.Ledger) (context : HashedContext) (settlement : Settlement) :
    Settles s call s (call.settleAt context settlement) :=
  ⟨rfl, rfl, hs, rfl, .inl ⟨.inl ⟨context, settlement, rfl⟩, rfl⟩⟩

theorem Settles.settlingDuplicate (hs : s.db.Ledger) (context : HashedContext) (existing : Uuid) :
    Settles s call s (call.settleDuplicate context existing) := by
  unfold settleDuplicate
  split <;> exact .settling hs ..

theorem Settles.error (hs : s.db.Ledger) (error : ReceiptError) :
    Settles s call s (call.clear (.error error)) :=
  ⟨rfl, rfl, hs, rfl, .inl ⟨.inr ⟨error, rfl⟩, rfl⟩⟩

/-- A failed settlement leaves its run, a finished one marks it. -/
theorem settle_settles (hs : s.db.Ledger) (now : Instant) (fault : Bool) (context : HashedContext)
    (settlement : Settlement) :
    Settles s call (settle sha256 s call now fault context settlement).1
      (settle sha256 s call now fault context settlement).2 := by
  cases settlement with
  | looking =>
    rw [settle]
    split
    · exact .error hs _
    · split
      · exact .settlingDuplicate hs ..
      · exact .settling hs ..
  | binding operationId existing =>
    rw [settle]
    split
    · exact .error hs _
    · split
      · exact .settling hs ..
      · exact .error hs _
  | inserting operationId existing owner =>
    rw [settle]
    split
    · exact .error hs _
    · exact ⟨rfl, rfl, bindOperation_ledger hs .., rfl, .inl ⟨.inl ⟨_, _, rfl⟩, rfl⟩⟩
  | marking existing =>
    rw [settle]
    split
    · rename_i s' hok
      obtain ⟨db, hstatement, rfl⟩ := Intake.attempt_eq_ok hok
      obtain ⟨-, hledger, -, -, r, hid, -, hmoves⟩ := markRun_eq_ok hs hstatement
      exact ⟨rfl, rfl, hledger, rfl, .inr ⟨_, _, rfl, hid ▸ hmoves.after, .inl rfl⟩⟩
    · exact .error hs _
  | storing =>
    rw [settle]
    split
    · exact ⟨rfl, rfl, hs, rfl, .inl ⟨.inl ⟨_, _, rfl⟩, rfl⟩⟩
    · exact .error hs _
  | publishing blobRef =>
    rw [settle]
    split
    · rename_i s' hok
      obtain ⟨db, hstatement, rfl⟩ := Intake.attempt_eq_ok hok
      obtain ⟨hledger, -, r, e, hid, -, hmoves, hexports, -⟩ :=
        publishExport_eq_ok hs hstatement
      have houtcome : storedOutcome context db =
          .ok (.stored e.id e.aiArchiveId context.sha256Hex context.byteLength) := by
        rw [storedOutcome, hexports, getLast?_concat]
      exact ⟨rfl, rfl, hledger, rfl,
        .inr ⟨_, _, congrArg clearing houtcome, hid ▸ hmoves.after, .inr rfl⟩⟩
    · exact .settlingDuplicate hs ..
    · exact .error hs _

end Call

/-! ## A call that works alone -/

theorem Stage.remaining_eq_zero {stage : Stage} (h : stage.remaining = 0) :
    ∃ result, stage = .returned result := by
  cases stage with
  | returned result => exact ⟨result, rfl⟩
  | settling context settlement => cases settlement <;> cases h
  | _ => cases h

namespace Call

theorem settle_remaining (sha256 : Bytes → String) (s : Intake) (call : Call) (now : Instant)
    (fault : Bool) (context : HashedContext) (settlement : Settlement) :
    (settle sha256 s call now fault context settlement).2.stage.remaining <
      (settling context settlement).remaining := by
  unfold settle settleDuplicate
  repeat' split
  all_goals simp [remaining, settleAt, clear, moveTo]

theorem next_remaining (sha256 : Bytes → String) (maxArchiveBytes : Nat) (s : Intake) (call : Call)
    (now : Instant) (fault : Bool) :
    (call.next sha256 maxArchiveBytes s now fault).2.stage.remaining ≤
      call.stage.remaining - 1 := by
  cases hstage : call.stage with
  | settling context settlement =>
    have hsettles := settle_remaining sha256 s call now fault context settlement
    rw [next, hstage]
    exact Nat.le_sub_one_of_lt hsettles
  | streaming upload received rest =>
    rw [next, hstage]
    cases rest <;> simp only [stream] <;> repeat' split
    all_goals simp [remaining, discard, moveTo]
  | returned result =>
    rw [next, hstage]
    simp [remaining, hstage]
  | _ =>
    rw [next, hstage]
    simp only [recordStaged, readStaged]
    repeat' split
    all_goals simp [remaining, settleAt, refuse, moveTo]

variable (sha256 : Bytes → String) (maxArchiveBytes : Nat) (fault : FaultPoint → Bool)

theorem run_runId (s : Intake × Call) (clock : List Instant) :
    (Run.run (advance sha256 maxArchiveBytes fault) s clock).2.runId = s.2.runId := by
  have hpreserves : ∀ s' : Intake × Call, ∀ now, s'.2.runId = s.2.runId →
      (advance sha256 maxArchiveBytes fault s' now).2.runId = s.2.runId :=
    fun s' now h => (next_proceeds sha256 maxArchiveBytes s'.1 s'.2 now _).runId.trans h
  exact Run.run_preserves hpreserves rfl

theorem run_returns (s : Intake × Call) {clock : List Instant}
    (hclock : s.2.stage.remaining ≤ clock.length) :
    ∃ result, (Run.run (advance sha256 maxArchiveBytes fault) s clock).2.stage =
      .returned result := by
  have hstep : ∀ (s : Intake × Call) (now : Instant),
      (advance sha256 maxArchiveBytes fault s now).2.stage.remaining ≤ s.2.stage.remaining - 1 :=
    fun s now => next_remaining ..
  have hdone := Run.run_measure (m := fun s : Intake × Call => s.2.stage.remaining) hstep s clock
  rw [Nat.sub_eq_zero_of_le hclock, Nat.le_zero] at hdone
  exact remaining_eq_zero hdone

end Call

/-! ## What a receive makes of the upload -/

section

variable (maxArchiveBytes : Nat) (fault : FaultPoint → Bool)

/-- The upload declares or delivers more than the receiver takes, or its stream or its staging file
fails. -/
def Upload.StreamFails (upload : Upload) : Prop :=
  upload.declaredLength.any (· > maxArchiveBytes) = true ∨ fault .openFile = true ∨
    (∃ left ≤ upload.chunks.length, fault (.stream left) = true) ∨
    maxArchiveBytes < upload.bytes.length

/-- The upload does not get past its staging: the stream fails, or the complete bytes are not what
was declared of them. -/
def Upload.StagingFails (sha256 : Bytes → String) (upload : Upload) : Prop :=
  upload.StreamFails maxArchiveBytes fault ∨ upload.admits sha256 upload.bytes = false

end

namespace Call

section

variable (sha256 : Bytes → String) (maxArchiveBytes : Nat) (fault : FaultPoint → Bool)
  (upload : Upload)

/-- Where a receive of the upload stands, with the run in the given state. -/
def Receives (state : ImportState) : Stage → Prop
  | .accepted u => u = upload ∧ state = .received
  | .streaming u received rest => u = upload ∧ state = .received ∧ rest <:+ upload.chunks ∧
    received ++ rest.flatten = upload.bytes ∧ received.length ≤ maxArchiveBytes ∧
    upload.declaredLength.any (· > maxArchiveBytes) = false ∧ fault .openFile = false ∧
    ∀ left, rest.length < left → left ≤ upload.chunks.length → fault (.stream left) = false
  | .staged u received => u = upload ∧ state = .received ∧ received = upload.bytes ∧
    ¬upload.StreamFails maxArchiveBytes fault
  | .discarding _ => state = .received ∧ upload.StagingFails maxArchiveBytes fault sha256
  | .failing expected _ => expected = .received ∧ state = .received ∧
    upload.StagingFails maxArchiveBytes fault sha256
  | .settling _ _ => state ≠ .failed ∧ ¬upload.StagingFails maxArchiveBytes fault sha256
  | .clearing _ => state ≠ .failed ∧ ¬upload.StagingFails maxArchiveBytes fault sha256
  | .returned (.error _) => state = .failed ↔ upload.StagingFails maxArchiveBytes fault sha256
  | .returned (.ok _) => True
  | _ => False

end

variable {sha256 : Bytes → String} {maxArchiveBytes : Nat} {fault : FaultPoint → Bool}
  {upload : Upload} {s : Intake} {call : Call} {r : ImportRunRow}

structure Staging (sha256 : Bytes → String) (maxArchiveBytes : Nat) (fault : FaultPoint → Bool)
    (upload : Upload) (s : Intake × Call) : Prop where
  ledger : s.1.db.Ledger
  run : ∃ r, s.1.db.loadRun s.2.runId = some r ∧
    Receives sha256 maxArchiveBytes fault upload r.state s.2.stage

theorem accept_staging (hs : s.db.Ledger) (now : Instant) :
    Staging sha256 maxArchiveBytes fault upload (accept s now upload) := by
  obtain ⟨-, r, hload, -, hstate, -⟩ := createRun_new hs now upload.accountRef upload.mode
    upload.mediaType
  exact ⟨createRun_ledger hs .., r, hload, rfl, hstate⟩

theorem Staging.moveTo {s' : Intake} {stage : Stage} (hs : s.db.Ledger)
    (hload : s.db.loadRun call.runId = some r) (hdb : s'.db = s.db)
    (hstage : Receives sha256 maxArchiveBytes fault upload r.state stage) :
    Staging sha256 maxArchiveBytes fault upload (s', call.moveTo stage) :=
  ⟨show s'.db.Ledger from hdb ▸ hs, r, show s'.db.loadRun _ = _ from hdb ▸ hload, hstage⟩

theorem stream_staging {received : Bytes} {rest : List Bytes} (hs : s.db.Ledger)
    (hload : s.db.loadRun call.runId = some r)
    (hstage : Receives sha256 maxArchiveBytes fault upload r.state
      (.streaming upload received rest)) :
    Staging sha256 maxArchiveBytes fault upload
      (stream maxArchiveBytes s call (fault (.stream rest.length)) upload received rest) := by
  obtain ⟨-, hstate, hsuffix, hbytes, hlength, hdeclared, hopen, hstream⟩ := hstage
  have hleft : rest.length ≤ upload.chunks.length := hsuffix.length_le
  have hfails : fault (.stream rest.length) = true →
      upload.StagingFails maxArchiveBytes fault sha256 :=
    fun hfault => .inl (.inr (.inr (.inl ⟨_, hleft, hfault⟩)))
  cases rest with
  | nil =>
    rw [stream]
    split
    · rename_i hfault
      exact .moveTo hs hload rfl ⟨hstate, hfails hfault⟩
    · rename_i hfault
      have hreceived : received = upload.bytes := by
        rw [← hbytes, flatten_nil, append_nil]
      refine .moveTo hs hload rfl ⟨rfl, hstate, hreceived, ?_⟩
      rintro (hlarge | hfault' | ⟨left, hle, hfault'⟩ | hlarge)
      · rw [hdeclared] at hlarge
        cases hlarge
      · rw [hopen] at hfault'
        cases hfault'
      · rcases Nat.eq_zero_or_pos left with rfl | hpos
        · exact hfault hfault'
        · rw [hstream left hpos hle] at hfault'
          cases hfault'
      · rw [← hreceived] at hlarge
        omega
  | cons chunk rest =>
    rw [stream]
    split
    · rename_i hfault
      exact .moveTo hs hload rfl ⟨hstate, hfails hfault⟩
    · rename_i hfault
      split
      · rename_i hlarge
        refine .moveTo hs hload rfl ⟨hstate, .inl (.inr (.inr (.inr ?_)))⟩
        have htotal := congrArg List.length hbytes
        simp only [flatten_cons, length_append] at htotal hlarge
        omega
      · rename_i hsmall
        refine .moveTo hs hload rfl ⟨rfl, hstate, (suffix_cons chunk rest).trans hsuffix, ?_,
          by omega, hdeclared, hopen, ?_⟩
        · rw [← hbytes, flatten_cons, append_assoc]
        · intro left hgt hle
          rcases Nat.lt_or_eq_of_le (Nat.succ_le_of_lt hgt) with hgt | rfl
          · exact hstream left hgt hle
          · simpa using hfault

theorem recordStaged_staging (hs : s.db.Ledger) (hload : s.db.loadRun call.runId = some r)
    (hstate : r.state = .received) (hstreamed : ¬upload.StreamFails maxArchiveBytes fault)
    (fails : Bool) :
    Staging sha256 maxArchiveBytes fault upload
      (recordStaged sha256 s call fails upload upload.bytes) := by
  unfold recordStaged
  split
  · rename_i hlength
    refine .moveTo hs hload rfl ⟨hstate, .inr ?_⟩
    cases hdeclared : upload.declaredLength <;> simp_all [Upload.admits]
  · rename_i hlength
    split
    · rename_i hdigest
      refine .moveTo hs hload rfl ⟨hstate, .inr ?_⟩
      cases hexpected : upload.expectedSha256Hex <;> simp_all [Upload.admits]
    · rename_i hdigest
      have hadmits : upload.admits sha256 upload.bytes = true := by
        cases hdeclared : upload.declaredLength <;> cases hexpected : upload.expectedSha256Hex <;>
          simp_all [Upload.admits]
      have hgood : ¬upload.StagingFails maxArchiveBytes fault sha256 := by
        rintro (hfails | hrefuses)
        · exact hstreamed hfails
        · rw [hadmits] at hrefuses
          cases hrefuses
      split
      · rename_i s' hok
        obtain ⟨db, hstatement, rfl⟩ := Intake.attempt_eq_ok hok
        obtain ⟨hledger, -, -, q, hid, -, hmoves⟩ := recordHash_eq_ok hs hstatement
        exact ⟨hledger, _, hid ▸ hmoves.after, by simp, hgood⟩
      · refine .moveTo hs hload rfl ⟨fun hfailed => ?_, fun hfails => absurd hfails hgood⟩
        rw [hstate] at hfailed
        cases hfailed

/-- One step of the call that receives, stage by stage. -/
theorem Staging.advance {s : Intake × Call} (hs : Staging sha256 maxArchiveBytes fault upload s)
    (hfailRun : fault .failRun = false) (now : Instant) :
    Staging sha256 maxArchiveBytes fault upload
      (Call.advance sha256 maxArchiveBytes fault s now) := by
  obtain ⟨s, call⟩ := s
  obtain ⟨hledger, r, hload, hreceives⟩ := hs
  dsimp only at hledger hload hreceives
  unfold Call.advance next
  dsimp only
  split
  case h_1 u hstage =>
    rw [hstage] at hreceives
    obtain ⟨rfl, hstate⟩ := hreceives
    split
    · exact .moveTo hledger hload rfl ⟨rfl, hstate, .inl (.inl ‹_›)⟩
    · rename_i hdeclared
      rw [hstage, faultPoint]
      split
      · exact .moveTo hledger hload rfl ⟨hstate, .inl (.inr (.inl ‹_›))⟩
      · rename_i hopen
        refine .moveTo hledger hload rfl ⟨rfl, hstate, suffix_rfl, rfl, Nat.zero_le _,
          by simpa using hdeclared, by simpa using hopen, fun left hgt hle => ?_⟩
        omega
  case h_2 u received rest hstage =>
    rw [hstage] at hreceives ⊢
    obtain rfl := hreceives.1
    exact stream_staging hledger hload hreceives
  case h_3 u received hstage =>
    rw [hstage] at hreceives
    obtain ⟨rfl, hstate, rfl, hstreamed⟩ := hreceives
    exact recordStaged_staging hledger hload hstate hstreamed _
  case h_4 error hstage =>
    rw [hstage] at hreceives
    refine .moveTo hledger hload ?_ ⟨rfl, hreceives⟩
    split <;> rfl
  case h_5 expected error hstage =>
    rw [hstage] at hreceives ⊢
    obtain ⟨rfl, hstate, hfails⟩ := hreceives
    obtain ⟨db, hok⟩ := markRun_failed_succeeds hload now
    rw [hstate] at hok
    obtain ⟨-, hledger', -, -, q, hid, -, hmoves⟩ := markRun_eq_ok hledger hok
    rw [faultPoint, hfailRun, Intake.attemptOrSkip, Intake.attempt, hok]
    exact ⟨hledger', _, hid ▸ hmoves.after, fun _ => hfails, fun _ => rfl⟩
  case h_10 context settlement hstage =>
    rw [hstage] at hreceives
    obtain ⟨hstate, hgood⟩ := hreceives
    have hsettles := @settle_settles sha256 s call hledger now
      (fault call.stage.faultPoint) context settlement
    refine ⟨hsettles.ledger, ?_⟩
    rw [hsettles.runId]
    rcases hsettles.stage with ⟨⟨c, next, hnext⟩ | ⟨error, hnext⟩, hrun⟩ |
      ⟨outcome, q, hnext, hrun, hsettled⟩
    · exact ⟨r, hrun.trans hload, hnext ▸ ⟨hstate, hgood⟩⟩
    · exact ⟨r, hrun.trans hload, hnext ▸ ⟨hstate, hgood⟩⟩
    · refine ⟨q, hrun, hnext ▸ ⟨fun hfailed => ?_, hgood⟩⟩
      rw [hfailed] at hsettled
      rcases hsettled with h | h <;> cases h
  case h_11 result hstage =>
    rw [hstage] at hreceives
    obtain ⟨hstate, hgood⟩ := hreceives
    have hreturned : Receives sha256 maxArchiveBytes fault upload r.state
        (.returned (result.map some)) := by
      cases result with
      | error e => exact ⟨fun hfailed => absurd hfailed hstate, fun hfails => absurd hfails hgood⟩
      | ok outcome => trivial
    refine .moveTo hledger hload ?_ hreturned
    split <;> rfl
  case h_12 result hstage => exact ⟨hledger, r, hload, hreceives⟩
  all_goals
    rename_i hstage
    rw [hstage] at hreceives
    exact hreceives.elim

theorem Staging.receive (hs : s.db.Ledger) (now : Instant) (clock : List Instant)
    (hfailRun : fault .failRun = false) :
    Staging sha256 maxArchiveBytes fault upload
      (receive sha256 maxArchiveBytes fault s now upload clock) :=
  Run.run_preserves (fun _ _ h => h.advance hfailRun _) (accept_staging hs now)

/-- A receive that returns an error has failed its run exactly when the upload did not get past its
staging, provided the update that fails the run succeeds. -/
theorem receive_error_failed_iff {s : Intake} (hs : s.db.Ledger) (now : Instant)
    {clock : List Instant} (hclock : upload.chunks.length + 10 ≤ clock.length)
    (hfailRun : fault .failRun = false) :
    ∃ result, (receive sha256 maxArchiveBytes fault s now upload clock).2.stage = .returned result ∧
      ∀ error, result = .error error →
        (((receive sha256 maxArchiveBytes fault s now upload clock).1.db.loadRun
          (accept s now upload).2.runId).map (·.state) = some .failed ↔
          upload.StagingFails maxArchiveBytes fault sha256) := by
  have hrun := run_runId sha256 maxArchiveBytes fault (accept s now upload) clock
  obtain ⟨result, hreturned⟩ := run_returns sha256 maxArchiveBytes fault (accept s now upload) hclock
  have hstaging : Staging sha256 maxArchiveBytes fault upload
      (receive sha256 maxArchiveBytes fault s now upload clock) := .receive hs now clock hfailRun
  obtain ⟨-, r, hload, hreceives⟩ := hstaging
  refine ⟨result, hreturned, ?_⟩
  rintro error rfl
  change (receive sha256 maxArchiveBytes fault s now upload clock).2.stage = _ at hreturned
  rw [hreturned] at hreceives
  change (receive sha256 maxArchiveBytes fault s now upload clock).2.runId = _ at hrun
  rw [← hrun, hload, Option.map_some, Option.some.injEq]
  exact hreceives

def oneByte : Upload :=
  { accountRef := "tenant", mode := .consumerExport, mediaType := "application/zip"
    declaredLength := none, expectedSha256Hex := none, platformOperation := none, chunks := [[1]] }

theorem oneByte_truncated_failed :
    ∃ result, (receive Bytes.spelled 8 (· == .stream 0) Receiver.initial.shared 0 oneByte
        (List.replicate 11 0)).2.stage = .returned result ∧
      ∀ error, result = .error error →
        (((receive Bytes.spelled 8 (· == .stream 0) Receiver.initial.shared 0 oneByte
          (List.replicate 11 0)).1.db.loadRun
          (accept Receiver.initial.shared 0 oneByte).2.runId).map (·.state) = some .failed ↔
          oneByte.StagingFails 8 (· == .stream 0) Bytes.spelled) :=
  receive_error_failed_iff Database.Ledger.empty 0 (by decide) rfl

/-- The whole upload is staged and the database reports an error: of `record_hash`, or of the
lookup that opens the settlement. The receive returns the error and its run is left at
`received`, or at `hashed`. -/
theorem oneByte_unfailed :
    let refused (point : FaultPoint) :=
      receive Bytes.spelled 8 (· == point) Receiver.initial.shared 0 oneByte (List.replicate 11 0)
    ((refused .recordHash).2.stage = .returned (.error (.repository .backend)) ∧
      ((refused .recordHash).1.db.loadRun 0).map (·.state) = some .received) ∧
    (refused .findExportByDigest).2.stage = .returned (.error (.repository .backend)) ∧
      ((refused .findExportByDigest).1.db.loadRun 0).map (·.state) = some .hashed :=
  ⟨⟨rfl, rfl⟩, rfl, rfl⟩

end Call

end ChatgptArchive
