import ChatgptArchive.Integrity.ReceiptCalls

/-!
# Uploads and their staging files

Whatever the calls do, a staging file holds a prefix of its run's upload, one receive at most works
on a run, and a receive whose stream has ended has the whole upload in the file.
-/

namespace ChatgptArchive

open List Database Intake

namespace Database

variable {db db' : Database}

theorem Moves.isSome {r r' : ImportRunRow} (h : Moves r r' db db') (id : Uuid) :
    (db'.loadRun id).isSome = (db.loadRun id).isSome := by
  by_cases hid : id = r.id
  · rw [hid, h.before, h.after]
    rfl
  · rw [h.others hid]

end Database

namespace Intake

variable {s : Intake} {runId id : Uuid} {file : StagingFile} {f : StagingFile → StagingFile}

theorem setFile_files_self : (s.setFile runId file).files runId = some file :=
  if_pos rfl

theorem setFile_files_of_ne (h : id ≠ runId) : (s.setFile runId file).files id = s.files id := if_neg h

theorem updateFile_files_self : (s.updateFile runId f).files runId = (s.files runId).map f := if_pos rfl

theorem updateFile_files_of_ne (h : id ≠ runId) : (s.updateFile runId f).files id = s.files id :=
  if_neg h

theorem readFile_eq_some {content : Bytes} (h : s.readFile runId = some content) :
    ∃ file, s.files runId = some file ∧ file.linked = true ∧ file.content = content := by
  obtain ⟨file, hfile, hread⟩ := Option.bind_eq_some_iff.mp h
  split at hread
  · cases hread
    exact ⟨file, hfile, ‹_›, rfl⟩
  · cases hread

theorem endStream_ended_self : (s.endStream runId).ended runId = true := by
  simp [endStream]

theorem endStream_ended_of_ne (h : id ≠ runId) : (s.endStream runId).ended id = s.ended id := by
  simp [endStream, h]

structure Tracks (s : Intake) : Prop where
  ledger : s.db.Ledger
  offered : ∀ {id}, (s.db.loadRun id).isSome → ∃ upload, s.offered id = some upload
  unknown : ∀ {id}, s.db.loadRun id = none → s.files id = none ∧ s.ended id = false
  file : ∀ {id file}, s.files id = some file →
    ∃ upload, s.offered id = some upload ∧ file.content <+: upload.bytes

theorem tracks_initial : Receiver.initial.shared.Tracks where
  ledger := Database.Ledger.empty
  offered hid := by cases hid
  unknown _ := ⟨rfl, rfl⟩
  file hfile := by cases hfile

theorem Tracks.withDb (h : s.Tracks) {db : Database} (hledger : db.Ledger)
    (hsome : ∀ id, (db.loadRun id).isSome = (s.db.loadRun id).isSome) :
    Tracks { s with db } where
  ledger := hledger
  offered {id} hid := h.offered (hsome id ▸ hid)
  unknown {id} hid := by
    have hnone := hsome id
    rw [show ({ s with db } : Intake).db.loadRun id = db.loadRun id from rfl] at hid
    rw [hid] at hnone
    exact h.unknown (by simpa using hnone.symm)
  file := h.file

theorem Tracks.updateFile (h : s.Tracks) {f : StagingFile → StagingFile}
    (hinitial : ∀ {file upload}, s.files runId = some file → s.offered runId = some upload →
      (f file).content <+: upload.bytes) : (s.updateFile runId f).Tracks where
  ledger := h.ledger
  offered := h.offered
  unknown {id} hid := by
    obtain ⟨hfile, hended⟩ := h.unknown hid
    refine ⟨?_, hended⟩
    by_cases hne : id = runId
    · rw [hne] at hfile ⊢
      rw [updateFile_files_self, hfile]
      rfl
    · rw [updateFile_files_of_ne hne, hfile]
  file {id file} hfile := by
    by_cases hne : id = runId
    · rw [hne, updateFile_files_self] at hfile
      obtain ⟨old, hold, rfl⟩ := Option.map_eq_some_iff.mp hfile
      obtain ⟨upload, hupload, -⟩ := h.file hold
      exact ⟨upload, hne ▸ hupload, hinitial hold hupload⟩
    · rw [updateFile_files_of_ne hne] at hfile
      exact h.file hfile

theorem Tracks.keepContent (h : s.Tracks) {f : StagingFile → StagingFile}
    (hcontent : ∀ file, (f file).content = file.content) : (s.updateFile runId f).Tracks :=
  h.updateFile fun {file upload} hfile hupload => by
    obtain ⟨upload', hupload', hpre⟩ := h.file hfile
    rw [hupload] at hupload'
    cases hupload'
    rwa [hcontent]

theorem Tracks.setFile (h : s.Tracks) (hsome : (s.db.loadRun runId).isSome = true)
    {upload : Upload} (hoffered : s.offered runId = some upload) {file : StagingFile}
    (hinitial : file.content <+: upload.bytes) : (s.setFile runId file).Tracks where
  ledger := h.ledger
  offered := h.offered
  unknown {id} hid := by
    obtain ⟨hfile, hended⟩ := h.unknown hid
    have hne : id ≠ runId := by
      rintro rfl
      rw [show s.db.loadRun id = none from hid] at hsome
      cases hsome
    exact ⟨(setFile_files_of_ne hne).trans hfile, hended⟩
  file {id file'} hfile := by
    by_cases hne : id = runId
    · rw [hne, setFile_files_self] at hfile
      cases hfile
      exact ⟨upload, hne ▸ hoffered, hinitial⟩
    · rw [setFile_files_of_ne hne] at hfile
      exact h.file hfile

theorem Tracks.endStream (h : s.Tracks) (hsome : (s.db.loadRun runId).isSome = true) :
    (s.endStream runId).Tracks where
  ledger := h.ledger
  offered := h.offered
  unknown {id} hid := by
    obtain ⟨hfile, hended⟩ := h.unknown hid
    have hne : id ≠ runId := by
      rintro rfl
      rw [show s.db.loadRun id = none from hid] at hsome
      cases hsome
    exact ⟨hfile, (endStream_ended_of_ne hne).trans hended⟩
  file := h.file

end Intake

namespace Call

def loadedRecord (call : Call) : Option ImportRunRow :=
  match call.stage with
  | .loaded record => some record
  | _ => none

def isReceiving (call : Call) : Bool :=
  match call.stage with
  | .accepted _ | .streaming _ _ _ => true
  | _ => false

def Exclusive (p : Call → Bool) (a b : Call) : Prop :=
  a.runId = b.runId → p a = true → p b = false

theorem Exclusive.symm {p : Call → Bool} {a b : Call} (h : Exclusive p a b) :
    Exclusive p b a := by
  intro hid hb
  cases ha : p a with
  | false => rfl
  | true =>
    rw [h hid.symm ha] at hb
    cases hb

abbrev Apart : Call → Call → Prop := Exclusive isReceiving

def Tracked (s : Intake) (call : Call) : Prop :=
  match call.stage with
  | .accepted upload => (s.db.loadRun call.runId).isSome = true ∧
      s.offered call.runId = some upload ∧ s.ended call.runId = false ∧ s.files call.runId = none
  | .streaming upload received rest => (s.db.loadRun call.runId).isSome = true ∧
      s.offered call.runId = some upload ∧ s.ended call.runId = false ∧
      received ++ rest.flatten = upload.bytes ∧
      ∃ file, s.files call.runId = some file ∧ file.writing = true ∧ file.content <+: received
  | .staged upload received => s.offered call.runId = some upload ∧
      s.ended call.runId = true ∧ received = upload.bytes ∧
      ∃ file, s.files call.runId = some file ∧ file.writing = false ∧ file.content = received
  | _ => True

section Frame

variable {s s' : Intake} {call other : Call}

/-- A receive that is still working on the run has not ended its stream, and has a file only while
it writes it. -/
theorem Tracked.receiving (h : call.Tracked s) (hreceiving : call.isReceiving = true) :
    (s.db.loadRun call.runId).isSome = true ∧ s.ended call.runId = false ∧
      ∀ file, s.files call.runId = some file → file.writing = true := by
  unfold isReceiving at hreceiving
  unfold Tracked at h
  split at hreceiving
  · rename_i upload hstage
    rw [hstage] at h
    exact ⟨h.1, h.2.2.1, fun file hfile => by rw [h.2.2.2] at hfile; cases hfile⟩
  · rename_i upload received rest hstage
    rw [hstage] at h
    obtain ⟨hsome, -, hended, -, file, hfile, hwriting, -⟩ := h
    refine ⟨hsome, hended, fun file' hfile' => ?_⟩
    rw [hfile] at hfile'
    cases hfile'
    exact hwriting
  · cases hreceiving

theorem Tracked.congr (h : other.Tracked s)
    (hsome : (s'.db.loadRun other.runId).isSome = (s.db.loadRun other.runId).isSome)
    (hoffered : s'.offered other.runId = s.offered other.runId)
    (hended : s'.ended other.runId = s.ended other.runId)
    (hfile : s'.files other.runId = s.files other.runId) : other.Tracked s' := by
  unfold Tracked at h ⊢
  rw [hsome, hoffered, hended, hfile]
  exact h

/-- The receive changes its own file: another call is on another run, or has nothing to track. -/
theorem Tracked.beside (h : other.Tracked s) (hcall : call.Tracked s)
    (hreceiving : call.isReceiving = true) (hapart : Apart call other)
    (hsome : ∀ id, (s'.db.loadRun id).isSome = (s.db.loadRun id).isSome)
    (hoffered : s'.offered = s.offered) (hended : ∀ id, id ≠ call.runId → s'.ended id = s.ended id)
    (hfile : ∀ id, id ≠ call.runId → s'.files id = s.files id) : other.Tracked s' := by
  by_cases hid : call.runId = other.runId
  · have hother := hapart hid hreceiving
    unfold Tracked
    split
    · rename_i hstage
      simp [isReceiving, hstage] at hother
    · rename_i hstage
      simp [isReceiving, hstage] at hother
    · rename_i hstage
      rw [Tracked, hstage] at h
      obtain ⟨-, hended', -⟩ := h
      rw [← hid, (hcall.receiving hreceiving).2.1] at hended'
      cases hended'
    · trivial
  · exact h.congr (hsome _) (by rw [hoffered]) (hended _ (Ne.symm hid)) (hfile _ (Ne.symm hid))

theorem Tracked.removeFile (h : other.Tracked s) (runId : Uuid) :
    other.Tracked (s.removeFile runId) := by
  by_cases hid : other.runId = runId
  · unfold Tracked at h ⊢
    rw [show (s.removeFile runId).files other.runId =
      (s.files other.runId).map fun file => { file with linked := false } from if_pos hid]
    split at h
    · rw [h.2.2.2]
      exact ⟨h.1, h.2.1, h.2.2.1, rfl⟩
    · obtain ⟨hsome, hoffered, hended, hbytes, file, hfile, hrest⟩ := h
      rw [hfile]
      exact ⟨hsome, hoffered, hended, hbytes, _, rfl, hrest⟩
    · obtain ⟨hoffered, hended, hbytes, file, hfile, hrest⟩ := h
      rw [hfile]
      exact ⟨hoffered, hended, hbytes, _, rfl, hrest⟩
    · trivial
  · exact h.congr rfl rfl rfl (updateFile_files_of_ne hid)

theorem tracked_of_isInert {stage : Stage} (h : stage.isInert = true) :
    (call.moveTo stage).Tracked s ∧ (call.moveTo stage).isReceiving = false := by
  cases stage with
  | accepted | streaming | staged => cases h
  | _ => exact ⟨trivial, rfl⟩

end Frame

section Step

variable {sha256 : Bytes → String} {now : Instant} {s s' : Intake} {call call' other : Call}

@[simp] theorem settleDuplicate_runId (context : HashedContext) (existing : Uuid) :
    (call.settleDuplicate context existing).runId = call.runId := by
  unfold settleDuplicate
  split <;> rfl

theorem settleDuplicate_stage (context : HashedContext) (existing : Uuid) :
    ∃ settlement, (call.settleDuplicate context existing).stage = .settling context settlement := by
  unfold settleDuplicate
  split <;> exact ⟨_, rfl⟩

theorem Proceeds.runId (h : Proceeds sha256 now s call s' call') : call'.runId = call.runId := by
  cases h <;> first | rfl | exact settleDuplicate_runId ..

theorem tracked_of_settling {context : HashedContext} {settlement : Settlement}
    (h : call.stage = .settling context settlement) :
    call.Tracked s ∧ call.isReceiving = false := by
  rw [Tracked, isReceiving, h]
  exact ⟨trivial, rfl⟩

theorem Proceeds.receiving (h : Proceeds sha256 now s call s' call')
    (hreceiving : call'.isReceiving = true) : call.isReceiving = true := by
  cases h with
  | rest => exact hreceiving
  | quit hinert =>
    rw [(tracked_of_isInert (s := s) hinert).2] at hreceiving
    cases hreceiving
  | openFile hstage => rw [isReceiving, hstage]
  | chunk hstage => rw [isReceiving, hstage]
  | found | publishDuplicate =>
    obtain ⟨settlement, hsettling⟩ := call.settleDuplicate_stage _ _
    rw [(tracked_of_settling (s := s) hsettling).2] at hreceiving
    cases hreceiving
  | _ => cases hreceiving

theorem Apart.proceeds (hapart : Apart call other) (h : Proceeds sha256 now s call s' call') :
    Apart call' other :=
  fun hid hreceiving => hapart (h.runId ▸ hid) (h.receiving hreceiving)

/-- A call writes the file and the marks of its own run only. -/
theorem tracked_proceeds (hs : s.Tracks) (hcall : call.Tracked s)
    (h : Proceeds sha256 now s call s' call') :
    s'.Tracks ∧ call'.Tracked s' ∧
      ∀ {other}, other.Tracked s → Apart call other → other.Tracked s' := by
  have hmoved : ∀ {r r' db}, Database.Moves r r' s.db db → db.Ledger →
      Intake.Tracks { s with db } ∧
        ∀ {other}, other.Tracked s → Apart call other → other.Tracked { s with db } :=
    fun hmoves hledger => ⟨hs.withDb hledger hmoves.isSome,
      fun hother _ => hother.congr (hmoves.isSome _) rfl rfl rfl⟩
  -- the database statements leave every file, the file operations every row
  cases h with
  | rest => exact ⟨hs, hcall, fun hother _ => hother⟩
  | quit hinert => exact ⟨hs, (tracked_of_isInert hinert).1, fun hother _ => hother⟩
  | @openFile upload hstage =>
    have htracked := hcall
    rw [Tracked, hstage] at htracked
    obtain ⟨hsome, hoffered, hended, hnone⟩ := htracked
    have hreceiving : call.isReceiving = true := by rw [isReceiving, hstage]
    refine ⟨hs.setFile hsome hoffered nil_prefix, ⟨hsome, hoffered, hended, rfl, _,
      setFile_files_self, rfl, nil_prefix⟩, fun hother hapart => ?_⟩
    exact hother.beside hcall hreceiving hapart (fun _ => rfl) rfl (fun _ _ => rfl)
      fun id hid => setFile_files_of_ne hid
  | @chunk upload received chunk rest hstage =>
    refine ⟨hs, ?_, fun hother _ => hother⟩
    rw [Tracked, hstage] at hcall
    obtain ⟨hsome, hoffered, hended, hbytes, file, hfile, hwriting, hinitial⟩ := hcall
    refine ⟨hsome, hoffered, hended, ?_, file, hfile, hwriting, hinitial.trans ?_⟩
    · rw [← hbytes, flatten_cons, append_assoc]
    · exact prefix_append _ _
  | @discard upload received rest error hstage =>
    have hreceiving : call.isReceiving = true := by rw [isReceiving, hstage]
    refine ⟨hs.keepContent fun _ => rfl, trivial, fun hother hapart => ?_⟩
    exact hother.beside hcall hreceiving hapart (fun _ => rfl) rfl (fun _ _ => rfl)
      fun id hid => updateFile_files_of_ne hid
  | @finish upload received hstage =>
    have htracked := hcall
    rw [Tracked, hstage] at htracked
    obtain ⟨hsome, hoffered, hended, hbytes, file, hfile, -⟩ := htracked
    have hreceived : received = upload.bytes := by rw [← hbytes, flatten_nil, append_nil]
    have hreceiving : call.isReceiving = true := by rw [isReceiving, hstage]
    have hupdated := hs.updateFile
      (f := fun file => { file with content := received, writing := false })
      fun {_ upload'} _ hupload => by
        rw [hoffered] at hupload
        cases hupload
        exact hreceived ▸ prefix_rfl
    refine ⟨hupdated.endStream hsome, ⟨hoffered, endStream_ended_self, hreceived,
      { file with content := received, writing := false }, ?_, rfl, rfl⟩, fun hother hapart => ?_⟩
    · exact updateFile_files_self.trans (congrArg (Option.map _) hfile)
    · exact hother.beside hcall hreceiving hapart (fun _ => rfl) rfl
        (fun id hid => endStream_ended_of_ne hid)
        fun id hid => updateFile_files_of_ne hid
  | recordStaged _ _ hok | recordRehashed _ hok =>
    obtain ⟨hledger, -, -, r, -, -, hmoves⟩ := recordHash_eq_ok hs.ledger hok
    exact ⟨(hmoved hmoves hledger).1, trivial, (hmoved hmoves hledger).2⟩
  | removeDiscarded =>
    exact ⟨hs.keepContent fun _ => rfl, trivial, fun hother _ => hother.removeFile _⟩
  | removeAnswered =>
    exact ⟨hs.keepContent fun _ => rfl, trivial, fun hother _ => hother.removeFile _⟩
  | fail _ hok | failReloaded _ hok | mark _ hok =>
    obtain ⟨-, hledger, -, -, r, -, -, hmoves⟩ := markRun_eq_ok hs.ledger hok
    exact ⟨(hmoved hmoves hledger).1, trivial, (hmoved hmoves hledger).2⟩
  | bind =>
    exact ⟨hs.withDb (bindOperation_ledger hs.ledger ..) fun _ => rfl, trivial,
      fun hother _ => hother.congr rfl rfl rfl rfl⟩
  | store =>
    exact ⟨⟨hs.ledger, hs.offered, hs.unknown, hs.file⟩, trivial,
      fun hother _ => hother.congr rfl rfl rfl rfl⟩
  | publish _ hok =>
    obtain ⟨hledger, -, r, e, -, -, hmoves, -⟩ := publishExport_eq_ok hs.ledger hok
    exact ⟨(hmoved hmoves hledger).1, trivial, (hmoved hmoves hledger).2⟩
  | found | publishDuplicate =>
    obtain ⟨settlement, hsettling⟩ := call.settleDuplicate_stage _ _
    exact ⟨hs, (tracked_of_settling hsettling).1, fun hother _ => hother⟩
  | _ => exact ⟨hs, trivial, fun hother _ => hother⟩

theorem tracked_write (hs : s.Tracks) (hcall : call.Tracked s) (length : Nat) :
    (call.write s length).Tracks ∧ call.Tracked (call.write s length) ∧
      ∀ {other}, other.Tracked s → Apart call other → other.Tracked (call.write s length) := by
  unfold Call.write
  split
  · rename_i upload received rest hstage
    have htracked := hcall
    rw [Tracked, hstage] at htracked
    obtain ⟨hsome, hoffered, hended, hbytes, file, hfile, hwriting, -⟩ := htracked
    have hreceiving : call.isReceiving = true := by rw [isReceiving, hstage]
    refine ⟨hs.updateFile fun {_ upload'} _ hupload => ?_, ?_, fun hother hapart => ?_⟩
    · rw [hoffered] at hupload
      cases hupload
      exact ( take_prefix _ _).trans (hbytes ▸ prefix_append _ _)
    · rw [Tracked, hstage]
      exact ⟨hsome, hoffered, hended, hbytes, _,
        updateFile_files_self.trans (congrArg (Option.map _) hfile), hwriting,
        take_prefix _ _⟩
    · exact hother.beside hcall hreceiving hapart (fun _ => rfl) rfl (fun _ _ => rfl)
        fun id hid => updateFile_files_of_ne hid
  · exact ⟨hs, hcall, fun hother _ => hother⟩

/-- The run of an accepted upload is new, so no other call is on it. -/
theorem tracked_accept (hs : s.Tracks) (now : Instant) (upload : Upload) :
    (accept s now upload).1.Tracks ∧ (accept s now upload).2.Tracked (accept s now upload).1 ∧
      ∀ {other}, other.Tracked s →
        other.Tracked (accept s now upload).1 ∧ Apart (accept s now upload).2 other := by
  have hload : ∀ {id}, id ≠ s.db.nextUuid →
      (accept s now upload).1.db.loadRun id = s.db.loadRun id :=
    fun hne => createRun_loadRun now upload.accountRef upload.mode upload.mediaType hne
  obtain ⟨hnone, r, hnew, -⟩ := createRun_new hs.ledger now upload.accountRef upload.mode
    upload.mediaType
  obtain ⟨hfile, hended⟩ := hs.unknown hnone
  have hoffered : ∀ {id}, id ≠ s.db.nextUuid →
      (accept s now upload).1.offered id = s.offered id := fun hne => if_neg hne
  have hself : (accept s now upload).1.offered s.db.nextUuid = some upload := if_pos rfl
  refine ⟨⟨createRun_ledger hs.ledger .., fun {id} hid => ?_, fun {id} hid => ?_,
    fun {id file} hid => ?_⟩, ⟨?_, hself, hended, hfile⟩, fun {other} hother => ?_⟩
  · by_cases hne : id = s.db.nextUuid
    · exact ⟨upload, hne ▸ hself⟩
    · rw [hoffered hne]
      exact hs.offered (hload hne ▸ hid)
  · have hne : id ≠ s.db.nextUuid := by
      rintro rfl
      rw [show (accept s now upload).1.db.loadRun _ = some r from hnew] at hid
      cases hid
    exact hs.unknown ((hload hne).symm.trans hid)
  · have hne : id ≠ s.db.nextUuid := by
      rintro rfl
      rw [show s.files _ = some file from hid] at hfile
      cases hfile
    rw [hoffered hne]
    exact hs.file hid
  · exact congrArg Option.isSome hnew
  · by_cases hne : other.runId = s.db.nextUuid
    · -- no call tracks a run that is created only now
      have hreceiving : other.isReceiving = false := by
        by_contra hcon
        have hsome := (hother.receiving (by simpa using hcon)).1
        rw [hne, hnone] at hsome
        cases hsome
      refine ⟨?_, fun _ _ => hreceiving⟩
      unfold Tracked
      split
      · rename_i hstage
        simp [isReceiving, hstage] at hreceiving
      · rename_i hstage
        simp [isReceiving, hstage] at hreceiving
      · rename_i hstage
        rw [Tracked, hstage] at hother
        rw [← hne, hother.2.1] at hended
        cases hended
      · trivial
    · refine ⟨hother.congr ?_ (hoffered hne) rfl rfl, fun hid => absurd hid.symm hne⟩
      exact congrArg Option.isSome (hload hne)

theorem tracked_load (runId : Uuid) :
    (load s runId).Tracked s ∧ (load s runId).isReceiving = false := by
  unfold Call.load Tracked isReceiving
  cases s.db.loadRun runId with
  | none => exact ⟨trivial, rfl⟩
  | some record =>
    by_cases hstate : record.state = .received ∨ record.state = .hashed <;>
      simp [hstate]

theorem tracked_crash (hs : s.Tracks) (kept : Uuid → Nat) :
    (s.crashed kept).Tracks ∧ ∀ {other : Call}, other.isReturned = true →
      other.Tracked (s.crashed kept) := by
  refine ⟨⟨hs.ledger, hs.offered, fun {id} hid => ?_, fun {id file} hfile => ?_⟩,
    fun hreturned => ?_⟩
  · obtain ⟨hfile, hended⟩ := hs.unknown hid
    exact ⟨congrArg (Option.map _) hfile, hended⟩
  · obtain ⟨old, hold, rfl⟩ := Option.map_eq_some_iff.mp hfile
    obtain ⟨upload, hupload, hinitial⟩ := hs.file hold
    exact ⟨upload, hupload, ( take_prefix _ _).trans hinitial⟩
  · unfold isReturned at hreturned
    split at hreturned
    · rename_i hstage
      rw [Tracked, hstage]
      trivial
    · cases hreturned

end Step

end Call

/-! ## Assertions about runs -/

namespace Receiver

variable (sha256 : Bytes → String) (maxArchiveBytes : Nat)

def Executes (cond : Intake → Call → Prop) (s : Receiver) : ReceiptAction → Prop
  | .advance c _ _ => ∀ call ∈ s.threads c, cond s.shared call
  | _ => True

instance {cond : Intake → Call → Prop} [∀ s call, Decidable (cond s call)] (s : Receiver)
    (action : ReceiptAction) : Decidable (Executes cond s action) :=
  match action with
  | .advance c _ _ => inferInstanceAs (Decidable (∀ call ∈ s.threads c, cond s.shared call))
  | .receive _ _ _ | .resume _ _ | .write _ _ | .crash _ => isTrue trivial

/-- What has to be shown of an assertion for it to hold in every interleaving. -/
structure Stable (cond : Intake → Call → Prop) (I : Intake → Prop) (P : Intake → Call → Prop)
    (A : Call → Call → Prop) : Prop where
  initial : I Receiver.initial.shared
  symm : ∀ {a b}, A a b → A b a
  accept : ∀ {s now upload}, I s → I (Call.accept s now upload).1 ∧
    P (Call.accept s now upload).1 (Call.accept s now upload).2 ∧
    ∀ {other}, P s other →
      P (Call.accept s now upload).1 other ∧ A (Call.accept s now upload).2 other
  load : ∀ {s runId}, I s →
    P s (Call.load s runId) ∧ ∀ {other}, P s other → A (Call.load s runId) other
  proceeds : ∀ {s s' call call' now}, I s → P s call → cond s call →
    Call.Proceeds sha256 now s call s' call' → I s' ∧ P s' call' ∧
      ∀ {other}, P s other → A call other → P s' other ∧ A call' other
  write : ∀ {s call length}, I s → P s call → I (Call.write s call length) ∧
    P (Call.write s call length) call ∧
    ∀ {other}, P s other → A call other → P (Call.write s call length) other
  crash : ∀ {s kept}, I s → I (s.crashed kept) ∧
    ∀ {other}, other.isReturned = true → P s other → P (s.crashed kept) other

variable {sha256} {cond : Intake → Call → Prop} {I : Intake → Prop} {P : Intake → Call → Prop}
  {A : Call → Call → Prop}

theorem Stable.step (h : Stable sha256 cond I P A) {s : Receiver} {action : ReceiptAction}
    (hs : s.Asserts I P A) (hcond : Executes cond s action) :
    (step sha256 maxArchiveBytes s action).Asserts I P A := by
  cases action with
  | receive c now upload =>
    rw [Receiver.step]
    split
    · obtain ⟨hshared, hown, hothers⟩ := @h.accept _ now upload hs.shared
      refine hs.set hshared hown fun _ hd => ?_
      obtain ⟨hother, hapart⟩ := hothers (hs.thread hd)
      exact ⟨hother, hapart, h.symm hapart⟩
    · exact hs
  | resume c runId =>
    rw [Receiver.step]
    split
    · obtain ⟨hown, hothers⟩ := @h.load _ runId hs.shared
      refine hs.set hs.shared hown fun _ hd => ?_
      have hapart := hothers (hs.thread hd)
      exact ⟨hs.thread hd, hapart, h.symm hapart⟩
    · exact hs
  | advance c now fault =>
    rw [Receiver.step]
    split
    · exact hs
    · rename_i call hc
      obtain ⟨hshared, hown, hothers⟩ := h.proceeds hs.shared (hs.thread hc) (hcond call hc)
        (Call.next_proceeds sha256 maxArchiveBytes s.shared call now fault)
      refine hs.set hshared hown fun hne hd => ?_
      obtain ⟨hother, hapart⟩ := hothers (hs.thread hd) (hs.apart (Ne.symm hne) hc hd)
      exact ⟨hother, hapart, h.symm hapart⟩
  | write c length =>
    rw [Receiver.step]
    split
    · exact hs
    · rename_i call hc
      obtain ⟨hshared, hown, hothers⟩ := @h.write _ _ length hs.shared (hs.thread hc)
      refine hs.set hshared hown fun hne hd => ?_
      have hapart := hs.apart (Ne.symm hne) hc hd
      exact ⟨hothers (hs.thread hd) hapart, hapart, h.symm hapart⟩
  | crash kept =>
    obtain ⟨hshared, hothers⟩ := @h.crash _ kept hs.shared
    exact hs.restrict hshared fun hc hreturned => hothers hreturned (hs.thread hc)

/-- A stable assertion holds after every interleaving whose statements meet the condition. -/
theorem Stable.run (h : Stable sha256 cond I P A) {actions : List ReceiptAction}
    (hmeets : Run.Meets (Receiver.step sha256 maxArchiveBytes) (Executes cond) Receiver.initial
      actions) : (Receiver.run sha256 maxArchiveBytes actions).Asserts I P A :=
  Run.run_invariant (fun _ _ hs hcond => h.step maxArchiveBytes hs hcond)
    ⟨h.initial, nofun, fun _ hc => nomatch hc⟩ hmeets

end Receiver

def Bytes.spelled (bytes : Bytes) : String := String.ofList (bytes.map Char.ofUInt8)

theorem Bytes.spelled_injective : Function.Injective Bytes.spelled := by
  intro a b h
  have hlist : a.map Char.ofUInt8 = b.map Char.ofUInt8 := String.ofList_injective h
  refine map_injective_iff.mpr (fun x y hxy => ?_) hlist
  have hval : x.toUInt32 = y.toUInt32 := congrArg Char.val hxy
  simpa [UInt8.toNat_inj] using congrArg UInt32.toNat hval

end ChatgptArchive
