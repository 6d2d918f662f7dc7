import ChatgptArchive.Integrity.Uploads

/-!
# Exports hold whole uploads

A receive records the hash of a stream that has ended, and a resume of a hashed run compares the
file with it, so the only way to a partial export is a resume that hashes the staging file of a run
that is still `received`.
-/

namespace ChatgptArchive

open List Database Intake Call

/-- A resume that hashes the file of a received run finds there the whole upload, ended and as it
was declared. -/
def Call.FindsWhole (sha256 : Bytes → String) (s : Intake) (call : Call) : Prop :=
  ∀ record ∈ call.loadedRecord, record.state = .received →
    ∀ content ∈ s.readFile call.runId, ∀ upload ∈ s.offered call.runId,
      s.ended call.runId = true ∧ content = upload.bytes ∧ upload.admits sha256 content = true

instance (sha256 : Bytes → String) (s : Intake) (call : Call) :
    Decidable (call.FindsWhole sha256 s) :=
  inferInstanceAs (Decidable (∀ record ∈ call.loadedRecord, _ → ∀ content ∈ _, ∀ upload ∈ _, _))

/-- Every export is owned by one run and holds, whole and as declared, what the run's sender
offered. -/
def Receiver.HoldsUploads (sha256 : Bytes → String) (s : Receiver) : Prop :=
  ∀ e ∈ s.shared.db.exports, ∃ r ∈ s.shared.db.importRuns, r.exportId = some e.id ∧
    (∀ r' ∈ s.shared.db.importRuns, r'.exportId = some e.id → r' = r) ∧
    ∃ upload ∈ s.shared.offered r.id, s.shared.ended r.id = true ∧
      s.shared.objects e.blobRef.digest = some upload.bytes ∧
      e.blobRef.lengthBytes = upload.bytes.length ∧
      e.sha256Hex = sha256 upload.bytes ∧ e.byteLength = upload.bytes.length ∧
      (∀ declared ∈ upload.declaredLength, declared = e.byteLength) ∧
      ∀ expected ∈ upload.expectedSha256Hex, expected = e.sha256Hex

instance (sha256 : Bytes → String) (s : Receiver) : Decidable (s.HoldsUploads sha256) :=
  inferInstanceAs (Decidable (∀ e ∈ s.shared.db.exports, ∃ r ∈ s.shared.db.importRuns, _))

namespace Intake

structure Preserves (s s' : Intake) : Prop where
  ended : ∀ {id}, s.ended id = true → s'.ended id = true
  offered : ∀ {id}, s.ended id = true → s'.offered id = s.offered id
  content : ∀ {id file}, s.ended id = true → s.files id = some file →
    ∃ file', s'.files id = some file' ∧ file'.content = file.content
  objects : ∀ {digest content}, s.objects digest = some content →
    s'.objects digest = some content

variable {s s' : Intake}

/-- The digest and length are those of the run's whole upload, and as declared. -/
def Genuine (sha256 : Bytes → String) (s : Intake) (id : Uuid) (sha256Hex : String)
    (byteLength : Nat) : Prop :=
  ∃ upload, s.offered id = some upload ∧ s.ended id = true ∧
    upload.admits sha256 upload.bytes = true ∧ sha256Hex = sha256 upload.bytes ∧
    byteLength = upload.bytes.length

def HoldsWhole (s : Intake) (id : Uuid) : Prop :=
  ∃ upload file, s.offered id = some upload ∧ s.ended id = true ∧ s.files id = some file ∧
    file.content = upload.bytes

variable {sha256 : Bytes → String} {id : Uuid}

theorem Preserves.genuine (h : Preserves s s') {sha256Hex : String} {byteLength : Nat}
    (hgenuine : s.Genuine sha256 id sha256Hex byteLength) :
    s'.Genuine sha256 id sha256Hex byteLength := by
  obtain ⟨upload, hoffered, hended, hrest⟩ := hgenuine
  exact ⟨upload, (h.offered hended).trans hoffered, h.ended hended, hrest⟩

theorem Preserves.holdsWhole (h : Preserves s s') (hwhole : s.HoldsWhole id) :
    s'.HoldsWhole id := by
  obtain ⟨upload, file, hoffered, hended, hfile, hcontent⟩ := hwhole
  obtain ⟨file', hfile', hcontent'⟩ := h.content hended hfile
  exact ⟨upload, file', (h.offered hended).trans hoffered, h.ended hended, hfile',
    hcontent'.trans hcontent⟩

theorem Preserves.refl (s : Intake) : Preserves s s :=
  ⟨fun h => h, fun _ => rfl, fun _ hfile => ⟨_, hfile, rfl⟩, fun h => h⟩

theorem preserves_db (s : Intake) (db : Database) : Preserves s { s with db } :=
  ⟨fun h => h, fun _ => rfl, fun _ hfile => ⟨_, hfile, rfl⟩, fun h => h⟩

theorem preserves_removeFile (s : Intake) (runId : Uuid) : Preserves s (s.removeFile runId) := by
  refine ⟨fun h => h, fun _ => rfl, fun {id file} _ hfile => ?_, fun h => h⟩
  by_cases hid : id = runId
  · exact ⟨{ file with linked := false }, (if_pos hid).trans (congrArg (Option.map _) hfile), rfl⟩
  · exact ⟨file, (updateFile_files_of_ne hid).trans hfile, rfl⟩

theorem preserves_file {runId : Uuid} (hended : s.ended runId = false)
    (hoffered : s'.offered = s.offered) (hobjects : s'.objects = s.objects)
    (hendedKept : ∀ {id}, s.ended id = true → s'.ended id = true)
    (hfiles : ∀ {id}, id ≠ runId → s'.files id = s.files id) : Preserves s s' := by
  refine ⟨hendedKept, fun _ => by rw [hoffered], fun {id file} hid hfile => ?_,
    fun h => hobjects ▸ h⟩
  have hne : id ≠ runId := by
    rintro rfl
    rw [hended] at hid
    cases hid
  exact ⟨file, (hfiles hne).trans hfile, rfl⟩

def HoldsObject (s : Intake) (id : Uuid) (digest : String) : Prop :=
  ∃ upload, s.offered id = some upload ∧ s.ended id = true ∧
    s.objects digest = some upload.bytes

theorem Preserves.holdsObject (h : Preserves s s') {digest : String}
    (hobject : s.HoldsObject id digest) : s'.HoldsObject id digest := by
  obtain ⟨upload, hoffered, hended, hstored⟩ := hobject
  exact ⟨upload, (h.offered hended).trans hoffered, h.ended hended, h.objects hstored⟩

structure Backs (sha256 : Bytes → String) (s : Intake) : Prop where
  tracks : s.Tracks
  recorded : ∀ {id r digest}, s.db.loadRun id = some r → r.sha256Hex = some digest →
    ∃ length, r.byteLength = some length ∧ s.Genuine sha256 id digest length
  objects : ∀ {digest content}, s.objects digest = some content → sha256 content = digest
  owned : ∀ e ∈ s.db.exports, ∃ id, s.db.Owns id e.id
  stored : ∀ {id e}, e ∈ s.db.exports → s.db.Owns id e.id →
    s.Genuine sha256 id e.sha256Hex e.byteLength ∧ e.blobRef.digest = e.sha256Hex ∧
      e.blobRef.lengthBytes = e.byteLength ∧ s.HoldsObject id e.sha256Hex

theorem Backs.withFiles (h : s.Backs sha256) (htracks : s'.Tracks) (hdb : s'.db = s.db)
    (hpreserves : Preserves s s')
    (hobjects : ∀ {digest content}, s'.objects digest = some content → sha256 content = digest) :
    s'.Backs sha256 where
  tracks := htracks
  recorded hload hdigest := by
    rw [hdb] at hload
    obtain ⟨length, hlength, hgenuine⟩ := h.recorded hload hdigest
    exact ⟨length, hlength, hpreserves.genuine hgenuine⟩
  objects := hobjects
  owned := hdb ▸ h.owned
  stored he howns := by
    rw [hdb] at he howns
    obtain ⟨hgenuine, hdigest, hlength, hobject⟩ := h.stored he howns
    exact ⟨hpreserves.genuine hgenuine, hdigest, hlength, hpreserves.holdsObject hobject⟩

theorem Backs.moved (h : s.Backs sha256) {r r' : ImportRunRow} {db : Database}
    (hledger : db.Ledger) (hmoves : Database.Moves r r' s.db db)
    (hretains : Database.Retains s.db db) (hexports : db.exports = s.db.exports)
    (hexport : r'.exportId = r.exportId) (hrecorded : ∀ {digest}, r'.sha256Hex = some digest →
      ∃ length, r'.byteLength = some length ∧ s.Genuine sha256 r.id digest length) :
    Backs sha256 { s with db } where
  tracks := h.tracks.withDb hledger hmoves.isSome
  recorded {id q digest} hload hdigest := by
    by_cases hid : id = r.id
    · subst hid
      rw [show ({ s with db } : Intake).db.loadRun r.id = some r' from hmoves.after] at hload
      cases hload
      exact hrecorded hdigest
    · exact h.recorded ((hmoves.others hid).symm.trans hload) hdigest
  objects := h.objects
  owned e he := by
    rw [show ({ s with db } : Intake).db.exports = s.db.exports from hexports] at he
    obtain ⟨id, howns⟩ := h.owned e he
    exact ⟨id, hretains.owns howns⟩
  stored {id e} he howns := by
    rw [show ({ s with db } : Intake).db.exports = s.db.exports from hexports] at he
    refine h.stored he ?_
    obtain ⟨q, hload, hq⟩ := howns
    by_cases hid : id = r.id
    · subst hid
      rw [show ({ s with db } : Intake).db.loadRun r.id = some r' from hmoves.after] at hload
      cases hload
      exact ⟨r, hmoves.before, hexport.symm.trans hq⟩
    · exact ⟨q, (hmoves.others hid).symm.trans hload, hq⟩

theorem Backs.published (h : s.Backs sha256) {r : ImportRunRow} {e : ExportRow} {db : Database}
    (hledger : db.Ledger) (hretains : Database.Retains s.db db)
    (hmoves : Database.Moves r { r with state := .stored, exportId := some e.id } s.db db)
    (hexports : db.exports = s.db.exports ++ [e])
    (hgenuine : s.Genuine sha256 r.id e.sha256Hex e.byteLength)
    (hdigest : e.blobRef.digest = e.sha256Hex) (hlength : e.blobRef.lengthBytes = e.byteLength)
    (hobject : s.HoldsObject r.id e.sha256Hex) : Backs sha256 { s with db } where
  tracks := h.tracks.withDb hledger hmoves.isSome
  recorded {id q digest} hload hrecorded := by
    by_cases hid : id = r.id
    · subst hid
      rw [show ({ s with db } : Intake).db.loadRun r.id = _ from hmoves.after] at hload
      cases hload
      exact h.recorded (r := r) hmoves.before hrecorded
    · exact h.recorded ((hmoves.others hid).symm.trans hload) hrecorded
  objects := h.objects
  owned x hx := by
    rw [show ({ s with db } : Intake).db.exports = _ from hexports, mem_append, mem_singleton] at hx
    rcases hx with hx | rfl
    · obtain ⟨id, howns⟩ := h.owned x hx
      exact ⟨id, hretains.owns howns⟩
    · exact ⟨r.id, _, hmoves.after, rfl⟩
  stored {id x} hx howns := by
    obtain ⟨q, hload, hq⟩ := howns
    have hnew : e ∈ db.exports := by
      rw [hexports]
      exact mem_append_right _ (mem_singleton_self _)
    by_cases hid : id = r.id
    · subst hid
      rw [show ({ s with db } : Intake).db.loadRun r.id = _ from hmoves.after] at hload
      cases hload
      obtain rfl : x = e :=
        inj_on_of_nodup_map hledger.exportIds hx hnew (Option.some.inj hq).symm
      exact ⟨hgenuine, hdigest, hlength, hobject⟩
    · have hold : x ∈ s.db.exports := by
        rw [show ({ s with db } : Intake).db.exports = _ from hexports, mem_append,
          mem_singleton] at hx
        refine hx.resolve_right fun hxe => hid ?_
        -- the new export has one owner, the run that published it
        subst hxe
        obtain ⟨hqmem, hqid⟩ := (loadRun_eq_some hledger).mp hload
        obtain ⟨hrmem, hrid⟩ := (loadRun_eq_some hledger).mp hmoves.after
        rw [← hqid, hledger.owner q hqmem _ hrmem x.id hq rfl]
      exact h.stored hold ⟨q, (hmoves.others hid).symm.trans hload, hq⟩

end Intake

namespace Call

/-- What a call has read is genuine, and what it is about to publish is stored. -/
def Backed (sha256 : Bytes → String) (s : Intake) (call : Call) : Prop :=
  match call.stage with
  | .loaded record => (record.state = .received ∨ record.state = .hashed) ∧
      (record.state = .hashed → ∃ digest length, record.sha256Hex = some digest ∧
        record.byteLength = some length ∧ s.Genuine sha256 call.runId digest length)
  | .rehashed _ digest length =>
    s.Genuine sha256 call.runId digest length ∧ s.HoldsWhole call.runId
  | .settling context settlement =>
    s.Genuine sha256 call.runId context.sha256Hex context.byteLength ∧
      s.HoldsWhole call.runId ∧ ∀ blobRef, settlement = .publishing blobRef →
        blobRef.digest = context.sha256Hex ∧ blobRef.lengthBytes = context.byteLength ∧
          s.HoldsObject call.runId context.sha256Hex
  | _ => True

variable {sha256 : Bytes → String} {now : Instant} {s s' : Intake} {call call' : Call}
  {context : HashedContext}

theorem Backed.preserves (h : call.Backed sha256 s) (hpreserves : s.Preserves s') :
    call.Backed sha256 s' := by
  unfold Backed at h ⊢
  split at h
  · refine ⟨h.1, fun hstate => ?_⟩
    obtain ⟨digest, length, hdigest, hlength, hgenuine⟩ := h.2 hstate
    exact ⟨digest, length, hdigest, hlength, hpreserves.genuine hgenuine⟩
  · exact ⟨hpreserves.genuine h.1, hpreserves.holdsWhole h.2⟩
  · refine ⟨hpreserves.genuine h.1, hpreserves.holdsWhole h.2.1, fun blobRef hpublishing => ?_⟩
    obtain ⟨hdigest, hlength, hobject⟩ := h.2.2 blobRef hpublishing
    exact ⟨hdigest, hlength, hpreserves.holdsObject hobject⟩
  · trivial

theorem Proceeds.preserves (hcall : call.Tracked s)
    (h : Proceeds sha256 now s call s' call') : s.Preserves s' := by
  cases h with
  | @openFile upload hstage =>
    have hended := (hcall.receiving (by rw [isReceiving, hstage])).2.1
    exact preserves_file hended rfl rfl (fun h => h)
      fun hne => setFile_files_of_ne hne
  | @discard upload received rest error hstage =>
    have hended := (hcall.receiving (by rw [isReceiving, hstage])).2.1
    exact preserves_file hended rfl rfl (fun h => h)
      fun hne => updateFile_files_of_ne hne
  | @finish upload received hstage =>
    have hended := (hcall.receiving (by rw [isReceiving, hstage])).2.1
    refine preserves_file hended rfl rfl (fun h => ?_)
      fun hne => updateFile_files_of_ne hne
    simp [Intake.endStream, Intake.updateFile, h]
  | removeDiscarded | removeAnswered => exact preserves_removeFile ..
  | recordStaged | recordRehashed | fail | failReloaded | bind | mark | publish =>
    exact preserves_db ..
  | store =>
    refine ⟨fun h => h, fun _ => rfl, fun _ hfile => ⟨_, hfile, rfl⟩, fun {digest content} hd => ?_⟩
    simp only [Intake.storeObject]
    split
    · rw [hd]
      rfl
    · exact hd
  | _ => exact .refl s

theorem backed_of_isInert {stage : Stage} (h : stage.isInert = true) :
    (call.moveTo stage).Backed sha256 s := by
  cases stage with
  | loaded | rehashed | settling => cases h
  | _ => trivial

theorem backed_settleAt {settlement : Settlement}
    (hgenuine : s.Genuine sha256 call.runId context.sha256Hex context.byteLength)
    (hwhole : s.HoldsWhole call.runId) (hne : ∀ blobRef, settlement ≠ .publishing blobRef) :
    (call.settleAt context settlement).Backed sha256 s :=
  ⟨hgenuine, hwhole, fun blobRef heq => absurd heq (hne blobRef)⟩

theorem backed_settleDuplicate {existing : Uuid}
    (hgenuine : s.Genuine sha256 call.runId context.sha256Hex context.byteLength)
    (hwhole : s.HoldsWhole call.runId) :
    (call.settleDuplicate context existing).Backed sha256 s := by
  unfold settleDuplicate
  split <;> exact backed_settleAt hgenuine hwhole nofun

theorem Backed.settling (h : call.Backed sha256 s) {context : HashedContext}
    {settlement : Settlement} (hstage : call.stage = .settling context settlement) :
    s.Genuine sha256 call.runId context.sha256Hex context.byteLength ∧
      s.HoldsWhole call.runId ∧ ∀ blobRef, settlement = .publishing blobRef →
        blobRef.digest = context.sha256Hex ∧ blobRef.lengthBytes = context.byteLength ∧
          s.HoldsObject call.runId context.sha256Hex := by
  rw [Backed, hstage] at h
  exact h

/-- What a linked file of an ended stream reads is a prefix of the upload, and the upload itself
when it is as long. -/
theorem readFile_whole (hs : s.Tracks) {content : Bytes} {upload : Upload}
    (hread : s.readFile call.runId = some content) (hoffered : s.offered call.runId = some upload)
    (hlength : content.length = upload.bytes.length) : content = upload.bytes := by
  obtain ⟨file, hfile, -, rfl⟩ := readFile_eq_some hread
  obtain ⟨upload', hoffered', hinitial⟩ := hs.file hfile
  rw [hoffered] at hoffered'
  cases hoffered'
  exact hinitial.eq_of_length hlength

theorem holdsWhole_of_readFile {content : Bytes} {upload : Upload}
    (hread : s.readFile call.runId = some content) (hoffered : s.offered call.runId = some upload)
    (hended : s.ended call.runId = true) (hcontent : content = upload.bytes) :
    s.HoldsWhole call.runId := by
  obtain ⟨file, hfile, -, hread⟩ := readFile_eq_some hread
  exact ⟨upload, file, hoffered, hended, hfile, hread.trans hcontent⟩

theorem storeObject_digest (hs : s.Backs sha256) {content : Bytes} {digest : String}
    {stored : Bytes} (hstored : (s.storeObject (sha256 content) content).objects digest =
      some stored) : sha256 stored = digest := by
  simp only [Intake.storeObject] at hstored
  split at hstored
  · rename_i hdigest
    cases hold : s.objects digest with
    | none =>
      rw [hold] at hstored
      cases hstored
      exact hdigest.symm
    | some old =>
      rw [hold] at hstored
      cases hstored
      exact hs.objects hold
  · exact hs.objects hstored

theorem backed_proceeds (hsha : Function.Injective sha256) (hs : s.Backs sha256)
    (htracked : call.Tracked s) (hcall : call.Backed sha256 s) (hfinds : call.FindsWhole sha256 s)
    (h : Proceeds sha256 now s call s' call') : s'.Backs sha256 ∧ call'.Backed sha256 s' := by
  have htracks := (tracked_proceeds hs.tracks htracked h).1
  have hpreserves := h.preserves htracked
  have hunchanged : ∀ {s' : Intake}, s'.Tracks → s'.db = s.db → s.Preserves s' →
      s'.objects = s.objects → s'.Backs sha256 := by
    intro s' htracks hdb hpreserves hobjects
    exact hs.withFiles htracks hdb hpreserves fun hd => hs.objects (hobjects ▸ hd)
  have hmarked : ∀ {expected target db}, s.db.markRun now call.runId expected target = .ok db →
      Intake.Backs sha256 { s with db } := by
    intro expected target db hok
    obtain ⟨-, hledger, hretains, hexports, r, -, -, hmoves⟩ :=
      markRun_eq_ok hs.tracks.ledger hok
    exact hs.moved hledger hmoves hretains hexports rfl
      fun hdigest => hs.recorded (r := r) hmoves.before hdigest
  have hhashed : ∀ {digest length db}, s.Genuine sha256 call.runId digest length →
      s.db.recordHash call.runId digest length = .ok db → Intake.Backs sha256 { s with db } := by
    intro digest length db hgenuine hok
    obtain ⟨hledger, hretains, hexports, r, hid, -, hmoves⟩ :=
      recordHash_eq_ok hs.tracks.ledger hok
    refine hs.moved hledger hmoves hretains hexports rfl fun hdigest => ?_
    cases hdigest
    exact ⟨length, rfl, hid ▸ hgenuine⟩
  cases h with
  | rest => exact ⟨hs, hcall⟩
  | quit hinert => exact ⟨hs, backed_of_isInert hinert⟩
  | openFile | discard | finish | removeDiscarded =>
    exact ⟨hunchanged htracks rfl hpreserves rfl, trivial⟩
  | chunk | answer | reload => exact ⟨hs, trivial⟩
  | removeAnswered => exact ⟨hunchanged htracks rfl hpreserves rfl, trivial⟩
  | @recordStaged upload received db hstage hadmits hok =>
    rw [Tracked, hstage] at htracked
    obtain ⟨hoffered, hended, rfl, file, hfile, -, hcontent⟩ := htracked
    have hgenuine : s.Genuine sha256 call.runId (sha256 upload.bytes) upload.bytes.length :=
      ⟨upload, hoffered, hended, hadmits, rfl, rfl⟩
    exact ⟨hhashed hgenuine hok, backed_settleAt (hpreserves.genuine hgenuine)
      (hpreserves.holdsWhole ⟨upload, file, hoffered, hended, hfile, hcontent⟩) fun _ h => by cases h⟩
  | fail _ hok | failReloaded _ hok => exact ⟨hmarked hok, trivial⟩
  | @rehash record content hstage hstate hread =>
    obtain ⟨file, hfile, -⟩ := readFile_eq_some hread
    obtain ⟨upload, hoffered, -⟩ := hs.tracks.file hfile
    obtain ⟨hended, rfl, hadmits⟩ := hfinds record (by rw [loadedRecord, hstage]; rfl) hstate
      content hread upload hoffered
    exact ⟨hs, ⟨upload, hoffered, hended, hadmits, rfl, rfl⟩,
      holdsWhole_of_readFile hread hoffered hended rfl⟩
  | @verify record content hstage hstate hread hdigest hlength =>
    rw [Backed, hstage] at hcall
    obtain ⟨digest, length, hd, hl, hgenuine⟩ := hcall.2 (hcall.1.resolve_left hstate)
    rw [hdigest] at hd
    cases hd
    rw [hl, Option.getD_some] at hlength
    subst hlength
    -- a prefix of the upload that is as long as the upload is the upload
    obtain ⟨upload, hoffered, hended, hadmits, -, hlength⟩ := hgenuine
    obtain rfl := readFile_whole hs.tracks hread hoffered hlength
    exact ⟨hs, backed_settleAt ⟨upload, hoffered, hended, hadmits, rfl, rfl⟩
      (holdsWhole_of_readFile hread hoffered hended rfl) fun _ h => by cases h⟩
  | drift => exact ⟨hs, trivial⟩
  | @recordRehashed record digest length db hstage hok =>
    rw [Backed, hstage] at hcall
    exact ⟨hhashed hcall.1 hok, backed_settleAt (hpreserves.genuine hcall.1)
      (hpreserves.holdsWhole hcall.2) fun _ h => by cases h⟩
  | found hstage | publishDuplicate hstage =>
    obtain ⟨hgenuine, hwhole, -⟩ := hcall.settling hstage
    exact ⟨hs, backed_settleDuplicate hgenuine hwhole⟩
  | absent hstage | select hstage =>
    obtain ⟨hgenuine, hwhole, -⟩ := hcall.settling hstage
    exact ⟨hs, backed_settleAt hgenuine hwhole fun _ h => by cases h⟩
  | bind hstage =>
    obtain ⟨hgenuine, hwhole, -⟩ := hcall.settling hstage
    refine ⟨⟨htracks, hs.recorded, hs.objects, hs.owned, hs.stored⟩, ?_⟩
    exact ⟨hgenuine, hwhole, fun _ heq => by cases heq⟩
  | mark hstage hok => exact ⟨hmarked hok, trivial⟩
  | @store context content hstage hread =>
    obtain ⟨hgenuine, hwhole, -⟩ := hcall.settling hstage
    have hbacks := hs.withFiles htracks rfl hpreserves (storeObject_digest hs)
    refine ⟨hbacks, hpreserves.genuine hgenuine, hpreserves.holdsWhole hwhole, ?_⟩
    rintro _ ⟨⟩
    obtain ⟨upload, hoffered, hended, -, hdigest, hlength⟩ := hgenuine
    obtain ⟨upload', file, hoffered', -, hfile, hcontent⟩ := hwhole
    obtain ⟨file', hfile', -, rfl⟩ := readFile_eq_some hread
    rw [hoffered] at hoffered'
    rw [hfile] at hfile'
    cases hoffered'
    cases hfile'
    rw [hcontent, hdigest, hlength]
    refine ⟨rfl, rfl, upload, hoffered, hended, ?_⟩
    -- an object that is there already has the same digest, so it is the same content
    cases hobject : (s.storeObject (sha256 upload.bytes) upload.bytes).objects
        (sha256 upload.bytes) with
    | none => simp [Intake.storeObject] at hobject
    | some stored => rw [hsha (storeObject_digest hs hobject)]
  | @publish context blobRef db hstage hok =>
    obtain ⟨hgenuine, hwhole, hpublishing⟩ := hcall.settling hstage
    obtain ⟨hrefDigest, hrefLength, hobject⟩ := hpublishing blobRef rfl
    obtain ⟨hledger, hretains, r, e, hid, hstate, hmoves, hexports, hblob, hdigest, hlength, -⟩ :=
      publishExport_eq_ok hs.tracks.ledger hok
    have hdigest : e.sha256Hex = context.sha256Hex := hdigest
    have hlength : e.byteLength = context.byteLength := hlength
    have hblob : e.blobRef = blobRef := hblob
    have hid : r.id = call.runId := hid
    refine ⟨hs.published hledger hretains hmoves hexports ?_ ?_ ?_ ?_, trivial⟩
    · rwa [hid, hdigest, hlength]
    · rw [hblob, hdigest, hrefDigest]
    · rw [hblob, hlength, hrefLength]
    · rwa [hid, hdigest]

theorem backed_of_isReturned (h : call.isReturned = true) : call.Backed sha256 s := by
  unfold isReturned at h
  split at h
  · rename_i hstage
    rw [Backed, hstage]
    trivial
  · cases h

theorem write_preserves (hcall : call.Tracked s) (length : Nat) :
    s.Preserves (call.write s length) := by
  unfold write
  split
  · rename_i hstage
    exact preserves_file (hcall.receiving (by rw [isReceiving, hstage])).2.1 rfl rfl
      (fun h => h) fun hne => updateFile_files_of_ne hne
  · exact .refl s

theorem backs_write (hs : s.Backs sha256) (hcall : call.Tracked s) (length : Nat) :
    (call.write s length).Backs sha256 := by
  have hframe : (call.write s length).db = s.db ∧ (call.write s length).objects = s.objects := by
    unfold write
    split <;> exact ⟨rfl, rfl⟩
  exact hs.withFiles (tracked_write hs.tracks hcall length).1 hframe.1
    (write_preserves hcall length) fun hd => hs.objects (hframe.2 ▸ hd)

theorem accept_preserves (hs : s.Tracks) (now : Instant) (upload : Upload) :
    s.Preserves (accept s now upload).1 := by
  refine ⟨fun h => h, fun {id} hended => if_neg ?_, fun _ hfile => ⟨_, hfile, rfl⟩, fun h => h⟩
  rintro rfl
  rw [(hs.unknown (createRun_new hs.ledger now upload.accountRef upload.mode
    upload.mediaType).1).2] at hended
  cases hended

theorem backs_accept (hs : s.Backs sha256) (now : Instant) (upload : Upload) :
    (accept s now upload).1.Backs sha256 := by
  have hpreserves := accept_preserves hs.tracks now upload
  obtain ⟨-, r, hnew, -, -, hdigest, hexport⟩ := createRun_new hs.tracks.ledger now
    upload.accountRef upload.mode upload.mediaType
  have hload : ∀ {id q}, (accept s now upload).1.db.loadRun id = some q →
      q.sha256Hex.isSome ∨ q.exportId.isSome → s.db.loadRun id = some q := by
    intro id q hq hsome
    by_cases hid : id = s.db.nextUuid
    · subst hid
      rw [show (accept s now upload).1.db.loadRun _ = some r from hnew] at hq
      cases hq
      rw [hdigest, hexport] at hsome
      rcases hsome with hsome | hsome <;> cases hsome
    · exact (createRun_loadRun _ _ _ _ hid).symm.trans hq
  refine ⟨(tracked_accept hs.tracks now upload).1, fun hq hd => ?_, hs.objects, fun e he => ?_,
    fun he howns => ?_⟩
  · obtain ⟨length, hlength, hgenuine⟩ := hs.recorded (hload hq (.inl (by rw [hd]; rfl))) hd
    exact ⟨length, hlength, hpreserves.genuine hgenuine⟩
  · obtain ⟨id, howns⟩ := hs.owned e he
    exact ⟨id, (createRun_retains hs.tracks.ledger ..).owns howns⟩
  · obtain ⟨q, hq, hqe⟩ := howns
    obtain ⟨hgenuine, hd, hl, hobject⟩ :=
      hs.stored he ⟨q, hload hq (.inr (by rw [hqe]; rfl)), hqe⟩
    exact ⟨hpreserves.genuine hgenuine, hd, hl, hpreserves.holdsObject hobject⟩

theorem backed_load (hs : s.Backs sha256) (runId : Uuid) : (load s runId).Backed sha256 s := by
  unfold load Backed
  cases hload : s.db.loadRun runId with
  | none => trivial
  | some record =>
    by_cases hstate : record.state = .received ∨ record.state = .hashed
    · simp only [if_pos hstate]
      refine ⟨hstate, fun hhashed => ?_⟩
      obtain ⟨hmem, -⟩ := (loadRun_eq_some hs.tracks.ledger).mp hload
      obtain ⟨digest, length, hdigest, hlength⟩ := hs.tracks.ledger.hashed record hmem hhashed
      obtain ⟨length', hlength', hgenuine⟩ := hs.recorded hload hdigest
      rw [hlength] at hlength'
      cases hlength'
      exact ⟨digest, length, hdigest, hlength, hgenuine⟩
    · simp [hstate]

end Call

namespace Receiver

variable {sha256 : Bytes → String}

theorem stable_backs (hsha : Function.Injective sha256) :
    Stable sha256 (FindsWhole sha256) (Intake.Backs sha256)
      (fun s call => call.Tracked s ∧ call.Backed sha256 s) Apart where
  initial := ⟨tracks_initial, nofun, nofun, fun _ he => absurd he not_mem_nil,
    fun he => absurd he not_mem_nil⟩
  symm := Exclusive.symm
  accept {s now upload} hs := by
    obtain ⟨-, htracked, hothers⟩ := tracked_accept hs.tracks now upload
    refine ⟨backs_accept hs now upload, ⟨htracked, trivial⟩, fun hother => ?_⟩
    obtain ⟨htracked', hapart⟩ := hothers hother.1
    exact ⟨⟨htracked', hother.2.preserves (accept_preserves hs.tracks now upload)⟩, hapart⟩
  load {s runId} hs := by
    obtain ⟨htracked, hreceiving⟩ := tracked_load (s := s) runId
    refine ⟨⟨htracked, backed_load hs runId⟩, fun _ _ hcon => ?_⟩
    rw [hreceiving] at hcon
    cases hcon
  proceeds {s s' call call' now} hs hcall hfinds h := by
    obtain ⟨hbacks, hbacked⟩ := backed_proceeds hsha hs hcall.1 hcall.2 hfinds h
    obtain ⟨-, htracked, hothers⟩ := tracked_proceeds hs.tracks hcall.1 h
    refine ⟨hbacks, ⟨htracked, hbacked⟩, fun hother hapart => ⟨⟨hothers hother.1 hapart, ?_⟩, ?_⟩⟩
    · exact hother.2.preserves (h.preserves hcall.1)
    · exact hapart.proceeds h
  write {s call length} hs hcall := by
    obtain ⟨htracks, htracked, hothers⟩ := tracked_write hs.tracks hcall.1 length
    have hpreserves := write_preserves hcall.1 length
    refine ⟨backs_write hs hcall.1 length, ⟨htracked, hcall.2.preserves hpreserves⟩, ?_⟩
    exact fun hother hapart => ⟨hothers hother.1 hapart, hother.2.preserves hpreserves⟩
  crash {s kept} hs := by
    obtain ⟨htracks, hothers⟩ := tracked_crash hs.tracks kept
    refine ⟨⟨htracks, hs.recorded, hs.objects, hs.owned, hs.stored⟩, fun hreturned hother => ?_⟩
    exact ⟨hothers hreturned, backed_of_isReturned hreturned⟩

theorem holdsUploads_of_backs {s : Receiver} (hs : s.shared.Backs sha256) :
    s.HoldsUploads sha256 := by
  intro e he
  obtain ⟨id, howns⟩ := hs.owned e he
  obtain ⟨⟨upload, hoffered, hended, hadmits, hdigest, hlength⟩, hrefDigest, hrefLength,
    upload', hoffered', -, hobject⟩ := hs.stored he howns
  rw [hoffered] at hoffered'
  cases hoffered'
  obtain ⟨r, hload, hexport⟩ := howns
  obtain ⟨hr, rfl⟩ := (loadRun_eq_some hs.tracks.ledger).mp hload
  simp only [Upload.admits, Bool.and_eq_true, Option.all_eq_true, decide_eq_true_eq] at hadmits
  refine ⟨r, hr, hexport, fun r' hr' he' => hs.tracks.ledger.owner r' hr' r hr e.id he' hexport,
    upload, hoffered, hended, ?_, ?_, hdigest, hlength, fun declared hd => ?_, fun expected hd => ?_⟩
  · rw [hrefDigest]
    exact hobject
  · rw [hrefLength, hlength]
  · rw [hlength]
    exact hadmits.1 declared hd
  · rw [hdigest]
    exact hadmits.2 expected hd

end Receiver

/-- In every interleaving of receives, resumes and crashes, an export holds the whole upload of its
run, as long as no resume hashes the staging file of a received run that is not the whole upload. -/
theorem exports_hold_uploads (sha256 : Bytes → String) (hsha : Function.Injective sha256)
    (maxArchiveBytes : Nat) (actions : List ReceiptAction)
    (hmeets : Run.Meets (Receiver.step sha256 maxArchiveBytes)
      (Receiver.Executes (Call.FindsWhole sha256)) Receiver.initial actions) :
    (Receiver.run sha256 maxArchiveBytes actions).HoldsUploads sha256 :=
  Receiver.holdsUploads_of_backs
    ((Receiver.stable_backs hsha).run maxArchiveBytes hmeets).shared

/-- An upload of two one-byte chunks whose process stops after `steps` statements, with `kept` bytes
in the staging file; the run is then resumed. -/
def stoppedUpload (declaredLength : Option Nat) (steps kept : Nat) : List ReceiptAction :=
  [.receive 0 1 ⟨"account", .consumerExport, "application/zip", declaredLength, none, none,
      [[1], [2]]⟩] ++ replicate steps (.advance 0 1 false) ++
    [.write 0 kept, .crash fun _ => kept, .resume 1 0] ++ replicate 6 (.advance 1 2 false)

/-- The process stops after the first of two chunks: the resume stores one byte. -/
theorem stoppedUpload_stored_truncated :
    ¬(Receiver.run Bytes.spelled 100 (stoppedUpload none 2 1)).HoldsUploads Bytes.spelled := by
  decide +kernel

/-- The process stops after the stream has ended and before the hash is recorded. -/
theorem stoppedUpload_stored_whole :
    (Receiver.run Bytes.spelled 100 (stoppedUpload (some 2) 4 2)).shared.db.exports.length = 1 ∧
      (Receiver.run Bytes.spelled 100 (stoppedUpload (some 2) 4 2)).HoldsUploads Bytes.spelled :=
  ⟨by decide +kernel, exports_hold_uploads _ Bytes.spelled_injective _ _ (by decide +kernel)⟩

end ChatgptArchive
