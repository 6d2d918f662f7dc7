import ChatgptArchive.ReparseEngine
import ChatgptArchive.Integrity.RunStates

/-!
# Concurrent calls of one plan

What a plan has read still holds for its applies as long as nothing else writes, so the first call
to reach its transaction writes the plan and every other one finds its report: before its checks, or
in its own transaction.
-/

namespace ChatgptArchive

open List ReparseStore LocalFsBackend

namespace Database

variable {db db' : Database} {contracts : Contracts} {owners : OwnerResolver}
  {maxEventBytes : Nat} {now : Instant} {plan : ReparsePlan}

theorem writeReparse_eq_ok
    (hok : db.writeReparse contracts owners maxEventBytes now plan = .ok db') :
    ∃ outcome, (db.reparsedRows plan).projectImportFacts contracts owners
        { archiveId := plan.archiveId, exportId := plan.exportId, accountId := plan.tenantId
          parser := plan.targetParser, head := .withChangedEntities, maxEventBytes } now =
        .ok (db', outcome) := by
  unfold writeReparse at hok
  split at hok
  · cases hok
  · obtain ⟨⟨db₁, outcome⟩, hfacts, hdb⟩ := Outcome.bind_eq_ok.mp hok
    cases hdb
    exact ⟨outcome, ofProjection_eq_ok.mp hfacts⟩

theorem writeReparse_frame {α : Type*} {f : Database → α}
    (hprojection : ∀ db : Database, f db.unwritten = f db)
    (hartifact : ∀ (db : Database) (extractedArtifacts : List ExtractedArtifactRow)
      (nextUuid : Uuid), f { db with extractedArtifacts, nextUuid } = f db)
    (hfacts : ∀ (db : Database) (outboxEvents : List OutboxEventRow)
      (announcedSubjects : List AnnouncedSubjectRow) (nextOutboxId : Nat),
      f { db with outboxEvents, announcedSubjects, nextOutboxId } = f db)
    (hok : db.writeReparse contracts owners maxEventBytes now plan = .ok db') :
    f db' = f (db.insertReparseRun plan) := by
  obtain ⟨outcome, hok⟩ := writeReparse_eq_ok hok
  exact (projectImportFacts_frame hfacts hok).trans
    (persistPlanRows_frame hprojection hartifact (db.insertReparseRun plan) plan)

/-- The tables a later apply looks at, beside the projection: a run is added and nothing else. -/
theorem writeReparse_tables
    (hok : db.writeReparse contracts owners maxEventBytes now plan = .ok db') :
    db'.reparseRuns = (db.insertReparseRun plan).reparseRuns ∧ db'.exports = db.exports ∧
      ∀ tenantId, db'.privacyBlocked tenantId = db.privacyBlocked tenantId :=
  ⟨writeReparse_frame (f := (·.reparseRuns)) (fun _ => rfl) (fun _ _ _ => rfl)
      (fun _ _ _ _ => rfl) hok,
    writeReparse_frame (f := (·.exports)) (fun _ => rfl) (fun _ _ _ => rfl)
      (fun _ _ _ _ => rfl) hok,
    fun tenantId => writeReparse_frame (f := (·.privacyBlocked tenantId)) (fun _ => rfl)
      (fun _ _ _ => rfl) (fun _ _ _ _ => rfl) hok⟩

end Database

namespace LocalFsBackend

def Keeps (blobs blobs' : LocalFsBackend) : Prop :=
  ∀ d object, blobs.objects d = some object → blobs'.objects d = some object

theorem Keeps.refl (blobs : LocalFsBackend) : blobs.Keeps blobs := fun _ _ h => h

theorem Keeps.trans {a b c : LocalFsBackend} (h : a.Keeps b) (h' : b.Keeps c) : a.Keeps c :=
  fun d object hobject => h' d object (h d object hobject)

theorem Keeps.publish (blobs : LocalFsBackend) (digest : String) (bytes : List UInt8) :
    blobs.Keeps (blobs.publish digest bytes) := fun _ _ h => publish_keeps h digest bytes

theorem Keeps.verify {blobs blobs' : LocalFsBackend} (h : blobs.Keeps blobs')
    {sha256 : List UInt8 → String} {reference : OwnedRef}
    (hverified : blobs.verify sha256 reference = .ok ()) :
    blobs'.verify sha256 reference = .ok () := by
  obtain ⟨howner, hread⟩ := verify_eq_ok.mp hverified
  obtain ⟨bytes, hbytes, hlength, hdigest⟩ := readVerified_eq_ok.mp hread
  exact verify_eq_ok.mpr ⟨howner, readVerified_eq_ok.mpr ⟨bytes, h _ _ hbytes, hlength, hdigest⟩⟩

theorem registerFrom_of_held {sha256 : List UInt8 → String}
    {registrations : List HeldRegistration} (blobs : LocalFsBackend)
    (hheld : ∀ r ∈ registrations, sha256 r.held = r.reference.blob.digest ∧
      r.held.length = r.reference.blob.lengthBytes) (fault : Nat → Bool) (i : Nat) :
    ∃ blobs', registerFrom sha256 fault blobs registrations i = (blobs', .ok ()) ∧
      blobs.Keeps blobs' := by
  induction registrations generalizing blobs i with
  | nil => exact ⟨blobs, rfl, .refl blobs⟩
  | cons registration registrations ih =>
    have hrest := fun r hr => hheld r (mem_cons_of_mem _ hr)
    rw [registerFrom]
    split
    · exact ih blobs hrest (i + 1)
    · have hrestore : blobs.restore sha256 registration =
          (blobs.publish (sha256 registration.held) registration.held, .ok ()) :=
        if_pos (hheld registration mem_cons_self)
      rw [hrestore]
      obtain ⟨blobs', hregister, hkeeps⟩ := ih _ hrest (i + 1)
      exact ⟨blobs', hregister, (Keeps.publish _ _ _).trans hkeeps⟩

end LocalFsBackend

namespace ReparseEngine

variable {engine : ReparseEngine} {plan : EvidencePlan} {store : ReparseStore}

def references (engine : ReparseEngine) (plan : EvidencePlan) : List BlobRef :=
  plan.artifacts.map engine.libraries.artifactRef

def representable (engine : ReparseEngine) (plan : EvidencePlan) (store : ReparseStore)
    (now : Instant) : Bool :=
  ((store.db.reparsedRows (plan.rows (engine.references plan))).projectImportFacts
    engine.contracts engine.config.owners
    { archiveId := plan.report.archiveId, exportId := plan.exportId, accountId := plan.tenantId
      parser := plan.report.targetParser, head := .withChangedEntities
      maxEventBytes := engine.config.maxEventBytes } now).isOk

structure Evident (engine : ReparseEngine) (plan : EvidencePlan) (store : ReparseStore) : Prop where
  unblocked : store.db.privacyBlocked plan.tenantId = false
  keys : (store.db.exports.map (·.id)).Nodup
  row : ∃ row ∈ store.db.exports, row.id = plan.exportId ∧ row.accountId = plan.tenantId ∧
    row.blobRef = plan.rawRef ∧
    engine.registry.compatibleVersions plan.inventory row.acquisitionMode = plan.registryFingerprint
  verified : engine.libraries.verifyRaw store.blobs plan.rawRef = .ok ()

theorem Evident.of_plan {faults : PlanCall → Option ReparseError} {tenantId archiveId : Uuid}
    {targetParser : ParserId} (hkeys : (store.db.exports.map (·.id)).Nodup)
    (h : (engine.plan faults store tenantId archiveId targetParser).2 = .ok plan) :
    Evident engine plan (engine.plan faults store tenantId archiveId targetParser).1 := by
  obtain ⟨prepared, hprepared, parsed, -, -, hstore, rfl⟩ := plan_eq_ok h
  have hfound := find?_some hprepared.row
  simp only [Bool.and_eq_true, decide_eq_true_eq] at hfound
  rw [hstore]
  exact ⟨hprepared.unblocked, hkeys, ⟨prepared.row, mem_of_find?_eq_some hprepared.row, rfl,
    hfound.1, rfl, hprepared.compatible.symm⟩,
    Keeps.verify (prepared.parser.keeps _ _) hprepared.verified⟩

theorem Evident.keeps (h : Evident engine plan store) {blobs : LocalFsBackend}
    (hblobs : store.blobs.Keeps blobs) : Evident engine plan { store with blobs } :=
  ⟨h.unblocked, h.keys, h.row, hblobs.verify h.verified⟩

def Carries (engine : ReparseEngine) (plan : EvidencePlan) : ApplyProgress → Prop
  | .unaltered raw => raw = plan.rawRef
  | .storing stored => stored = (engine.references plan).take stored.length
  | _ => True

/-- The steps that look neither for a report nor at the projection pass, whoever has written. -/
theorem advance_cases (h : Evident engine plan store) {progress : ApplyProgress}
    (hcarries : Carries engine plan progress) (now : Instant) :
    (∃ next blobs, engine.advance now store plan progress = ({ store with blobs }, .inl next) ∧
        store.blobs.Keeps blobs ∧ Carries engine plan next ∧ next ≠ .unreported) ∨
      progress = .unblocked ∨ progress = .unreported ∨
      progress = .storing (engine.references plan) := by
  obtain ⟨row, hrow, hid, haccount, hraw, hcompatible⟩ := h.row
  have hunique : ∀ q : ExportRow, q.id = plan.exportId → q.id = row.id := fun q hq => hq.trans hid.symm
  cases progress with
  | started =>
    refine .inl ⟨.unblocked, store.blobs, ?_, .refl _, trivial, nofun⟩
    rw [advance, h.unblocked]
    rfl
  | unblocked => exact .inr (.inl rfl)
  | unreported => exact .inr (.inr (.inl rfl))
  | current =>
    refine .inl ⟨.registered, store.blobs, ?_, .refl _, trivial, nofun⟩
    have hfind : store.db.exports.find? (fun e => e.id = plan.exportId) = some row :=
      Table.find?_of_key h.keys hrow (decide_eq_true hid) fun q hq =>
        hunique q (of_decide_eq_true hq)
    rw [advance, hfind]
    dsimp only
    rw [if_pos hcompatible]
  | registered =>
    refine .inl ⟨.unaltered plan.rawRef, store.blobs, ?_, .refl _, rfl, nofun⟩
    have hfind : store.db.exports.find? (fun e =>
        e.id = plan.exportId && e.accountId = plan.tenantId) = some row :=
      Table.find?_of_key h.keys hrow (by simp [hid, haccount]) fun q hq => by
        simp only [Bool.and_eq_true, decide_eq_true_eq] at hq
        exact hunique q hq.1
    rw [advance, hfind]
    dsimp only
    rw [hraw, if_pos rfl]
  | unaltered raw =>
    refine .inl ⟨.storing [], store.blobs, ?_, .refl _, rfl, nofun⟩
    obtain rfl : raw = plan.rawRef := hcarries
    rw [advance, h.verified]
  | storing stored =>
    cases hnext : plan.artifacts[stored.length]? with
    | none =>
      -- everything is stored
      refine .inr (.inr (.inr (congrArg _ ?_)))
      have hlength : plan.artifacts.length ≤ stored.length := List.getElem?_eq_none_iff.mp hnext
      refine Eq.trans hcarries (take_of_length_le ?_)
      rw [references, length_map]
      exact hlength
    | some artifact =>
      refine .inl ⟨.storing (stored ++ [engine.libraries.artifactRef artifact]),
        store.blobs.publish (engine.libraries.sha256 artifact.bytes) artifact.bytes, ?_,
        .publish _ _ _, ?_, nofun⟩
      · rw [advance, hnext]
        rfl
      · have hat : (engine.references plan)[stored.length]? =
            some (engine.libraries.artifactRef artifact) := by
          rw [references, getElem?_map, hnext]
          rfl
        show _ = (engine.references plan).take (stored ++ [_]).length
        rw [length_append, length_singleton, take_add_one, hat, Option.toList_some,
          ← show stored = _ from hcarries]

theorem applyTransaction_of_prior {run : ReparseRunRow × ReparseRunDetail}
    (h : store.runsOf plan = [run]) (now : Instant) (stored : List BlobRef) :
    engine.applyTransaction now store plan stored = (store, .ok run.2.report) := by
  have hprior : store.priorReport plan = some run.2.report := by
    rw [priorReport, h]
    rfl
  rw [applyTransaction, hprior]

theorem registrations_held : ∀ r ∈ plan.registrations (engine.references plan),
    engine.libraries.sha256 r.held = r.reference.blob.digest ∧
      r.held.length = r.reference.blob.lengthBytes := by
  intro r hr
  have hzip : (engine.references plan).zip plan.artifacts =
      plan.artifacts.map fun artifact => (engine.libraries.artifactRef artifact, artifact) := by
    have hself : (plan.artifacts.map engine.libraries.artifactRef).zip (plan.artifacts.map id) =
        plan.artifacts.map fun artifact => (engine.libraries.artifactRef artifact, id artifact) :=
      zip_map'
    rwa [map_id] at hself
  rw [EvidencePlan.registrations, hzip, map_map] at hr
  obtain ⟨artifact, -, rfl⟩ := mem_map.mp hr
  exact ⟨rfl, rfl⟩

theorem applyTransaction_of_none (h : Evident engine plan store)
    (hprior : store.priorReport plan = none) {now : Instant}
    (hfacts : engine.representable plan store now = true) :
    ∃ db blobs, store.db.writeReparse engine.contracts engine.config.owners
        engine.config.maxEventBytes now (plan.rows (engine.references plan)) = .ok db ∧
      store.blobs.Keeps blobs ∧
      engine.applyTransaction now store plan (engine.references plan) =
        ({ db, blobs, details := store.details ++ [⟨plan.report, now⟩] },
          .ok plan.report) := by
  obtain ⟨row, hrow, hid, haccount, -⟩ := h.row
  obtain ⟨⟨db, outcome⟩, hok⟩ : ∃ r, (store.db.reparsedRows
      (plan.rows (engine.references plan))).projectImportFacts engine.contracts engine.config.owners
      { archiveId := plan.report.archiveId, exportId := plan.exportId, accountId := plan.tenantId
        parser := plan.report.targetParser, head := .withChangedEntities
        maxEventBytes := engine.config.maxEventBytes } now = .ok r := Outcome.isOk_iff.mp hfacts
  have hfind : (store.db.exports.find? fun e => e.id = plan.exportId && e.accountId = plan.tenantId) =
      some row := Table.find?_of_key h.keys hrow (by simp [hid, haccount]) fun q hq => by
    simp only [Bool.and_eq_true, decide_eq_true_eq] at hq
    exact hq.1.trans hid.symm
  have hwrite : store.db.writeReparse engine.contracts engine.config.owners
      engine.config.maxEventBytes now (plan.rows (engine.references plan)) = .ok db := by
    unfold Database.writeReparse
    rw [show (fun e : ExportRow => decide (e.id = (plan.rows (engine.references plan)).exportId) &&
      decide (e.accountId = (plan.rows (engine.references plan)).tenantId)) = fun e =>
      decide (e.id = plan.exportId) && decide (e.accountId = plan.tenantId) from rfl, hfind]
    exact Outcome.bind_eq_ok.mpr ⟨(db, outcome), ofProjection_eq_ok.mpr hok, rfl⟩
  obtain ⟨blobs, hregister, hkeeps⟩ := store.blobs.registerFrom_of_held
    (@registrations_held engine plan) (fun _ => false) 0
  refine ⟨db, blobs, hwrite, hkeeps, ?_⟩
  have hany : (store.db.exports.any fun e => e.id = plan.exportId) = true :=
    any_eq_true.mpr ⟨row, hrow, decide_eq_true hid⟩
  rw [applyTransaction, hprior]
  dsimp only
  rw [if_pos hany, registerBlobs, hregister]
  dsimp only
  rw [hwrite]

end ReparseEngine

theorem ReparseStore.Keyed.runsOf_eq {store : ReparseStore} (h : store.Keyed) {plan : EvidencePlan}
    {run : ReparseRunRow × ReparseRunDetail} {runs : List (ReparseRunRow × ReparseRunDetail)}
    (hruns : store.runsOf plan = run :: runs) : store.runsOf plan = [run] := by
  have hmem : run ∈ store.runsOf plan := hruns ▸ mem_cons_self
  obtain ⟨hrun, hmatch⟩ := mem_filter.mp hmem
  have hsublist : (store.runsOf plan).Sublist
      (store.runs.filter fun other => decide (identity other = identity run)) := by
    refine monotone_filter_right store.runs fun other hother => ?_
    simp only [Bool.and_eq_true, decide_eq_true_eq] at hmatch hother
    obtain ⟨⟨⟨⟨⟨-, hexport⟩, hparser⟩, hraw⟩, hregistry⟩, hprojection⟩ := hmatch
    obtain ⟨⟨⟨⟨⟨-, hexport'⟩, hparser'⟩, hraw'⟩, hregistry'⟩, hprojection'⟩ := hother
    refine decide_eq_true ?_
    simp only [identity, hexport, hparser, hraw, hregistry, hprojection, hexport', hparser', hraw',
      hregistry', hprojection']
  rw [Table.filter_key_eq h.identities hrun, hruns] at hsublist
  rw [hruns, eq_nil_of_length_eq_zero (Nat.le_zero.mp (Nat.le_of_succ_le_succ
    hsublist.length_le))]

/-! ## The phases of a run -/

namespace ApplyCalls

open ReparseEngine

variable {engine : ReparseEngine} {plan : EvidencePlan} {first : ReparseStore} {s : ApplyCalls}
  {id : Nat} {progress : ApplyProgress}

/-- Nothing has been written since the plan was made, and no call has returned. -/
structure Unwritten (plan : EvidencePlan) (first : ReparseStore) (s : ApplyCalls) : Prop where
  db : s.store.db = first.db
  details : s.store.details = first.details
  unreported : first.runsOf plan = []
  results : s.results = []

/-- One run of the plan is recorded, at first or by the one write of its rows, and every call that
returned has returned its report. -/
structure Written (engine : ReparseEngine) (plan : EvidencePlan) (first : ReparseStore)
    (s : ApplyCalls) : Prop where
  run : ∃ run, s.store.runsOf plan = [run] ∧ ∀ entry ∈ s.results, entry.2 = .ok run.2.report
  once : s.store.db = first.db ∨ ∃ now, first.db.writeReparse engine.contracts engine.config.owners
    engine.config.maxEventBytes now (plan.rows (engine.references plan)) = .ok s.store.db
  calls : ∀ call ∈ s.calls, call.2 ≠ .unreported

structure Agreed (engine : ReparseEngine) (plan : EvidencePlan) (first : ReparseStore)
    (s : ApplyCalls) : Prop where
  evident : Evident engine plan s.store
  carries : ∀ call ∈ s.calls, Carries engine plan call.2
  phase : Unwritten plan first s ∨ Written engine plan first s

/-- No call writes while another one has looked for a report and not yet at the projection, and
what is written can be told in facts. -/
def clear (engine : ReparseEngine) (plan : EvidencePlan) (s : ApplyCalls) : CallAction → Bool
  | .start _ => true
  | .advance id now => !s.writes plan id ||
      (s.calls.all fun call => call.2 ≠ .unreported) && engine.representable plan s.store now

theorem mem_of_lookup (h : s.calls.lookup id = some progress) : (id, progress) ∈ s.calls := by
  obtain ⟨before, after, heq, -⟩ := List.lookup_eq_some_iff.mp h
  rw [heq]
  exact mem_append_right before mem_cons_self

theorem mem_of_without {call : Nat × ApplyProgress} (h : call ∈ s.without id) : call ∈ s.calls :=
  (mem_filter.mp h).1

namespace Agreed

section

variable (h : Agreed engine plan first s)
include h

theorem proceeds {id : Nat} {next : ApplyProgress}
    {blobs : LocalFsBackend} (hkeeps : s.store.blobs.Keeps blobs)
    (hcarries : Carries engine plan next) (hnext : next ≠ .unreported ∨ Unwritten plan first s) :
    Agreed engine plan first { s with
      store := { s.store with blobs }, calls := (id, next) :: s.without id } where
  evident := h.evident.keeps hkeeps
  carries := forall_mem_cons.mpr ⟨hcarries, fun call hcall => h.carries call (mem_of_without hcall)⟩
  phase := by
    obtain hphase | hphase := h.phase
    · exact .inl ⟨hphase.db, hphase.details, hphase.unreported, hphase.results⟩
    · obtain hnext | hunwritten := hnext
      · refine .inr ⟨hphase.run, hphase.once, ?_⟩
        exact forall_mem_cons.mpr
          ⟨hnext, fun call hcall => hphase.calls call (mem_of_without hcall)⟩
      · exact .inl ⟨hunwritten.db, hunwritten.details, hunwritten.unreported, hunwritten.results⟩

theorem returns (hphase : Written engine plan first s) {id : Nat}
    {run : ReparseRunRow × ReparseRunDetail} (hrun : s.store.runsOf plan = [run]) :
    Agreed engine plan first { s with
      calls := s.without id, results := s.results ++ [(id, .ok run.2.report)] } where
  evident := h.evident
  carries call hcall := h.carries call (mem_of_without hcall)
  phase := by
    refine .inr ⟨⟨run, hrun, ?_⟩, hphase.once,
      fun call hcall => hphase.calls call (mem_of_without hcall)⟩
    obtain ⟨run', hrun', hresults⟩ := hphase.run
    obtain rfl := List.cons.inj (hrun'.symm.trans hrun) |>.1
    refine forall_mem_append.mpr ⟨hresults, ?_⟩
    intro entry hentry
    rw [mem_singleton.mp hentry]

/-- The writing call stores what the plan says and reports it. -/
theorem writes (hfirst : first.Keyed) (hphase : Unwritten plan first s) {id : Nat} {now : Instant}
    (hcalls : ∀ call ∈ s.calls, call.2 ≠ .unreported)
    (hfacts : engine.representable plan s.store now = true) :
    ∃ store, engine.applyTransaction now s.store plan (engine.references plan) =
        (store, .ok plan.report) ∧
      Agreed engine plan first { store, calls := s.without id
                                 results := s.results ++ [(id, .ok plan.report)] } := by
  have hnone : s.store.runsOf plan = [] := by
    rw [← hphase.unreported, runsOf, runs, hphase.db, hphase.details]
    rfl
  have hprior : s.store.priorReport plan = none := by
    rw [priorReport, hnone]
    rfl
  obtain ⟨db, blobs, hwrite, hkeeps, htransaction⟩ := applyTransaction_of_none h.evident hprior hfacts
  refine ⟨_, htransaction, ?_⟩
  obtain ⟨hruns, hexports, hblocked⟩ := Database.writeReparse_tables hwrite
  have hlength : s.store.db.reparseRuns.length = s.store.details.length := by
    rw [hphase.db, hphase.details]
    exact hfirst.details.symm
  refine ⟨⟨(hblocked _).trans h.evident.unblocked, hexports ▸ h.evident.keys,
    hexports ▸ h.evident.row, hkeeps.verify h.evident.verified⟩,
    fun call hcall => h.carries call (mem_of_without hcall), .inr ⟨?_, ?_,
      fun call hcall => hcalls call (mem_of_without hcall)⟩⟩
  · -- the row that was inserted is the one run the plan's identity finds
    refine ⟨(⟨s.store.db.nextUuid, plan.tenantId, plan.exportId, plan.report.targetParser,
      plan.report.rawDigest, plan.registryFingerprint, plan.inputProjection⟩, ⟨plan.report, now⟩),
      ?_, ?_⟩
    · rw [runsOf, runs]
      dsimp only
      rw [hruns]
      show (List.zip (s.store.db.reparseRuns ++ [_]) (s.store.details ++ [_])).filter _ = _
      rw [zip_append hlength, filter_append]
      refine (congrArg (· ++ _) hnone).trans ?_
      simp [EvidencePlan.rows]
    · rw [hphase.results]
      intro entry hentry
      rw [mem_singleton.mp hentry]
  · exact .inr ⟨now, hphase.db ▸ hwrite⟩

theorem start (id : Nat) :
    Agreed engine plan first (s.step engine plan (.start id)) := by
  rw [ApplyCalls.step]
  split
  · exact h
  · refine ⟨h.evident, forall_mem_cons.mpr ⟨trivial, h.carries⟩, h.phase.imp ?_ ?_⟩
    · exact fun hphase => ⟨hphase.db, hphase.details, hphase.unreported, hphase.results⟩
    · exact fun hphase => ⟨hphase.run, hphase.once, forall_mem_cons.mpr ⟨nofun, hphase.calls⟩⟩

/-- A call that looks goes on while nothing is written, and then answers with the report. -/
theorem decides (hfirst : first.Keyed)
    (hcurrent : first.db.currentProjection plan.exportId = plan.inputProjection) {id : Nat}
    {now : Instant} {progress : ApplyProgress} (hlookup : s.calls.lookup id = some progress)
    (hclear : s.clear engine plan (.advance id now) = true)
    (hprogress : progress = .unblocked ∨ progress = .unreported ∨
      progress = .storing (engine.references plan)) :
    Agreed engine plan first (s.step engine plan (.advance id now)) := by
  have hall : plan.artifacts[(engine.references plan).length]? = none := by
    rw [references, length_map]
    exact List.getElem?_eq_none_iff.mpr (Nat.le_refl _)
  simp only [ApplyCalls.step, hlookup]
  obtain hphase | hphase := h.phase
  · have hnone : s.store.priorReport plan = none := by
      rw [priorReport, runsOf, runs, hphase.db, hphase.details]
      exact congrArg (fun runs : List _ => runs.head?.map _) hphase.unreported
    obtain rfl | rfl | rfl := hprogress
    · simp only [advance, hnone]
      exact h.proceeds (.refl _) trivial (.inr hphase)
    · simp only [advance, hphase.db, hcurrent, if_true]
      exact h.proceeds (.refl _) trivial (.inr hphase)
    · -- nothing was found, so this is the write
      have hwrites : s.writes plan id = true := by
        simp [ApplyCalls.writes, hlookup, hnone, references]
      simp only [clear, hwrites, Bool.not_true, Bool.false_or, Bool.and_eq_true,
        all_eq_true, decide_eq_true_eq] at hclear
      obtain ⟨store, htransaction, hagreed⟩ := h.writes hfirst hphase (fun call hcall =>
        hclear.1 call hcall) hclear.2
      simp only [advance, hall, htransaction]
      exact hagreed
  · obtain ⟨run, hrun, -⟩ := hphase.run
    have hprior : s.store.priorReport plan = some run.2.report := by
      rw [priorReport, hrun]
      rfl
    obtain rfl | rfl | rfl := hprogress
    · simp only [advance, hprior]
      exact h.returns hphase hrun
    · exact absurd rfl (hphase.calls _ (mem_of_lookup hlookup))
    · simp only [advance, hall, applyTransaction_of_prior hrun]
      exact h.returns hphase hrun

theorem step (hfirst : first.Keyed)
    (hcurrent : first.db.currentProjection plan.exportId = plan.inputProjection)
    {action : CallAction} (hclear : s.clear engine plan action = true) :
    Agreed engine plan first (s.step engine plan action) := by
  cases action with
  | start id => exact h.start id
  | advance id now =>
    cases hlookup : s.calls.lookup id with
    | none =>
      rw [ApplyCalls.step, hlookup]
      exact h
    | some progress =>
      obtain ⟨next, blobs, hadvance, hkeeps, hcarries, hnext⟩ | hprogress :=
        advance_cases h.evident (h.carries _ (mem_of_lookup hlookup)) now
      · rw [ApplyCalls.step, hlookup]
        dsimp only
        rw [hadvance]
        exact h.proceeds hkeeps hcarries (.inl hnext)
      · exact h.decides hfirst hcurrent hlookup hclear hprogress

end

/-- When the plan has been made, nothing has been written, or a run of its identity is recorded
already. -/
theorem initial (hfirst : first.Keyed) (hevident : Evident engine plan first) :
    Agreed engine plan first (.initial first) := by
  refine ⟨hevident, nofun, ?_⟩
  cases hruns : first.runsOf plan with
  | nil => exact .inl ⟨rfl, rfl, hruns, rfl⟩
  | cons run runs => exact .inr ⟨⟨run, hfirst.runsOf_eq hruns, nofun⟩, .inl rfl, nofun⟩

end Agreed

/-! ## Every call returns -/

theorem advance_remaining {now : Instant} {store store' : ReparseStore} {next : ApplyProgress}
    (h : engine.advance now store plan progress = (store', .inl next)) :
    remaining plan next < remaining plan progress := by
  have hsecond := congrArg Prod.snd h
  cases progress with
  | storing stored =>
    cases hartifact : plan.artifacts[stored.length]? with
    | none => simp [advance, hartifact] at hsecond
    | some artifact =>
      have hlength : stored.length < plan.artifacts.length :=
        (List.getElem?_eq_some_iff.mp hartifact).1
      simp only [advance, hartifact, Sum.inl.injEq] at hsecond
      rw [← hsecond, remaining, remaining, length_append, length_singleton]
      omega
  | started | unblocked | unreported | current | registered | unaltered raw =>
    simp only [advance] at hsecond
    repeat' split at hsecond
    all_goals cases hsecond <;> simp [remaining]

theorem results_step {entry : Nat × Except ReparseError ReparseReport} (h : entry ∈ s.results)
    (action : CallAction) : entry ∈ (s.step engine plan action).results := by
  cases action with
  | start id =>
    rw [step]
    split <;> exact h
  | advance id now =>
    rw [step]
    split
    · exact h
    · split
      · exact h
      · exact mem_append_left _ h

theorem answered (engine : ReparseEngine) (plan : EvidencePlan) (id : Nat) (now : Instant) (n : Nat) :
    ∀ {s : ApplyCalls} {progress : ApplyProgress}, s.calls.lookup id = some progress →
      remaining plan progress ≤ n → ∃ result, (id, result) ∈
        (Run.run (step engine plan) s (replicate n (.advance id now))).results := by
  induction n with
  | zero =>
    intro s progress _ hle
    cases progress <;> simp [remaining] at hle
  | succ n ih =>
    intro s progress hlookup hle
    rw [replicate_succ, Run.run, foldl_cons, ← Run.run]
    rcases hadvance : engine.advance now s.store plan progress with ⟨store, next | result⟩
    · have hnext : (s.step engine plan (.advance id now)).calls.lookup id = some next := by
        rw [step, hlookup]
        dsimp only
        rw [hadvance]
        exact lookup_cons_self
      exact ih hnext (Nat.le_of_lt_succ ((advance_remaining hadvance).trans_le hle))
    · have hresult : (id, result) ∈ (s.step engine plan (.advance id now)).results := by
        rw [step, hlookup]
        dsimp only
        rw [hadvance]
        exact mem_append_right _ mem_cons_self
      exact ⟨result, Run.run_preserves (P := fun s : ApplyCalls => (id, result) ∈ s.results)
        (fun s action h => results_step h action) hresult⟩

end ApplyCalls

/-- In every interleaving of calls with one plan in which no call writes while another one stands
between its look for a report and its look at the projection, every call that returned has returned
the report of the one run that is recorded of the plan, the plan's rows and facts are written once,
and every call under way returns. -/
theorem applies_agree {engine : ReparseEngine} {store : ReparseStore} (hstore : store.Keyed)
    {faults : PlanCall → Option ReparseError} {tenantId archiveId : Uuid} {targetParser : ParserId}
    {plan : EvidencePlan}
    (hplan : (engine.plan faults store tenantId archiveId targetParser).2 = .ok plan)
    (actions : List CallAction)
    (hmeets : Run.Meets (ApplyCalls.step engine plan)
      (fun s action => s.clear engine plan action = true)
      (.initial (engine.plan faults store tenantId archiveId targetParser).1) actions) :
    let s := Run.run (ApplyCalls.step engine plan)
      (.initial (engine.plan faults store tenantId archiveId targetParser).1) actions
    (∀ id result, (id, result) ∈ s.results →
      ∃ run, s.store.runsOf plan = [run] ∧ result = .ok run.2.report) ∧
    (s.store.db = store.db ∨ ∃ now, store.db.writeReparse engine.contracts engine.config.owners
      engine.config.maxEventBytes now (plan.rows (engine.references plan)) = .ok s.store.db) ∧
    ∀ id progress, s.calls.lookup id = some progress → ∀ now, ∃ result, (id, result) ∈
      (Run.run (ApplyCalls.step engine plan) s (List.replicate
        (ReparseEngine.remaining plan progress) (.advance id now))).results := by
  intro s
  obtain ⟨prepared, hprepared, parsed, -, -, hplanned, hmade⟩ := ReparseEngine.plan_eq_ok hplan
  have hfirst : (engine.plan faults store tenantId archiveId targetParser).1.Keyed := by
    rw [hplanned]
    exact ⟨hstore.exports, hstore.details, hstore.identities⟩
  have hdb : (engine.plan faults store tenantId archiveId targetParser).1.db = store.db := by
    rw [hplanned]
  have hcurrent : (engine.plan faults store tenantId archiveId targetParser).1.db.currentProjection
      plan.exportId = plan.inputProjection := by
    rw [hdb, hmade]
  have hagreed := Run.run_invariant (fun s action h hclear => h.step hfirst hcurrent hclear)
    (ApplyCalls.Agreed.initial hfirst (.of_plan hstore.exports hplan)) hmeets
  refine ⟨fun id result hresult => ?_, ?_, fun id progress hlookup now =>
    ApplyCalls.answered engine plan id now _ hlookup (Nat.le_refl _)⟩
  · obtain hphase | hphase := hagreed.phase
    · exact absurd hresult (hphase.results ▸ List.not_mem_nil)
    · obtain ⟨run, hrun, hresults⟩ := hphase.run
      exact ⟨run, hrun, hresults _ hresult⟩
  · obtain hphase | hphase := hagreed.phase
    · exact .inl (hphase.db.trans hdb)
    · have honce := hphase.once
      rw [hdb] at honce
      exact honce

/-! ## Two calls over a changed conversation -/

def parsedBy (version text : String) : ParsedConversations :=
  { ParsedConversations.ofRecords [] [.ofMessages "c" [.ofText "m" none text]] with
    parser := ⟨"export", version⟩ }

def fixedParser (parsed : ParsedConversations) : ParserExecutor where
  execute blobs _ := (blobs, .ok parsed)
  keeps _ _ _ _ h := h

def declaredVersion (version : String) (executor : Option ParserExecutor) :
    RegisteredParser ParserExecutor :=
  ⟨⟨⟨"export", version⟩, [.consumerExport], {"conversations.json"}⟩, executor⟩

def revisingEngine : ReparseEngine where
  libraries := ⟨spell, fun _ => '?', fun _ => some plainArchive⟩
  registry := ⟨[declaredVersion "1" none,
    declaredVersion "2" (some (fixedParser (parsedBy "2" "hello!")))]⟩
  limits := ⟨1, 9, 9, 9, 9⟩
  contracts := .permissive
  config := ⟨[(9, "account")], 100⟩

def importedStore : ReparseStore where
  db := .history .permissive <| Event.under ⟨[(9, "account")], 100⟩
    (Event.receipt 0 0 "account" "d" ++ [.importRun 1 0 (parsedBy "1" "hello")
      [⟨spell [0x5b, 0x5d], 2, "application/octet-stream"⟩]])
  details := []
  blobs := ⟨fun d => if d = "d" then some (.file [0x64])
    else if d = spell [0x5b, 0x5d] then some (.file [0x5b, 0x5d]) else none⟩

def revisionPlan : EvidencePlan where
  report := compareProjection 3 ⟨"export", "2"⟩ "d" (importedStore.db.currentProjection 2)
    (parsedBy "2" "hello!")
  registryFingerprint := [⟨"export", "1"⟩, ⟨"export", "2"⟩]
  inputProjection := importedStore.db.currentProjection 2
  tenantId := 1
  exportId := 2
  rawRef := ⟨"d", 1, "application/zip"⟩
  inventory := plainInventory
  artifacts := [⟨"conversations.json", [0x5b, 0x5d], false⟩]
  parsed := parsedBy "2" "hello!"

def oneAfterTheOther : List CallAction :=
  .start 1 :: replicate 8 (.advance 1 2) ++ .start 2 :: replicate 2 (.advance 2 3)

theorem applies_agree_two :
    let planned := revisingEngine.plan (fun _ => none) importedStore 1 3 ⟨"export", "2"⟩
    let s := Run.run (ApplyCalls.step revisingEngine revisionPlan) (.initial planned.1)
      oneAfterTheOther
    planned.2 = .ok revisionPlan ∧ s.results.map (·.1) = [1, 2] ∧
      ∀ id result, (id, result) ∈ s.results →
        ∃ run, s.store.runsOf revisionPlan = [run] ∧ result = .ok run.2.report := by
  intro planned s
  have hkeyed : importedStore.Keyed := ⟨by decide +kernel, by decide +kernel, by decide +kernel⟩
  have hplan : planned.2 = .ok revisionPlan := by decide +kernel
  have hmeets : Run.Meets (ApplyCalls.step revisingEngine revisionPlan)
      (fun s action => s.clear revisingEngine revisionPlan action = true) (.initial planned.1)
      oneAfterTheOther := by decide +kernel
  exact ⟨hplan, by decide +kernel, (applies_agree hkeyed hplan oneAfterTheOther hmeets).1⟩

/-- The second call has found no report when the first one writes, and then finds the projection
that the first one wrote. -/
theorem applies_conflict :
    let planned := revisingEngine.plan (fun _ => none) importedStore 1 3 ⟨"export", "2"⟩
    let s := Run.run (ApplyCalls.step revisingEngine revisionPlan) (.initial planned.1)
      ([.start 1, .start 2, .advance 2 2, .advance 2 2] ++ List.replicate 8 (.advance 1 2) ++
        [.advance 2 3])
    planned.2 = .ok revisionPlan ∧
      s.results = [(1, .ok revisionPlan.report), (2, .error .conflict)] := by
  decide +kernel

end ChatgptArchive
