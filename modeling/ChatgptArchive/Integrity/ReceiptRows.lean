import ChatgptArchive.Receiver

/-!
# What the statements of a receipt do

Every statement of the receipt seam keeps the ledger of runs and exports in order, adds to what is
recorded of exports, owners and operations, and moves at most one run.
-/

namespace ChatgptArchive

open List Table

namespace Database

variable {db db' : Database}

structure Ledger (db : Database) : Prop where
  runIds : (db.importRuns.map (·.id)).Nodup
  runFresh : ∀ r ∈ db.importRuns, r.id < db.nextUuid
  accountFresh : ∀ a ∈ db.accounts, a.id < db.nextUuid
  exportAccount : ∀ e ∈ db.exports, e.accountId < db.nextUuid
  exportIds : (db.exports.map (·.id)).Nodup
  exportFresh : ∀ e ∈ db.exports, e.id < db.nextUuid
  contents : ∀ e ∈ db.exports, ∀ e' ∈ db.exports, e.accountId = e'.accountId →
    e.sha256Hex = e'.sha256Hex → e = e'
  pending : ∀ r ∈ db.importRuns, r.state = .received ∨ r.state = .hashed → r.exportId = none
  hashed : ∀ r ∈ db.importRuns, r.state = .hashed →
    ∃ d l, r.sha256Hex = some d ∧ r.byteLength = some l
  ownedFresh : ∀ r ∈ db.importRuns, ∀ e, r.exportId = some e → e < db.nextUuid
  owner : ∀ r ∈ db.importRuns, ∀ r' ∈ db.importRuns, ∀ e, r.exportId = some e →
    r'.exportId = some e → r = r'
  operationIds : (db.platformOperationImports.map (·.operationId)).Nodup

theorem Ledger.empty : Ledger Database.empty := by
  constructor <;> first
    | exact nodup_nil
    | exact fun _ h => absurd h not_mem_nil

theorem loadRun_eq_some (h : Ledger db) {runId : Uuid} {r : ImportRunRow} :
    db.loadRun runId = some r ↔ r ∈ db.importRuns ∧ r.id = runId := by
  constructor
  · intro hload
    exact ⟨mem_of_find?_eq_some hload, by simpa using find?_some hload⟩
  · rintro ⟨hr, hid⟩
    cases hload : db.loadRun runId with
    | none =>
      rw [loadRun, find?_eq_none] at hload
      exact absurd (decide_eq_true hid) (hload r hr)
    | some r' =>
      have hid' : r'.id = runId := by simpa using find?_some hload
      rw [inj_on_of_nodup_map h.runIds (mem_of_find?_eq_some hload) hr
        (hid'.trans hid.symm)]

/-! ## What stays recorded -/

def ExportOf (db : Database) (tenant sha256Hex : String) (exportId : Uuid) : Prop :=
  ∃ e ∈ db.exports, e.id = exportId ∧ e.sha256Hex = sha256Hex ∧
    ∃ a ∈ db.accounts, a.id = e.accountId ∧ a.externalRef = tenant

def Owns (db : Database) (runId exportId : Uuid) : Prop :=
  ∃ r, db.loadRun runId = some r ∧ r.exportId = some exportId

def BoundTo (db : Database) (operationId exportId : Uuid) : Prop :=
  ∃ p ∈ db.platformOperationImports, p.operationId = operationId ∧ p.exportId = exportId ∧
    db.Owns p.importRunId exportId

/-- Nothing recorded of exports, their owners and the bound operations is lost. -/
structure Retains (db db' : Database) : Prop where
  accounts : db.accounts ⊆ db'.accounts
  exports : db.exports ⊆ db'.exports
  bindings : db.platformOperationImports ⊆ db'.platformOperationImports
  owns : ∀ {runId exportId}, db.Owns runId exportId → db'.Owns runId exportId

theorem Retains.refl (db : Database) : Retains db db :=
  ⟨fun _ h => h, fun _ h => h, fun _ h => h, fun h => h⟩

theorem Retains.trans {db'' : Database} (h : Retains db db') (h' : Retains db' db'') :
    Retains db db'' :=
  ⟨fun _ ha => h'.accounts (h.accounts ha), fun _ he => h'.exports (h.exports he),
    fun _ hp => h'.bindings (h.bindings hp), fun ho => h'.owns (h.owns ho)⟩

theorem Retains.exportOf (h : Retains db db') {tenant sha256Hex : String} {exportId : Uuid}
    (hexport : db.ExportOf tenant sha256Hex exportId) : db'.ExportOf tenant sha256Hex exportId := by
  obtain ⟨e, he, hid, hdigest, a, ha, hrest⟩ := hexport
  exact ⟨e, h.exports he, hid, hdigest, a, h.accounts ha, hrest⟩

theorem Retains.boundTo (h : Retains db db') {operationId exportId : Uuid}
    (hbound : db.BoundTo operationId exportId) : db'.BoundTo operationId exportId := by
  obtain ⟨p, hp, hop, hexport, howns⟩ := hbound
  exact ⟨p, h.bindings hp, hop, hexport, h.owns howns⟩

/-! ## Statements that move one run -/

structure Moves (r r' : ImportRunRow) (db db' : Database) : Prop where
  before : db.loadRun r.id = some r
  after : db'.loadRun r.id = some r'
  others : ∀ {id}, id ≠ r.id → db'.loadRun id = db.loadRun id

theorem Moves.owns {r r' : ImportRunRow} (h : Moves r r' db db')
    (hexport : ∀ e, r.exportId = some e → r'.exportId = some e) {runId exportId : Uuid}
    (howns : db.Owns runId exportId) : db'.Owns runId exportId := by
  obtain ⟨q, hload, hq⟩ := howns
  by_cases hid : runId = r.id
  · rw [hid, h.before] at hload
    cases hload
    exact ⟨r', hid ▸ h.after, hexport _ hq⟩
  · exact ⟨q, (h.others hid).trans hload, hq⟩

theorem loadRun_updateRun (h : Ledger db) {r : ImportRunRow} (hr : r ∈ db.importRuns)
    {f : ImportRunRow → ImportRunRow} (hid : ∀ r, (f r).id = r.id)
    (hruns : db'.importRuns = Table.updateWhere
      (fun q => q.id = r.id && q.state = r.state) f db.importRuns) :
    Moves r (f r) db db' := by
  have hload : ∀ id, db'.loadRun id =
      (db.loadRun id).map fun q => if q.id = r.id && q.state = r.state then f q else q := by
    intro id
    rw [loadRun, hruns, Table.find?_updateWhere fun q => by rw [hid]]
    rfl
  have hbefore := (loadRun_eq_some h).mpr ⟨hr, rfl⟩
  refine ⟨hbefore, by simp [hload, hbefore], fun {id} hne => ?_⟩
  rw [hload]
  cases hq : db.loadRun id with
  | none => rfl
  | some q =>
    have hqid := ((loadRun_eq_some h).mp hq).2
    simp [hqid, hne]

theorem guardedRunUpdate_eq_ok (h : Ledger db) {runId : Uuid} {expected : ImportState}
    {f : ImportRunRow → ImportRunRow}
    (hok : db.guardedRunUpdate runId expected f = .ok db') (hid : ∀ r, (f r).id = r.id) :
    ∃ r ∈ db.importRuns, r.id = runId ∧ r.state = expected ∧ Moves r (f r) db db' ∧
      db' = { db with
        importRuns := Table.updateWhere (fun q => q.id = r.id && q.state = r.state) f
          db.importRuns } := by
  unfold guardedRunUpdate at hok
  dsimp only at hok
  split at hok
  · rename_i hany
    cases hok
    obtain ⟨r, hr, hguard⟩ := any_eq_true.mp hany
    simp only [Bool.and_eq_true, decide_eq_true_eq] at hguard
    obtain ⟨rfl, rfl⟩ := hguard
    exact ⟨r, hr, rfl, rfl, loadRun_updateRun h hr hid rfl, rfl⟩
  · cases hok

/-- An update of a run that keeps its export keeps the ledger, when the run's new state agrees with
its columns. -/
theorem Ledger.updateRun (h : Ledger db) {p : ImportRunRow → Bool}
    {f : ImportRunRow → ImportRunRow} (hid : ∀ r, (f r).id = r.id)
    (hexport : ∀ r, (f r).exportId = r.exportId) (hpending : ∀ r ∈ db.importRuns, p r = true →
      (f r).state = .received ∨ (f r).state = .hashed → r.exportId = none)
    (hhashed : ∀ r ∈ db.importRuns, p r = true → (f r).state = .hashed →
      ∃ d l, (f r).sha256Hex = some d ∧ (f r).byteLength = some l) :
    Ledger { db with importRuns := Table.updateWhere p f db.importRuns } where
  runIds := nodup_map_updateWhere h.runIds hid
  runFresh r hr := by
    rcases mem_updateWhere.mp hr with ⟨hr, -⟩ | ⟨q, hq, -, rfl⟩
    · exact h.runFresh r hr
    · rw [hid]
      exact h.runFresh q hq
  accountFresh := h.accountFresh
  exportAccount := h.exportAccount
  exportIds := h.exportIds
  exportFresh := h.exportFresh
  contents := h.contents
  pending r hr hstate := by
    rcases mem_updateWhere.mp hr with ⟨hr, -⟩ | ⟨q, hq, hp, rfl⟩
    · exact h.pending r hr hstate
    · rw [hexport]
      exact hpending q hq hp hstate
  hashed r hr hstate := by
    rcases mem_updateWhere.mp hr with ⟨hr, -⟩ | ⟨q, hq, hp, rfl⟩
    · exact h.hashed r hr hstate
    · exact hhashed q hq hp hstate
  ownedFresh r hr e he := by
    rcases mem_updateWhere.mp hr with ⟨hr, -⟩ | ⟨q, hq, -, rfl⟩
    · exact h.ownedFresh r hr e he
    · exact h.ownedFresh q hq e (hexport q ▸ he)
  owner r hr r' hr' e he he' := by
    obtain ⟨q, hq, rfl⟩ := mem_map.mp hr
    obtain ⟨q', hq', rfl⟩ := mem_map.mp hr'
    have hkept : ∀ q, (if p q = true then f q else q).exportId = q.exportId := by
      intro q
      split
      · exact hexport q
      · rfl
    rw [hkept] at he he'
    rw [h.owner q hq q' hq' e he he']
  operationIds := h.operationIds

section Statements

variable (h : Ledger db) {now : Instant} {runId exportId : Uuid} {sha256Hex : String}
  {r : ImportRunRow} {request : PublishRequest}
include h

theorem createRun_ledger (now : Instant) (accountRef : String) (mode : AcquisitionMode)
    (mediaType : String) : Ledger (db.createRun now accountRef mode mediaType).2 := by
  have hmem : ∀ {P : ImportRunRow → Prop}, (∀ r ∈ db.importRuns, P r) →
      P ⟨db.nextUuid, none, accountRef, mode, mediaType, none, none, none, .received, none, none,
        now, none⟩ →
      ∀ r ∈ (db.createRun now accountRef mode mediaType).2.importRuns, P r := by
    intro P hold hnew r hr
    rcases mem_inserted.mp hr with hr | rfl
    · exact hold r hr
    · exact hnew
  constructor
  case runIds =>
    show ((db.importRuns ++ [_]).map ImportRunRow.id).Nodup
    rw [map_append]
    refine h.runIds.append (nodup_singleton _) (disjoint_singleton.mpr fun hin => ?_)
    obtain ⟨r, hr, hid⟩ := mem_map.mp hin
    exact absurd hid (Nat.ne_of_lt (h.runFresh r hr))
  case runFresh =>
    exact hmem (fun r hr => Nat.lt_succ_of_lt (h.runFresh r hr)) (Nat.lt_succ_self _)
  case accountFresh => exact fun a ha => Nat.lt_succ_of_lt (h.accountFresh a ha)
  case exportAccount => exact fun e he => Nat.lt_succ_of_lt (h.exportAccount e he)
  case exportIds => exact h.exportIds
  case exportFresh => exact fun e he => Nat.lt_succ_of_lt (h.exportFresh e he)
  case contents => exact h.contents
  case pending => exact hmem h.pending fun _ => rfl
  case hashed => exact hmem h.hashed nofun
  case ownedFresh =>
    exact hmem (fun r hr e he => Nat.lt_succ_of_lt (h.ownedFresh r hr e he)) nofun
  case owner =>
    refine hmem (fun r hr => hmem (h.owner r hr) fun _ _ he => ?_) fun _ _ _ he => ?_ <;> cases he
  case operationIds => exact h.operationIds

omit h in
theorem createRun_loadRun (now : Instant) (accountRef : String) (mode : AcquisitionMode)
    (mediaType : String) {runId : Uuid} (hne : runId ≠ db.nextUuid) :
    (db.createRun now accountRef mode mediaType).2.loadRun runId = db.loadRun runId := by
  show (db.importRuns ++ [_]).find? _ = db.importRuns.find? _
  rw [find?_append, find?_singleton, if_neg (by simpa using hne.symm), Option.or_none]

theorem createRun_new (now : Instant) (accountRef : String) (mode : AcquisitionMode)
    (mediaType : String) :
    db.loadRun db.nextUuid = none ∧
      ∃ r, (db.createRun now accountRef mode mediaType).2.loadRun db.nextUuid = some r ∧
        r.accountRef = accountRef ∧ r.state = .received ∧ r.sha256Hex = none ∧
        r.exportId = none := by
  have hnone : db.loadRun db.nextUuid = none := by
    rw [loadRun, find?_eq_none]
    intro r hr hid
    exact absurd (of_decide_eq_true hid) (Nat.ne_of_lt (h.runFresh r hr))
  refine ⟨hnone, ⟨db.nextUuid, none, accountRef, mode, mediaType, none, none, none, .received,
    none, none, now, none⟩, ?_, rfl, rfl, rfl, rfl⟩
  show (db.importRuns ++ [_]).find? _ = _
  rw [loadRun] at hnone
  rw [find?_append, hnone, find?_singleton]
  simp

theorem createRun_retains (now : Instant) (accountRef : String) (mode : AcquisitionMode)
    (mediaType : String) : Retains db (db.createRun now accountRef mode mediaType).2 where
  accounts _ ha := ha
  exports _ he := he
  bindings _ hp := hp
  owns := by
    rintro runId exportId ⟨r, hload, he⟩
    have hr := (loadRun_eq_some h).mp hload
    have hne : runId ≠ db.nextUuid := hr.2 ▸ Nat.ne_of_lt (h.runFresh r hr.1)
    exact ⟨r, (createRun_loadRun now accountRef mode mediaType hne).trans hload, he⟩

theorem recordHash_eq_ok {byteLength : Nat}
    (hok : db.recordHash runId sha256Hex byteLength = .ok db') :
    Ledger db' ∧ Retains db db' ∧ db'.exports = db.exports ∧
      ∃ r, r.id = runId ∧ r.state = .received ∧ Moves r { r with
        state := .hashed, sha256Hex := some sha256Hex, byteLength := some byteLength } db db' := by
  obtain ⟨r, -, rfl, hstate, hmoves, rfl⟩ := guardedRunUpdate_eq_ok h hok fun _ => rfl
  refine ⟨h.updateRun (fun _ => rfl) (fun _ => rfl) ?_ fun _ _ _ _ => ⟨_, _, rfl, rfl⟩,
    ⟨fun _ ha => ha, fun _ he => he, fun _ hp => hp, hmoves.owns fun _ he => he⟩, rfl,
    r, rfl, hstate, hmoves⟩
  intro q hq hp _
  simp only [Bool.and_eq_true, decide_eq_true_eq] at hp
  exact h.pending q hq (.inl (hp.2.trans hstate))

/-- A run is marked from the expected state: failed from any, a duplicate from `hashed` alone. -/
theorem markRun_eq_ok {expected target : ImportState}
    (hok : db.markRun now runId expected target = .ok db') :
    (target = .failed ∨ expected = .hashed ∧ target = .duplicate) ∧ Ledger db' ∧ Retains db db' ∧
      db'.exports = db.exports ∧ ∃ r, r.id = runId ∧ r.state = expected ∧
        Moves r { r with state := target, finishedAt := some now } db db' := by
  unfold markRun at hok
  split at hok
  · rename_i htarget
    obtain ⟨r, -, rfl, hstate, hmoves, rfl⟩ := guardedRunUpdate_eq_ok h hok fun _ => rfl
    have hterminal : target ≠ .received ∧ target ≠ .hashed := by
      rcases htarget with rfl | ⟨-, rfl⟩ <;> decide
    refine ⟨htarget, h.updateRun (fun _ => rfl) (fun _ => rfl) ?_ ?_,
      ⟨fun _ ha => ha, fun _ he => he, fun _ hp => hp, hmoves.owns fun _ he => he⟩, rfl,
      r, rfl, hstate, hmoves⟩
    · exact fun _ _ _ hcase => absurd hcase (not_or.mpr hterminal)
    · exact fun _ _ _ hcase => absurd hcase hterminal.2
  · cases hok

omit h in
omit h in
theorem bindOperation_retains (operationId importRunId exportId : Uuid) :
    Retains db (db.bindOperation operationId importRunId exportId) :=
  ⟨fun _ ha => ha, fun _ he => he, fun _ hp => mem_insertAbsent.mpr (.inl hp), fun ho => ho⟩

theorem bindOperation_ledger (operationId importRunId exportId : Uuid) :
    Ledger (db.bindOperation operationId importRunId exportId) := by
  refine { h with operationIds := nodup_map_insertAbsent h.operationIds fun hnone hin => ?_ }
  obtain ⟨p, hp, hop⟩ := mem_map.mp hin
  exact absurd (decide_eq_true hop) (by simpa using hnone p hp)

omit h in
theorem bindOperation_boundTo {operationId importRunId : Uuid}
    (howns : db.Owns importRunId exportId) (hfirst : db.isBound operationId = false) :
    (db.bindOperation operationId importRunId exportId).BoundTo operationId exportId := by
  refine ⟨_, mem_insertAbsent.mpr (.inr ⟨rfl, fun p hp => ?_⟩), rfl, rfl, howns⟩
  simp only [isBound, any_eq_false] at hfirst
  simpa using hfirst p hp

theorem owningRun_owns (hr : db.owningRun exportId = some r) : db.Owns r.id exportId := by
  have hmem := mem_of_mem_head? (Option.mem_def.mpr hr)
  rw [mem_insertionSort, mem_filter, decide_eq_true_eq] at hmem
  exact ⟨r, (loadRun_eq_some h).mpr ⟨hmem.1, rfl⟩, hmem.2⟩

omit h in
theorem findExportByDigest_exportOf {tenant : String}
    (hfind : db.findExportByDigest tenant sha256Hex = some exportId) :
    db.ExportOf tenant sha256Hex exportId := by
  obtain ⟨e, hfound, rfl⟩ := Option.map_eq_some_iff.mp hfind
  have hmem := mem_of_find?_eq_some hfound
  have hspec := find?_some hfound
  simp only [Bool.and_eq_true, decide_eq_true_eq, any_eq_true] at hspec
  obtain ⟨hdigest, a, ha, hid, href⟩ := hspec
  exact ⟨e, hmem, rfl, hdigest, a, ha, hid, href⟩

/-! ## Publishing an export -/

theorem upsertAccount_ledger (externalRef : String) : Ledger (db.upsertAccount externalRef).2 :=
  { h with
    runFresh := fun r hr => Nat.lt_succ_of_lt (h.runFresh r hr)
    accountFresh := fun a ha => by
      rcases mem_upsert ha with ⟨ha, -⟩ | ⟨r, hr, -, rfl⟩ | ⟨rfl, -⟩
      · exact Nat.lt_succ_of_lt (h.accountFresh a ha)
      · exact Nat.lt_succ_of_lt (h.accountFresh _ hr)
      · exact Nat.lt_succ_self _
    exportAccount := fun e he => Nat.lt_succ_of_lt (h.exportAccount e he)
    exportFresh := fun e he => Nat.lt_succ_of_lt (h.exportFresh e he)
    ownedFresh := fun r hr e he => Nat.lt_succ_of_lt (h.ownedFresh r hr e he) }

omit h in
theorem upsertAccount_row (externalRef : String) :
    (db.upsertAccount externalRef).1 ∈ (db.upsertAccount externalRef).2.accounts ∧
      (db.upsertAccount externalRef).1.externalRef = externalRef := by
  refine ⟨upsert_fst_mem, upsert_fst
    (P := fun a : AccountRow => a.externalRef = externalRef) ?_ ?_⟩
  · exact fun a _ hp => by simpa using hp
  · exact fun _ => rfl

omit h in
theorem upsertAccount_retains (externalRef : String) :
    Retains db (db.upsertAccount externalRef).2 where
  accounts _ ha := (mem_upsert_of_mem _ _ (fun a => a) ha).elim id id
  exports _ he := he
  bindings _ hp := hp
  owns ho := ho

theorem insertExport_ledger (now : Instant) {accountId : Uuid} {request : PublishRequest}
    (haccount : accountId < db.nextUuid)
    (hnew : ∀ e ∈ db.exports, ¬(e.accountId = accountId ∧ e.sha256Hex = request.sha256Hex)) :
    Ledger (db.insertExport now accountId request).2 := by
  have hlt : ∀ {n}, n < db.nextUuid → n < db.nextUuid + 1 + 1 := fun hn =>
    Nat.lt_succ_of_lt (Nat.lt_succ_of_lt hn)
  refine { h with
    runFresh := fun r hr => hlt (h.runFresh r hr)
    accountFresh := fun a ha => hlt (h.accountFresh a ha)
    exportAccount := fun e he => ?_
    exportIds := ?_
    exportFresh := fun e he => ?_
    contents := fun e he e' he' ha hd => ?_
    ownedFresh := fun r hr e he => hlt (h.ownedFresh r hr e he) }
  · rcases mem_inserted.mp he with he | rfl
    · exact hlt (h.exportAccount e he)
    · exact hlt haccount
  · show ((db.exports ++ [_]).map ExportRow.id).Nodup
    rw [map_append]
    refine h.exportIds.append (nodup_singleton _) (disjoint_singleton.mpr fun hin => ?_)
    obtain ⟨e, he, hid⟩ := mem_map.mp hin
    exact absurd hid (Nat.ne_of_lt (h.exportFresh e he))
  · rcases mem_inserted.mp he with he | rfl
    · exact hlt (h.exportFresh e he)
    · exact Nat.lt_succ_of_lt (Nat.lt_succ_self _)
  · rcases mem_append.mp he with he | he <;> rcases mem_append.mp he' with he' | he'
    · exact h.contents e he e' he' ha hd
    · rw [mem_singleton.mp he'] at ha hd
      exact absurd ⟨ha, hd⟩ (hnew e he)
    · rw [mem_singleton.mp he] at ha hd
      exact absurd ⟨ha.symm, hd.symm⟩ (hnew e' he')
    · rw [mem_singleton.mp he, mem_singleton.mp he']

theorem Ledger.storeRun (hr : r ∈ db.importRuns) {exportId : Uuid} (hfresh : exportId < db.nextUuid)
    (hunowned : ∀ q ∈ db.importRuns, q.exportId ≠ some exportId) :
    Ledger { db with
      importRuns := Table.updateWhere (fun q => q.id = r.id && q.state = r.state)
        (fun q => { q with state := .stored, exportId := some exportId }) db.importRuns } := by
  have hrow : ∀ {q}, q ∈ db.importRuns → (q.id = r.id && q.state = r.state) = true → q = r := by
    intro q hq hp
    simp only [Bool.and_eq_true, decide_eq_true_eq] at hp
    exact inj_on_of_nodup_map h.runIds hq hr hp.1
  refine { h with
    runIds := nodup_map_updateWhere h.runIds fun _ => rfl
    runFresh := fun q hq => ?_
    pending := fun q hq hstate => ?_
    hashed := fun q hq hstate => ?_
    ownedFresh := fun q hq e he => ?_
    owner := fun q hq q' hq' e he he' => ?_ }
  · rcases mem_updateWhere.mp hq with ⟨hq, -⟩ | ⟨q', hq', -, rfl⟩
    · exact h.runFresh q hq
    · exact h.runFresh q' hq'
  · rcases mem_updateWhere.mp hq with ⟨hq, -⟩ | ⟨q, -, -, rfl⟩
    · exact h.pending q hq hstate
    · rcases hstate with hstate | hstate <;> cases hstate
  · rcases mem_updateWhere.mp hq with ⟨hq, -⟩ | ⟨q, -, -, rfl⟩
    · exact h.hashed q hq hstate
    · cases hstate
  · rcases mem_updateWhere.mp hq with ⟨hq, -⟩ | ⟨q, -, -, rfl⟩
    · exact h.ownedFresh q hq e he
    · cases he
      exact hfresh
  · rcases mem_updateWhere.mp hq with ⟨hold, -⟩ | ⟨p, hold, hp, rfl⟩ <;>
      rcases mem_updateWhere.mp hq' with ⟨hold', -⟩ | ⟨p', hold', hp', rfl⟩
    · exact h.owner q hold q' hold' e he he'
    · cases he'
      exact absurd he (hunowned q hold)
    · cases he
      exact absurd he' (hunowned q' hold')
    · rw [hrow hold hp, hrow hold' hp']

theorem storeExport_eq_ok {account : AccountRow} (haccount : account ∈ db.accounts)
    (href : account.externalRef = request.accountExternalRef)
    (hnew : ∀ e ∈ db.exports, ¬(e.accountId = account.id ∧ e.sha256Hex = request.sha256Hex))
    (hok : (db.insertExport now account.id request).2.guardedRunUpdate request.runId .hashed
      (fun r => { r with
        state := .stored, exportId := some (db.insertExport now account.id request).1 }) =
      .ok db') :
    Ledger db' ∧ Retains db db' ∧ db'.platformOperationImports = db.platformOperationImports ∧
      ∃ r e, r.id = request.runId ∧ r.state = .hashed ∧
        Moves r { r with state := .stored, exportId := some e.id } db db' ∧
        db'.exports = db.exports ++ [e] ∧ e.id = (db.insertExport now account.id request).1 ∧
        e.blobRef = request.blobRef ∧ e.sha256Hex = request.sha256Hex ∧
        e.byteLength = request.byteLength ∧
        db'.ExportOf request.accountExternalRef request.sha256Hex e.id := by
  have hinserted := insertExport_ledger h now (h.accountFresh account haccount) hnew
  have hunowned : ∀ q ∈ db.importRuns, q.exportId ≠ some db.nextUuid := by
    intro q hq he
    exact absurd (h.ownedFresh q hq _ he) (Nat.lt_irrefl _)
  obtain ⟨r, hr, hid, hstate, ⟨hbefore, hafter, hothers⟩, rfl⟩ :=
    guardedRunUpdate_eq_ok hinserted hok fun _ => rfl
  have hpending : r.exportId = none := h.pending r hr (.inr hstate)
  refine ⟨hinserted.storeRun hr (Nat.lt_succ_of_lt (Nat.lt_succ_self _)) hunowned,
    ⟨fun _ ha => ha, fun _ he => mem_append_left _ he, fun _ hp => hp, ?_⟩, rfl,
    r, _, hid, hstate, ⟨hbefore, hafter, hothers⟩, rfl, rfl, rfl, rfl, rfl,
    _, mem_append_right _ (mem_singleton_self _), rfl, rfl, account, haccount, rfl, href⟩
  refine Moves.owns ⟨hbefore, hafter, hothers⟩ fun e he => ?_
  rw [hpending] at he
  cases he

/-- A publication adds one export, stores its run under it and binds the operation to it. -/
theorem publishExport_eq_ok (hok : db.publishExport now request = .ok db') :
    Ledger db' ∧ Retains db db' ∧ ∃ r e, r.id = request.runId ∧ r.state = .hashed ∧
      Moves r { r with state := .stored, exportId := some e.id } db db' ∧
      db'.exports = db.exports ++ [e] ∧ e.blobRef = request.blobRef ∧
      e.sha256Hex = request.sha256Hex ∧ e.byteLength = request.byteLength ∧
      db'.ExportOf request.accountExternalRef request.sha256Hex e.id ∧
      ∀ operationId, request.platformOperation = some operationId →
        db.isBound operationId = false → db'.BoundTo operationId e.id := by
  have hledger := upsertAccount_ledger h request.accountExternalRef
  have hretains := db.upsertAccount_retains request.accountExternalRef
  obtain ⟨haccount, href⟩ := db.upsertAccount_row request.accountExternalRef
  have hload : ∀ id, (db.upsertAccount request.accountExternalRef).2.loadRun id = db.loadRun id :=
    fun _ => rfl
  have hbindings : (db.upsertAccount request.accountExternalRef).2.platformOperationImports =
      db.platformOperationImports := rfl
  have hexports : (db.upsertAccount request.accountExternalRef).2.exports = db.exports := rfl
  unfold publishExport at hok
  generalize db.upsertAccount request.accountExternalRef = upserted at *
  obtain ⟨account, db₁⟩ := upserted
  dsimp only at hledger hretains haccount href hload hbindings hexports hok
  split at hok
  · cases hok
  · rename_i hnone
    have hnew : ∀ e ∈ db₁.exports,
        ¬(e.accountId = account.id ∧ e.sha256Hex = request.sha256Hex) := by
      intro e he hkey
      have hfind := find?_eq_none.mp hnone e he
      simp [hkey] at hfind
    split at hok
    · cases hok
    · rename_i db₂ hupdate
      obtain ⟨hstored, hgrown, hkept, r, e, hid, hstate, ⟨hbefore, hafter, hothers⟩, hexports₂, hnewId,
        hblob, hdigest, hlength, hexport⟩ := storeExport_eq_ok hledger haccount href hnew hupdate
      have hmoves : Moves r { r with state := .stored, exportId := some e.id } db db₂ :=
        ⟨(hload r.id).symm.trans hbefore, hafter, fun hne => (hothers hne).trans (hload _)⟩
      rw [hexports] at hexports₂
      split at hok
      · rename_i operationId hoperation
        cases hok
        have hbind := db₂.bindOperation_retains operationId request.runId
          (db₁.insertExport now account.id request).1
        refine ⟨bindOperation_ledger hstored .., (hretains.trans hgrown).trans hbind, r, e, hid,
          hstate, ⟨hmoves.before, hmoves.after, hmoves.others⟩, hexports₂, hblob, hdigest, hlength,
          hbind.exportOf hexport, fun operationId' hop hfirst => ?_⟩
        rw [hop] at hoperation
        cases hoperation
        rw [← hnewId]
        refine bindOperation_boundTo ⟨_, hid ▸ hmoves.after, rfl⟩ ?_
        rw [isBound, hkept, hbindings]
        exact hfirst
      · rename_i hoperation
        cases hok
        refine ⟨hstored, hretains.trans hgrown, r, e, hid, hstate, hmoves, hexports₂, hblob, hdigest,
          hlength, hexport, fun operationId hop => ?_⟩
        rw [hop] at hoperation
        cases hoperation

/-- A publication that is refused as a duplicate names the account's export of the content. -/
theorem publishExport_duplicate {existing : Uuid}
    (hrefused : db.publishExport now request = .error (.duplicateExisting existing)) :
    db.ExportOf request.accountExternalRef request.sha256Hex existing := by
  have hexports : (db.upsertAccount request.accountExternalRef).2.exports = db.exports := rfl
  have hcases := upsert_cases (fun a => decide (a.externalRef = request.accountExternalRef))
    { id := db.nextUuid, externalRef := request.accountExternalRef } (fun a : AccountRow => a)
    db.accounts
  have haccount : (db.upsertAccount request.accountExternalRef).1 ∈ db.accounts ∧
      (db.upsertAccount request.accountExternalRef).1.externalRef = request.accountExternalRef ∨
      (db.upsertAccount request.accountExternalRef).1.id = db.nextUuid := by
    rcases hcases with ⟨a, ha, hp, heq⟩ | ⟨-, heq⟩
    · left
      rw [upsertAccount, freshUuid]
      dsimp only
      rw [heq]
      exact ⟨ha, of_decide_eq_true hp⟩
    · right
      rw [upsertAccount, freshUuid]
      dsimp only
      rw [heq]
  unfold publishExport at hrefused
  generalize db.upsertAccount request.accountExternalRef = upserted at *
  obtain ⟨account, db₁⟩ := upserted
  dsimp only at hexports haccount hrefused
  split at hrefused
  · rename_i e hfind
    cases hrefused
    have hmem : e ∈ db.exports := hexports ▸ mem_of_find?_eq_some hfind
    have hkey := find?_some hfind
    simp only [Bool.and_eq_true, decide_eq_true_eq] at hkey
    rcases haccount with ⟨ha, href⟩ | hnew
    · exact ⟨e, hmem, rfl, hkey.2, account, ha, hkey.1.symm, href⟩
    · exact absurd (hkey.1.trans hnew) (Nat.ne_of_lt (h.exportAccount e hmem))
  · split at hrefused
    · rename_i error hupdate
      cases hrefused
      unfold guardedRunUpdate at hupdate
      dsimp only at hupdate
      split at hupdate <;> cases hupdate
    · split at hrefused <;> cases hrefused

end Statements

end Database

end ChatgptArchive
