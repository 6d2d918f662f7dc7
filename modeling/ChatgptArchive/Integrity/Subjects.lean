import ChatgptArchive.Integrity.Chronicle

/-!
# Announced subjects exist

In every state each entry of the ledger names a row that is still stored. A row phase removes a
subject's row together with its entries, and takes an account only when no row of it stays.
-/

namespace ChatgptArchive

open Database List Table

namespace Database

variable {db db' : Database} {t id : Uuid} {kind : SubjectKind} {tenantId : Uuid}
  {a : AnnouncedSubjectRow} {e : Emission}

def OwnsSubject (db : Database) (t : Uuid) : SubjectKind → Uuid → Prop
  | .archive, id => ∃ e ∈ db.exports, e.accountId = t ∧ e.aiArchiveId = id
  | .conversation, id => db.OwnsConversation t id
  | .project, id => db.OwnsProject t id

section

variable (h : db.OwnsSubject t kind id)
include h

theorem OwnsSubject.congr (heq : db'.held = db.held) :
    db'.OwnsSubject t kind id := by
  have hexports : db'.exports = db.exports := held_frame heq fun _ => rfl
  have hconversations : db'.conversations = db.conversations := held_frame heq fun _ => rfl
  have hprojects : db'.projects = db.projects := held_frame heq fun _ => rfl
  cases kind with
  | archive =>
    obtain ⟨e, he, hrest⟩ := h
    exact ⟨e, hexports ▸ he, hrest⟩
  | conversation => exact (congrArg (_ ∈ List.map _ ·) hconversations).mpr h
  | project => exact (congrArg (_ ∈ List.map _ ·) hprojects).mpr h

theorem OwnsSubject.recordStep {w : Option Uuid} (hstep : RecordStep w db db') :
    db'.OwnsSubject t kind id := by
  cases hstep with
  | same heq => exact h.congr heq
  | skip heq =>
    have hskipped : { db with nextUuid := db.nextUuid + 1 }.OwnsSubject t kind id := h
    exact hskipped.congr heq
  | insertExport now accountId request =>
    cases kind with
    | archive =>
      obtain ⟨e, he, hrest⟩ := h
      exact ⟨e, mem_append_left _ he, hrest⟩
    | conversation => exact h
    | project => exact h
  | write hrow _ hwrite =>
    cases kind with
    | archive =>
      obtain ⟨e, he, hrest⟩ := h
      exact ⟨e, hwrite.grows.exports.symm ▸ he, hrest⟩
    | conversation => exact hwrite.ownsConversation h
    | project => exact hwrite.ownsProject h
  | createRun | updateRuns | insertArtifact => cases kind <;> exact h

theorem OwnsSubject.restoreStep (hstep : RestoreStep tenantId db db') :
    db'.OwnsSubject t kind id := by
  cases kind with
  | archive =>
    obtain ⟨e, he, hrest⟩ := h
    have hexports : db'.exports = db.exports := unwritten_frame hstep.unwritten fun _ => rfl
    exact ⟨e, hexports ▸ he, hrest⟩
  | conversation => exact hstep.ownsConversation h
  | project => exact hstep.ownsProject h

theorem OwnsSubject.account (hconsistent : db.Consistent) :
    t ∈ db.ids .accounts := by
  cases kind with
  | archive =>
    obtain ⟨e, he, rfl, -⟩ := h
    exact hconsistent .exports ⟨.exports, e.id, .accounts, e.accountId⟩
      (mem_flatMap.mpr ⟨e, he, by simp [ExportRow.references]⟩)
  | conversation =>
    obtain ⟨c, hc, heq⟩ := mem_map.mp h
    cases heq
    exact hconsistent .conversations ⟨.conversations, c.id, .accounts, c.accountId⟩
      (mem_flatMap.mpr ⟨c, hc, by simp [ConversationRow.references]⟩)
  | project =>
    obtain ⟨p, hp, heq⟩ := mem_map.mp h
    cases heq
    exact hconsistent .projects ⟨.projects, p.id, .accounts, p.accountId⟩
      (mem_flatMap.mpr ⟨p, hp, by simp [ProjectRow.references]⟩)

end

section Cleared

variable {request : PrivacyDeletionRequestRow} {g : Registry}

theorem cleared_conversations (db : Database) (request : PrivacyDeletionRequestRow) :
    (db.cleared request).conversations.map (fun c => (c.id, c.accountId)) =
      (Table.deleteWhere (fun c => (db.removedIds request.id .conversation).contains c.id)
        db.conversations).map fun c => (c.id, c.accountId) := by
  unfold cleared rowsRemoved
  dsimp only
  split <;>
  · refine (map_updateWhere ?_ _).trans (map_updateWhere ?_ _)
    · exact fun _ => rfl
    · exact fun _ => rfl

theorem cleared_projects (db : Database) (request : PrivacyDeletionRequestRow) :
    (db.cleared request).projects.map (fun p => (p.id, p.accountId)) =
      (Table.deleteWhere (fun p => (db.removedIds request.id .project).contains p.id)
        db.projects).map fun p => (p.id, p.accountId) := by
  unfold cleared rowsRemoved
  dsimp only
  split <;>
  · refine map_updateWhere ?_ _
    exact fun _ => rfl

theorem cleared_exports (db : Database) (request : PrivacyDeletionRequestRow) :
    (db.cleared request).exports =
      Table.deleteWhere (fun e => (db.removedIds request.id .export).contains e.id) db.exports := by
  unfold cleared rowsRemoved
  dsimp only
  split <;> rfl

/-- A removal spares the subjects it does not tombstone. -/
theorem OwnsSubject.cleared (h : db.OwnsSubject t kind id) (howned : Owned g db)
    (hscoped : Scoped g db request)
    (hnot : ¬(t = request.tenantId ∧ (kind, id) ∈ db.tombstoneSubjects request.id)) :
    (db.cleared request).OwnsSubject t kind id := by
  cases kind with
  | archive =>
    obtain ⟨e, he, rfl, rfl⟩ := h
    refine ⟨e, ?_, rfl, rfl⟩
    rw [cleared_exports, mem_deleteWhere]
    refine ⟨he, Bool.eq_false_iff.mpr fun hmem => hnot ?_⟩
    have hremoved := contains_iff_mem.mp hmem
    exact ⟨(howned.ofExport he).2.symm.trans (hscoped.removed .export rfl _ hremoved).2,
      hscoped.archives e he hremoved⟩
  | conversation =>
    rw [OwnsSubject, OwnsConversation, cleared_conversations]
    obtain ⟨c, hc, heq⟩ := mem_map.mp h
    refine mem_map.mpr ⟨c, mem_deleteWhere.mpr ⟨hc, ?_⟩, heq⟩
    cases heq
    refine Bool.eq_false_iff.mpr fun hmem => hnot ?_
    have hremoved := contains_iff_mem.mp hmem
    exact ⟨(howned.conversation h).1.2.symm.trans
      (hscoped.removed .conversation rfl _ hremoved).2, hscoped.conversations _ hremoved⟩
  | project =>
    rw [OwnsSubject, OwnsProject, cleared_projects]
    obtain ⟨p, hp, heq⟩ := mem_map.mp h
    refine mem_map.mpr ⟨p, mem_deleteWhere.mpr ⟨hp, ?_⟩, heq⟩
    cases heq
    refine Bool.eq_false_iff.mpr fun hmem => hnot ?_
    have hremoved := contains_iff_mem.mp hmem
    exact ⟨(howned.project h).1.2.symm.trans
      (hscoped.removed .project rfl _ hremoved).2, hscoped.projects _ hremoved⟩

/-- When the account goes, every subject it has a row for is retracted: a row that stayed would
name no account. -/
theorem OwnsSubject.retracted (h : db.OwnsSubject request.tenantId kind id) (howned : Owned g db)
    (hscoped : Scoped g db request) (hconsistent : (db.cleared request).Consistent)
    (haccount : (db.removedIds request.id .account).isEmpty = false) :
    (kind, id) ∈ db.tombstoneSubjects request.id := by
  by_contra hnot
  have hstays := (h.cleared howned hscoped fun h => hnot h.2).account hconsistent
  have haccounts : (db.cleared request).accounts =
      Table.deleteWhere (fun a => a.id = request.tenantId) db.accounts := by
    unfold Database.cleared rowsRemoved
    dsimp only
    rw [if_neg (by simp [haccount])]
    rfl
  obtain ⟨a, ha, hid⟩ := mem_map.mp hstays
  rw [haccounts, mem_deleteWhere] at ha
  simp [hid] at ha

end Cleared

/-! ## The entries after a transaction -/

theorem mem_ledger_deliver {step : DeliveryStep} (ha : a ∈ (db.deliver step).announcedSubjects) :
    a ∈ db.announcedSubjects ∨
      ∃ e s accountId, step = .emit e ∧ e.announced = some (s, accountId) ∧ a.told = s.told := by
  cases step with
  | forget accountId kind subjectId => exact .inl (mem_deleteWhere.mp ha).1
  | emit e =>
    simp only [deliver, insertOutboxEvent] at ha
    split at ha
    · exact .inl ha
    · cases hannounced : e.announced with
      | none =>
        rw [hannounced] at ha
        exact .inl ha
      | some announced =>
        rw [hannounced] at ha
        rcases mem_insertAbsent.mp ha with ha | ⟨rfl, -⟩
        · exact .inl ha
        · exact .inr ⟨e, announced.1, announced.2, rfl, hannounced, rfl⟩

theorem mem_ledger_deliverAll (steps : List DeliveryStep) :
    ∀ {db : Database}, a ∈ (db.deliverAll steps).announcedSubjects → a ∈ db.announcedSubjects ∨
      ∃ e s accountId, .emit e ∈ steps ∧ e.announced = some (s, accountId) ∧ a.told = s.told := by
  induction steps with
  | nil => exact fun h => .inl h
  | cons step steps ih =>
    intro db h
    rcases ih h with h | ⟨e, s, accountId, he, hrest⟩
    · refine (mem_ledger_deliver h).imp_right ?_
      rintro ⟨e, s, accountId, rfl, hrest⟩
      exact ⟨e, s, accountId, mem_cons_self, hrest⟩
    · exact .inr ⟨e, s, accountId, mem_cons_of_mem _ he, hrest⟩

def HasSubject (db : Database) (told : Told) : Prop :=
  ∃ t, db.OwnsSubject t told.kind told.subjectId

theorem ImportStep.hasSubject {origin : Option (Uuid × Instant)}
    (hstep : db.ImportStep origin (.emit e)) {s : AnnouncedSubject} {accountId : Uuid}
    (hannounced : e.announced = some (s, accountId)) : db.HasSubject s.told := by
  cases hstep with
  | @fact row hrow event subject hannounces harchive hpresents now horigin hat digest =>
    have hsome : (event.announced.map fun subject => (subject, row.accountId)) =
      some (s, accountId) := hannounced
    rw [hannounces.announced] at hsome
    cases hsome
    obtain ⟨kind, subjectId, archiveId, owner⟩ := s
    cases hpresents with
    | archive => exact ⟨row.accountId, row, hrow, rfl, rfl⟩
    | conversation hmem _ => exact ⟨_, Owned.ownsConversation_of_mem hmem⟩
    | project hmem _ => exact ⟨_, Owned.ownsProject_of_mem hmem⟩
  | report hrow now report => cases hannounced

theorem RepairStep.hasSubject {now : Instant} {requestId : Uuid} {survivors : Survivors}
    (hstep : db.RepairStep now requestId tenantId survivors (.emit e)) {s : AnnouncedSubject}
    {accountId : Uuid} (hannounced : e.announced = some (s, accountId)) : db.HasSubject s.told := by
  cases hstep with
  | @repair row hrow event subject hannounces harchive hsurvives hobserved ordinal hat =>
    have hsome : (event.announced.map fun subject => (subject, tenantId)) =
      some (s, accountId) := hannounced
    rw [hannounces.announced] at hsome
    cases hsome
    obtain ⟨kind, subjectId, archiveId, owner⟩ := s
    cases hsurvives with
    | conversation hmem _ => exact ⟨_, Owned.ownsConversation_of_mem hmem⟩
    | project hmem _ => exact ⟨_, Owned.ownsProject_of_mem hmem⟩

theorem HasSubject.owns {g : Registry} (howned : Owned g db)
    (haddressed : Addressed g db.nextUuid db) {a : AnnouncedSubjectRow}
    (ha : a ∈ db.announcedSubjects) (h : db.HasSubject a.told) :
    db.OwnsSubject a.accountId a.subjectKind a.subjectId := by
  obtain ⟨t, h⟩ := h
  have howner : (Tie.owned a.subjectId a.accountId).Holds g db.nextUuid :=
    haddressed.ledger a ha _ mem_cons_self
  obtain ⟨kind, subjectId, archiveId, owner, accountId, announcedAt⟩ := a
  suffices t = accountId from this ▸ h
  cases kind with
  | archive =>
    obtain ⟨e, he, rfl, rfl⟩ := h
    have hties := howned.exports e he _ (mem_cons_of_mem _ mem_cons_self)
    exact hties.2.symm.trans howner.2
  | conversation => exact (howned.conversation h).1.2.symm.trans howner.2
  | project => exact (howned.project h).1.2.symm.trans howner.2

end Database

/-! ## Every step -/

def Announced (db : Database) : Prop := ∀ a ∈ db.announcedSubjects, db.HasSubject a.told

namespace Governed

variable {g : Registry} {db db' : Database}

theorem rowPhase_announced (h : Governed g db) (hannounced : Announced db) {now : Instant}
    {evidenceRef : BlobRef} {request : PrivacyDeletionRequestRow}
    (hphase : db.RowPhase now evidenceRef request db') : Announced db' := by
  intro a ha
  obtain ⟨repairs, hrepairs, heq⟩ := hphase.delivers
  have hledger : db'.announcedSubjects = _ := deliveries_frame heq fun _ => rfl
  rw [hledger, deliverAll_append] at ha
  rcases mem_ledger_deliverAll repairs ha with ha | ⟨e, s, accountId, he, hsome, htold⟩
  · have hsilent : ∀ e, .emit e ∈ db.retractions now evidenceRef request →
        e.announced = none := by
      intro e he
      rcases mem_retractions he with ⟨kind, subjectId, -, owner, -, rfl⟩ | ⟨owner, chunk, rfl⟩ <;>
        rfl
    -- an entry that stays is none of the retracted subjects
    obtain ⟨hstart, hkept⟩ := ((ledger_deliverAll _ hsilent).2 a).mp ha
    rw [forget_mem_retractions] at hkept
    have hold : a ∈ db.announcedSubjects := by
      unfold remaining withoutDropped at hstart
      dsimp only at hstart
      split at hstart
      · exact hstart
      · exact (mem_deleteWhere.mp hstart).1
    have howns := (hannounced a hold).owns h.owned h.addressed hold
    have hscoped := h.scopes request (mem_of_find?_eq_some hphase.planned.1) hphase.planned.2
    obtain ⟨restored, -, hrestored, -, hcore⟩ := hphase.rows
    have hrestores := restoreRetainedVersions_restores (h.owned.cleared request) hrestored
    have hcleared := howns.cleared h.owned hscoped hkept
    have hafter := hrestores.preserves (P := fun db => db.OwnsSubject _ _ _) hcleared
      fun hstep howns => howns.restoreStep hstep
    exact ⟨_, hafter.congr (core_frame hcore fun _ => rfl)⟩
  · rw [htold]
    exact (hrepairs _ he).hasSubject hsome

theorem commits_announced (h : Governed g db) (hannounced : Announced db)
    (hcommits : db.Commits db') : Announced db' := by
  cases hcommits with
  | same => exact hannounced
  | work hdelivers _ hrecords =>
    intro a ha
    obtain ⟨steps, hsteps, heq⟩ := hdelivers
    have hledger : db'.announcedSubjects = _ := deliveries_frame heq fun _ => rfl
    rw [hledger] at ha
    rcases mem_ledger_deliverAll steps ha with ha | ⟨e, s, accountId, he, hsome, htold⟩
    · obtain ⟨t, howns⟩ := hannounced a ha
      exact ⟨t, hrecords.preserves (P := fun db => db.OwnsSubject t _ _) howns
        fun hstep howns => howns.recordStep hstep⟩
    · rw [htold]
      exact (hsteps _ he).hasSubject hsome
  | plan _ _ =>
    intro a ha
    obtain ⟨t, howns⟩ := hannounced a ha
    exact ⟨t, howns.congr rfl⟩
  | removeRows hphase => exact h.rowPhase_announced hannounced hphase
  | @complete requestId _ =>
    intro a ha
    have hledger : (db.complete requestId).announcedSubjects = db.announcedSubjects :=
      deliveries_frame (complete_deliveries db requestId) fun _ => rfl
    obtain ⟨t, howns⟩ := hannounced a (hledger ▸ ha)
    refine ⟨t, ?_⟩
    unfold Database.complete
    split
    · exact howns
    · split
      · exact howns
      · exact OwnsSubject.recordStep (w := none) howns (.skip rfl)

end Governed

end ChatgptArchive
