import ChatgptArchive.Standing
import ChatgptArchive.Integrity.Emitted
import ChatgptArchive.Integrity.Governed

/-!
# The ledger is what stands of the facts and the tombstones

A fact tells an owner of a subject under an archive, a tombstone retracts the subject for the owner.
In every state the ledger holds what stands of all the notices ever stored, and every tombstone
retracts the archive that stood.
-/

namespace ChatgptArchive

open List AnnouncedSubjectRow

variable {payload : EventPayload}

open Database

structure Told where
  kind : SubjectKind
  subjectId : Uuid
  owner : TenantRef
  deriving DecidableEq, Repr

def AnnouncedSubject.told (s : AnnouncedSubject) : Told := ⟨s.kind, s.subjectId, s.owner⟩

def AnnouncedSubjectRow.told (a : AnnouncedSubjectRow) : Told :=
  ⟨a.subjectKind, a.subjectId, a.ownerRef⟩

def EventPayload.notice : EventPayload → Option (Notice Told Uuid)
  | .tombstoned t => some (.retracted ⟨t.subjectKind, t.subjectId, t.owner⟩ t.aiArchiveId)
  | payload => payload.announces.map fun s => .told s.told s.aiArchiveId

def OutboxEventRow.notice (row : OutboxEventRow) : Option (Notice Told Uuid) :=
  row.envelope.payload.notice

def notices (log : List OutboxEventRow) : List (Notice Told Uuid) :=
  log.filterMap OutboxEventRow.notice

theorem notices_append (log log' : List OutboxEventRow) :
    notices (log ++ log') = notices log ++ notices log' :=
  filterMap_append

theorem EventPayload.notice_told {told : Told} {archive : Uuid} :
    payload.notice = some (.told told archive) ↔
      ∃ s, payload.announces = some s ∧ s.told = told ∧ s.aiArchiveId = archive := by
  cases payload <;> simp [notice, announces]

theorem EventPayload.notice_ne_retracted (htype : payload.eventType ≠ .subjectTombstoned)
    (told : Told) (archive : Uuid) : payload.notice ≠ some (.retracted told archive) := by
  cases payload with
  | tombstoned t => exact absurd rfl htype
  | _ => nofun

structure Chronicle (log : List OutboxEventRow) (ledger : List AnnouncedSubjectRow) : Prop where
  subjects : (ledger.map (·.told)).Nodup
  standing : ∀ told archive, (∃ a ∈ ledger, a.told = told ∧ a.aiArchiveId = archive) ↔
    Notice.standing (notices log) told = some archive
  named : ∀ told archive before after, notices log = before ++ .retracted told archive :: after →
    Notice.standing before told = some archive

namespace Chronicle

variable {log new : List OutboxEventRow} {ledger ledger' : List AnnouncedSubjectRow}

theorem empty : Chronicle [] [] := by
  refine ⟨nodup_nil, fun told archive => ⟨?_, nofun⟩, fun told archive before after h => ?_⟩
  · rintro ⟨a, ha, -⟩
    cases ha
  · exact absurd h.symm (append_ne_nil_of_right_ne_nil _ (cons_ne_nil _ _))

section

variable (h : Chronicle log ledger)
include h

theorem eq_of_told {a b : AnnouncedSubjectRow} (ha : a ∈ ledger)
    (hb : b ∈ ledger) (heq : a.told = b.told) : a = b :=
  inj_on_of_nodup_map h.subjects ha hb heq

theorem silent (hnew : ∀ row ∈ new, row.notice = none) :
    Chronicle (log ++ new) ledger := by
  have hnone : notices new = [] := filterMap_eq_nil_iff.mpr hnew
  refine ⟨h.subjects, ?_, ?_⟩
  · rw [notices_append, hnone, append_nil]
    exact h.standing
  · rw [notices_append, hnone, append_nil]
    exact h.named

theorem named_told {told : Told} {archive : Uuid} (hnew : notices new = [.told told archive]) :
    ∀ k v before after, notices (log ++ new) = before ++ .retracted k v :: after →
      Notice.standing before k = some v := by
  intro k v before after heq
  rw [notices_append, hnew] at heq
  rcases eq_nil_or_concat after with rfl | ⟨after, last, rfl⟩
  · have hlast := (append_inj' heq rfl).2
    cases hlast
  · have hsplit : notices log ++ [.told told archive] =
        (before ++ .retracted k v :: after) ++ [last] := by rw [heq]; simp
    exact h.named k v before after (append_inj' hsplit rfl).1

/-- The first notice of a subject writes its entry, a later one finds it. -/
theorem tell {s : AnnouncedSubject} {accountId : Uuid} {now : Instant}
    (hnew : notices new = [.told s.told s.aiArchiveId]) (hledger : ledger' = Table.insertAbsent
      (fun a => a.subjectKind = s.kind && a.subjectId = s.subjectId && a.ownerRef = s.owner)
      { subjectKind := s.kind, subjectId := s.subjectId, aiArchiveId := s.aiArchiveId
        ownerRef := s.owner, accountId, announcedAt := now } ledger) :
    Chronicle (log ++ new) ledger' := by
  have hmatch : ∀ a : AnnouncedSubjectRow, (a.subjectKind = s.kind && a.subjectId = s.subjectId &&
      a.ownerRef = s.owner : Bool) = true ↔ a.told = s.told := by
    intro a
    simp [told, AnnouncedSubject.told, and_assoc]
  have habsent : (∀ a ∈ ledger, (a.subjectKind = s.kind && a.subjectId = s.subjectId &&
      a.ownerRef = s.owner : Bool) = false) ↔ ∀ a ∈ ledger, a.told ≠ s.told := by
    refine forall₂_congr fun a _ => ?_
    rw [Ne, ← hmatch a, Bool.not_eq_true]
  refine ⟨?_, fun told archive => ?_, h.named_told hnew⟩
  · rw [hledger]
    refine Table.nodup_map_insertAbsent h.subjects fun hnone hmem => ?_
    obtain ⟨a, ha, heq⟩ := mem_map.mp hmem
    exact habsent.mp hnone a ha heq
  · rw [notices_append, hnew]
    simp only [hledger, Table.mem_insertAbsent, habsent]
    by_cases htold : told = s.told
    · subst htold
      rw [Notice.standing_told_self]
      cases hstanding : Notice.standing (notices log) s.told with
      | none =>
        have hnone : ∀ a ∈ ledger, a.told ≠ s.told := by
          intro a ha heq
          have hsome := (h.standing s.told a.aiArchiveId).mp ⟨a, ha, heq, rfl⟩
          rw [hstanding] at hsome
          cases hsome
        constructor
        · rintro ⟨a, ha | ⟨rfl, -⟩, htold, harchive⟩
          · exact absurd htold (hnone a ha)
          · exact congrArg some harchive
        · intro heq
          exact ⟨_, .inr ⟨rfl, hnone⟩, rfl, Option.some.inj heq⟩
      | some value =>
        obtain ⟨b, hb, hbtold, hbarchive⟩ := (h.standing s.told value).mpr hstanding
        constructor
        · rintro ⟨a, ha | ⟨rfl, hnone⟩, htold, harchive⟩
          · rw [h.eq_of_told ha hb (htold.trans hbtold.symm)] at harchive
            exact congrArg some (hbarchive.symm.trans harchive)
          · exact absurd hbtold (hnone b hb)
        · intro heq
          exact ⟨b, .inl hb, hbtold, hbarchive.trans (Option.some.inj heq)⟩
    · have hother : ∀ n ∈ [Notice.told s.told s.aiArchiveId], n.key ≠ told := by
        intro n hn
        rw [mem_singleton.mp hn]
        exact fun heq => htold heq.symm
      rw [Notice.standing_append_other hother, ← h.standing]
      constructor
      · rintro ⟨a, ha | ⟨rfl, -⟩, hrest⟩
        · exact ⟨a, ha, hrest⟩
        · exact absurd hrest.1.symm htold
      · rintro ⟨a, ha, hrest⟩
        exact ⟨a, .inl ha, hrest⟩

end

section Retract

variable (h : Chronicle log ledger) (hsublist : ledger'.Sublist ledger)
  (hretracted : ∀ n ∈ notices new, ∃ a ∈ ledger, a ∉ ledger' ∧ n = .retracted a.told a.aiArchiveId)
  (hdropped : ∀ a ∈ ledger, a ∉ ledger' → ∃ archive, .retracted a.told archive ∈ notices new)
  (hdistinct : ((notices new).map Notice.key).Nodup)

include h hsublist hretracted hdropped in
theorem standing_retract (told : Told) (archive : Uuid) :
    (∃ a ∈ ledger', a.told = told ∧ a.aiArchiveId = archive) ↔
      Notice.standing (notices log ++ notices new) told = some archive := by
  by_cases hnotice : ∃ n ∈ notices new, n.key = told
  · obtain ⟨n, hn, hkey⟩ := hnotice
    obtain ⟨a, ha, hout, rfl⟩ := hretracted n hn
    obtain rfl : a.told = told := hkey
    have hall : ∀ n ∈ notices new, ∃ k w, n = .retracted k w := by
      intro n hn
      obtain ⟨b, -, -, rfl⟩ := hretracted n hn
      exact ⟨_, _, rfl⟩
    rw [Notice.standing_append_retracted hall hn]
    refine ⟨fun ⟨b, hb, htold, _⟩ => ?_, nofun⟩
    exact absurd (h.eq_of_told (hsublist.subset hb) ha htold ▸ hb) hout
  · have hother : ∀ n ∈ notices new, n.key ≠ told := fun n hn heq => hnotice ⟨n, hn, heq⟩
    rw [Notice.standing_append_other hother, ← h.standing]
    refine ⟨fun ⟨a, ha, hrest⟩ => ⟨a, hsublist.subset ha, hrest⟩, fun ⟨a, ha, htold, hrest⟩ => ?_⟩
    by_cases hin : a ∈ ledger'
    · exact ⟨a, hin, htold, hrest⟩
    · obtain ⟨w, hw⟩ := hdropped a ha hin
      exact absurd htold (hother _ hw)

include h hretracted hdistinct in
/-- A new retraction names what stood before the new notices: no other is about its key. -/
theorem named_retract {told : Told} {archive : Uuid} {before after : List (Notice Told Uuid)}
    (hnew : notices new = before ++ .retracted told archive :: after) :
    Notice.standing (notices log ++ before) told = some archive := by
  have hmem : Notice.retracted told archive ∈ notices new := by
    rw [hnew]
    exact mem_append_right _ mem_cons_self
  obtain ⟨a, ha, -, heq⟩ := hretracted _ hmem
  obtain ⟨rfl, rfl⟩ := Notice.retracted.inj heq
  rw [hnew, map_append] at hdistinct
  have hother : ∀ n ∈ before, n.key ≠ a.told := fun n hn =>
    (nodup_append.mp hdistinct).2.2 n.key (mem_map_of_mem hn) _
      (mem_map_of_mem mem_cons_self)
  rw [Notice.standing_append_other hother, ← h.standing]
  exact ⟨a, ha, rfl, rfl⟩

include h hsublist hretracted hdropped hdistinct in
theorem retract : Chronicle (log ++ new) ledger' := by
  refine ⟨h.subjects.sublist (hsublist.map _), fun told archive => ?_,
    fun told archive before after heq => ?_⟩
  · rw [notices_append]
    exact h.standing_retract hsublist hretracted hdropped told archive
  · rw [notices_append] at heq
    rcases append_eq_append_iff.mp heq with ⟨rest, rfl, hnew⟩ | ⟨rest, hlog, hnew⟩
    · exact h.named_retract hretracted hdistinct hnew
    · cases rest with
      | nil =>
        have hstanding : Notice.standing (notices log ++ []) told = some archive :=
          h.named_retract hretracted hdistinct hnew.symm
        rwa [hlog, append_nil, append_nil] at hstanding
      | cons n rest =>
        obtain ⟨rfl, -⟩ := List.cons.inj hnew
        exact h.named told archive before rest hlog

end Retract

/-! ## The steps of a transaction -/

variable {db db' : Database}

theorem deliver (h : Chronicle log db.announcedSubjects) {e : Emission} (hwell : e.WellFormed)
    (htype : e.envelope.payload.eventType ≠ .subjectTombstoned) :
    Chronicle (log ++ db.added (.emit e)) (db.deliver (.emit e)).announcedSubjects := by
  have hnotice : e.envelope.payload.notice =
      e.envelope.payload.announces.map fun s => .told s.told s.aiArchiveId := by
    generalize e.envelope.payload = payload at htype
    cases payload <;> first | rfl | exact absurd rfl htype
  rw [← hwell.announced] at hnotice
  simp only [added, Database.deliver, insertOutboxEvent]
  split
  · exact h.silent fun row hrow => absurd hrow not_mem_nil
  · cases hannounced : e.announced with
    | none =>
      rw [hannounced] at hnotice
      exact h.silent fun row hrow => mem_singleton.mp hrow ▸ hnotice
    | some announced =>
      obtain ⟨subject, accountId⟩ := announced
      rw [hannounced] at hnotice
      exact h.tell (filterMap_cons_some hnotice) rfl

theorem deliverAll (steps : List DeliveryStep) : ∀ {db : Database} {log : List OutboxEventRow},
    Chronicle log db.announcedSubjects → (∀ step ∈ steps, ∃ e, step = .emit e ∧ e.WellFormed ∧
      e.envelope.payload.eventType ≠ .subjectTombstoned) →
    Chronicle (log ++ db.emitted steps) (db.deliverAll steps).announcedSubjects := by
  induction steps with
  | nil =>
    intro db log h _
    rw [emitted, append_nil]
    exact h
  | cons step steps ih =>
    intro db log h hsteps
    obtain ⟨e, rfl, hwell, htype⟩ := hsteps step mem_cons_self
    rw [emitted, ← append_assoc]
    exact ih (h.deliver hwell htype) fun step hstep => hsteps step (mem_cons_of_mem _ hstep)

end Chronicle

/-! ## The tombstones of a row phase -/

def DeliveryStep.For (tenantId : Uuid) : DeliveryStep → Prop
  | .emit e => e.WellFormed ∧ e.tenantId = some tenantId
  | .forget accountId _ _ => accountId = tenantId

namespace Database

variable {db db' : Database} {now : Instant} {evidenceRef : BlobRef}
  {request : PrivacyDeletionRequestRow} {accountId subjectId : Uuid} {kind : SubjectKind}
  {owner : TenantRef × Uuid}

theorem ledger_deliverAll (steps : List DeliveryStep) : ∀ {db : Database},
    (∀ e, .emit e ∈ steps → e.announced = none) →
    (db.deliverAll steps).announcedSubjects.Sublist db.announcedSubjects ∧
      ∀ a, a ∈ (db.deliverAll steps).announcedSubjects ↔ a ∈ db.announcedSubjects ∧
        .forget a.accountId a.subjectKind a.subjectId ∉ steps := by
  induction steps with
  | nil => exact fun _ => ⟨Sublist.refl _, fun a => by simp [deliverAll]⟩
  | cons step steps ih =>
    intro db hsilent
    obtain ⟨hsublist, hmem⟩ := @ih (db.deliver step) fun e he =>
      hsilent e (mem_cons_of_mem _ he)
    cases step with
    | emit e =>
      have hledger : (db.deliver (.emit e)).announcedSubjects = db.announcedSubjects := by
        simp only [deliver, insertOutboxEvent, hsilent e mem_cons_self]
        split <;> rfl
      rw [hledger] at hsublist hmem
      refine ⟨hsublist, fun a => (hmem a).trans ?_⟩
      simp
    | forget accountId kind subjectId =>
      refine ⟨hsublist.trans filter_sublist, fun a => (hmem a).trans ?_⟩
      have hrow : a ∈ (db.deliver (.forget accountId kind subjectId)).announcedSubjects ↔
          a ∈ db.announcedSubjects ∧
            ¬(a.accountId = accountId ∧ a.subjectKind = kind ∧ a.subjectId = subjectId) := by
        rw [deliver, forgetSubject, Table.mem_deleteWhere]
        simp [and_assoc, ← Bool.not_eq_true]
      rw [hrow, mem_cons, DeliveryStep.forget.injEq]
      tauto

theorem forget_mem_retractions :
    .forget accountId kind subjectId ∈ db.retractions now evidenceRef request ↔
      accountId = request.tenantId ∧ (kind, subjectId) ∈ db.tombstoneSubjects request.id := by
  constructor
  · intro h
    rcases mem_append.mp h with h | h
    · obtain ⟨announcement, hmem, h⟩ := mem_flatMap.mp h
      obtain ⟨⟨k, id⟩, hsubject, rfl⟩ := mem_map.mp hmem
      rcases mem_append.mp h with h | h
      · obtain ⟨owner, -, heq⟩ := mem_map.mp h
        cases heq
      · cases mem_singleton.mp h
        exact ⟨rfl, hsubject⟩
    · obtain ⟨user, -, h⟩ := mem_flatMap.mp h
      obtain ⟨chunk, -, heq⟩ := mem_map.mp h
      cases heq
  · rintro ⟨rfl, hsubject⟩
    refine mem_append_left _ (mem_flatMap.mpr ⟨_, mem_map_of_mem hsubject, ?_⟩)
    exact mem_append_right _ (mem_singleton_self _)

theorem tombstone_mem_retractions (hsubject : (kind, subjectId) ∈ db.tombstoneSubjects request.id)
    (howner : owner ∈ db.ownersOf request.tenantId kind subjectId) :
    .emit (tombstoneEmission now request.tenantId request.id evidenceRef kind subjectId owner) ∈
      db.retractions now evidenceRef request := by
  refine mem_append_left _ (mem_flatMap.mpr ⟨_, mem_map_of_mem hsubject, ?_⟩)
  exact mem_append_left _ (mem_map_of_mem howner)

theorem mem_ownersOf :
    owner ∈ db.ownersOf accountId kind subjectId ↔ ∃ a ∈ db.announcedSubjects,
      a.accountId = accountId ∧ a.told = ⟨kind, subjectId, owner.1⟩ ∧ a.aiArchiveId = owner.2 := by
  obtain ⟨user, archive⟩ := owner
  simp [ownersOf, told, and_assoc]

theorem tombstone_notice (tenantId requestId : Uuid) (kind : SubjectKind) (subjectId : Uuid)
    (owner : TenantRef × Uuid) (id : Nat) :
    ((tombstoneEmission now tenantId requestId evidenceRef kind subjectId owner).row id).notice =
      some (.retracted ⟨kind, subjectId, owner.1⟩ owner.2) := rfl

/-- The only rows of a row phase that carry a notice before the repairs are its tombstones. -/
theorem notice_retraction {row : OutboxEventRow} {start : Database}
    (hrow : row ∈ start.emitted (db.retractions now evidenceRef request))
    {n : Notice Told Uuid} (hn : row.notice = some n) :
    ∃ kind subjectId, (kind, subjectId) ∈ db.tombstoneSubjects request.id ∧
      ∃ owner ∈ db.ownersOf request.tenantId kind subjectId,
        n = .retracted ⟨kind, subjectId, owner.1⟩ owner.2 ∧
        row.deduplicationKey = some (.privacyDelete request.id kind subjectId owner.1) ∧
        row.envelope.tenantId = some owner.1 := by
  obtain ⟨e, he, heq, -⟩ := mem_emitted _ hrow
  rw [heq] at hn ⊢
  rcases mem_retractions he with ⟨kind, subjectId, hsubject, owner, howner, rfl⟩ |
    ⟨owner, chunk, rfl⟩
  · rw [tombstone_notice] at hn
    exact ⟨kind, subjectId, hsubject, owner, howner, (Option.some.inj hn).symm, rfl, rfl⟩
  · cases hn

/-- Retractions are rows of the request's tenant, and they end its announcements alone. -/
theorem retractions_for :
    ∀ step ∈ db.retractions now evidenceRef request, step.For request.tenantId := by
  intro step hstep
  cases step with
  | forget accountId kind subjectId => exact (forget_mem_retractions.mp hstep).1
  | emit e =>
    refine ⟨(retraction_wellFormed hstep).1, ?_⟩
    rcases mem_retractions hstep with ⟨kind, subjectId, -, owner, -, rfl⟩ | ⟨owner, chunk, rfl⟩
    · rfl
    · rfl

theorem RepairStep.for {requestId tenantId : Uuid} {survivors : Survivors}
    {step : DeliveryStep} (h : db.RepairStep now requestId tenantId survivors step) :
    step.For tenantId := by
  cases h with
  | repair _ hannounces _ _ _ _ => exact ⟨emission_wellFormed hannounces _ _, rfl⟩

end Database

namespace Chronicle

variable {log : List OutboxEventRow} {db : Database} {now : Instant} {evidenceRef : BlobRef}
  {request : PrivacyDeletionRequestRow}

/-- The retractions of a row phase: every entry that goes, with the account too, has its
tombstone. -/
theorem retractions (h : Chronicle log db.announcedSubjects) {start : Database}
    (hsublist : start.announcedSubjects.Sublist db.announcedSubjects)
    (hledger : ∀ a ∈ db.announcedSubjects, a ∉ start.announcedSubjects →
      a.accountId = request.tenantId ∧
        (a.subjectKind, a.subjectId) ∈ db.tombstoneSubjects request.id)
    (hfree : ∀ key, key.request = some request.id → start.hasDeduplicationKey key = false) :
    Chronicle (log ++ start.emitted (db.retractions now evidenceRef request))
      (start.deliverAll (db.retractions now evidenceRef request)).announcedSubjects := by
  have hsilent : ∀ e, .emit e ∈ db.retractions now evidenceRef request → e.announced = none := by
    intro e he
    rcases mem_retractions he with ⟨kind, subjectId, -, owner, -, rfl⟩ | ⟨owner, chunk, rfl⟩ <;> rfl
  obtain ⟨hsub, hmem⟩ := @ledger_deliverAll _ start hsilent
  -- the entries that go are those whose subject the request retracts
  have hdropped : ∀ a ∈ db.announcedSubjects,
      a ∉ (start.deliverAll (db.retractions now evidenceRef request)).announcedSubjects ↔
        a.accountId = request.tenantId ∧
          (a.subjectKind, a.subjectId) ∈ db.tombstoneSubjects request.id := by
    intro a ha
    rw [hmem, forget_mem_retractions]
    constructor
    · intro hout
      by_cases hstart : a ∈ start.announcedSubjects
      · by_contra hnot
        exact hout ⟨hstart, hnot⟩
      · exact hledger a ha hstart
    · rintro hin ⟨-, hout⟩
      exact hout hin
  refine h.retract (hsub.trans hsublist) (fun n hn => ?_) (fun a ha hout => ?_) ?_
  · obtain ⟨row, hrow, hnotice⟩ := mem_filterMap.mp hn
    obtain ⟨kind, subjectId, hsubject, owner, howner, rfl, -⟩ := notice_retraction hrow hnotice
    obtain ⟨a, ha, haccount, htold, harchive⟩ := mem_ownersOf.mp howner
    refine ⟨a, ha, (hdropped a ha).mpr ⟨haccount, ?_⟩, by rw [htold, harchive]⟩
    obtain ⟨rfl, rfl, -⟩ := Told.mk.inj htold
    exact hsubject
  · obtain ⟨haccount, hsubject⟩ := (hdropped a ha).mp hout
    have howner : (a.ownerRef, a.aiArchiveId) ∈
        db.ownersOf request.tenantId a.subjectKind a.subjectId :=
      mem_ownersOf.mpr ⟨a, ha, haccount, rfl, rfl⟩
    obtain ⟨row, hrow, hkey⟩ := exists_emitted (tombstone_mem_retractions hsubject howner)
      (hfree _ rfl)
    obtain ⟨e, he, heq, -⟩ := mem_emitted _ hrow
    rw [heq] at hkey
    rcases mem_retractions he with ⟨kind, subjectId, -, owner, -, rfl⟩ | ⟨owner, chunk, rfl⟩
    · injection Option.some.inj hkey with _ hkind hid howner
      refine ⟨owner.2, mem_filterMap.mpr ⟨row, hrow, ?_⟩⟩
      rw [heq, tombstone_notice, hkind, hid, howner]
      rfl
    · cases hkey
  · refine pairwise_map.mpr (List.Pairwise.filterMap _ ?_
      (List.Pairwise.and_mem.mp (start.emitted_keys _)))
    rintro row row' ⟨hrow, hrow', hne⟩ n hn n' hn' heq
    obtain ⟨kind, subjectId, -, owner, -, rfl, hkey, -⟩ := notice_retraction hrow hn
    obtain ⟨kind', subjectId', -, owner', -, rfl, hkey', -⟩ := notice_retraction hrow' hn'
    obtain ⟨rfl, rfl, howner⟩ := Told.mk.inj heq
    exact hne (by rw [hkey, hkey', howner])

end Chronicle

end ChatgptArchive
