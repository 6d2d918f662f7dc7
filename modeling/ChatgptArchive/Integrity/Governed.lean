import ChatgptArchive.Integrity.Scopes
import ChatgptArchive.Integrity.UndeliveredRetractions

/-!
# Every run keeps to the tenants

The registry covers the records, the outbox and the ledger of every reachable state, and every
planned request stays in the scope of its tenant, whatever commits before its row phase.
-/

namespace ChatgptArchive

open Database List AnnouncedSubjectRow

/-! ## The ties of the outbox and the ledger -/

def boundTies (exportId tenantId : Option Uuid) : List Tie :=
  exportId.toList.flatMap fun e => tenantId.toList.map (.owned e)

def OutboxEventRow.ties (row : OutboxEventRow) : List Tie := boundTies row.exportId row.tenantId

def SubjectKind.entityKind : SubjectKind → Option EntityKind
  | .archive => none
  | .conversation => some .conversation
  | .project => some .project

/-- An announced subject and the archive it was announced under belong to the account. -/
def announcedTies (kind : SubjectKind) (subjectId aiArchiveId accountId : Uuid) : List Tie :=
  .owned subjectId accountId :: .owned aiArchiveId accountId ::
    kind.entityKind.toList.map (.isKind subjectId)

def AnnouncedSubjectRow.ties (a : AnnouncedSubjectRow) : List Tie :=
  announcedTies a.subjectKind a.subjectId a.aiArchiveId a.accountId

def Emission.ties (e : Emission) : List Tie :=
  boundTies e.exportId e.tenantId ++ e.announced.toList.flatMap fun announced =>
    announcedTies announced.1.kind announced.1.subjectId announced.1.aiArchiveId announced.2

theorem mem_boundTies {exportId tenantId : Option Uuid} {tie : Tie} :
    tie ∈ boundTies exportId tenantId ↔
      ∃ e t, exportId = some e ∧ tenantId = some t ∧ tie = .owned e t := by
  cases exportId <;> cases tenantId <;> simp [boundTies]

namespace Database

variable {db db' : Database} {g : Registry} {next : Uuid}

structure Addressed (g : Registry) (next : Uuid) (db : Database) : Prop where
  outbox : Tied OutboxEventRow.ties g next db.outboxEvents
  ledger : Tied ties g next db.announcedSubjects

namespace Addressed

theorem congr (h : Addressed g next db) (heq : db'.deliveries = db.deliveries) :
    Addressed g next db' := by
  have hrows : db'.outboxEvents = db.outboxEvents := deliveries_frame heq fun _ => rfl
  have hledger : db'.announcedSubjects = db.announcedSubjects := deliveries_frame heq fun _ => rfl
  exact ⟨hrows ▸ h.outbox, hledger ▸ h.ledger⟩

theorem mono (h : Addressed g next db) {g' : Registry} {next' : Uuid}
    (hextends : Extends g next g' next') : Addressed g' next' db :=
  ⟨h.outbox.mono hextends.agrees hextends.next_le, h.ledger.mono hextends.agrees hextends.next_le⟩

theorem deliver (h : Addressed g next db) {step : DeliveryStep}
    (hstep : ∀ e, step = .emit e → ∀ tie ∈ e.ties, tie.Holds g next) :
    Addressed g next (db.deliver step) := by
  cases step with
  | forget accountId kind subjectId => exact ⟨h.outbox, h.ledger.deleteWhere _⟩
  | emit e =>
    have hties := hstep e rfl
    constructor
    · intro row hrow tie htie
      rcases mem_deliver hrow with hrow | ⟨_, heq, rfl, -⟩
      · exact h.outbox row hrow tie htie
      · cases heq
        exact hties tie (mem_append_left _ htie)
    · have hannounce : ∀ db' : Database, db'.announcedSubjects = db.announcedSubjects →
          Tied ties g next
            (db'.announce e.now e.announced).announcedSubjects := by
        intro db' hledger
        have hbefore : Tied ties g next db'.announcedSubjects :=
          hledger ▸ h.ledger
        cases hannounced : e.announced with
        | none => exact hbefore
        | some announced =>
          refine hbefore.insertAbsent fun tie htie => hties tie (mem_append_right _ ?_)
          rw [hannounced]
          exact mem_flatMap.mpr ⟨announced, mem_singleton_self _, htie⟩
      simp only [Database.deliver, insertOutboxEvent]
      split
      · exact h.ledger
      · exact hannounce _ rfl

theorem deliverAll (steps : List DeliveryStep) : ∀ {db : Database}, Addressed g next db →
    (∀ e, .emit e ∈ steps → ∀ tie ∈ e.ties, tie.Holds g next) →
    Addressed g next (db.deliverAll steps) := by
  induction steps with
  | nil => exact fun h _ => h
  | cons step steps ih =>
    intro db h hsteps
    refine ih (h.deliver fun e he => hsteps e (he ▸ mem_cons_self)) fun e he => ?_
    exact hsteps e (mem_cons_of_mem _ he)

theorem withoutDropped (h : Addressed g next db) (outbox : List Nat) (exports accounts : List Uuid)
    (tenantId : Uuid) : Addressed g next (db.withoutDropped outbox exports accounts tenantId) := by
  refine ⟨h.outbox.deleteWhere _, ?_⟩
  unfold Database.withoutDropped
  dsimp only
  split
  · exact h.ledger
  · exact h.ledger.deleteWhere _

end Addressed

/-! ## What the transactions emit -/

/-- A subject that an export of the tenant observes, announced under the export's archive. -/
theorem announced_holds (h : Owned g db) {row : ExportRow} (hrow : row ∈ db.exports)
    {kind : SubjectKind} {subjectId : Uuid}
    (hsubject : (Tie.owned subjectId row.accountId).Holds g db.nextUuid)
    (hkind : ∀ k, kind.entityKind = some k → (Tie.isKind subjectId k).Holds g db.nextUuid) :
    ∀ tie ∈ announcedTies kind subjectId row.aiArchiveId row.accountId,
      tie.Holds g db.nextUuid := by
  intro tie htie
  rcases mem_cons.mp htie with rfl | htie
  · exact hsubject
  rcases mem_cons.mp htie with rfl | htie
  · exact h.exports row hrow _ (mem_cons_of_mem _ mem_cons_self)
  · obtain ⟨k, hk, rfl⟩ := mem_map.mp htie
    exact hkind k (Option.mem_toList.mp hk)

theorem emission_holds {event : NormalizedArchiveEvent} {subject : AnnouncedSubject}
    (hannounces : event.Announces subject) {tenantId exportId : Uuid} {key : DeduplicationKey}
    {now : Instant} (hexport : (Tie.owned exportId tenantId).Holds g next)
    (hsubject : ∀ tie ∈ announcedTies subject.kind subject.subjectId subject.aiArchiveId tenantId,
      tie.Holds g next) :
    ∀ tie ∈ (emission now event
      { accountId := tenantId, exportId := some exportId, deduplicationKey := key }).ties,
      tie.Holds g next := by
  intro tie htie
  rcases mem_append.mp htie with htie | htie
  · obtain ⟨e, t, he, ht, rfl⟩ := mem_boundTies.mp htie
    cases he
    cases ht
    exact hexport
  · obtain ⟨announced, hmem, htie⟩ := mem_flatMap.mp htie
    have hmem : announced ∈ (event.announced.map fun subject => (subject, tenantId)).toList := hmem
    rw [hannounces.announced] at hmem
    obtain rfl := mem_singleton.mp hmem
    exact hsubject tie htie

theorem ImportStep.holds (h : Owned g db) {origin : Option (Uuid × Instant)} {e : Emission}
    (hstep : db.ImportStep origin (.emit e)) : ∀ tie ∈ e.ties, tie.Holds g db.nextUuid := by
  cases hstep with
  | @fact row hrow event subject hannounces harchive hpresents now horigin hat digest =>
    have hexport := h.ofExport hrow
    refine emission_holds hannounces hexport ?_
    obtain ⟨kind, subjectId, archiveId, owner⟩ := subject
    obtain rfl : archiveId = row.aiArchiveId := harchive
    have hobserved : ∀ {kind : EntityKind} {id : Uuid}, db.Observes row.id kind id →
        (Tie.owned id row.accountId).Holds g db.nextUuid ∧
          (Tie.isKind id kind).Holds g db.nextUuid := by
      intro kind id ho
      obtain ⟨hsame, hkind⟩ := h.observed ho
      exact ⟨⟨hsame.1, hsame.2.2.trans hexport.2⟩, hkind⟩
    cases hpresents with
    | archive =>
      refine announced_holds h hrow ?_ fun k hk => by cases hk
      exact h.exports row hrow _ (mem_cons_of_mem _ mem_cons_self)
    | conversation _ ho =>
      obtain ⟨hid, hkind⟩ := hobserved ho
      refine announced_holds h hrow hid fun k hk => ?_
      cases hk
      exact hkind
    | project _ ho =>
      obtain ⟨hid, hkind⟩ := hobserved ho
      refine announced_holds h hrow hid fun k hk => ?_
      cases hk
      exact hkind
  | report hrow now report =>
    intro tie htie
    rw [Emission.ties, reportEmission, Option.toList_none, flatMap_nil, append_nil] at htie
    obtain ⟨e, t, he, ht, rfl⟩ := mem_boundTies.mp htie
    cases he
    cases ht
    exact h.ofExport hrow

theorem unbound_holds {e : Emission} (hexport : e.exportId = none) (hannounced : e.announced = none) :
    ∀ tie ∈ e.ties, tie.Holds g next := by
  intro tie htie
  rw [Emission.ties, hexport, hannounced] at htie
  exact absurd htie not_mem_nil

theorem Survives.retained {requestId : Uuid} {kind : SubjectKind} {id : Uuid}
    (h : db'.Survives (db.findSurvivors requestId) kind id) :
    ∃ category, (category = .project ∨ category = .conversation) ∧
      id ∈ db.itemIds requestId category .retainEvidenced := by
  cases h with
  | conversation _ hid => exact ⟨.conversation, .inr rfl, mem_of_mem_filter hid⟩
  | project _ hid => exact ⟨.project, .inl rfl, mem_of_mem_filter hid⟩

theorem Survives.isKind (h : Owned g db) {survivors : Survivors} {kind : SubjectKind} {id : Uuid}
    (hs : db.Survives survivors kind id) :
    ∀ k, kind.entityKind = some k → (Tie.isKind id k).Holds g db.nextUuid := by
  intro k hk
  cases hs with
  | conversation hrow _ =>
    cases hk
    exact (h.conversation (Owned.ownsConversation_of_mem hrow)).2
  | project hrow _ =>
    cases hk
    exact (h.project (Owned.ownsProject_of_mem hrow)).2

/-- A repair announces a record of the request's tenant under one of the tenant's exports. -/
theorem RepairStep.holds (h : Owned g db') {now : Instant} {request : PrivacyDeletionRequestRow}
    {e : Emission} (hscoped : ∀ category, category = .project ∨ category = .conversation →
      ∀ id ∈ db.itemIds request.id category .retainEvidenced,
        (Tie.owned id request.tenantId).Holds g db'.nextUuid)
    (hstep : db'.RepairStep now request.id request.tenantId (db.findSurvivors request.id)
      (.emit e)) : ∀ tie ∈ e.ties, tie.Holds g db'.nextUuid := by
  cases hstep with
  | @repair row hrow event subject hannounces harchive hsurvives hobserved ordinal hat =>
    obtain ⟨category, hcategory, hid⟩ := hsurvives.retained
    have hsubject := hscoped category hcategory _ hid
    obtain ⟨kind, ho⟩ := hobserved
    have hsame := (h.observed ho).1
    have hexport := h.ofExport hrow
    have haccount : row.accountId = request.tenantId :=
      hexport.2.symm.trans (hsame.2.2.symm.trans hsubject.2)
    refine emission_holds hannounces (haccount ▸ hexport) ?_
    rw [harchive, ← haccount]
    exact announced_holds h hrow (haccount ▸ hsubject) (hsurvives.isKind h)

end Database

/-! ## Transactions -/

namespace Owned

variable {g : Registry} {db db' : Database}

theorem rowPhase_evolves (h : Owned g db) {now : Instant} {evidenceRef : BlobRef}
    {request : PrivacyDeletionRequestRow} (hphase : db.RowPhase now evidenceRef request db') :
    Evolves db db' := by
  obtain ⟨g', hextends, -⟩ := h.rowPhase hphase
  have hexports := hphase.frame (f := (·.exports)) (fun _ => rfl) fun _ => rfl
  have hruns := hphase.frame (f := (·.importRuns)) (fun _ => rfl) fun _ => rfl
  refine .of_subset hextends.next_le (hexports ▸ ?_) (hruns ▸ ?_)
  · unfold Database.cleared rowsRemoved
    dsimp only
    split <;> exact fun _ he => (Table.mem_deleteWhere.mp he).1
  · unfold Database.cleared rowsRemoved
    dsimp only
    split <;> exact fun _ he => (Table.mem_deleteWhere.mp he).1

theorem complete_evolves (db : Database) (requestId : Uuid) :
    Evolves db (db.complete requestId) := by
  unfold Database.complete
  split
  · exact .of_held rfl
  · split
    · exact .of_held rfl
    · exact .of_subset (Nat.le_succ _) (List.Subset.refl _) (List.Subset.refl _)

theorem commits_evolves (h : Owned g db) (hcommits : db.Commits db') : Evolves db db' := by
  cases hcommits with
  | same => exact .of_held rfl
  | work _ _ hrecords => exact h.records_evolves hrecords
  | plan _ _ => exact .of_held rfl
  | removeRows hphase => exact h.rowPhase_evolves hphase
  | complete _ => exact complete_evolves db _

end Owned

/-- The registry covers every row, and the planned requests keep to their tenants. -/
structure Governed (g : Registry) (db : Database) : Prop extends Ordered db where
  owned : Owned g db
  scopes : ∀ r ∈ db.privacyDeletionRequests, r.status = .planned → Scoped g db r
  addressed : Addressed g db.nextUuid db

namespace Governed

variable {g : Registry} {db db' : Database}

theorem empty (g : Registry) : Governed g Database.empty :=
  ⟨.empty, .empty g, fun _ hr => absurd hr not_mem_nil,
    fun _ hr => absurd hr not_mem_nil, fun _ hr => absurd hr not_mem_nil⟩

variable (h : Governed g db)
include h

theorem fresh_items {requestId : Uuid} (hnew : ∀ r ∈ db.privacyDeletionRequests, r.id ≠ requestId) :
    ∀ i ∈ db.privacyDeletionItems, i.requestId ≠ requestId := by
  intro i hi heq
  obtain ⟨r, hr, hid⟩ := mem_map.mp (h.itemRequests i hi)
  exact hnew r hr (hid.trans heq)

theorem addressed_commits (hcommits : db.Commits db') {g' : Registry}
    (hextends : Extends g db.nextUuid g' db'.nextUuid) (howned : Owned g' db') :
    Addressed g' db'.nextUuid db' := by
  have hbefore := h.addressed.mono hextends
  cases hcommits with
  | same => exact hbefore
  | work hdelivers _ _ =>
    obtain ⟨steps, hsteps, heq⟩ := hdelivers
    exact (hbefore.deliverAll steps fun e he => (hsteps _ he).holds howned).congr heq
  | plan _ _ => exact hbefore.congr rfl
  | @removeRows now evidenceRef request db' hphase =>
    obtain ⟨repairs, hrepairs, heq⟩ := hphase.delivers
    refine (Addressed.deliverAll _ (hbefore.withoutDropped _ _ _ _) fun e he => ?_).congr heq
    rcases mem_append.mp he with he | he
    · rcases mem_retractions he with ⟨kind, subjectId, -, owner, -, rfl⟩ | ⟨owner, chunk, rfl⟩
      · exact unbound_holds rfl rfl
      · exact unbound_holds rfl rfl
    · have hscoped := h.scopes request (mem_of_find?_eq_some hphase.planned.1) hphase.planned.2
      refine RepairStep.holds howned (fun category hcategory id hid => ?_) (hrepairs _ he)
      exact hextends.holds (hscoped.retained category hcategory id hid)
  | complete _ => exact hbefore.congr (complete_deliveries db _)

theorem commits (hcommits : db.Commits db') :
    ∃ g', Extends g db.nextUuid g' db'.nextUuid ∧ Governed g' db' := by
  obtain ⟨g', hextends, howned⟩ := h.owned.commits hcommits
  have hevolves := h.owned.commits_evolves hcommits
  refine ⟨g', hextends, h.toOrdered.commits hcommits, howned, fun r hr hplanned => ?_,
    h.addressed_commits hcommits hextends howned⟩
  rcases hcommits.planned_before hr hplanned with ⟨hr, hitems⟩ | ⟨scope, exports, hselected, hnew, rfl⟩
  · refine (h.scopes r hr hplanned).evolve hextends hevolves hitems hcommits.next_le
      fun row hrow => ?_
    rcases hcommits.mem hrow with hrow | ⟨hle, -⟩
    · exact .inr ⟨row, hrow, rfl, rfl⟩
    · exact .inl hle
  · have hscoped := Scoped.planned h.owned h.toKept hselected (h.fresh_items hnew) rfl rfl
    exact hscoped.evolve hextends (.of_held rfl) (fun _ _ => .rfl) (le_refl _)
      fun row hrow => .inr ⟨row, hrow, rfl, rfl⟩

theorem of_held (hheld : db'.held = db.held)
    (hdeletions : db'.deletions = db.deletions) (hordered : Ordered db')
    (hnext : db.nextOutboxId ≤ db'.nextOutboxId)
    (houtbox : ∀ row ∈ db'.outboxEvents, db.nextOutboxId ≤ row.id ∨
      ∃ old ∈ db.outboxEvents, old.id = row.id ∧ old.tenantId = row.tenantId)
    (haddressed : Addressed g db.nextUuid db') : Governed g db' := by
  have hsame : db'.nextUuid = db.nextUuid := held_frame hheld fun _ => rfl
  have hrequests := requests_of_deletions hdeletions
  have hitems : db'.privacyDeletionItems = db.privacyDeletionItems := congrArg Prod.snd hdeletions
  refine ⟨hordered, h.owned.congr hheld, fun r hr hplanned => ?_, hsame ▸ haddressed⟩
  refine (h.scopes r (hrequests ▸ hr) hplanned).evolve ⟨hsame.ge, .refl g _⟩ (.of_held hheld)
    (fun i _ => ?_) hnext houtbox
  rw [hitems]

theorem progresses {id : Nat} (hprogress : db.Progresses id db') :
    Governed g db' := by
  have hheld : db'.held = db.held := by rw [hprogress.eq]; rfl
  have hdeletions : db'.deletions = db.deletions := by rw [hprogress.eq]; rfl
  have hledger : db'.announcedSubjects = db.announcedSubjects := by rw [hprogress.eq]
  have hrows : ∀ row ∈ db'.outboxEvents, ∃ old ∈ db.outboxEvents, old.id = row.id ∧
      old.tenantId = row.tenantId ∧ old.exportId = row.exportId := by
    intro row hrow
    obtain ⟨old, hold, rfl | ⟨f, hf, rfl⟩⟩ := hprogress.mem hrow
    · exact ⟨row, hold, rfl, rfl, rfl⟩
    · exact ⟨old, hold, (hf.id old).symm, (hf.tenantId old).symm, (hf.exportId old).symm⟩
  refine h.of_held hheld hdeletions (h.toOrdered.progress hprogress) hprogress.continues.next_le
    (fun row hrow => ?_) ⟨fun row hrow tie htie => ?_, hledger ▸ h.addressed.ledger⟩
  · obtain ⟨old, hold, hid, htenant, -⟩ := hrows row hrow
    exact .inr ⟨old, hold, hid, htenant⟩
  · obtain ⟨old, hold, -, htenant, hexport⟩ := hrows row hrow
    rw [OutboxEventRow.ties, ← htenant, ← hexport] at htie
    exact h.addressed.outbox old hold tie htie

theorem reconciled (now : Instant) (entry : Carried) :
    Governed g (Pump.reconciled db now entry) := by
  refine h.of_held (enqueueOwnerErasure_undelivered undelivered_held ..)
    (enqueueOwnerErasure_undelivered undelivered_deletions ..)
    (reconciled_ordered h.toOrdered now entry) (reconciled_continues db now entry).next_le
    (fun row hrow => ?_) ?_
  · rcases mem_reconciled hrow with hrow | ⟨chunk, i, n, -, rfl, hle⟩
    · exact .inr ⟨row, hrow, rfl, rfl⟩
    · exact .inl hle
  · rw [reconciled_eq]
    refine Addressed.deliverAll _ h.addressed fun e he => ?_
    obtain ⟨chunk, -, heq⟩ := mem_map.mp he
    cases heq
    exact unbound_holds rfl rfl

theorem moves (hmoves : Moves db db') :
    ∃ g', Extends g db.nextUuid g' db'.nextUuid ∧ Governed g' db' := by
  cases hmoves with
  | same => exact ⟨g, ⟨le_refl _, .refl g _⟩, h⟩
  | commits hcommits => exact h.commits hcommits
  | progresses hprogress =>
    have hnext : db'.nextUuid = db.nextUuid := by rw [hprogress.eq]
    exact ⟨g, ⟨hnext.ge, .refl g _⟩, h.progresses hprogress⟩
  | reconciles now entry =>
    have hnext : (Pump.reconciled db now entry).nextUuid = db.nextUuid :=
      held_frame (enqueueOwnerErasure_undelivered undelivered_held ..) fun _ => rfl
    exact ⟨g, ⟨hnext.ge, .refl g _⟩, h.reconciled now entry⟩

end Governed

theorem run_governed (contracts : Contracts) (resendPolicy : TombstoneResend)
    (actions : List PumpAction) :
    ∃ g, Governed g (Pump.run contracts resendPolicy actions).db :=
  Run.run_preserves (P := fun s : Pump => ∃ g, Governed g s.db)
    (fun s action ⟨_, h⟩ => (h.moves (step_moves contracts resendPolicy s action)).imp
      fun _ h => h.2) ⟨⟨fun _ => 0, fun _ => .asset⟩, .empty _⟩

/-! ## Pointers and identities -/

/-- The account a stored row belongs to: a message and a revision are of their conversation's, a part
of its message's, an artifact of its export's. -/
inductive Database.Belongs (db : Database) : Uuid → Uuid → Prop
  | archive {e : ExportRow} (h : e ∈ db.exports) : Belongs db e.id e.accountId
  | project {p : ProjectRow} (h : p ∈ db.projects) : Belongs db p.id p.accountId
  | conversation {c : ConversationRow} (h : c ∈ db.conversations) : Belongs db c.id c.accountId
  | message {m : MessageRow} (h : m ∈ db.messages) {accountId : Uuid}
      (hconversation : Belongs db m.conversationId accountId) : Belongs db m.id accountId
  | contentPart {p : ContentPartRow} (h : p ∈ db.contentParts) {accountId : Uuid}
      (hmessage : Belongs db p.messageId accountId) : Belongs db p.id accountId
  | revision {r : RevisionRow} (h : r ∈ db.revisions) {accountId : Uuid}
      (hentity : Belongs db r.entityId accountId) : Belongs db r.id accountId
  | artifact {a : ExtractedArtifactRow} (h : a ∈ db.extractedArtifacts) {accountId : Uuid}
      (hexport : Belongs db a.exportId accountId) : Belongs db a.id accountId

def pointersTo (id : Uuid) (targets : List (Option Uuid)) : List (Uuid × Uuid) :=
  targets.reduceOption.map fun target => (id, target)

/-- Every pointer of a stored record to another one. An observation points from the record to the
export that presented it. -/
def Database.pointers (db : Database) : List (Uuid × Uuid) :=
  (db.projects.flatMap fun p => pointersTo p.id [p.firstSeenExport, p.lastSeenExport]) ++
    ((db.conversations.flatMap fun c =>
      pointersTo c.id [c.projectId, c.firstSeenExport, c.lastSeenExport]) ++
    ((db.messages.flatMap fun m => pointersTo m.id [some m.conversationId, m.parentMessageId]) ++
    ((db.contentParts.flatMap fun p => pointersTo p.id [some p.messageId]) ++
    ((db.revisions.flatMap fun r => pointersTo r.id [some r.entityId, some r.observedIn]) ++
    ((db.extractedArtifacts.flatMap fun a => pointersTo a.id [some a.exportId]) ++
      db.observations.flatMap fun o => pointersTo o.entityId [some o.exportId])))))

namespace Owned

variable {g : Registry} {db : Database}

theorem projectOwner (h : Owned g db) {p : ProjectRow} (hp : p ∈ db.projects) :
    g.owner p.id = p.accountId :=
  (h.projects p hp _ List.mem_cons_self).2

theorem conversationOwner (h : Owned g db) {c : ConversationRow} (hc : c ∈ db.conversations) :
    g.owner c.id = c.accountId :=
  (h.conversations c hc _ List.mem_cons_self).2

theorem exportOwner (h : Owned g db) {e : ExportRow} (he : e ∈ db.exports) :
    g.owner e.id = e.accountId :=
  (h.exports e he _ List.mem_cons_self).2

theorem owner_of_belongs (h : Owned g db) {id accountId : Uuid} (hbelongs : db.Belongs id accountId) :
    g.owner id = accountId := by
  induction hbelongs with
  | archive he => exact h.exportOwner he
  | project hp => exact h.projectOwner hp
  | conversation hc => exact h.conversationOwner hc
  | message hm _ ih => exact (h.messages _ hm _ List.mem_cons_self).2.2.trans ih
  | contentPart hp _ ih => exact (h.contentParts _ hp _ List.mem_cons_self).2.2.trans ih
  | revision hr _ ih => exact (h.revisions _ hr _ List.mem_cons_self).2.2.trans ih
  | artifact ha _ ih => exact (h.extractedArtifacts _ ha _ List.mem_cons_self).2.2.trans ih

/-- A pointer of a row is one of its ties, so that both ends have one owner. -/
theorem owner_of_pointer {α : Type*} {ties : α → List Tie} {rows : List α}
    (h : Tied ties g db.nextUuid rows) {id : α → Uuid} {targets : α → List (Option Uuid)}
    (hties : ∀ r target, some target ∈ targets r → .same (id r) target ∈ ties r)
    {pointer : Uuid × Uuid} (hpointer : pointer ∈ rows.flatMap fun r => pointersTo (id r) (targets r)) :
    g.owner pointer.1 = g.owner pointer.2 := by
  obtain ⟨r, hr, hmem⟩ := mem_flatMap.mp hpointer
  obtain ⟨target, htarget, rfl⟩ := mem_map.mp hmem
  exact (h r hr _ (hties r target (reduceOption_mem_iff.mp htarget))).2.2

theorem pointers_owner (h : Owned g db) {pointer : Uuid × Uuid} (hpointer : pointer ∈ db.pointers) :
    g.owner pointer.1 = g.owner pointer.2 := by
  simp only [pointers, mem_append] at hpointer
  rcases hpointer with hp | hp | hp | hp | hp | hp | hp
  · refine owner_of_pointer h.projects (fun p target htarget => ?_) hp
    simpa [ProjectRow.ties, sameAs, @eq_comm _ (some target)] using htarget
  · refine owner_of_pointer h.conversations (fun c target htarget => ?_) hp
    simpa [ConversationRow.ties, sameAs, @eq_comm _ (some target)] using htarget
  · refine owner_of_pointer h.messages (fun m target htarget => ?_) hp
    rcases mem_cons.mp htarget with hconversation | hparent
    · cases hconversation
      exact mem_cons_self
    · refine mem_cons_of_mem _ (mem_cons_of_mem _ ?_)
      simpa [sameAs, @eq_comm _ (some target)] using hparent
  · refine owner_of_pointer h.contentParts (fun p target htarget => ?_) hp
    simpa [ContentPartRow.ties] using htarget
  · refine owner_of_pointer h.revisions (fun r target htarget => ?_) hp
    simpa [RevisionRow.ties] using htarget
  · refine owner_of_pointer h.extractedArtifacts (fun a target htarget => ?_) hp
    simpa [ExtractedArtifactRow.ties] using htarget
  · refine owner_of_pointer h.observations (fun o target htarget => ?_) hp
    simpa [ObservationRow.ties] using htarget

end Owned

/-- In every interleaving of the service and the pump no stored pointer leads from the records of
one account to those of another. -/
theorem pointers_within_account (contracts : Contracts) (resendPolicy : TombstoneResend)
    (actions : List PumpAction) :
    let db := (Pump.run contracts resendPolicy actions).db
    ∀ pointer ∈ db.pointers, ∀ accountId, db.Belongs pointer.1 accountId →
      ∀ accountId', db.Belongs pointer.2 accountId' → accountId' = accountId := by
  intro db pointer hpointer accountId hsource accountId' htarget
  obtain ⟨g, h⟩ := run_governed contracts resendPolicy actions
  calc accountId' = g.owner pointer.2 := (h.owned.owner_of_belongs htarget).symm
    _ = g.owner pointer.1 := (h.owned.pointers_owner hpointer).symm
    _ = accountId := h.owned.owner_of_belongs hsource

/-- An identity stays with its account: a row that is found later under the identity of an earlier
one belongs to the same account, also when the earlier row was deleted in between. -/
theorem identities_keep_account (contracts : Contracts) (resendPolicy : TombstoneResend)
    (actions later : List PumpAction) :
    let db := (Pump.run contracts resendPolicy actions).db
    let db' := (Pump.run contracts resendPolicy (actions ++ later)).db
    (∀ e ∈ db.exports, ∀ e' ∈ db'.exports, e'.id = e.id → e'.accountId = e.accountId) ∧
      (∀ p ∈ db.projects, ∀ p' ∈ db'.projects, p'.id = p.id → p'.accountId = p.accountId) ∧
      ∀ c ∈ db.conversations, ∀ c' ∈ db'.conversations, c'.id = c.id →
        c'.accountId = c.accountId := by
  intro db db'
  obtain ⟨g, h⟩ := run_governed contracts resendPolicy actions
  obtain ⟨g', hextends, h'⟩ : ∃ g', Extends g db.nextUuid g' db'.nextUuid ∧ Governed g' db' := by
    simp only [db', Pump.run, Run.run_append]
    refine Run.run_preserves (P := fun s : Pump => ∃ g', Extends g db.nextUuid g' s.db.nextUuid ∧
      Governed g' s.db) ?_ ⟨g, ⟨le_refl _, .refl g _⟩, h⟩
    rintro s action ⟨g', hextends, h'⟩
    obtain ⟨g'', hextends', h''⟩ := h'.moves (step_moves contracts resendPolicy s action)
    exact ⟨g'', hextends.trans hextends', h''⟩
  have hkept : ∀ id < db.nextUuid, g'.owner id = g.owner id := fun id hid => (hextends.agrees id hid).1
  refine ⟨fun e he e' he' heq => ?_, fun p hp p' hp' heq => ?_, fun c hc c' hc' heq => ?_⟩
  · rw [← h'.owned.exportOwner he', heq, hkept _ (h.owned.exports e he _ List.mem_cons_self).1,
      h.owned.exportOwner he]
  · rw [← h'.owned.projectOwner hp', heq, hkept _ (h.owned.projects p hp _ List.mem_cons_self).1,
      h.owned.projectOwner hp]
  · rw [← h'.owned.conversationOwner hc', heq,
      hkept _ (h.owned.conversations c hc _ List.mem_cons_self).1, h.owned.conversationOwner hc]

end ChatgptArchive
