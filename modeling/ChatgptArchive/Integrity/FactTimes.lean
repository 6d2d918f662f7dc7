import ChatgptArchive.Timeline

/-!
# The instants of facts

A transaction gives its facts instants between its `now()` and its last repair's, in the order of
their identities. So the facts of a tenant are in the order of their instants as long as each
transaction begins after the last instant of the ones that took the lock before it.
-/

namespace ChatgptArchive

open List

variable {e : Emission} {g : Registry}

open Database

/-! ## The rows of one transaction -/

namespace Database

variable {db db' : Database} {now : Instant} {e : Emission}

theorem emitted_envelopes {R : EventEnvelope → EventEnvelope → Prop} (steps : List DeliveryStep) :
    ∀ db : Database, steps.Pairwise (fun step step' => ∀ e e', step = .emit e → step' = .emit e' →
      R e.envelope e'.envelope) →
    (db.emitted steps).Pairwise fun row row' => R row.envelope row'.envelope := by
  induction steps with
  | nil => exact fun _ _ => List.Pairwise.nil
  | cons step steps ih =>
    intro db hsteps
    obtain ⟨hstep, hsteps⟩ := pairwise_cons.mp hsteps
    have hadded : (db.added step).Pairwise fun row row' => R row.envelope row'.envelope := by
      cases step with
      | forget accountId kind subjectId => exact List.Pairwise.nil
      | emit e =>
        rw [added]
        split
        · exact List.Pairwise.nil
        · exact pairwise_singleton _ _
    refine pairwise_append.mpr ⟨hadded, ih _ hsteps, fun row hrow row' hrow' => ?_⟩
    obtain ⟨e, rfl, -, rfl⟩ := mem_added hrow
    obtain ⟨e', he', hrow', -⟩ := mem_emitted steps hrow'
    rw [hrow']
    exact hstep _ he' e e' rfl rfl

/-- The rows of a list of emissions whose instants do not go back have instants in the order of
their identities. -/
theorem emitted_occurredAt {steps : List DeliveryStep}
    (hsteps : steps.Pairwise fun step step' => ∀ e e', step = .emit e → step' = .emit e' →
      e.envelope.occurredAt ≤ e'.envelope.occurredAt) {row row' : OutboxEventRow}
    (hrow : row ∈ db.emitted steps) (hrow' : row' ∈ db.emitted steps) (hlt : row.id < row'.id) :
    row.occurredAt ≤ row'.occurredAt := by
  have htimes := emitted_envelopes steps db
    (R := fun envelope envelope' => envelope.occurredAt ≤ envelope'.occurredAt) hsteps
  have hboth := (emitted_pairwise steps db).and htimes
  obtain ⟨before, after, hsplit⟩ := append_of_mem hrow
  rw [hsplit] at hboth hrow'
  obtain ⟨-, hafter, hbefore⟩ := pairwise_append.mp hboth
  rcases mem_append.mp hrow' with hrow' | hrow'
  · exact absurd (hbefore row' hrow' row mem_cons_self).1 (Nat.lt_asymm hlt)
  · rcases mem_cons.mp hrow' with rfl | hrow'
    · exact absurd hlt (Nat.lt_irrefl _)
    · exact ((pairwise_cons.mp hafter).1 row' hrow').2

theorem retractions_occurredAt {evidenceRef : BlobRef} {request : PrivacyDeletionRequestRow}
    (h : .emit e ∈ db.retractions now evidenceRef request) : e.envelope.occurredAt = now := by
  rcases mem_retractions h with ⟨kind, subjectId, -, owner, -, rfl⟩ | ⟨owner, chunk, rfl⟩
  · rfl
  · rfl

theorem repairSteps_occurredAt {requestId tenantId : Uuid} {ordinal : Nat} {repairs : List Repair}
    (h : .emit e ∈ repairSteps now requestId tenantId ordinal repairs) :
    ∃ i, ordinal ≤ i ∧ i < ordinal + repairs.length ∧ e.envelope.occurredAt = now + 1000 + i := by
  obtain ⟨⟨repair, i⟩, hmem, heq⟩ := mem_map.mp h
  cases heq
  obtain ⟨hle, hlt, -⟩ := mem_zipIdx hmem
  exact ⟨i, hle, hlt, rfl⟩

theorem repairSteps_pairwise (now : Instant) (requestId tenantId : Uuid) (repairs : List Repair) :
    ∀ ordinal, (repairSteps now requestId tenantId ordinal repairs).Pairwise
      fun step step' => ∀ e e', step = .emit e → step' = .emit e' →
        e.envelope.occurredAt ≤ e'.envelope.occurredAt := by
  induction repairs with
  | nil => exact fun _ => List.Pairwise.nil
  | cons repair repairs ih =>
    intro ordinal
    refine pairwise_cons.mpr ⟨fun step' hstep' e e' heq heq' => ?_, ih (ordinal + 1)⟩
    subst heq'
    cases heq
    obtain ⟨i, hle, -, hat⟩ := repairSteps_occurredAt hstep'
    rw [hat]
    exact Nat.add_le_add_left (Nat.le_of_succ_le hle) _

end Database

/-- What a transaction stores of facts: within its stamps and in the order of their identities. -/
structure Stamped (g : Registry) (db db' : Database) (stamps : Option Stamps) : Prop where
  within : ∀ row ∈ db.stored db', row.about.isSome = true → ∃ s, stamps = some s ∧
    row.tenantId = some s.tenantId ∧ s.first ≤ row.occurredAt ∧ row.occurredAt ≤ s.last
  ordered : ∀ row ∈ db.stored db', ∀ row' ∈ db.stored db', row.about.isSome = true →
    row'.about.isSome = true → row.id < row'.id → row.occurredAt ≤ row'.occurredAt
  owned : ∀ row ∈ db.stored db', ∀ subject, row.about = some subject →
    ∀ t, row.tenantId = some t → (Tie.owned subject.2 t).Holds g db'.nextUuid

/-- An emission that speaks of a subject and is no tombstone announces it for its tenant. -/
theorem Emission.about_announced (hwell : e.WellFormed)
    (htype : e.envelope.payload.eventType ≠ .subjectTombstoned) {id : Nat}
    {subject : SubjectKind × Uuid} (habout : (e.row id).about = some subject) :
    ∃ s a, e.announced = some (s, a) ∧ e.tenantId = some a ∧ subject = (s.kind, s.subjectId) := by
  obtain ⟨n, hnotice, rfl⟩ := Option.map_eq_some_iff.mp habout
  have hnotice : e.envelope.payload.notice = some n := hnotice
  cases n with
  | retracted told archive => exact absurd hnotice (EventPayload.notice_ne_retracted htype _ _)
  | told told archive =>
    obtain ⟨s, hs, rfl, -⟩ := EventPayload.notice_told.mp hnotice
    rw [← hwell.announced] at hs
    obtain ⟨⟨s', a⟩, hannounced, rfl⟩ := Option.map_eq_some_iff.mp hs
    exact ⟨s', a, hannounced, hwell.account s' a hannounced, rfl⟩

theorem Emission.owned_of_ties {next : Uuid} (hwell : e.WellFormed)
    (htype : e.envelope.payload.eventType ≠ .subjectTombstoned)
    (hties : ∀ tie ∈ e.ties, tie.Holds g next) {id : Nat} {subject : SubjectKind × Uuid}
    (habout : (e.row id).about = some subject) {t : Uuid} (htenant : e.tenantId = some t) :
    (Tie.owned subject.2 t).Holds g next := by
  obtain ⟨s, a, hannounced, haccount, rfl⟩ := e.about_announced hwell htype habout
  obtain rfl := Option.some.inj (haccount.symm.trans htenant)
  refine hties _ (mem_append_right _ (mem_flatMap.mpr ⟨(s, a), ?_, mem_cons_self⟩))
  rw [hannounced]
  exact mem_singleton_self _

namespace Stamped

variable {g : Registry} {db db' : Database}

theorem of_deliveries (hkept : Kept db) (heq : db'.deliveries = db.deliveries)
    (stamps : Option Stamps) : Stamped g db db' stamps := by
  have hnone := stored_eq_nil hkept heq
  constructor <;> rw [hnone] <;> exact fun _ h => absurd h not_mem_nil

theorem work (hkept : Kept db) (howned : Owned g db') {origin : Option (Uuid × Instant)}
    (hdelivers : Delivers (db'.ImportStep origin) db db') :
    Stamped g db db' (origin.map fun origin => ⟨origin.1, origin.2, origin.2⟩) := by
  obtain ⟨steps, hsteps, heq⟩ := hdelivers
  have hstored : db.stored db' = db.emitted steps := stored_deliverAll rfl hkept.fresh heq
  have hfact : ∀ row ∈ db.emitted steps, row.about.isSome = true →
      ∃ tenantId now, origin = some (tenantId, now) ∧ row.tenantId = some tenantId ∧
        row.occurredAt = now := by
    intro row hrow habout
    obtain ⟨e, he, hrow, -⟩ := mem_emitted steps hrow
    rw [hrow] at habout ⊢
    cases hsteps _ he with
    | fact _ _ _ _ horigin hat _ => exact ⟨_, _, horigin, rfl, hat⟩
    | report _ _ _ => cases habout
  refine ⟨?_, ?_, ?_⟩
  all_goals rw [hstored]
  · intro row hrow habout
    obtain ⟨tenantId, now, rfl, htenant, rfl⟩ := hfact row hrow habout
    exact ⟨_, rfl, htenant, le_refl _, le_refl _⟩
  · intro row hrow row' hrow' habout habout' _
    obtain ⟨tenantId, now, horigin, -, hat⟩ := hfact row hrow habout
    obtain ⟨tenantId', now', horigin', -, hat'⟩ := hfact row' hrow' habout'
    cases horigin.symm.trans horigin'
    exact (hat.trans hat'.symm).le
  · intro row hrow subject habout t htenant
    obtain ⟨e, he, hrow, -⟩ := mem_emitted steps hrow
    rw [hrow] at habout htenant
    obtain ⟨e', heq', hwell, htype, -⟩ := Delivered.importStep (hsteps _ he)
    cases heq'
    exact e.owned_of_ties hwell htype ((hsteps _ he).holds howned) habout htenant

theorem repairs_length (howned : Owned g db') (survivors : Survivors) :
    (db'.survivingProjects survivors).length + (db'.survivingConversations survivors).length ≤
      survivors.projects.length + survivors.conversations.length := by
  have hprojects : ((db'.survivingProjects survivors).map (·.id)).Nodup :=
    howned.projectIds.sublist (filter_sublist.map _)
  have hconversations : ((db'.survivingConversations survivors).map (·.id)).Nodup :=
    howned.conversationIds.sublist (filter_sublist.map _)
  have hle : ∀ {α : Type} {rows : List α} {id : α → Uuid} {ids : List Uuid},
      ((rows.filter fun row => ids.contains (id row)).map id).Nodup →
      (rows.filter fun row => ids.contains (id row)).length ≤ ids.length := by
    intro α rows id ids hnodup
    have hsub : (rows.filter fun row => ids.contains (id row)).map id ⊆ ids := by
      intro i hi
      obtain ⟨row, hrow, rfl⟩ := mem_map.mp hi
      exact contains_iff_mem.mp (mem_filter.mp hrow).2
    have hlength := (subperm_of_subset hnodup hsub).length_le
    rwa [length_map] at hlength
  exact Nat.add_le_add (hle hprojects) (hle hconversations)

theorem le_lastRepair {now : Instant} {survivors : Survivors} {i : Nat}
    (h : i < survivors.projects.length + survivors.conversations.length) :
    now + 1000 + i ≤ lastRepair now survivors := by
  unfold lastRepair
  split
  · rename_i hzero
    exact absurd (hzero ▸ h) (Nat.not_lt_zero i)
  · rename_i n hcount
    exact Nat.add_le_add_left (Nat.le_of_lt_succ (hcount ▸ h)) _

theorem now_le_lastRepair (now : Instant) (survivors : Survivors) :
    now ≤ lastRepair now survivors := by
  unfold lastRepair
  split
  · exact le_refl _
  · exact (Nat.le_add_right _ _).trans (Nat.le_add_right _ _)

/-- A row phase gives its retractions its own instant, and its repairs later ones in their order. -/
theorem phase (h : Governed g db) {g' : Registry}
    (hextends : Extends g db.nextUuid g' db'.nextUuid) (howned : Owned g' db') {now : Instant}
    {evidenceRef : BlobRef} {request : PrivacyDeletionRequestRow}
    (hphase : db.RowPhase now evidenceRef request db') :
    Stamped g' db db' (some ⟨request.tenantId, now,
      lastRepair now (db.findSurvivors request.id)⟩) := by
  obtain ⟨repairs, hrepairs, hcount, heq⟩ := hphase.emits
  have hstored : db.stored db' = (db.remaining request).emitted
      (db.retractions now evidenceRef request ++
        repairSteps now request.id request.tenantId 0 repairs) := by
    refine stored_deliverAll ?_ (fun row hrow => h.fresh row (mem_remaining hrow)) heq
    rfl
  have hlength := hcount.trans (repairs_length howned (db.findSurvivors request.id))
  have hrepair : ∀ step ∈ repairSteps now request.id request.tenantId 0 repairs,
      db'.RepairStep now request.id request.tenantId (db.findSurvivors request.id) step :=
    fun _ => mem_repairSteps hrepairs
  refine ⟨?_, ?_, ?_⟩
  all_goals rw [hstored]
  · intro row hrow _
    obtain ⟨e, he, hrow, -⟩ := mem_emitted _ hrow
    have htenant : e.tenantId = some request.tenantId := by
      rcases mem_append.mp he with he | he
      · exact (retractions_for _ he).2
      · exact (hrepair _ he).for.2
    refine ⟨_, rfl, hrow ▸ htenant, ?_⟩
    have hat : row.occurredAt = e.envelope.occurredAt := by rw [hrow]; rfl
    rw [hat]
    rcases mem_append.mp he with he | he
    · rw [retractions_occurredAt he]
      exact ⟨le_refl _, now_le_lastRepair _ _⟩
    · obtain ⟨i, -, hlt, hat⟩ := repairSteps_occurredAt he
      rw [Nat.zero_add] at hlt
      rw [hat]
      exact ⟨(Nat.le_add_right _ _).trans (Nat.le_add_right _ _),
        le_lastRepair (hlt.trans_le hlength)⟩
  · intro row hrow row' hrow' _ _ hlt
    refine emitted_occurredAt (pairwise_append.mpr ⟨?_, repairSteps_pairwise .., ?_⟩) hrow hrow'
      hlt
    · refine pairwise_of_forall_mem_list fun step hstep step' hstep' e e' heq heq' => ?_
      rw [retractions_occurredAt (heq ▸ hstep), retractions_occurredAt (heq' ▸ hstep')]
    · intro step hstep step' hstep' e e' heq heq'
      obtain ⟨i, -, -, hat⟩ := repairSteps_occurredAt (heq' ▸ hstep')
      rw [retractions_occurredAt (heq ▸ hstep), hat]
      exact (Nat.le_add_right _ _).trans (Nat.le_add_right _ _)
  · intro row hrow subject habout t htenant
    obtain ⟨e, he, hrow, -⟩ := mem_emitted _ hrow
    rw [hrow] at habout htenant
    rcases mem_append.mp he with he | he
    · rcases mem_retractions he with ⟨kind, subjectId, -, owner, howner, rfl⟩ |
        ⟨owner, chunk, rfl⟩
      · obtain ⟨a, ha, haccount, htold, -⟩ := mem_ownersOf.mp howner
        have hledger := h.addressed.ledger a ha _ mem_cons_self
        cases habout
        cases htenant
        obtain ⟨-, rfl, -⟩ := Told.mk.inj htold
        exact hextends.holds (haccount ▸ hledger)
      · cases habout
    · obtain ⟨e', heq', hwell, htype⟩ := Delivered.repairStep (hrepair _ he)
      cases heq'
      have hscoped := h.scopes request (mem_of_find?_eq_some hphase.planned.1)
        hphase.planned.2
      refine e.owned_of_ties hwell htype (RepairStep.holds howned (fun c hc id hid => ?_)
        (hrepair _ he)) habout htenant
      exact hextends.holds (hscoped.retained c hc id hid)

end Stamped

/-- The facts of a transaction lie within its stamps. -/
theorem commit_stamped {db : Database} (h : Governed g db) (contracts : Contracts)
    (transaction : ServiceTransaction) :
    ∃ g', Extends g db.nextUuid g' (db.commit contracts transaction).nextUuid ∧
      Governed g' (db.commit contracts transaction) ∧
      Stamped g' db (db.commit contracts transaction) (transaction.stamps db) := by
  obtain ⟨g', hextends, h'⟩ := h.commits (commit_commits _ contracts transaction)
  refine ⟨g', hextends, h', ?_⟩
  cases transaction with
  | work config event =>
    have howned := h'.owned
    simp only [commit] at howned ⊢
    split at howned
    · rename_i hevent
      rw [if_pos hevent]
      exact .of_deliveries h.toKept rfl _
    · rename_i hevent
      rw [if_neg hevent]
      refine .work h.toKept howned (step_delivers config event ?_)
      rintro now evidenceRef tenantId requestId scope rfl
      exact hevent rfl
  | plan tenantId requestId scope =>
    rcases plan_cases contracts tenantId requestId scope with heq | ⟨exports, -, -, heq⟩
    · rw [heq]
      exact .of_deliveries h.toKept rfl _
    · rw [heq]
      refine .of_deliveries h.toKept ?_ _
      rfl
  | removeRows now evidenceRef requestId =>
    have howned := h'.owned
    simp only [commit] at hextends howned ⊢
    rcases committed_cases db (db.removeRows contracts now evidenceRef requestId) with heq | hok
    · rw [heq]
      exact .of_deliveries h.toKept rfl _
    · rcases removeRows_cases hok with heq | ⟨request, rfl, hphase⟩
      · rw [heq]
        exact .of_deliveries h.toKept rfl _
      · rw [ServiceTransaction.stamps, hphase.planned.1]
        exact .phase h hextends howned hphase
  | complete requestId =>
    simp only [commit]
    split
    · exact .of_deliveries h.toKept (complete_deliveries db requestId) _
    · exact .of_deliveries h.toKept rfl _

/-! ## Runs -/

/-- The facts of the log are within the stamps of their transactions, and later identities of a
tenant have later instants. -/
structure Timely (g : Registry) (s : Timeline) : Prop where
  governed : Governed g s.db
  fresh : ∀ row ∈ s.log, row.id < s.db.nextOutboxId
  stamped : ∀ row ∈ s.log, row.about.isSome = true → ∃ stamps ∈ s.stamped,
    row.tenantId = some stamps.tenantId ∧ row.occurredAt ≤ stamps.last
  owned : ∀ row ∈ s.log, ∀ subject, row.about = some subject →
    ∀ t, row.tenantId = some t → (Tie.owned subject.2 t).Holds g s.db.nextUuid
  ordered : ∀ row ∈ s.log, ∀ row' ∈ s.log, row.about.isSome = true → row'.about.isSome = true →
    row.tenantId = row'.tenantId → row.id < row'.id → row.occurredAt ≤ row'.occurredAt

namespace Timely

variable {g : Registry} {s : Timeline} {contracts : Contracts}

/-- A commit in order comes after the stamps of its tenant. -/
theorem committed (h : Timely g s) {id : Nat} {transaction : ServiceTransaction}
    (hinOrder : s.inOrder (.commit id transaction) = true) :
    ∃ g', Timely g' (s.committed contracts id transaction) := by
  obtain ⟨g', hextends, h', hnew⟩ := commit_stamped h.governed contracts transaction
  have hcommits := commit_commits s.db contracts transaction
  have hafter : ∀ row ∈ s.db.stored (s.db.commit contracts transaction),
      s.db.nextOutboxId ≤ row.id ∧ row.id < (s.db.commit contracts transaction).nextOutboxId := by
    intro row hrow
    obtain ⟨hrow, hle⟩ := mem_filter.mp hrow
    exact ⟨of_decide_eq_true hle, h'.fresh row hrow⟩
  refine ⟨g', h', fun row hrow => ?_, fun row hrow habout => ?_,
    fun row hrow subject habout t htenant => ?_, fun row hrow row' hrow' habout habout' htenant hlt
      => ?_⟩
  · rcases mem_append.mp hrow with hrow | hrow
    · exact (h.fresh row hrow).trans_le hcommits.next_le
    · exact (hafter row hrow).2
  · rcases mem_append.mp hrow with hrow | hrow
    · obtain ⟨stamps, hmem, hrest⟩ := h.stamped row hrow habout
      exact ⟨stamps, mem_append_left _ hmem, hrest⟩
    · obtain ⟨stamps, heq, htenant, -, hlast⟩ := hnew.within row hrow habout
      refine ⟨stamps, mem_append_right _ ?_, htenant, hlast⟩
      rw [if_neg (by simpa using ne_nil_of_mem hrow), heq]
      exact mem_singleton_self _
  · rcases mem_append.mp hrow with hrow | hrow
    · exact hextends.holds (h.owned row hrow subject habout t htenant)
    · exact hnew.owned row hrow subject habout t htenant
  · rcases mem_append.mp hrow with hrow | hrow
    · rcases mem_append.mp hrow' with hrow' | hrow'
      · exact h.ordered row hrow row' hrow' habout habout' htenant hlt
      · -- an earlier fact is no later than the last instant of its transaction
        obtain ⟨stamps, hmem, hstamps, hlast⟩ := h.stamped row hrow habout
        obtain ⟨stamps', heq, hstamps', hfirst, -⟩ := hnew.within row' hrow' habout'
        have hsame : stamps.tenantId = stamps'.tenantId :=
          Option.some.inj (hstamps.symm.trans (htenant.trans hstamps'))
        have hle : stamps.last ≤ stamps'.first := by
          rw [Timeline.inOrder, heq] at hinOrder
          have hearlier := all_eq_true.mp hinOrder stamps hmem
          exact (of_decide_eq_true hearlier).resolve_left (not_not.mpr hsame)
        exact hlast.trans (hle.trans hfirst)
    · rcases mem_append.mp hrow' with hrow' | hrow'
      · exact absurd (hlt.trans (h.fresh row' hrow')) (Nat.not_lt.mpr (hafter row hrow).1)
      · exact hnew.ordered row hrow row' hrow' habout habout' hlt

theorem step (h : Timely g s) {action : TimelineAction} (hinOrder : s.inOrder action = true) :
    ∃ g', Timely g' (s.step contracts action) := by
  cases action with
  | start id pause =>
    simp only [Timeline.step]
    split
    · exact ⟨g, h⟩
    · exact ⟨g, h.governed, h.fresh, h.stamped, h.owned, h.ordered⟩
  | commit id transaction =>
    simp only [Timeline.step]
    split
    · exact ⟨g, h⟩
    · split
      · exact h.committed hinOrder
      · exact ⟨g, h⟩

theorem run {actions : List TimelineAction}
    (hmeets : Run.Meets (Timeline.step contracts) (fun s action => s.inOrder action = true)
      Timeline.initial actions) : ∃ g, Timely g (Timeline.run contracts actions) := by
  refine Run.run_invariant (P := fun s => ∃ g, Timely g s) (fun s action ⟨g, h⟩ => h.step) ?_ hmeets
  exact ⟨⟨fun _ => 0, fun _ => .asset⟩, .empty _, fun _ h => absurd h not_mem_nil,
    fun _ h => absurd h not_mem_nil, fun _ h => absurd h not_mem_nil,
    fun _ h => absurd h not_mem_nil⟩

end Timely

/-- When every transaction begins no earlier than the last instant of the tenant's transactions
that took the lock before it, a fact with a larger identity is never the earlier one. -/
theorem fact_time_follows_order (contracts : Contracts) (actions : List TimelineAction)
    (hmeets : Run.Meets (Timeline.step contracts) (fun s action => s.inOrder action = true)
      Timeline.initial actions) :
    let s := Timeline.run contracts actions
    ∀ row ∈ s.log, ∀ row' ∈ s.log, ∀ subject, row.about = some subject →
      row'.about = some subject → row.id < row'.id → row.occurredAt ≤ row'.occurredAt := by
  intro s row hrow row' hrow' subject habout habout' hlt
  obtain ⟨g, h⟩ : ∃ g, Timely g s := Timely.run hmeets
  have hsome : row.about.isSome = true := by rw [habout]; rfl
  have hsome' : row'.about.isSome = true := by rw [habout']; rfl
  -- both facts are of the tenant that the subject belongs to
  obtain ⟨stamps, -, htenant, -⟩ := h.stamped row hrow hsome
  obtain ⟨stamps', -, htenant', -⟩ := h.stamped row' hrow' hsome'
  have howner := h.owned row hrow subject habout _ htenant
  have howner' := h.owned row' hrow' subject habout' _ htenant'
  have hsame : row.tenantId = row'.tenantId := by
    rw [htenant, htenant', ← howner.2, ← howner'.2]
  exact h.ordered row hrow row' hrow' hsome hsome' hsame hlt

def twoReceipts : List Event :=
  [.createRun 1 "account" .consumerExport "application/zip", .recordHash 0 "first" 1,
    .publish 3
      { runId := 0, accountExternalRef := "account", mode := .consumerExport
        blobRef := ⟨"first", 1, "application/zip"⟩, sha256Hex := "first", byteLength := 1
        platformOperation := none },
    .createRun 4 "account" .consumerExport "application/zip", .recordHash 4 "second" 1,
    .publish 6
      { runId := 4, accountExternalRef := "account", mode := .consumerExport
        blobRef := ⟨"second", 1, "application/zip"⟩, sha256Hex := "second", byteLength := 1
        platformOperation := none }]

def timelineConfig : ImportConfig := ⟨[(7, "account")], 1000000⟩

def twoImports (commits : List Nat) : List TimelineAction :=
  (twoReceipts.flatMap fun event => [.start 0 0, .commit 0 (.work timelineConfig event)]) ++
    [.start 1 0, .start 2 0] ++ commits.map fun id => .commit id (.work timelineConfig
      (if id = 1 then .importRun 7 0 (.ofRecords [] [.ofMessages "c" [.ofText "p" none "old"]]) []
        else .importRun 8 4 (.ofRecords [] [.ofMessages "c" [.ofText "p" none "new"]]) []))

set_option maxRecDepth 100000 in
/-- The import that began first commits last: its facts have the larger identities and the earlier
instant. -/
theorem twoImports_earlier_fact_last :
    ∃ row ∈ (Timeline.run .permissive (twoImports [2, 1])).log,
      ∃ row' ∈ (Timeline.run .permissive (twoImports [2, 1])).log,
        row.about = some (.conversation, 8) ∧ row'.about = some (.conversation, 8) ∧
          row.id < row'.id ∧ row'.occurredAt < row.occurredAt := by
  decide +kernel

set_option maxRecDepth 100000 in
theorem twoImports_in_order :
    let log := (Timeline.run .permissive (twoImports [1, 2])).log
    ∃ row ∈ log, ∃ row' ∈ log, row.about = some (.conversation, 8) ∧
      row'.about = some (.conversation, 8) ∧ row.id < row'.id ∧
        row.occurredAt ≤ row'.occurredAt := by
  intro log
  obtain ⟨row, hrow, row', hrow', habout, habout', hlt⟩ : ∃ row ∈ log, ∃ row' ∈ log,
      row.about = some (.conversation, 8) ∧ row'.about = some (.conversation, 8) ∧
        row.id < row'.id := by decide +kernel
  have hmeets : Run.Meets (Timeline.step .permissive) (fun s action => s.inOrder action = true)
      Timeline.initial (twoImports [1, 2]) := by decide +kernel
  exact ⟨row, hrow, row', hrow', habout, habout', hlt, fact_time_follows_order .permissive _ hmeets
    row hrow row' hrow' _ habout habout' hlt⟩

end ChatgptArchive
