import Mathlib.Data.List.Pairwise
import ChatgptArchive.Integrity.Subjects

/-!
# Every announced subject is stored or retracted

Along every run, a subject that was announced to an owner is in the ledger with its row, or a
tombstone for that owner was stored after the last fact about it.
-/

namespace ChatgptArchive

open List

variable {db db' : Database} {log : List OutboxEventRow}

open Database

/-! ## What a step of the system delivers -/

inductive Delivered (db db' : Database) : Prop
  | plain {start : Database} {steps : List DeliveryStep}
      (hnext : start.nextOutboxId = db.nextOutboxId)
      (hledger : start.announcedSubjects = db.announcedSubjects)
      (hrows : ∀ row ∈ start.outboxEvents, ∃ old ∈ db.outboxEvents, old.id = row.id)
      (hsteps : ∀ step ∈ steps, ∃ e, step = .emit e ∧ e.WellFormed ∧
        e.envelope.payload.eventType ≠ .subjectTombstoned ∧ e.key.request = none)
      (heq : db'.deliveries = (start.deliverAll steps).deliveries) : Delivered db db'
  | phase {now : Instant} {evidenceRef : BlobRef} {request : PrivacyDeletionRequestRow}
      (hphase : db.RowPhase now evidenceRef request db') : Delivered db db'

namespace Delivered

variable {db db' : Database} {step : DeliveryStep}

theorem of_eq (heq : db'.deliveries = db.deliveries) : Delivered db db' := by
  have hnone : ∀ step ∈ ([] : List DeliveryStep), ∃ e, step = .emit e ∧ e.WellFormed ∧
      e.envelope.payload.eventType ≠ .subjectTombstoned ∧ e.key.request = none :=
    fun _ h => absurd h not_mem_nil
  exact .plain rfl rfl (fun row hrow => ⟨row, hrow, rfl⟩) hnone heq

theorem announcing_type {payload : EventPayload} {s : AnnouncedSubject}
    (h : payload.announces = some s) : payload.eventType ≠ .subjectTombstoned := by
  intro htype
  cases payload with
  | tombstoned t => cases h
  | _ => cases htype

theorem importStep {origin : Option (Uuid × Instant)} (h : db.ImportStep origin step) :
    ∃ e, step = .emit e ∧ e.WellFormed ∧
      e.envelope.payload.eventType ≠ .subjectTombstoned ∧ e.key.request = none := by
  have hwell := h
  cases h with
  | fact _ hannounces _ _ _ _ _ =>
    exact ⟨_, rfl, hwell.wellFormed, announcing_type hannounces.payload, rfl⟩
  | report => exact ⟨_, rfl, hwell.wellFormed, nofun, rfl⟩

theorem repairStep {now : Instant} {requestId tenantId : Uuid} {survivors : Survivors}
    (h : db.RepairStep now requestId tenantId survivors step) :
    ∃ e, step = .emit e ∧ e.WellFormed ∧ e.envelope.payload.eventType ≠ .subjectTombstoned := by
  have hwell := h
  cases h with
  | repair _ hannounces _ _ _ _ =>
    exact ⟨_, rfl, hwell.wellFormed.1, announcing_type hannounces.payload⟩

theorem of_moves (h : Moves db db') : Delivered db db' := by
  cases h with
  | same => exact of_eq rfl
  | commits hcommits =>
    cases hcommits with
    | same => exact of_eq rfl
    | work hdelivers _ _ =>
      obtain ⟨steps, hsteps, heq⟩ := hdelivers
      exact .plain rfl rfl (fun row hrow => ⟨row, hrow, rfl⟩)
        (fun step hstep => importStep (hsteps step hstep)) heq
    | plan _ _ => exact of_eq rfl
    | removeRows hphase => exact .phase hphase
    | complete _ => exact of_eq (complete_deliveries db _)
  | @progresses db' id hprogress =>
    have hnext : db'.nextOutboxId = db.nextOutboxId := by rw [hprogress.eq]
    have hledger : db'.announcedSubjects = db.announcedSubjects := by rw [hprogress.eq]
    refine @plain _ _ db' [] hnext hledger (fun row hrow => ?_)
      (fun _ h => absurd h not_mem_nil) rfl
    obtain ⟨old, hold, rfl | ⟨f, hf, rfl⟩⟩ := hprogress.mem hrow
    · exact ⟨row, hold, rfl⟩
    · exact ⟨old, hold, (hf.id old).symm⟩
  | reconciles now entry =>
    refine .plain rfl rfl (fun row hrow => ⟨row, hrow, rfl⟩) (fun step hstep => ?_)
      (congrArg _ (reconciled_eq db now entry))
    obtain ⟨chunk, -, rfl⟩ := mem_map.mp hstep
    exact ⟨_, rfl, erasureEmission_wellFormed .., nofun, rfl⟩

end Delivered

/-! ## Requests that are settled -/

theorem Moves.settled (h : Moves db db') (hordered : db.Ordered) {requestId : Uuid}
    (hsettled : db.Settled requestId) : db'.Settled requestId := by
  obtain ⟨r, hr, rfl⟩ := mem_map.mp hsettled.1
  obtain ⟨r', hr', hadvances⟩ := h.advances hordered hr
  refine ⟨mem_map.mpr ⟨r', hr', hadvances.id⟩, fun q hq hid => ?_⟩
  rw [inj_on_of_nodup_map (h.ordered hordered).requestIds hq hr' (hid.trans hadvances.id.symm)]
  exact (hadvances.purged (hsettled.2 r hr rfl)).1

/-! ## The rows ever stored -/

/-- The keys of the rows ever stored: a request's keys are taken by its row phase, each once, and a
tombstone's key names what it retracts. -/
structure Keyed (log : List OutboxEventRow) (db : Database) : Prop where
  settled : ∀ l ∈ log, ∀ key, l.deduplicationKey = some key → ∀ requestId,
    key.request = some requestId → db.Settled requestId
  distinct : log.Pairwise fun l l' => ∀ key, l.deduplicationKey = some key →
    key.request.isSome → l'.deduplicationKey ≠ some key
  tombstones : ∀ l ∈ log, ∀ told archive, l.notice = some (.retracted told archive) →
    l.envelope.tenantId = some told.owner ∧ ∃ requestId,
      l.deduplicationKey = some (.privacyDelete requestId told.kind told.subjectId told.owner)

structure Covers (log : List OutboxEventRow) (db : Database) : Prop where
  governed : ∃ g, Governed g db
  announced : Announced db
  chronicle : Chronicle log db.announcedSubjects
  keyed : Keyed log db
  ids : log.Pairwise fun l l' => l.id < l'.id
  fresh : ∀ l ∈ log, l.id < db.nextOutboxId

theorem Governed.moves_announced {g : Registry} (h : Governed g db) (hannounced : Announced db)
    (hmoves : Moves db db') : Announced db' := by
  cases hmoves with
  | same => exact hannounced
  | commits hcommits => exact h.commits_announced hannounced hcommits
  | @progresses db' id hprogress =>
    intro a ha
    have hledger : db'.announcedSubjects = db.announcedSubjects := by rw [hprogress.eq]
    have hheld : db'.held = db.held := by rw [hprogress.eq]; rfl
    obtain ⟨t, howns⟩ := hannounced a (hledger ▸ ha)
    exact ⟨t, howns.congr hheld⟩
  | reconciles now entry =>
    intro a ha
    rw [reconciled_eq] at ha
    rcases mem_ledger_deliverAll _ ha with ha | ⟨e, s, accountId, he, hsome, -⟩
    · obtain ⟨t, howns⟩ := hannounced a ha
      exact ⟨t, howns.congr (enqueueOwnerErasure_undelivered undelivered_held ..)⟩
    · obtain ⟨chunk, -, heq⟩ := mem_map.mp he
      cases heq
      cases hsome

namespace Covers

variable {log : List OutboxEventRow} {db db' : Database}

theorem empty : Covers [] Database.empty :=
  ⟨⟨⟨fun _ => 0, fun _ => .asset⟩, .empty _⟩, fun _ h => absurd h not_mem_nil, .empty,
    ⟨fun _ h => absurd h not_mem_nil, .nil, fun _ h => absurd h not_mem_nil⟩, .nil,
    fun _ h => absurd h not_mem_nil⟩

section Phase

variable {now : Instant} {evidenceRef : BlobRef} {request : PrivacyDeletionRequestRow}

theorem not_settled (hplanned : db.Planned request) : ¬db.Settled request.id := fun hsettled =>
  hsettled.2 request (mem_of_find?_eq_some hplanned.1) rfl hplanned.2

/-- With the rows of a row phase the log still accounts for the ledger. -/
theorem phase_chronicle (h : Covers log db) (hphase : db.RowPhase now evidenceRef request db') :
    Chronicle (log ++ db.stored db') db'.announcedSubjects := by
  obtain ⟨g, hgoverned⟩ := h.governed
  obtain ⟨repairs, hrepairs, hledger, hstored⟩ := hphase.stored hgoverned.toKept
  obtain ⟨restored, hconsistent, -⟩ := hphase.rows
  have hscoped := hgoverned.scopes request (mem_of_find?_eq_some hphase.planned.1)
    hphase.planned.2
  rw [hstored, hledger, emitted_append, deliverAll_append, ← append_assoc]
  refine Chronicle.deliverAll repairs (h.chronicle.retractions ?_ (fun a ha hout => ?_)
    fun key hkey => ?_) fun step hstep => Delivered.repairStep (hrepairs step hstep)
  · unfold remaining withoutDropped
    dsimp only
    split
    · exact Sublist.refl _
    · exact filter_sublist
  · -- the entries that are gone before the tombstones went with the account
    unfold remaining withoutDropped at hout
    dsimp only at hout
    split at hout
    · exact absurd ha hout
    · rename_i haccount
      have howner : a.accountId = request.tenantId := by
        by_contra hne
        exact hout (Table.mem_deleteWhere.mpr ⟨ha, decide_eq_false hne⟩)
      have howns := (h.announced a ha).owns hgoverned.owned hgoverned.addressed ha
      rw [howner] at howns
      exact ⟨howner, howns.retracted hgoverned.owned hscoped hconsistent
        (Bool.eq_false_iff.mpr haccount)⟩
  · refine Bool.eq_false_iff.mpr fun htaken => not_settled hphase.planned ?_
    obtain ⟨row, hrow, hrowkey⟩ := hasDeduplicationKey_iff.mp htaken
    exact hgoverned.requested row (mem_remaining hrow) key hrowkey request.id hkey

theorem phase_keyed (h : Covers log db) (hphase : db.RowPhase now evidenceRef request db')
    (hsettled : ∀ l ∈ log ++ db.stored db', ∀ key, l.deduplicationKey = some key → ∀ requestId,
      key.request = some requestId → db'.Settled requestId) : Keyed (log ++ db.stored db') db' := by
  obtain ⟨g, hgoverned⟩ := h.governed
  obtain ⟨repairs, hrepairs, -, hstored⟩ := hphase.stored hgoverned.toKept
  refine ⟨hsettled, ?_, fun l hl told archive hnotice => ?_⟩
  · rw [hstored]
    refine pairwise_append.mpr ⟨h.keyed.distinct, ?_, fun l hl l' hl' key hkey hrequest heq => ?_⟩
    · refine (emitted_keys _ _).imp fun hne key hkey _ heq => ?_
      exact hne (hkey.trans heq.symm)
    · obtain ⟨requestId, hrequest⟩ := Option.isSome_iff_exists.mp hrequest
      have hold := h.keyed.settled l hl key hkey requestId hrequest
      obtain ⟨e, he, hrow, -⟩ := mem_emitted _ hl'
      have hown : e.key.request = some request.id := by
        rcases mem_append.mp he with he | he
        · exact (retraction_wellFormed he).2
        · exact (hrepairs _ he).wellFormed.2
      rw [hrow] at heq
      obtain rfl : e.key = key := Option.some.inj heq
      obtain rfl : request.id = requestId := Option.some.inj (hown.symm.trans hrequest)
      exact not_settled hphase.planned hold
  · rcases mem_append.mp hl with hl | hl
    · exact h.keyed.tombstones l hl told archive hnotice
    · rw [hstored, emitted_append] at hl
      rcases mem_append.mp hl with hl | hl
      · obtain ⟨kind, subjectId, -, owner, -, heq, hkey, htenant⟩ := notice_retraction hl hnotice
        cases heq
        exact ⟨htenant, request.id, hkey⟩
      · obtain ⟨e, he, hrow, -⟩ := mem_emitted _ hl
        obtain ⟨_, heq, -, htype⟩ := Delivered.repairStep (hrepairs _ he)
        cases heq
        rw [hrow] at hnotice
        exact absurd hnotice (EventPayload.notice_ne_retracted htype told archive)

end Phase

section Plain

variable {start : Database} {steps : List DeliveryStep}
  (hsteps : ∀ step ∈ steps, ∃ e, step = .emit e ∧ e.WellFormed ∧
    e.envelope.payload.eventType ≠ .subjectTombstoned ∧ e.key.request = none)

include hsteps in
theorem plain_keyed (h : Covers log db)
    (hsettled : ∀ l ∈ log ++ start.emitted steps, ∀ key, l.deduplicationKey = some key →
      ∀ requestId, key.request = some requestId → db'.Settled requestId) :
    Keyed (log ++ start.emitted steps) db' := by
  have hnone : ∀ l ∈ start.emitted steps, ∃ e : Emission, l = e.row l.id ∧
      e.envelope.payload.eventType ≠ .subjectTombstoned ∧ e.key.request = none := by
    intro l hl
    obtain ⟨e, he, hrow, -⟩ := mem_emitted _ hl
    obtain ⟨_, heq, -, hrest⟩ := hsteps _ he
    cases heq
    exact ⟨e, hrow, hrest⟩
  refine ⟨hsettled, ?_, fun l hl told archive hnotice => ?_⟩
  · refine pairwise_append.mpr ⟨h.keyed.distinct, ?_, fun l _ l' hl' key hkey hrequest heq => ?_⟩
    · refine (List.Pairwise.and_mem.mp (emitted_keys _ _)).imp fun ⟨_, _, hne⟩ key hkey _ heq => ?_
      exact hne (hkey.trans heq.symm)
    · obtain ⟨e, hrow, -, hkeynone⟩ := hnone l' hl'
      rw [hrow] at heq
      obtain rfl : e.key = key := Option.some.inj heq
      rw [hkeynone] at hrequest
      cases hrequest
  · rcases mem_append.mp hl with hl | hl
    · exact h.keyed.tombstones l hl told archive hnotice
    · obtain ⟨e, hrow, htype, -⟩ := hnone l hl
      rw [hrow] at hnotice
      exact absurd hnotice (EventPayload.notice_ne_retracted htype told archive)

end Plain

/-- An entry leaves the ledger only with its tombstone, which the log keeps. -/
theorem moves (h : Covers log db) (hmoves : Moves db db') :
    Covers (log ++ db.stored db') db' := by
  obtain ⟨g, hgoverned⟩ := h.governed
  obtain ⟨g', -, hgoverned'⟩ := hgoverned.moves hmoves
  have hannounced := hgoverned.moves_announced h.announced hmoves
  have hmem : ∀ l ∈ db.stored db', l ∈ db'.outboxEvents ∧ db.nextOutboxId ≤ l.id :=
    fun l hl => by simpa [stored] using hl
  have hsettled : ∀ l ∈ log ++ db.stored db', ∀ key, l.deduplicationKey = some key →
      ∀ requestId, key.request = some requestId → db'.Settled requestId := by
    intro l hl key hkey requestId hrequest
    rcases mem_append.mp hl with hl | hl
    · exact hmoves.settled hgoverned.toOrdered (h.keyed.settled l hl key hkey requestId hrequest)
    · exact hgoverned'.requested l (hmem l hl).1 key hkey requestId hrequest
  have hfresh : ∀ l ∈ log ++ db.stored db', l.id < db'.nextOutboxId := by
    intro l hl
    rcases mem_append.mp hl with hl | hl
    · exact (h.fresh l hl).trans_le hmoves.continues.next_le
    · exact hgoverned'.fresh l (hmem l hl).1
  have hids : (db.stored db').Pairwise (fun l l' => l.id < l'.id) →
      (log ++ db.stored db').Pairwise fun l l' => l.id < l'.id := fun hnew =>
    pairwise_append.mpr ⟨h.ids, hnew, fun l hl l' hl' =>
      (h.fresh l hl).trans_le (hmem l' hl').2⟩
  cases Delivered.of_moves hmoves with
  | @plain start steps hnext hledger hrows hsteps heq =>
    have hstored : db.stored db' = start.emitted steps := by
      refine stored_deliverAll hnext (fun row hrow => ?_) heq
      obtain ⟨old, hold, hid⟩ := hrows row hrow
      exact hid ▸ hgoverned.fresh old hold
    have hafter : db'.announcedSubjects = _ := deliveries_frame heq fun _ => rfl
    refine ⟨⟨g', hgoverned'⟩, hannounced, ?_, ?_, hids ?_, hfresh⟩
    · rw [hstored, hafter]
      refine Chronicle.deliverAll steps (hledger ▸ h.chronicle) fun step hstep => ?_
      obtain ⟨e, he, hwell, htype, -⟩ := hsteps step hstep
      exact ⟨e, he, hwell, htype⟩
    · rw [hstored] at hsettled ⊢
      exact h.plain_keyed hsteps hsettled
    · rw [hstored]
      exact emitted_pairwise _ _
  | phase hphase =>
    obtain ⟨repairs, -, -, hstored⟩ := hphase.stored hgoverned.toKept
    refine ⟨⟨g', hgoverned'⟩, hannounced, h.phase_chronicle hphase,
      h.phase_keyed hphase hsettled, hids ?_, hfresh⟩
    rw [hstored]
    exact emitted_pairwise _ _

end Covers

/-! ## Runs -/

theorem step_log {s : Pump} (hkept : Kept s.db) (contracts : Contracts)
    (resendPolicy : TombstoneResend) (action : PumpAction) :
    (s.step contracts resendPolicy action).log =
      s.log ++ s.db.stored (s.step contracts resendPolicy action).db := by
  rcases step_writes contracts resendPolicy s action with ⟨hdb, hlog⟩ | ⟨db', -, hdb, hlog⟩
  · have hnone : s.db.stored s.db = [] :=
      filter_eq_nil_iff.mpr fun row hrow => by simpa using hkept.fresh row hrow
    rw [hdb, hlog, hnone, append_nil]
  · rw [hdb, hlog]

theorem run_covers (contracts : Contracts) (resendPolicy : TombstoneResend)
    (actions : List PumpAction) :
    Covers (Pump.run contracts resendPolicy actions).log
      (Pump.run contracts resendPolicy actions).db := by
  refine Run.run_preserves (P := fun s : Pump => Covers s.log s.db) (fun s action h => ?_) .empty
  obtain ⟨g, hgoverned⟩ := h.governed
  rw [step_log hgoverned.toKept]
  exact h.moves (step_moves contracts resendPolicy s action)

theorem notices_eq_append_cons {before after : List (Notice Told Uuid)} {n : Notice Told Uuid}
    (h : notices log = before ++ n :: after) :
    ∃ rows row rows', log = rows ++ row :: rows' ∧ notices rows = before ∧
      row.notice = some n ∧ notices rows' = after := by
  obtain ⟨rows, rest, rfl, hrows, hrest⟩ := filterMap_eq_append_iff.mp h
  obtain ⟨silent, row, rows', rfl, hsilent, hnotice, hafter⟩ := filterMap_eq_cons_iff.mp hrest
  refine ⟨rows ++ silent, row, rows', by simp, ?_, hnotice, hafter⟩
  rw [notices_append, show notices rows = before from hrows,
    show notices silent = [] from filterMap_eq_nil_iff.mpr hsilent, append_nil]

namespace OutboxEventRow

def Tells (row : OutboxEventRow) (told : Told) : Prop :=
  ∃ archive, row.notice = some (.told told archive)

def Retracts (row : OutboxEventRow) (told : Told) : Prop :=
  (∃ archive, row.notice = some (.retracted told archive)) ∧
    row.envelope.tenantId = some told.owner

def requestId (row : OutboxEventRow) : Option Uuid := row.deduplicationKey.bind (·.request)

end OutboxEventRow

/-- Nothing is told of a subject after its last tombstone, so every fact about it is before. -/
theorem before_last_tombstone (hids : log.Pairwise fun l l' => l.id < l'.id) {told : Told}
    {before after : List (Notice Told Uuid)} {archive : Uuid}
    (heq : notices log = before ++ .retracted told archive :: after)
    (hafter : ∀ n ∈ after, n.key ≠ told) :
    ∃ t ∈ log, t.notice = some (.retracted told archive) ∧
      ∀ fact ∈ log, fact.Tells told → fact.id < t.id := by
  obtain ⟨rows, t, rows', rfl, -, hnotice, hrows'⟩ := notices_eq_append_cons heq
  refine ⟨t, mem_append_right _ mem_cons_self, hnotice, ?_⟩
  rintro fact hfact ⟨archive', htells⟩
  rcases mem_append.mp hfact with hin | hin
  · exact (pairwise_append.mp hids).2.2 fact hin t mem_cons_self
  rcases mem_cons.mp hin with rfl | hin
  · rw [htells] at hnotice
    cases hnotice
  · refine absurd rfl (hafter (.told told archive') ?_)
    rw [← hrows']
    exact mem_filterMap.mpr ⟨fact, hin, htells⟩

namespace Covers

variable {log : List OutboxEventRow} {db : Database}

theorem retracts (h : Covers log db) {t : OutboxEventRow} (ht : t ∈ log) {told : Told}
    {archive : Uuid} (hnotice : t.notice = some (.retracted told archive)) : t.Retracts told :=
  ⟨⟨archive, hnotice⟩, (h.keyed.tombstones t ht told archive hnotice).1⟩

theorem stored_or_retracted (h : Covers log db) {fact : OutboxEventRow} (hfact : fact ∈ log)
    {told : Told} (htells : fact.Tells told) : (∃ a ∈ db.announcedSubjects, a.told = told ∧
      db.OwnsSubject a.accountId told.kind told.subjectId) ∨
    ∃ t ∈ log, t.Retracts told ∧ ∀ fact' ∈ log, fact'.Tells told → fact'.id < t.id := by
  obtain ⟨g, hgoverned⟩ := h.governed
  obtain ⟨archive, hnotice⟩ := htells
  have hmem : Notice.told told archive ∈ notices log :=
    mem_filterMap.mpr ⟨fact, hfact, hnotice⟩
  rcases Notice.standing_or_retracted hmem with hstanding | ⟨before, after, w, heq, hafter⟩
  · obtain ⟨value, hvalue⟩ := Option.isSome_iff_exists.mp hstanding
    obtain ⟨a, ha, rfl, -⟩ := (h.chronicle.standing told value).mpr hvalue
    exact .inl ⟨a, ha, rfl, (h.announced a ha).owns hgoverned.owned hgoverned.addressed ha⟩
  · obtain ⟨t, ht, htnotice, hbefore⟩ := before_last_tombstone h.ids heq hafter
    exact .inr ⟨t, ht, h.retracts ht htnotice, hbefore⟩

theorem tombstone_unique (h : Covers log db) {t t' : OutboxEventRow} (ht : t ∈ log)
    (ht' : t' ∈ log) {told : Told} (hretracts : t.Retracts told) (hretracts' : t'.Retracts told)
    (hrequest : t.requestId = t'.requestId) : t = t' := by
  obtain ⟨⟨archive, hnotice⟩, -⟩ := hretracts
  obtain ⟨⟨archive', hnotice'⟩, -⟩ := hretracts'
  obtain ⟨-, r, hkey⟩ := h.keyed.tombstones t ht told archive hnotice
  obtain ⟨-, r', hkey'⟩ := h.keyed.tombstones t' ht' told archive' hnotice'
  simp only [OutboxEventRow.requestId, hkey, hkey', Option.bind_some, DeduplicationKey.request,
    Option.some.injEq] at hrequest
  subst hrequest
  by_contra hne
  have hsymmetric : Std.Symm fun l l' : OutboxEventRow => ∀ key, l.deduplicationKey = some key →
      key.request.isSome → l'.deduplicationKey ≠ some key :=
    ⟨fun l l' hdistinct key hkey' hsome hkey => hdistinct key hkey hsome hkey'⟩
  exact h.keyed.distinct.forall ht ht' hne _ hkey rfl hkey'

/-- A tombstone names the archive of the fact that first told its owner of the subject: every
earlier fact about it was retracted before that one. -/
theorem first_archive (h : Covers log db) {t : OutboxEventRow} (ht : t ∈ log) {told : Told}
    {archive : Uuid} (hnotice : t.notice = some (.retracted told archive)) :
    ∃ fact ∈ log, fact.notice = some (.told told archive) ∧ fact.id < t.id ∧
      (∀ t' ∈ log, t'.Retracts told → ¬(fact.id < t'.id ∧ t'.id < t.id)) ∧
      ∀ fact' ∈ log, fact'.Tells told → fact'.id < fact.id →
        ∃ t' ∈ log, t'.Retracts told ∧ fact'.id < t'.id ∧ t'.id < fact.id := by
  obtain ⟨rows, rows', hlog⟩ := append_of_mem ht
  have hsplit : notices log = notices rows ++ .retracted told archive :: notices rows' := by
    rw [hlog, notices_append]
    exact congrArg _ (filterMap_cons_some hnotice)
  obtain ⟨before, after, heq, hnone, hafter⟩ :=
    Notice.exists_told_of_standing (h.chronicle.named told archive _ _ hsplit)
  obtain ⟨first, fact, middle, rfl, hfirst, hfact, hmiddle⟩ := notices_eq_append_cons heq
  have hids := h.ids
  rw [hlog] at hids
  obtain ⟨hrows, htail, hcross⟩ := pairwise_append.mp hids
  obtain ⟨hbefore, hfrom, hcross'⟩ := pairwise_append.mp hrows
  have hmem : ∀ row ∈ first ++ fact :: middle, row ∈ log := fun row hrow =>
    hlog ▸ mem_append_left _ hrow
  have hfactmem : fact ∈ first ++ fact :: middle := mem_append_right _ mem_cons_self
  -- a row is before the fact, the fact, between the fact and the tombstone, or from it on
  have hplace : ∀ row ∈ log, row ∈ first ∨ row = fact ∨ row ∈ middle ∨ t.id ≤ row.id := by
    intro row hrow
    rw [hlog] at hrow
    rcases mem_append.mp hrow with hrow | hrow
    · rcases mem_append.mp hrow with hrow | hrow
      · exact .inl hrow
      · exact .inr ((mem_cons.mp hrow).imp_right .inl)
    · rcases mem_cons.mp hrow with rfl | hrow
      · exact .inr (.inr (.inr (le_refl _)))
      · exact .inr (.inr (.inr (rel_of_pairwise_cons htail hrow).le))
  refine ⟨fact, hmem fact hfactmem, hfact, hcross fact hfactmem t mem_cons_self, ?_, ?_⟩
  · rintro t' ht' ⟨⟨archive', hnotice'⟩, -⟩ ⟨hlt, hlt'⟩
    rcases hplace t' ht' with hin | rfl | hin | hle
    · exact absurd (hcross' t' hin fact mem_cons_self) (Nat.lt_asymm hlt)
    · exact absurd hlt (Nat.lt_irrefl _)
    · refine hafter archive' ?_
      rw [← hmiddle]
      exact mem_filterMap.mpr ⟨t', hin, hnotice'⟩
    · exact absurd hlt' (Nat.not_lt.mpr hle)
  · rintro fact' hfact' htells hlt
    have hin : fact' ∈ first := by
      rcases hplace fact' hfact' with hin | rfl | hin | hle
      · exact hin
      · exact absurd hlt (Nat.lt_irrefl _)
      · exact absurd (rel_of_pairwise_cons hfrom hin) (Nat.lt_asymm hlt)
      · have := hcross fact hfactmem t mem_cons_self
        omega
    obtain ⟨archive', hnotice'⟩ := htells
    have htold : Notice.told told archive' ∈ before := by
      rw [← hfirst]
      exact mem_filterMap.mpr ⟨fact', hin, hnotice'⟩
    rcases Notice.standing_or_retracted htold with hsome | ⟨b, b', w, hb, hb'⟩
    · rw [hnone] at hsome
      cases hsome
    · obtain ⟨t', ht', htnotice, hlast⟩ := before_last_tombstone hbefore (hfirst.trans hb) hb'
      refine ⟨t', hmem t' (mem_append_left _ ht'), ?_,
        hlast fact' hin ⟨archive', hnotice'⟩, hcross' t' ht' fact mem_cons_self⟩
      exact h.retracts (hmem t' (mem_append_left _ ht')) htnotice

end Covers

/-- A subject that was announced to an owner is in the ledger and has its row, or a tombstone for
the owner was stored after the last fact about it; and no request stores two tombstones for one
subject and owner. -/
theorem tombstone_coverage (contracts : Contracts) (resendPolicy : TombstoneResend)
    (actions : List PumpAction) :
    let s := Pump.run contracts resendPolicy actions
    (∀ fact ∈ s.log, ∀ told, fact.Tells told →
      (∃ a ∈ s.db.announcedSubjects, a.told = told ∧
        s.db.OwnsSubject a.accountId told.kind told.subjectId) ∨
      ∃ t ∈ s.log, t.Retracts told ∧ ∀ fact' ∈ s.log, fact'.Tells told → fact'.id < t.id) ∧
    ∀ t ∈ s.log, ∀ t' ∈ s.log, ∀ told, t.Retracts told → t'.Retracts told →
      t.requestId = t'.requestId → t = t' := by
  intro s
  have hcovers : Covers s.log s.db := run_covers contracts resendPolicy actions
  exact ⟨fun fact hfact told htells => hcovers.stored_or_retracted hfact htells,
    fun t ht t' ht' told hretracts hretracts' => hcovers.tombstone_unique ht ht' hretracts hretracts'⟩

/-- A tombstone names the archive of the first fact that told its owner of the subject since the
subject was last retracted for the owner. -/
theorem tombstone_names_first_archive (contracts : Contracts) (resendPolicy : TombstoneResend)
    (actions : List PumpAction) :
    let s := Pump.run contracts resendPolicy actions
    ∀ t ∈ s.log, ∀ told archive, t.notice = some (.retracted told archive) →
      ∃ fact ∈ s.log, fact.notice = some (.told told archive) ∧ fact.id < t.id ∧
        (∀ t' ∈ s.log, t'.Retracts told → ¬(fact.id < t'.id ∧ t'.id < t.id)) ∧
        ∀ fact' ∈ s.log, fact'.Tells told → fact'.id < fact.id →
          ∃ t' ∈ s.log, t'.Retracts told ∧ fact'.id < t'.id ∧ t'.id < fact.id := by
  intro s t ht told archive hnotice
  exact (run_covers contracts resendPolicy actions).first_archive ht hnotice

def retold : List PumpAction :=
  (Event.receipt 1 0 "account" "first" ++ [Event.importRun 1 0
      (.ofRecords [] [.ofMessages "c" [.ofText "p" none "question"]]) []] ++
    Event.receipt 2 9 "account" "second" ++ [Event.importRun 2 9
      (.ofRecords [] [.ofMessages "c" [.ofText "p" none "answer"]]) []]).map
    (fun event => .transact (.work ⟨[(7, "account")], 1000000⟩ event)) ++
    [.transact (.plan 1 99 .tenant),
      .transact (.removeRows 9 ⟨"evidence", 1, "text/plain"⟩ 99)]

set_option maxRecDepth 100000 in
/-- The conversation's tombstone names the first archive, not that of the last fact about it. -/
theorem retold_not_last_archive :
    let log := (Pump.run .permissive ⟨60, 600⟩ retold).log
    ∃ t ∈ log, t.notice = some (.retracted ⟨.conversation, 4, ⟨7⟩⟩ 3) ∧
      ∃ fact ∈ log, fact.notice = some (.told ⟨.conversation, 4, ⟨7⟩⟩ 12) ∧ fact.id < t.id ∧
        ∀ fact' ∈ log, fact'.id < t.id →
          fact'.notice.map Notice.key = some ⟨.conversation, 4, ⟨7⟩⟩ → fact'.id ≤ fact.id := by
  decide +kernel

set_option maxRecDepth 100000 in
theorem retold_names_first_archive :
    ∃ t ∈ (Pump.run .permissive ⟨60, 600⟩ retold).log,
      t.notice = some (.retracted ⟨.conversation, 4, ⟨7⟩⟩ 3) ∧
      ∃ fact ∈ (Pump.run .permissive ⟨60, 600⟩ retold).log,
        fact.notice = some (.told ⟨.conversation, 4, ⟨7⟩⟩ 3) ∧ fact.id < t.id := by
  obtain ⟨t, ht, hnotice⟩ : ∃ t ∈ (Pump.run .permissive ⟨60, 600⟩ retold).log,
      t.notice = some (.retracted ⟨.conversation, 4, ⟨7⟩⟩ 3) := by decide +kernel
  obtain ⟨fact, hfact, htold, hlt, -⟩ :=
    tombstone_names_first_archive .permissive ⟨60, 600⟩ retold t ht _ _ hnotice
  exact ⟨t, ht, hnotice, fact, hfact, htold, hlt⟩

end ChatgptArchive
