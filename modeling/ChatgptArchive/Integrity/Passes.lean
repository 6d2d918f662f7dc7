import ChatgptArchive.Integrity.Requests

/-!
# A pass over its batch

One pass of the pump as `publish_rows` runs it: each candidate of the batch is marked undeliverable,
published for the first time under its lock, or published again, and the other transactions of the
service commit in between.
-/

namespace ChatgptArchive

open List OutboxEventRow

inductive OtherWrite where
  | transact (transaction : ServiceTransaction)
  | acknowledge (now : Instant) (eventId : Nat) (owner : TenantRef)

inductive BrokerReply where
  | acknowledged (sequences : List Nat)
  | refused

structure Turn where
  before : List OtherWrite
  /-- Another transaction holds the row's lock. -/
  held : Bool
  reply : BrokerReply
  /-- What commits between the end of a refused publication and its bookkeeping. -/
  between : List OtherWrite
  now : Instant

def payloadHeadroomBytes : Nat := 1024

namespace Database

section Model

variable (contracts : Contracts) (resendPolicy : TombstoneResend) (maxPayload : Nat)

def writeOther (db : Database) : OtherWrite → Database
  | .transact transaction => db.commit contracts transaction
  | .acknowledge now eventId owner => db.acknowledge now eventId owner

def writeOthers (db : Database) (others : List OtherWrite) : Database :=
  others.foldl (writeOther contracts) db

def publishable (db : Database) (id : Nat) : Bool :=
  db.outboxEvents.any fun e => e.id = id && e.publishedAt.isNone && e.undeliverableAt.isNone

def publishRow (db : Database) (candidate : DeliveryCandidate) (turn : Turn) : Database :=
  let db := db.writeOthers contracts turn.before
  if maxPayload - payloadHeadroomBytes < contracts.serializedLen candidate.envelope then
    db.markUndeliverable turn.now candidate.id
  else if candidate.resend then
    match turn.reply with
    | .acknowledged _ => db.markResent turn.now candidate.id resendPolicy
    | .refused => db.recordResendFailure turn.now candidate.id
  else if turn.held || !db.publishable candidate.id then db
  else match turn.reply with
    | .acknowledged sequences =>
      db.markPublished turn.now candidate.id sequences resendPolicy.after
    | .refused => (db.writeOthers contracts turn.between).recordFailure turn.now candidate.id

def publishRows (db : Database) (turns : List (DeliveryCandidate × Turn)) : Database :=
  turns.foldl (fun db turn => db.publishRow contracts resendPolicy maxPayload turn.1 turn.2) db

end Model

/-! ## What others do to a row -/

def LeftAlone (old row : OutboxEventRow) : Prop :=
  row = old ∨ row.id = old.id ∧ row.envelope = old.envelope ∧ row.publishedAt.isSome ∧
    row.acknowledgedAt.isSome

structure LeavesRows (db db' : Database) : Prop where
  next_le : db.nextOutboxId ≤ db'.nextOutboxId
  rows : ∀ row ∈ db'.outboxEvents, row.id < db.nextOutboxId →
    ∃ old ∈ db.outboxEvents, LeftAlone old row

section LeavesRows

variable {db db' db'' : Database}

theorem LeftAlone.id {old row : OutboxEventRow} (h : LeftAlone old row) : row.id = old.id := by
  rcases h with rfl | h
  · rfl
  · exact h.1

theorem LeavesRows.refl (db : Database) : db.LeavesRows db :=
  ⟨Nat.le_refl _, fun row hrow _ => ⟨row, hrow, .inl rfl⟩⟩

theorem LeavesRows.trans (h : db.LeavesRows db') (h' : db'.LeavesRows db'') :
    db.LeavesRows db'' := by
  refine ⟨h.next_le.trans h'.next_le, fun row hrow hlt => ?_⟩
  obtain ⟨mid, hmid, hleft'⟩ := h'.rows row hrow (hlt.trans_le h.next_le)
  obtain ⟨old, hold, hleft⟩ := h.rows mid hmid (hleft'.id ▸ hlt)
  refine ⟨old, hold, ?_⟩
  rcases hleft' with rfl | ⟨hid', henvelope', hacked⟩
  · exact hleft
  · rcases hleft with rfl | ⟨hid, henvelope, -⟩
    · exact .inr ⟨hid', henvelope', hacked⟩
    · exact .inr ⟨hid'.trans hid, henvelope'.trans henvelope, hacked⟩

theorem leavesRows_writeOther (contracts : Contracts) (db : Database) (other : OtherWrite) :
    db.LeavesRows (db.writeOther contracts other) := by
  cases other with
  | transact transaction =>
    have hcommits := db.commit_commits contracts transaction
    refine ⟨hcommits.next_le, fun row hrow hlt => ?_⟩
    rcases hcommits.mem hrow with hrow | ⟨hle, -⟩
    · exact ⟨row, hrow, .inl rfl⟩
    · exact absurd hlt (Nat.not_lt.mpr hle)
  | acknowledge now eventId owner =>
    refine ⟨Nat.le_refl _, fun row hrow _ => ?_⟩
    rcases Table.mem_updateWhere.mp hrow with ⟨hrow, -⟩ | ⟨old, hold, -, rfl⟩
    · exact ⟨row, hrow, .inl rfl⟩
    · refine ⟨old, hold, .inr ⟨rfl, rfl, ?_, rfl⟩⟩
      show (old.publishedAt.or (some now)).isSome = true
      cases old.publishedAt <;> rfl

theorem leavesRows_writeOthers (contracts : Contracts) (db : Database) (others : List OtherWrite) :
    db.LeavesRows (db.writeOthers contracts others) := by
  induction others generalizing db with
  | nil => exact .refl db
  | cons other others ih => exact (db.leavesRows_writeOther contracts other).trans (ih _)

end LeavesRows

/-! ## One turn -/

/-- A row the batch was chosen with: a first publication is unpublished, or acknowledged by now. -/
def Awaits (candidate : DeliveryCandidate) (row : OutboxEventRow) : Prop :=
  row.envelope = candidate.envelope ∧
    if candidate.resend then row.publishedAt.isSome = true
    else row.publishedAt.isNone = true ∨ row.publishedAt.isSome = true ∧ row.acknowledgedAt.isSome

def AllRows (db : Database) (id : Nat) (P : OutboxEventRow → Prop) : Prop :=
  ∀ row ∈ db.outboxEvents, row.id = id → P row

def Stable (P : OutboxEventRow → Prop) : Prop := ∀ old row, LeftAlone old row → P old → P row

theorem stable_awaits (candidate : DeliveryCandidate) : Stable (Awaits candidate) := by
  rintro old row (rfl | ⟨-, henvelope, hpublished, hacked⟩) h
  · exact h
  · refine ⟨henvelope.trans h.1, ?_⟩
    split
    · exact hpublished
    · exact .inr ⟨hpublished, hacked⟩

theorem not_pending_of_acknowledged {row : OutboxEventRow} (hpublished : row.publishedAt.isSome)
    (hacked : row.acknowledgedAt.isSome) (now : Instant) : row.pending now = false := by
  obtain ⟨at_, hpublished⟩ := Option.isSome_iff_exists.mp hpublished
  obtain ⟨at_', hacked⟩ := Option.isSome_iff_exists.mp hacked
  simp [pending, hpublished, hacked]

theorem stable_settled (now : Instant) : Stable fun row => row.pending now = false := by
  rintro old row (rfl | ⟨-, -, hpublished, hacked⟩) h
  · exact h
  · exact not_pending_of_acknowledged hpublished hacked now

theorem AllRows.leave {db db' : Database} {id : Nat} {P : OutboxEventRow → Prop}
    (h : db.AllRows id P) (hP : Stable P) (hlt : id < db.nextOutboxId)
    (hleaves : db.LeavesRows db') : db'.AllRows id P := by
  intro row hrow hid
  obtain ⟨old, hold, hleft⟩ := hleaves.rows row hrow (hid.symm ▸ hlt)
  exact hP old row hleft (h old hold (hleft.id.symm.trans hid))

/-- A guarded update settles the rows it reaches, and those it leaves are settled before. -/
theorem AllRows.update {db : Database} {id : Nat} {P Q : OutboxEventRow → Prop}
    (h : db.AllRows id P) {guard : OutboxEventRow → Bool} {f : OutboxEventRow → OutboxEventRow}
    (hf : ∀ row, (f row).id = row.id) (hreached : ∀ row, P row → guard row = true → Q (f row))
    (hleft : ∀ row, P row → guard row = false → Q row) : (db.updateOutbox id guard f).AllRows id Q := by
  intro row hrow hid
  rcases Table.mem_updateWhere.mp hrow with ⟨hrow, hguard⟩ | ⟨old, hold, hguard, rfl⟩
  · simp only [hid, decide_true, Bool.true_and] at hguard
    exact hleft row (h row hrow hid) hguard
  · simp only [Bool.and_eq_true, decide_eq_true_eq] at hguard
    exact hreached old (h old hold ((hf old).symm.trans hid)) hguard.2

theorem AllRows.beside {db db' : Database} {id id' : Nat} {P : OutboxEventRow → Prop}
    (h : db.AllRows id' P) (hprogress : db.Progresses id db') (hne : id' ≠ id) :
    db'.AllRows id' P := by
  intro row hrow hid
  exact h row ((hprogress.mem_beside (hid.symm ▸ hne)).mp hrow) hid

section Turn

variable {contracts : Contracts} {resendPolicy : TombstoneResend} {maxPayload : Nat}
  {db : Database} {candidate : DeliveryCandidate} {turn : Turn} {now : Instant}

theorem Awaits.settled_of_published {row : OutboxEventRow} (h : Awaits candidate row)
    (hfirst : candidate.resend = false) (hpublished : row.publishedAt.isNone = false)
    (now : Instant) : row.pending now = false := by
  have hacked := h.2
  rw [if_neg (Bool.eq_false_iff.mp hfirst), hpublished] at hacked
  rcases hacked with hnone | hacked
  · cases hnone
  · exact not_pending_of_acknowledged hacked.1 hacked.2 now

theorem Awaits.published {row : OutboxEventRow} (h : Awaits candidate row)
    (hresend : candidate.resend = true) : row.publishedAt.isSome = true := by
  have hpublished := h.2
  rwa [if_pos hresend] at hpublished

theorem failureBackoff_pos (attemptCount : Nat) : 0 < failureBackoff attemptCount := by
  have hwait : 0 < min (2 ^ min attemptCount 8) maxBackoffSeconds :=
    lt_min (Nat.two_pow_pos _) (by decide)
  exact Nat.mul_pos hwait (by decide)

theorem not_pending_of_later {row : OutboxEventRow} (hpublished : row.publishedAt.isSome)
    (hlater : ∀ at_ ∈ row.nextResendAt, now < at_) : row.pending now = false := by
  obtain ⟨at_, hpublished⟩ := Option.isSome_iff_exists.mp hpublished
  have hresend : (row.nextResendAt.any fun at_ => at_ ≤ now) = false := by
    cases hnext : row.nextResendAt with
    | none => rfl
    | some next => simpa using hlater next hnext
  simp [pending, hpublished, hresend]

theorem not_pending_of_retry {row : OutboxEventRow} {next : Instant}
    (hunpublished : row.publishedAt = none) (hnext : row.nextAttemptAt = some next)
    (hlater : now < next) : row.pending now = false := by
  simp [pending, due, hunpublished, hnext, Nat.not_le.mpr hlater]

theorem settled_markUndeliverable (h : db.AllRows candidate.id (Awaits candidate))
    (hfirst : candidate.resend = false) :
    (db.markUndeliverable turn.now candidate.id).AllRows candidate.id
      fun row => row.pending now = false := by
  refine h.update (fun _ => rfl) (fun row _ _ => ?_) (fun row hrow hguard => ?_)
  · simp [pending]
  · rcases Bool.and_eq_false_iff.mp hguard with hpublished | hundeliverable
    · exact hrow.settled_of_published hfirst hpublished now
    · simp [pending, hundeliverable]

theorem settled_resend (h : db.AllRows candidate.id (Awaits candidate))
    (hresend : candidate.resend = true) (hafter : 0 < resendPolicy.after)
    (hcap : 0 < resendPolicy.cap) (hnow : now ≤ turn.now) :
    (db.markResent turn.now candidate.id resendPolicy).AllRows candidate.id
        (fun row => row.pending now = false) ∧
      (db.recordResendFailure turn.now candidate.id).AllRows candidate.id
        fun row => row.pending now = false := by
  have hacked : ∀ row, Awaits candidate row → row.acknowledgedAt.isNone = false →
      row.pending now = false := fun row hrow hguard =>
    not_pending_of_acknowledged (hrow.published hresend) (by simpa using hguard) now
  constructor
  · refine h.update (fun _ => rfl) (fun row hrow _ => ?_) hacked
    have hwait : 0 < min (resendPolicy.after * 2 ^ min (row.resendCount + 1) 30) resendPolicy.cap :=
      lt_min (Nat.mul_pos hafter (Nat.two_pow_pos _)) hcap
    refine not_pending_of_later (hrow.published hresend) fun at_ hat => ?_
    obtain rfl := Option.some.inj hat
    exact Nat.lt_of_le_of_lt hnow (Nat.lt_add_of_pos_right hwait)
  · refine h.update (fun _ => rfl) (fun row hrow _ => ?_) (fun row hrow hguard => ?_)
    · have hwait := failureBackoff_pos row.attemptCount
      refine not_pending_of_later (hrow.published hresend) fun at_ hat => ?_
      obtain rfl := Option.some.inj hat
      exact Nat.lt_of_le_of_lt hnow (Nat.lt_add_of_pos_right hwait)
    · rw [hrow.published hresend, Bool.true_and] at hguard
      exact hacked row hrow hguard

theorem settled_markPublished (h : db.AllRows candidate.id (Awaits candidate))
    (hfirst : candidate.resend = false) (hafter : 0 < resendPolicy.after) (hnow : now ≤ turn.now)
    (sequences : List Nat) :
    (db.markPublished turn.now candidate.id sequences resendPolicy.after).AllRows candidate.id
      fun row => row.pending now = false := by
  refine h.update (fun _ => rfl) (fun row _ _ => ?_)
    (fun row hrow hguard => hrow.settled_of_published hfirst hguard now)
  refine not_pending_of_later rfl fun at_ hat => ?_
  have hnext : (if row.eventType = .subjectTombstoned then some (turn.now + resendPolicy.after)
      else none) = some at_ := hat
  split at hnext
  · cases hnext
    exact Nat.lt_of_le_of_lt hnow (Nat.lt_add_of_pos_right hafter)
  · cases hnext

theorem settled_recordFailure (h : db.AllRows candidate.id (Awaits candidate))
    (hfirst : candidate.resend = false) (hnow : now ≤ turn.now) :
    (db.recordFailure turn.now candidate.id).AllRows candidate.id
      fun row => row.pending now = false := by
  refine h.update (fun _ => rfl) (fun row _ hguard => ?_)
    (fun row hrow hguard => hrow.settled_of_published hfirst hguard now)
  have hunpublished : row.publishedAt = none := Option.isNone_iff_eq_none.mp hguard
  have hwait := failureBackoff_pos row.attemptCount
  exact not_pending_of_retry hunpublished rfl
    (Nat.lt_of_le_of_lt hnow (Nat.lt_add_of_pos_right hwait))

/-- A turn publishes the row, records its failure or finds it settled. -/
theorem settled_publishRow (h : db.AllRows candidate.id (Awaits candidate))
    (hlt : candidate.id < db.nextOutboxId) (hafter : 0 < resendPolicy.after)
    (hcap : 0 < resendPolicy.cap) (hnow : now ≤ turn.now) (hheld : turn.held = false)
    (hsize : candidate.resend = true →
      contracts.serializedLen candidate.envelope ≤ maxPayload - payloadHeadroomBytes) :
    (db.publishRow contracts resendPolicy maxPayload candidate turn).AllRows candidate.id
      fun row => row.pending now = false := by
  have hbefore := db.leavesRows_writeOthers contracts turn.before
  have hlt' := hlt.trans_le hbefore.next_le
  replace h := h.leave (stable_awaits candidate) hlt hbefore
  unfold publishRow
  cases hresend : candidate.resend with
  | true =>
    rw [if_neg (Nat.not_lt.mpr (hsize hresend)), if_pos rfl]
    have hsettled := settled_resend h hresend hafter hcap hnow
    cases turn.reply with
    | acknowledged sequences => exact hsettled.1
    | refused => exact hsettled.2
  | false =>
    simp only [Bool.false_eq_true, if_false, hheld, Bool.false_or]
    split
    · exact settled_markUndeliverable h hresend
    split
    · -- nothing was published: the row is published already, or never will be
      rename_i hskipped
      intro row hrow hid
      have hclosed := any_eq_false.mp (Bool.not_eq_true' _ ▸ hskipped) row hrow
      simp only [hid, decide_true, Bool.true_and, Bool.not_eq_true] at hclosed
      rcases Bool.and_eq_false_iff.mp hclosed with hpublished | hundeliverable
      · exact (h row hrow hid).settled_of_published hresend hpublished now
      · simp [pending, hundeliverable]
    · cases turn.reply with
      | acknowledged sequences => exact settled_markPublished h hresend hafter hnow sequences
      | refused =>
        exact settled_recordFailure (h.leave (stable_awaits candidate) hlt'
          (leavesRows_writeOthers contracts _ turn.between)) hresend hnow

theorem Progresses.next_eq {db db' : Database} {id : Nat} (h : db.Progresses id db') :
    db'.nextOutboxId = db.nextOutboxId := by
  rw [h.eq]

theorem next_le_publishRow : db.nextOutboxId ≤
    (db.publishRow contracts resendPolicy maxPayload candidate turn).nextOutboxId := by
  have hbefore := (db.leavesRows_writeOthers contracts turn.before).next_le
  have hbetween := ((db.writeOthers contracts turn.before).leavesRows_writeOthers contracts
    turn.between).next_le
  unfold publishRow
  dsimp only
  split
  · exact hbefore.trans (markUndeliverable_progresses _ _ _).next_eq.ge
  split
  · cases turn.reply with
    | acknowledged sequences => exact hbefore.trans (markResent_progresses _ _ _ _).next_eq.ge
    | refused => exact hbefore.trans (recordResendFailure_progresses _ _ _).next_eq.ge
  split
  · exact hbefore
  · cases turn.reply with
    | acknowledged sequences =>
      exact hbefore.trans (markPublished_progresses _ _ _ _ _).next_eq.ge
    | refused =>
      exact (hbefore.trans hbetween).trans (recordFailure_progresses _ _ _).next_eq.ge

theorem AllRows.afterTurn {id : Nat} {P : OutboxEventRow → Prop} (h : db.AllRows id P)
    (hP : Stable P) (hlt : id < db.nextOutboxId) (hne : id ≠ candidate.id) :
    (db.publishRow contracts resendPolicy maxPayload candidate turn).AllRows id P := by
  have hbefore := db.leavesRows_writeOthers contracts turn.before
  replace h := h.leave hP hlt hbefore
  unfold publishRow
  dsimp only
  split
  · exact h.beside (markUndeliverable_progresses _ _ _) hne
  split
  · cases turn.reply with
    | acknowledged sequences => exact h.beside (markResent_progresses _ _ _ _) hne
    | refused => exact h.beside (recordResendFailure_progresses _ _ _) hne
  split
  · exact h
  · cases turn.reply with
    | acknowledged sequences => exact h.beside (markPublished_progresses _ _ _ _ _) hne
    | refused =>
      have hbetween := (db.writeOthers contracts turn.before).leavesRows_writeOthers contracts
        turn.between
      exact (h.leave hP (hlt.trans_le hbefore.next_le) hbetween).beside
        (recordFailure_progresses _ _ _) hne

end Turn

/-! ## The batch -/

section Batch

variable {contracts : Contracts} {resendPolicy : TombstoneResend} {maxPayload : Nat}
  {db : Database} {now : Instant}

theorem AllRows.afterTurns {turns : List (DeliveryCandidate × Turn)} {id : Nat}
    {P : OutboxEventRow → Prop} (h : db.AllRows id P) (hP : Stable P) (hlt : id < db.nextOutboxId)
    (hne : id ∉ turns.map (·.1.id)) :
    (db.publishRows contracts resendPolicy maxPayload turns).AllRows id P := by
  induction turns generalizing db with
  | nil => exact h
  | cons turn turns ih =>
    rw [map_cons, mem_cons, not_or] at hne
    exact ih (h.afterTurn hP hlt hne.1) (hlt.trans_le next_le_publishRow) hne.2

theorem settled_publishRows {turns : List (DeliveryCandidate × Turn)}
    (hids : (turns.map (·.1.id)).Nodup)
    (hawaits : ∀ turn ∈ turns, db.AllRows turn.1.id (Awaits turn.1) ∧ turn.1.id < db.nextOutboxId)
    (hafter : 0 < resendPolicy.after) (hcap : 0 < resendPolicy.cap)
    (hnow : ∀ turn ∈ turns, now ≤ turn.2.now) (hsize : ∀ turn ∈ turns, turn.1.resend = true →
      contracts.serializedLen turn.1.envelope ≤ maxPayload - payloadHeadroomBytes) :
    ∀ turn ∈ turns, turn.2.held = false →
      (db.publishRows contracts resendPolicy maxPayload turns).AllRows turn.1.id
        fun row => row.pending now = false := by
  induction turns generalizing db with
  | nil => exact fun _ h => absurd h not_mem_nil
  | cons turn turns ih =>
    obtain ⟨hnew, hids⟩ := nodup_cons.mp hids
    have hturn := hawaits turn mem_cons_self
    intro other hother hheld
    rcases mem_cons.mp hother with rfl | hother
    · have hsettled := settled_publishRow hturn.1 hturn.2 hafter hcap
        (hnow _ mem_cons_self) hheld (hsize _ mem_cons_self)
      -- the later turns leave the settled row alone
      exact hsettled.afterTurns (stable_settled now) (hturn.2.trans_le next_le_publishRow) hnew
    · refine ih hids (fun t ht => ?_) (fun t ht => hnow t (mem_cons_of_mem _ ht))
        (fun t ht => hsize t (mem_cons_of_mem _ ht)) other hother hheld
      -- and this turn leaves the candidates of the later ones
      have hne : t.1.id ≠ turn.1.id := fun heq =>
        hnew (mem_map.mpr ⟨t, ht, heq⟩)
      have hlater := hawaits t (mem_cons_of_mem _ ht)
      exact ⟨hlater.1.afterTurn (stable_awaits _) hlater.2 hne,
        hlater.2.trans_le next_le_publishRow⟩

theorem mem_pendingRows {candidate : DeliveryCandidate} (h : candidate ∈ db.pendingRows now) :
    ∃ row ∈ db.outboxEvents, row.pending now = true ∧ row.candidate = candidate := by
  obtain ⟨row, hrow, hcandidate⟩ := mem_map.mp h
  have hpending := (mem_insertionSort _).mp (mem_of_mem_take hrow)
  exact ⟨row, (mem_filter.mp hpending).1, (mem_filter.mp hpending).2, hcandidate⟩

theorem nodup_pendingRows (hids : (db.outboxEvents.map (·.id)).Nodup) (now : Instant) :
    ((db.pendingRows now).map (·.id)).Nodup := by
  rw [pendingRows, map_map]
  apply ((perm_insertionSort _ _).map _).nodup_iff.mpr _ |>.sublist
    ((take_sublist _ _).map _)
  exact hids.sublist (filter_sublist.map _)

theorem awaits_pendingRows (hids : (db.outboxEvents.map (·.id)).Nodup)
    {candidate : DeliveryCandidate} (h : candidate ∈ db.pendingRows now) :
    db.AllRows candidate.id (Awaits candidate) := by
  obtain ⟨row, hrow, -, rfl⟩ := mem_pendingRows h
  intro other hother hid
  obtain rfl := inj_on_of_nodup_map hids hother hrow hid
  refine ⟨rfl, ?_⟩
  split
  · assumption
  · rename_i hfirst
    exact .inl (by simpa [candidate] using hfirst)

theorem mem_publishRow {row : OutboxEventRow} (hrow : row ∈ db.outboxEvents)
    (hpublished : row.publishedAt.isSome) {candidate : DeliveryCandidate}
    (hlarge : row.id = candidate.id →
      maxPayload - payloadHeadroomBytes < contracts.serializedLen candidate.envelope) :
    row ∈ (db.publishRow contracts resendPolicy maxPayload candidate
      ⟨[], false, .refused, [], now⟩).outboxEvents := by
  by_cases hid : row.id = candidate.id
  · rw [publishRow, if_pos (hlarge hid)]
    refine Table.mem_updateWhere.mpr (.inl ⟨hrow, ?_⟩)
    simp [Option.isNone_eq_false_iff.mpr hpublished]
  · unfold publishRow
    dsimp only
    split
    · exact ((markUndeliverable_progresses _ _ _).mem_beside hid).mpr hrow
    split
    · exact ((recordResendFailure_progresses _ _ _).mem_beside hid).mpr hrow
    split
    · exact hrow
    · exact ((recordFailure_progresses _ _ _).mem_beside hid).mpr hrow

theorem mem_publishRows {row : OutboxEventRow} (hpublished : row.publishedAt.isSome)
    {batch : List DeliveryCandidate} (hlarge : ∀ candidate ∈ batch, row.id = candidate.id →
      maxPayload - payloadHeadroomBytes < contracts.serializedLen candidate.envelope)
    (hrow : row ∈ db.outboxEvents) :
    row ∈ (db.publishRows contracts resendPolicy maxPayload
      (batch.map fun candidate => (candidate, ⟨[], false, .refused, [], now⟩))).outboxEvents := by
  induction batch generalizing db with
  | nil => exact hrow
  | cons candidate batch ih =>
    exact ih (fun other hother => hlarge other (mem_cons_of_mem _ hother))
      (mem_publishRow hrow hpublished (hlarge candidate mem_cons_self))

end Batch

end Database

/-- Every candidate of the batch that no other transaction held is settled after the pass, exactly
when no tombstone that is to be published again is too large for the broker by now. -/
theorem pass_settles_batch_iff (contracts : Contracts) (resendPolicy : TombstoneResend)
    (hafter : 0 < resendPolicy.after) (hcap : 0 < resendPolicy.cap) (maxPayload : Nat)
    (db : Database) (hids : (db.outboxEvents.map (·.id)).Nodup)
    (hfresh : ∀ row ∈ db.outboxEvents, row.id < db.nextOutboxId) (now : Instant) :
    (∀ turns : List Turn, turns.length = (db.pendingRows now).length →
      (∀ turn ∈ turns, now ≤ turn.now) →
      ∀ turn ∈ (db.pendingRows now).zip turns, turn.2.held = false →
      ∀ row ∈ (db.publishRows contracts resendPolicy maxPayload
        ((db.pendingRows now).zip turns)).outboxEvents,
      row.id = turn.1.id → row.pending now = false) ↔
    ∀ candidate ∈ db.pendingRows now, candidate.resend = true →
      contracts.serializedLen candidate.envelope ≤ maxPayload - payloadHeadroomBytes := by
  constructor
  · intro hmoves candidate hcandidate hresend
    by_contra hlarge
    obtain ⟨row, hrow, hpending, rfl⟩ := Database.mem_pendingRows hcandidate
    -- the broker refuses everything and nobody else writes
    let turn : Turn := ⟨[], false, .refused, [], now⟩
    have hzip : (db.pendingRows now).zip ((db.pendingRows now).map fun _ => turn) =
        (db.pendingRows now).map fun candidate => (candidate, turn) := by
      rw [List.zip, List.zipWith_map_right, List.zipWith_self]
    have hkept : row ∈ (db.publishRows contracts resendPolicy maxPayload
        ((db.pendingRows now).zip ((db.pendingRows now).map fun _ => turn))).outboxEvents := by
      rw [hzip]
      refine Database.mem_publishRows hresend (fun other hother hid => ?_) hrow
      have hsame : row.candidate = other := List.inj_on_of_nodup_map
        (Database.nodup_pendingRows hids now) hcandidate hother hid
      exact hsame ▸ Nat.not_le.mp hlarge
    have hsettled := hmoves ((db.pendingRows now).map fun _ => turn) (List.length_map _)
      (fun _ h => by obtain ⟨_, _, rfl⟩ := List.mem_map.mp h; exact Nat.le_refl _)
      (row.candidate, turn) (hzip ▸ List.mem_map_of_mem hcandidate) rfl row hkept rfl
    rw [hpending] at hsettled
    cases hsettled
  · intro hsize turns hlength hnow
    have hmem : ∀ turn ∈ (db.pendingRows now).zip turns,
        turn.1 ∈ db.pendingRows now ∧ turn.2 ∈ turns := fun turn h => List.of_mem_zip h
    refine Database.settled_publishRows ?_ (fun turn hturn => ?_) hafter hcap
      (fun turn hturn => hnow _ (hmem turn hturn).2)
      (fun turn hturn => hsize _ (hmem turn hturn).1)
    · have hmap : ((db.pendingRows now).zip turns).map (·.1) = db.pendingRows now :=
        List.map_fst_zip (Nat.le_of_eq hlength.symm)
      have hnodup := Database.nodup_pendingRows hids now
      rw [← hmap, List.map_map] at hnodup
      exact hnodup
    · obtain ⟨row, hrow, -, heq⟩ := Database.mem_pendingRows (hmem turn hturn).1
      exact ⟨Database.awaits_pendingRows hids (hmem turn hturn).1, heq ▸ hfresh row hrow⟩

def overdue : Database :=
  { Database.empty with
    outboxEvents := [{ (default : OutboxEventRow) with
      envelope := ⟨0, none, .tombstoned default⟩
      publishedAt := some 0
      nextResendAt := some 1 }]
    nextOutboxId := 1 }

def Contracts.sized : Contracts := { Contracts.permissive with serializedLen := fun _ => 2000 }

def overdueCandidate : DeliveryCandidate := ⟨0, ⟨0, none, .tombstoned default⟩, none, true⟩

def accepted : Turn := ⟨[], false, .acknowledged [7], [], 5⟩

def overdueTurns : List (DeliveryCandidate × Turn) := (overdue.pendingRows 5).zip [accepted]

theorem overdue_settled : overdueTurns.map (·.1.id) = [0] ∧
    ∀ row ∈ (overdue.publishRows .sized ⟨60, 60⟩ 4096 overdueTurns).outboxEvents,
      row.id = overdueCandidate.id → row.pending 5 = false := by
  have hbatch : overdue.pendingRows 5 = [overdueCandidate] := rfl
  have hmem : (overdueCandidate, accepted) ∈ (overdue.pendingRows 5).zip [accepted] := by
    rw [hbatch]
    exact List.mem_singleton_self _
  have hnow : ∀ turn ∈ [accepted], 5 ≤ turn.now := by simp [accepted]
  exact ⟨rfl, (pass_settles_batch_iff .sized ⟨60, 60⟩ (by decide) (by decide) 4096 overdue
    (by decide) (by decide) 5).mpr (by decide +kernel) [accepted] rfl hnow _ hmem rfl⟩

/-- The server accepts 2048 bytes by now: the tombstone is due after the pass as before. -/
theorem overdue_stays_due : overdueTurns.map (·.1.id) = [0] ∧ overdueTurns.all (!·.2.held) ∧
    ∃ row ∈ (overdue.publishRows .sized ⟨60, 60⟩ 2048 overdueTurns).outboxEvents,
      row.id = 0 ∧ row.pending 5 = true := by
  decide +kernel

end ChatgptArchive
