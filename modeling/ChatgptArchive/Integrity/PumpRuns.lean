import ChatgptArchive.Integrity.Carried

/-!
# Runs of the pump

The invariant of the pump beside every other transaction. The books (rows, log, carry, locks and
acknowledgements) are kept by every write, whoever makes it; the control says what the pump may rely
on at its place in the pass.
-/

namespace ChatgptArchive

open Database List Carry

variable {db db' : Database} {carry carry' : Carry} {log log' : List OutboxEventRow}
  {a : Acknowledgement} {s : Pump}

/-! ## Commands of the pump -/

/-- A command of the pump is about a row that is gone, and names its chunk of what is carried for
that row. -/
def Reconciles (db : Database) (carry : Carry) : Prop :=
  ∀ row ∈ db.outboxEvents, ∀ id chunk, row.deduplicationKey = some (.reconcileErasure id chunk) →
    id < db.nextOutboxId ∧ (∀ r ∈ db.outboxEvents, r.id ≠ id) ∧
      ∀ entry, (id, entry) ∈ carry → ∃ sequences,
        (entry.sequences.toChunks 500)[chunk]? = some sequences ∧
          ∀ n ∈ sequences, Names row.envelope.payload entry.owner n

theorem Database.Continues.absent (h : db.Continues db') {id : Nat} (hlt : id < db.nextOutboxId)
    (habsent : ∀ row ∈ db.outboxEvents, row.id ≠ id) : ∀ row ∈ db'.outboxEvents, row.id ≠ id := by
  rintro row hrow rfl
  obtain ⟨old, hold, hid, -⟩ := h.rows row hrow hlt
  exact habsent old hold hid

theorem Reconciles.write (h : Reconciles db carry) (hcontinues : db.Continues db')
    (hrows : ∀ row ∈ db'.outboxEvents, row.id < db.nextOutboxId ∨
      ∀ id chunk, row.deduplicationKey ≠ some (.reconcileErasure id chunk)) :
    Reconciles db' carry := by
  intro row hrow id chunk hkey
  rcases hrows row hrow with hlt | hne
  · obtain ⟨old, hold, -, henvelope, hkey'⟩ := hcontinues.rows row hrow hlt
    obtain ⟨hid, habsent, hnames⟩ := h old hold id chunk (hkey'.trans hkey)
    exact ⟨hid.trans_le hcontinues.next_le, hcontinues.absent hid habsent, henvelope ▸ hnames⟩
  · exact absurd hkey (hne id chunk)

theorem Reconciles.carry_subset (h : Reconciles db carry) (hsub : ∀ p ∈ carry', p ∈ carry) :
    Reconciles db carry' := by
  intro row hrow id chunk hkey
  obtain ⟨hid, habsent, hnames⟩ := h row hrow id chunk hkey
  exact ⟨hid, habsent, fun entry hentry => hnames entry (hsub _ hentry)⟩

section Reconcile

variable {now : Instant} {entry : Carried} {row : OutboxEventRow}

theorem reconciled_eq (db : Database) (now : Instant) (entry : Carried) :
    Pump.reconciled db now entry = db.deliverAll ((entry.sequences.toChunks 500).zipIdx.map
      fun chunk => .emit (erasureEmission now entry.eventId entry.accountId entry.owner
        (.reconcileErasure entry.eventId) chunk)) :=
  enqueueOwnerErasure_eq_deliverAll ..

theorem mem_reconciled (h : row ∈ (Pump.reconciled db now entry).outboxEvents) :
    row ∈ db.outboxEvents ∨ ∃ chunk i id, (entry.sequences.toChunks 500)[i]? = some chunk ∧
      row = (erasureEmission now entry.eventId entry.accountId entry.owner
        (.reconcileErasure entry.eventId) (chunk, i)).row id ∧ db.nextOutboxId ≤ id := by
  rw [reconciled_eq] at h
  rcases mem_deliverAll _ h with h | ⟨e, id, he, hrow, hle, -⟩
  · exact .inl h
  · obtain ⟨⟨chunk, i⟩, hchunk, heq⟩ := mem_map.mp he
    cases heq
    exact .inr ⟨chunk, i, id, mk_mem_zipIdx_iff_getElem?.mp hchunk, hrow, hle⟩

theorem mem_reconciled_of_mem (h : row ∈ db.outboxEvents) :
    row ∈ (Pump.reconciled db now entry).outboxEvents := by
  rw [reconciled_eq]
  exact mem_deliverAll_of_mem _ h

theorem reconciled_continues (db : Database) (now : Instant) (entry : Carried) :
    db.Continues (Pump.reconciled db now entry) := by
  refine ⟨?_, fun row hrow hlt => ?_⟩
  · rw [reconciled_eq]
    exact next_le_deliverAll _ db
  · rcases mem_reconciled hrow with hrow | ⟨chunk, i, id, -, rfl, hle⟩
    · exact ⟨row, hrow, rfl, rfl, rfl⟩
    · exact absurd hlt (Nat.not_lt.mpr hle)

theorem reconciled_ordered (h : db.Ordered) (now : Instant) (entry : Carried) :
    (Pump.reconciled db now entry).Ordered := by
  have hkept : Kept (Pump.reconciled db now entry) := by
    rw [reconciled_eq]
    refine h.toKept.deliverAll fun e he => ?_
    obtain ⟨chunk, -, heq⟩ := mem_map.mp he
    cases heq
    exact erasureEmission_wellFormed ..
  refine h.of_emitted hkept (enqueueOwnerErasure_undelivered undelivered_deletions ..)
    (reconciled_continues db now entry).next_le fun row hrow => ?_
  rcases mem_reconciled hrow with hrow | ⟨chunk, i, id, -, hrow, hle⟩
  · exact .inl hrow
  · exact .inr ⟨_, id, hrow, rfl, hle⟩

/-- After a reconciliation every carried sequence of the row is in a command: a command that was
stored before names the same chunk. -/
theorem Reconciles.named (h : Reconciles db carry) (now : Instant) {id : Nat}
    (hentry : (id, entry) ∈ carry)
    (hid : entry.eventId = id) {sequence : Nat} (hsequence : sequence ∈ entry.sequences) :
    ∃ row ∈ (Pump.reconciled db now entry).outboxEvents,
      Names row.envelope.payload entry.owner sequence := by
  obtain ⟨chunk, hchunk, hmem⟩ := mem_toChunks hsequence (Nat.succ_pos 499)
  obtain ⟨i, hi, rfl⟩ := getElem_of_mem hchunk
  have hzip := mk_mem_zipIdx_iff_getElem?.mpr (getElem?_eq_getElem hi)
  obtain ⟨row, hrow, -, hnames⟩ := exists_key_deliverAll
    (P := fun envelope => Names envelope.payload entry.owner sequence) rfl _
    (mem_map_of_mem (f := fun chunk => DeliveryStep.emit (erasureEmission now entry.eventId
      entry.accountId entry.owner (.reconcileErasure entry.eventId) chunk)) hzip)
    (fun old hold hkey => by
      obtain ⟨-, -, hnames⟩ := h old hold _ _ hkey
      obtain ⟨sequences, hsequences, hnames⟩ := hnames entry (hid ▸ hentry)
      rw [getElem?_eq_getElem hi] at hsequences
      exact hnames _ (Option.some.inj hsequences ▸ hmem))
    (fun e he hkey => by
      obtain ⟨⟨chunk, n⟩, hchunk, heq⟩ := mem_map.mp he
      cases heq
      cases hkey
      have hsame := mk_mem_zipIdx_iff_getElem?.mp hchunk
      rw [getElem?_eq_getElem hi] at hsame
      exact erasureEmission_names _ _ _ _ _ (Option.some.inj hsame ▸ hmem))
  exact ⟨row, reconciled_eq db now entry ▸ hrow, hnames⟩

theorem Reconciles.reconciled (h : Reconciles db carry) (hkeys : (carry.map (·.1)).Nodup)
    {id : Nat} (hentry : (id, entry) ∈ carry) (hid : entry.eventId = id)
    (hlt : id < db.nextOutboxId) (habsent : ∀ row ∈ db.outboxEvents, row.id ≠ id) :
    Reconciles (Pump.reconciled db now entry) carry := by
  have hcontinues := reconciled_continues db now entry
  intro row hrow id' chunk hkey
  rcases mem_reconciled hrow with hold | ⟨sequences, i, n, hsequences, rfl, hle⟩
  · obtain ⟨hlt', habsent', hnames⟩ := h row hold id' chunk hkey
    exact ⟨hlt'.trans_le hcontinues.next_le, hcontinues.absent hlt' habsent', hnames⟩
  · cases hkey
    rw [hid]
    refine ⟨hlt.trans_le hcontinues.next_le, hcontinues.absent hlt habsent, fun entry' hentry' => ?_⟩
    obtain rfl : entry' = entry := by
      have hget := get?_of_mem hkeys hentry
      rw [get?_of_mem hkeys hentry'] at hget
      exact Option.some.inj hget
    exact ⟨sequences, hsequences, fun m hm => ⟨_, rfl, rfl, hm⟩⟩

end Reconcile

/-! ## The books -/

/-- A locked row is stored, and once its transaction has marked it, unpublished. -/
structure LocksKept (db : Database) (locks : List RowLock) : Prop where
  ids : (locks.map (·.id)).Nodup
  rows : ∀ lock ∈ locks, ∃ row ∈ db.outboxEvents, row.id = lock.id ∧
    (lock.mark.isSome → row.publishedAt = none)

/-- What holds of the outbox and of the pump's memory, wherever the pump stands. -/
structure Books (s : Pump) : Prop where
  ordered : s.db.Ordered
  logged : Logged s.db s.log
  carried : CarryKept s.log s.carry
  reconciles : Reconciles s.db s.carry
  locked : LocksKept s.db s.locks
  tracked : ∀ a ∈ s.acknowledged, Tracks s.log a.rowId a.owner
  accounted : ∀ a ∈ s.acknowledged, Accounted s.db s.carry s.log a

theorem Accounted.mono (h : Accounted db carry log a) (hsub : log ⊆ log')
    (hrow : ∀ row ∈ db.outboxEvents, row.id = a.rowId → a.sequence ∈ row.publishedStreamSeqs →
      Accounted db' carry' log' a)
    (hcarry : ∀ entry, carry.get? a.rowId = some entry → a.sequence ∈ entry.sequences →
      Accounted db' carry' log' a) : Accounted db' carry' log' a := by
  rcases h with ⟨row, hmem, hid, hsequence⟩ | ⟨entry, hentry, hsequence⟩ | ⟨l, hl, hnames⟩
  · exact hrow row hmem hid hsequence
  · exact hcarry entry hentry hsequence
  · exact .inr (.inr ⟨l, hsub hl, hnames⟩)

theorem Accounted.carried {entry : Carried} (hentry : carry.get? a.rowId = some entry)
    (hsequence : a.sequence ∈ entry.sequences) : Accounted db carry log a :=
  .inr (.inl ⟨entry, hentry, hsequence⟩)

namespace Books

variable {s : Pump}

theorem initial : Books Pump.initial where
  ordered := .empty
  logged := ⟨nodup_nil, forall_mem_nil _, forall_mem_nil _⟩
  carried := ⟨nodup_nil, forall_mem_nil _, forall_mem_nil _⟩
  reconciles := forall_mem_nil _
  locked := ⟨nodup_nil, forall_mem_nil _⟩
  tracked := forall_mem_nil _
  accounted := forall_mem_nil _

theorem goTo (h : Books s) (control : Control) : Books (s.goTo control) :=
  ⟨h.ordered, h.logged, h.carried, h.reconciles, h.locked, h.tracked, h.accounted⟩

theorem unlock (h : Books s) (id : Nat) : Books (s.unlock id) :=
  ⟨h.ordered, h.logged, h.carried, h.reconciles, ⟨h.locked.ids.sublist (filter_sublist.map _),
      fun lock hlock => h.locked.rows lock (mem_filter.mp hlock).1⟩, h.tracked, h.accounted⟩

/-- A write keeps the books when the locks allow it and no recorded sequence is lost by it. -/
theorem write (h : Books s) (hordered : db'.Ordered) (hcontinues : s.db.Continues db')
    (hreconciles : Reconciles db' s.carry) (hlocked : LocksKept db' s.locks)
    (hrows : ∀ a ∈ s.acknowledged, ∀ row ∈ s.db.outboxEvents, row.id = a.rowId →
      a.sequence ∈ row.publishedStreamSeqs →
        Accounted db' s.carry (s.log ++ s.db.stored db') a) : Books (s.write db') := by
  have hsub : s.log ⊆ s.log ++ s.db.stored db' := subset_append_left _ _
  exact ⟨hordered, h.logged.write hordered.toKept hcontinues, h.carried.mono hsub, hreconciles,
    hlocked, fun a ha => (h.tracked a ha).mono hsub,
    fun a ha => (h.accounted a ha).mono hsub (hrows a ha) fun _ => .carried⟩

theorem progress (h : Books s) {id : Nat} (hprogress : s.db.Progresses id db')
    (hid : ∀ lock ∈ s.locks, lock.id ≠ id) : Books (s.write db') := by
  have hcontinues := hprogress.continues
  refine h.write (h.ordered.progress hprogress) hcontinues
    (h.reconciles.write hcontinues fun row hrow => .inl ?_)
    ⟨h.locked.ids, fun lock hlock => ?_⟩ fun a ha row hrow heq hsequence => ?_
  · have hnext : db'.nextOutboxId = s.db.nextOutboxId := by rw [hprogress.eq]
    exact hnext ▸ (h.ordered.progress hprogress).fresh row hrow
  · obtain ⟨row, hrow, heq, hmark⟩ := h.locked.rows lock hlock
    exact ⟨row, (hprogress.mem_beside (heq ▸ hid lock hlock)).mpr hrow, heq, hmark⟩
  · rcases hprogress.mem_of_mem hrow with hrow | ⟨f, hf, hrow⟩
    · exact .inl ⟨row, hrow, heq, hsequence⟩
    · exact .inl ⟨f row, hrow, (hf.id row).trans heq, hf.sequences row _ hsequence⟩

theorem transact (h : Books s) (hcommits : s.db.Commits db')
    (hlocks : ∀ lock ∈ s.locks, ∃ e ∈ db'.outboxEvents, e.id = lock.id) : Books (s.write db') := by
  have hordered := h.ordered.commits hcommits
  have hcontinues := hcommits.continues
  refine h.write hordered hcontinues (h.reconciles.write hcontinues fun row hrow => ?_)
    ⟨h.locked.ids, fun lock hlock => ?_⟩ fun a ha row hrow heq hsequence => ?_
  · rcases hcommits.mem hrow with hrow | ⟨-, hkey⟩
    · exact .inl (h.ordered.fresh row hrow)
    · exact .inr hkey
  · obtain ⟨row, hrow, heq, hmark⟩ := h.locked.rows lock hlock
    obtain ⟨e, he, hid⟩ := hlocks lock hlock
    refine ⟨e, he, hid, fun hsome => ?_⟩
    rcases hcommits.mem he with he | ⟨hle, -⟩
    · rw [h.ordered.eq_of_id he hrow (hid.trans heq.symm)]
      exact hmark hsome
    · have hlt := h.ordered.fresh row hrow
      omega
  · rcases hcommits.dropped hrow with hrow | ⟨now, evidenceRef, request, hphase, hdropped⟩
    · exact .inl ⟨row, hrow, heq, hsequence⟩
    · have howner := Tracks.envelope h.logged hrow (heq ▸ h.tracked a ha)
      obtain ⟨row', hrow', hnames⟩ :=
        h.ordered.dropped_named hphase hrow hdropped howner hsequence
      have hlogged := h.logged.write hordered.toKept hcontinues
      exact .inr (.inr (hlogged.commanded hrow' hnames))

structure Orphan (s : Pump) (p : Nat × Carried) : Prop where
  mem : p ∈ s.carry
  absent : ∀ row ∈ s.db.outboxEvents, row.id ≠ p.1

theorem Orphan.lt {p : Nat × Carried} (h : Books s) (hp : Orphan s p) :
    p.1 < s.db.nextOutboxId := by
  obtain ⟨l, hl, hid, -⟩ := h.carried.owners p hp.mem
  exact hid ▸ h.logged.fresh l hl

variable (h : Books s)
include h

theorem reconcile (now : Instant) {p : Nat × Carried} (hp : Orphan s p) :
    Books (s.write (Pump.reconciled s.db now p.2)) := by
  have hcontinues := reconciled_continues s.db now p.2
  refine h.write (reconciled_ordered h.ordered now p.2) hcontinues
    (h.reconciles.reconciled h.carried.keys hp.mem (h.carried.eventIds p hp.mem) (hp.lt h)
      hp.absent) ⟨h.locked.ids, fun lock hlock => ?_⟩ fun a ha row hrow heq hsequence => ?_
  · obtain ⟨row, hrow, hrest⟩ := h.locked.rows lock hlock
    exact ⟨row, mem_reconciled_of_mem hrow, hrest⟩
  · exact .inl ⟨row, mem_reconciled_of_mem hrow, heq, hsequence⟩

theorem forget (id : Nat)
    (hsafe : ∀ a ∈ s.acknowledged, a.rowId = id → ∀ entry, (id, entry) ∈ s.carry →
      a.sequence ∈ entry.sequences → Accounted s.db (s.carry.forget id) s.log a) :
    Books { s with carry := s.carry.forget id } := by
  have hsub : ∀ p ∈ s.carry.forget id, p ∈ s.carry := fun p hp => (mem_forget.mp hp).1
  refine ⟨h.ordered, h.logged, h.carried.forget id, h.reconciles.carry_subset hsub, h.locked,
    h.tracked, fun a ha => ?_⟩
  refine (h.accounted a ha).mono (List.Subset.refl _)
    (fun row hrow heq hsequence => .inl ⟨row, hrow, heq, hsequence⟩) fun entry hentry hsequence => ?_
  have hmem := mem_of_get? hentry
  by_cases heq : a.rowId = id
  · exact hsafe a ha heq entry (heq ▸ hmem) hsequence
  · exact .carried (get?_of_mem (h.carried.forget id).keys
      (mem_forget.mpr ⟨hmem, heq⟩)) hsequence

theorem reconcile_forget (now : Instant) {p : Nat × Carried} (hp : Orphan s p) :
    Books { s.write (Pump.reconciled s.db now p.2) with carry := s.carry.forget p.1 } := by
  have hbooks := h.reconcile now hp
  refine hbooks.forget p.1 fun a ha heq entry hentry hsequence => .inr (.inr ?_)
  have hsame : entry = p.2 := by
    have hget := get?_of_mem h.carried.keys hp.mem
    rw [get?_of_mem h.carried.keys hentry] at hget
    exact Option.some.inj hget
  subst hsame
  have howner : p.2.owner = a.owner :=
    (heq ▸ h.carried.owners p hp.mem).owner_eq h.logged (h.tracked a ha)
  obtain ⟨row, hrow, hnames⟩ := h.reconciles.named now hp.mem (h.carried.eventIds p hp.mem)
    hsequence
  exact hbooks.logged.commanded hrow (howner ▸ hnames)

theorem lock {id : Nat} (hlockable : s.lockable id = true) :
    Books { s with locks := ⟨id, none⟩ :: s.locks } := by
  simp only [Pump.lockable, Pump.isLocked, Bool.and_eq_true, Bool.not_eq_true', any_eq_false,
    any_eq_true, decide_eq_true_eq] at hlockable
  obtain ⟨hfree, e, he, ⟨hid, -⟩, -⟩ := hlockable
  refine ⟨h.ordered, h.logged, h.carried, h.reconciles, ⟨?_, fun lock hlock => ?_⟩, h.tracked,
    h.accounted⟩
  · refine nodup_cons.mpr ⟨fun hmem => ?_, h.locked.ids⟩
    obtain ⟨lock, hlock, heq⟩ := mem_map.mp hmem
    exact hfree lock hlock heq
  · rcases mem_cons.mp hlock with rfl | hlock
    · exact ⟨e, he, hid, nofun⟩
    · exact h.locked.rows lock hlock

theorem setMark {id : Nat} (mark : Instant × List Nat)
    (hrow : ∃ row ∈ s.db.outboxEvents, row.id = id ∧ row.publishedAt = none) :
    Books (s.setMark id mark) := by
  refine ⟨h.ordered, h.logged, h.carried, h.reconciles, ⟨?_, fun lock hlock => ?_⟩, h.tracked,
    h.accounted⟩
  · have hids : (s.setMark id mark).locks.map (·.id) = s.locks.map (·.id) :=
      Table.map_updateWhere (by exact fun _ => rfl) _
    exact hids ▸ h.locked.ids
  · rcases Table.mem_updateWhere.mp hlock with ⟨hlock, -⟩ | ⟨old, -, hid, rfl⟩
    · exact h.locked.rows lock hlock
    · obtain ⟨row, hrow, heq, hpublished⟩ := hrow
      exact ⟨row, hrow, heq.trans (of_decide_eq_true hid).symm, fun _ => hpublished⟩

theorem acknowledge {candidate : DeliveryCandidate} {sequence : Nat}
    {sequences : List Nat} (hcandidate : candidate.Stored s.log)
    (hrow : ∃ row ∈ s.db.outboxEvents, row.id = candidate.id)
    (hok : s.carry.remember candidate sequence = some (carry', sequences)) :
    Books { s with
      carry := carry', acknowledged := s.acknowledged ++ Pump.acknowledgedBy candidate sequence } := by
  obtain ⟨hkept, hremembered⟩ := h.carried.remember h.logged hcandidate hok
  have hnew : ∀ a ∈ Pump.acknowledgedBy candidate sequence,
      a.rowId = candidate.id ∧ a.sequence = sequence ∧
        candidate.envelope.carriedOwner = some a.owner := by
    intro a ha
    obtain ⟨owner, howner, rfl⟩ := mem_map.mp ha
    exact ⟨rfl, rfl, Option.mem_toList.mp howner⟩
  refine ⟨h.ordered, h.logged, hkept, fun row hmem id chunk hkey => ?_, h.locked, fun a ha => ?_,
    fun a ha => ?_⟩
  · -- a command is about a row that is gone, so not about the candidate
    obtain ⟨hlt, habsent, hnames⟩ := h.reconciles row hmem id chunk hkey
    refine ⟨hlt, habsent, fun entry hentry => hnames entry (hremembered.beside _ hentry ?_)⟩
    rintro rfl
    obtain ⟨r, hr, hid⟩ := hrow
    exact habsent r hr hid
  · rcases mem_append.mp ha with ha | ha
    · exact h.tracked a ha
    · obtain ⟨hid, -, howner⟩ := hnew a ha
      obtain ⟨l, hl, hlid, henvelope⟩ := hcandidate
      exact ⟨l, hl, hlid.trans hid.symm, henvelope ▸ howner⟩
  · rcases mem_append.mp ha with ha | ha
    · refine (h.accounted a ha).mono (List.Subset.refl _)
        (fun row hrow heq hsequence => .inl ⟨row, hrow, heq, hsequence⟩)
        fun entry hentry hsequence => ?_
      obtain ⟨entry', hmem, hsub⟩ := hremembered.kept _ (mem_of_get? hentry)
      exact .carried (get?_of_mem hkept.keys hmem) (hsub hsequence)
    · obtain ⟨hid, hsequence, howner⟩ := hnew a ha
      obtain ⟨entry, hmem, hadded⟩ := hremembered.added _ howner
      exact .carried (get?_of_mem hkept.keys (hid ▸ hmem)) (hsequence ▸ hadded)

theorem markOf_eq {id : Nat} {mark : Option (Instant × List Nat)}
    (hlock : ⟨id, mark⟩ ∈ s.locks) : s.markOf id = mark := by
  rw [Pump.markOf, Table.find?_of_key h.locked.ids hlock (decide_eq_true rfl) fun _ =>
    of_decide_eq_true]
  rfl

omit h in
theorem mem_of_markOf {id : Nat} {mark : Instant × List Nat} (h : s.markOf id = some mark) :
    ⟨id, some mark⟩ ∈ s.locks := by
  obtain ⟨⟨lockId, lockMark⟩, hfind, hmark⟩ := Option.bind_eq_some_iff.mp h
  obtain rfl : lockId = id := by simpa using find?_some hfind
  obtain rfl : lockMark = some mark := hmark
  exact mem_of_find?_eq_some hfind

theorem land {id : Nat} {now : Instant} {sequences : List Nat} (resendAfter : Nat)
    (hmark : s.markOf id = some (now, sequences)) :
    Books ((s.write (s.db.markPublished now id sequences resendAfter)).unlock id) ∧
      ∃ row ∈ (s.db.markPublished now id sequences resendAfter).outboxEvents, row.id = id ∧
        sequences ⊆ row.publishedStreamSeqs := by
  constructor
  · refine (h.unlock id).progress (s.db.markPublished_progresses now id sequences resendAfter)
      fun lock hlock => ?_
    exact of_decide_eq_true (mem_filter.mp hlock).2
  · obtain ⟨row, hrow, hid, hpublished⟩ := h.locked.rows _ (mem_of_markOf hmark)
    have hguard : (row.id = id && row.publishedAt.isNone : Bool) = true := by
      simp [hid, hpublished rfl]
    refine ⟨_, Table.mem_updateWhere.mpr (.inr ⟨row, hrow, hguard, rfl⟩), hid, fun n hn => ?_⟩
    exact mem_ascending.mpr (mem_append_right _ hn)

end Books

/-! ## Where the pump stands -/

structure Works (s : Pump) (candidate : DeliveryCandidate) (batch : List DeliveryCandidate)
    (mark : Option (Instant × List Nat)) : Prop where
  stored : ∀ c ∈ candidate :: batch, c.Stored s.log
  lock : ⟨candidate.id, mark⟩ ∈ s.locks

def Carry.Within (carry : Carry) (id : Nat) (sequences : List Nat) : Prop :=
  ∀ entry, (id, entry) ∈ carry → entry.sequences ⊆ sequences

def ControlKept (s : Pump) : Prop :=
  match s.control with
  | .idle => True
  | .snapshotted carried => carried = s.carry
  | .reconciling orphans => (orphans.map (·.1)).Nodup ∧ ∀ p ∈ orphans, Books.Orphan s p
  | .publishing batch => ∀ c ∈ batch, c.Stored s.log
  | .locked candidate batch => Works s candidate batch none
  | .remembered candidate sequences batch =>
    Works s candidate batch none ∧ s.carry.Within candidate.id sequences
  | .marked candidate batch => ∃ now sequences, Works s candidate batch (some (now, sequences)) ∧
      s.carry.Within candidate.id sequences
  | .refused candidate batch | .resent candidate batch => ∀ c ∈ candidate :: batch, c.Stored s.log

theorem ControlKept.frame {s' : Pump} (h : ControlKept s) (hcontrol : s'.control = s.control)
    (hcarry : s'.carry = s.carry) (hlog : s.log ⊆ s'.log)
    (horphans : ∀ p, Books.Orphan s p → Books.Orphan s' p)
    (hlocks : ∀ lock ∈ s.locks, s.control.holds = some lock.id → lock ∈ s'.locks) :
    ControlKept s' := by
  have hbatch : ∀ {batch : List DeliveryCandidate}, (∀ c ∈ batch, c.Stored s.log) →
      ∀ c ∈ batch, c.Stored s'.log := fun hstored c hc => (hstored c hc).mono hlog
  unfold ControlKept at h ⊢
  rw [hcontrol, hcarry]
  cases hplace : s.control with
  | idle => trivial
  | snapshotted carried =>
    rw [hplace] at h
    exact h
  | reconciling orphans =>
    rw [hplace] at h
    exact ⟨h.1, fun p hp => horphans p (h.2 p hp)⟩
  | publishing batch =>
    rw [hplace] at h
    exact hbatch h
  | locked candidate batch =>
    rw [hplace] at h hlocks
    exact ⟨hbatch h.stored, hlocks _ h.lock rfl⟩
  | remembered candidate sequences batch =>
    rw [hplace] at h hlocks
    exact ⟨⟨hbatch h.1.stored, hlocks _ h.1.lock rfl⟩, h.2⟩
  | marked candidate batch =>
    rw [hplace] at h hlocks
    obtain ⟨now, sequences, hworks, hwithin⟩ := h
    exact ⟨now, sequences, ⟨hbatch hworks.stored, hlocks _ hworks.lock rfl⟩, hwithin⟩
  | refused candidate batch =>
    rw [hplace] at h
    exact hbatch h
  | resent candidate batch =>
    rw [hplace] at h
    exact hbatch h

theorem Books.Orphan.write {s : Pump} (h : Books s) (hcontinues : s.db.Continues db')
    {p : Nat × Carried} (hp : Books.Orphan s p) : Books.Orphan (s.write db') p :=
  ⟨hp.mem, hcontinues.absent (hp.lt h) hp.absent⟩

theorem ControlKept.write {s : Pump} (h : ControlKept s) (hbooks : Books s)
    (hcontinues : s.db.Continues db') : ControlKept (s.write db') :=
  h.frame rfl rfl (subset_append_left _ _) (fun _ hp => hp.write hbooks hcontinues)
    fun _ hlock _ => hlock

/-! ## Steps and runs -/

structure PumpKept (s : Pump) : Prop where
  books : Books s
  control : ControlKept s

theorem not_locked {id : Nat} (h : ¬ s.isLocked id = true) : ∀ lock ∈ s.locks, lock.id ≠ id := by
  simpa [Pump.isLocked] using h

namespace PumpKept

variable {s : Pump} {contracts : Contracts} {resendPolicy : TombstoneResend}

theorem initial : PumpKept Pump.initial := ⟨.initial, trivial⟩

theorem standing (h : PumpKept s) {place : Control} (hplace : s.control = place) :
    ControlKept (s.goTo place) := hplace ▸ h.control

section

variable (h : PumpKept s)
include h

/-- A delivery statement of the pump on a row that is not locked, after which it goes on. -/
theorem progressTo {id : Nat} (hprogress : s.db.Progresses id db')
    (hid : ¬ s.isLocked id = true) {batch : List DeliveryCandidate}
    (hbatch : ∀ c ∈ batch, c.Stored s.log) :
    PumpKept ((s.write db').goTo (.publishing batch)) :=
  ⟨(h.books.progress hprogress (not_locked hid)).goTo _,
    fun c hc => (hbatch c hc).mono (subset_append_left _ _)⟩

theorem transact (transaction : ServiceTransaction) :
    PumpKept (s.step contracts resendPolicy (.transact transaction)) := by
  simp only [Pump.step]
  split
  · rename_i hlocks
    have hcommits : s.db.Commits (s.db.commit contracts transaction) := commit_commits _ _ transaction
    refine ⟨h.books.transact hcommits fun lock hlock => ?_,
      h.control.write h.books hcommits.continues⟩
    have hpresent := all_eq_true.mp hlocks lock hlock
    simpa using hpresent
  · exact h

theorem acknowledge (now : Instant) (eventId : Nat) (owner : TenantRef) :
    PumpKept (s.step contracts resendPolicy (.acknowledge now eventId owner)) := by
  simp only [Pump.step]
  split
  · exact h
  · rename_i hlocked
    have hprogress := s.db.acknowledge_progresses now eventId owner
    exact ⟨h.books.progress hprogress (not_locked hlocked),
      h.control.write h.books hprogress.continues⟩

theorem queryPresent :
    PumpKept (s.step contracts resendPolicy .queryPresent) := by
  simp only [Pump.step]
  split
  · rename_i carried hplace
    have hcontrol := h.control
    rw [ControlKept, hplace] at hcontrol
    subst hcontrol
    refine ⟨h.books.goTo _, h.books.carried.keys.sublist (filter_sublist.map _), fun p hp => ?_⟩
    obtain ⟨hmem, habsent⟩ := mem_filter.mp hp
    refine ⟨hmem, fun row hrow => ?_⟩
    simp only [Bool.not_eq_true', any_eq_false, decide_eq_true_eq] at habsent
    exact habsent row hrow
  · exact h

theorem reconcile (now : Instant) (outcome : CommitOutcome) :
    PumpKept (s.step contracts resendPolicy (.reconcile now outcome)) := by
  simp only [Pump.step]
  split
  · rename_i id entry orphans hplace
    have hcontrol := h.control
    rw [ControlKept, hplace] at hcontrol
    obtain ⟨hkeys, horphans⟩ := hcontrol
    have hhead := horphans _ mem_cons_self
    rw [map_cons, nodup_cons] at hkeys
    cases outcome with
    | landed =>
      refine ⟨(h.books.reconcile_forget now hhead).goTo _, hkeys.2, fun p hp => ?_⟩
      -- the remaining orphans are other rows, so their entries stay
      have hne : p.1 ≠ id := fun heq => hkeys.1 (mem_map.mpr ⟨p, hp, heq⟩)
      have hrest := (horphans p (mem_cons_of_mem _ hp)).write h.books
        (reconciled_continues s.db now entry)
      exact ⟨mem_forget.mpr ⟨hrest.mem, hne⟩, hrest.absent⟩
    | failed => exact ⟨h.books.goTo _, trivial⟩
    | unknown => exact ⟨(h.books.reconcile now hhead).goTo _, trivial⟩
  · exact h

theorem select (now : Instant) :
    PumpKept (s.step contracts resendPolicy (.select now)) := by
  simp only [Pump.step]
  split
  · refine ⟨h.books.goTo _, fun c hc => ?_⟩
    obtain ⟨row, hrow, rfl⟩ := mem_map.mp hc
    have hrow := (mem_insertionSort _).mp (mem_of_mem_take hrow)
    exact h.books.logged.rows row (mem_filter.mp hrow).1
  · exact h

theorem lock : PumpKept (s.step contracts resendPolicy .lock) := by
  simp only [Pump.step]
  split
  · rename_i candidate batch hplace
    have hcontrol := h.standing hplace
    split
    · rename_i hlockable
      have hlockable := (Bool.and_eq_true_iff.mp hlockable).2
      exact ⟨(h.books.lock hlockable).goTo (.locked candidate batch), hcontrol, mem_cons_self⟩
    · exact h
  · exact h

theorem publish {sequence : Nat} (hsequence : sequence < 2 ^ 63) :
    PumpKept (s.step contracts resendPolicy (.publish sequence)) := by
  simp only [Pump.step]
  split
  · rename_i candidate batch hplace
    have hcontrol := h.standing hplace
    have hcandidate := hcontrol.stored _ mem_cons_self
    split
    · rename_i hnone
      -- a sequence below the bound is always remembered
      unfold remember at hnone
      rw [if_neg (Nat.not_le.mpr hsequence)] at hnone
      split at hnone <;> cases hnone
    · rename_i carry sequences hok
      obtain ⟨row, hrow, hid, -⟩ := h.books.locked.rows _ hcontrol.lock
      have hremembered := (h.books.carried.remember h.books.logged hcandidate hok).2
      exact ⟨(h.books.acknowledge hcandidate ⟨row, hrow, hid⟩ hok).goTo
        (.remembered candidate sequences batch), ⟨hcontrol.stored, hcontrol.lock⟩,
        hremembered.recorded⟩
  · exact h

theorem refuse : PumpKept (s.step contracts resendPolicy .refuse) := by
  simp only [Pump.step]
  split
  · rename_i candidate batch hplace
    have hcontrol := h.standing hplace
    exact ⟨(h.books.unlock _).goTo _, hcontrol.stored⟩
  · rename_i candidate batch hplace
    have hcontrol := h.standing hplace
    split
    · exact ⟨h.books.goTo _, hcontrol⟩
    · exact h
  · exact h

theorem mark (now : Instant) :
    PumpKept (s.step contracts resendPolicy (.mark now)) := by
  simp only [Pump.step]
  split
  · rename_i candidate sequences batch hplace
    have hcontrol := h.standing hplace
    obtain ⟨hworks, hwithin⟩ := hcontrol
    split
    · rename_i hrow
      obtain ⟨row, hrow, hguard⟩ := any_eq_true.mp hrow
      simp only [Bool.and_eq_true, decide_eq_true_eq, Option.isNone_iff_eq_none] at hguard
      refine ⟨(h.books.setMark (now, sequences) ⟨row, hrow, hguard⟩).goTo _, now, sequences,
        ⟨hworks.stored, ?_⟩, hwithin⟩
      exact Table.mem_updateWhere.mpr (.inr ⟨_, hworks.lock, decide_eq_true rfl, rfl⟩)
    · exact ⟨(h.books.unlock _).goTo _, fun c hc => hworks.stored c (mem_cons_of_mem _ hc)⟩
  · exact h

theorem commit (outcome : CommitOutcome) :
    PumpKept (s.step contracts resendPolicy (.commit outcome)) := by
  simp only [Pump.step]
  split
  · rename_i candidate batch hplace
    have hcontrol := h.standing hplace
    obtain ⟨now, sequences, hworks, hwithin⟩ := hcontrol
    have hmark := h.books.markOf_eq hworks.lock
    rw [hmark]
    cases outcome with
    | landed =>
      -- the row now records all that was carried for it
      obtain ⟨hbooks, row, hrow, hid, hrecorded⟩ := h.books.land resendPolicy.after hmark
      have hforget := hbooks.forget candidate.id fun a _ heq entry hentry hsequence =>
        .inl ⟨row, hrow, hid.trans heq.symm, hrecorded (hwithin entry hentry hsequence)⟩
      exact ⟨hforget.goTo (.publishing batch), fun c hc =>
        (hworks.stored c (mem_cons_of_mem _ hc)).mono (subset_append_left _ _)⟩
    | failed => exact ⟨(h.books.unlock _).goTo _, trivial⟩
    | unknown => exact ⟨h.books.goTo _, trivial⟩
  · exact h

theorem settle (id : Nat) (landed : Bool) :
    PumpKept (s.step contracts resendPolicy (.settle id landed)) := by
  have hkeep : s.control.holds ≠ some id → ∀ lock ∈ s.locks, s.control.holds = some lock.id →
      lock ∈ s.locks.filter fun lock => lock.id ≠ id := by
    intro hother lock hlock hholds
    refine mem_filter.mpr ⟨hlock, decide_eq_true fun heq => hother ?_⟩
    rw [hholds, heq]
  simp only [Pump.step]
  split
  · exact h
  · rename_i hother
    split
    · rename_i now sequences hmark
      have hprogress := s.db.markPublished_progresses now id sequences resendPolicy.after
      refine ⟨(h.books.land resendPolicy.after hmark).1, h.control.frame rfl rfl
        (subset_append_left _ _) (fun p hp => ?_) (hkeep hother)⟩
      have hrest := hp.write h.books hprogress.continues
      exact ⟨hrest.mem, hrest.absent⟩
    · exact ⟨h.books.unlock id, h.control.frame rfl rfl (List.Subset.refl _)
        (fun _ hp => ⟨hp.mem, hp.absent⟩) (hkeep hother)⟩

theorem step {action : PumpAction}
    (haction : ∀ sequence, action = .publish sequence → sequence < 2 ^ 63) :
    PumpKept (s.step contracts resendPolicy action) := by
  cases action with
  | transact transaction => exact h.transact transaction
  | acknowledge now eventId owner => exact h.acknowledge now eventId owner
  | snapshot =>
    simp only [Pump.step]
    split
    · exact ⟨h.books.goTo _, rfl⟩
    · exact h
  | queryPresent => exact h.queryPresent
  | reconcile now outcome => exact h.reconcile now outcome
  | select now => exact h.select now
  | oversize now =>
    simp only [Pump.step]
    split
    · rename_i candidate batch hplace
      have hcontrol := h.standing hplace
      split
      · exact h
      · rename_i hlocked
        exact h.progressTo (s.db.markUndeliverable_progresses now candidate.id) hlocked
          fun c hc => hcontrol c (mem_cons_of_mem _ hc)
    · exact h
  | skip =>
    simp only [Pump.step]
    split
    · rename_i candidate batch hplace
      have hcontrol := h.standing hplace
      split
      · exact h
      · exact ⟨h.books.goTo _, fun c hc => hcontrol c (mem_cons_of_mem _ hc)⟩
    · exact h
  | lock => exact h.lock
  | publish sequence => exact h.publish (haction sequence rfl)
  | refuse => exact h.refuse
  | recordFailure now =>
    simp only [Pump.step]
    split
    · rename_i candidate batch hplace
      have hcontrol := h.standing hplace
      split
      · exact h
      · rename_i hlocked
        have hbatch := fun c hc => hcontrol c (mem_cons_of_mem _ hc)
        split
        · exact h.progressTo (s.db.recordResendFailure_progresses now candidate.id) hlocked hbatch
        · exact h.progressTo (s.db.recordFailure_progresses now candidate.id) hlocked hbatch
    · exact h
  | mark now => exact h.mark now
  | commit outcome => exact h.commit outcome
  | resend =>
    simp only [Pump.step]
    split
    · rename_i candidate batch hplace
      have hcontrol := h.standing hplace
      split
      · exact ⟨h.books.goTo _, hcontrol⟩
      · exact h
    · exact h
  | markResent now =>
    simp only [Pump.step]
    split
    · rename_i candidate batch hplace
      have hcontrol := h.standing hplace
      split
      · exact h
      · rename_i hlocked
        exact h.progressTo (s.db.markResent_progresses now candidate.id resendPolicy) hlocked
          fun c hc => hcontrol c (mem_cons_of_mem _ hc)
    · exact h
  | abandon =>
    rw [Pump.step_abandon]
    exact ⟨h.books.goTo _, trivial⟩
  | settle id landed => exact h.settle id landed

end

theorem run (actions : List PumpAction)
    (hactions : ∀ sequence, .publish sequence ∈ actions → sequence < 2 ^ 63) :
    PumpKept (Pump.run contracts resendPolicy actions) := by
  have hcond : ∀ action ∈ actions, ∀ sequence, action = .publish sequence → sequence < 2 ^ 63 :=
    fun action hmem sequence heq => hactions sequence (heq ▸ hmem)
  exact Run.run_invariant (fun s action hs haction => hs.step haction) initial
    (Run.Meets.of_forall hcond _)

end PumpKept

/-- Every copy of a content-bearing fact that the broker acknowledged is accounted for after every
step: on its row, in the carry under its row's identity, or in an erasure command for its owner;
and the sequences on a row ascend strictly. -/
theorem acknowledged_accounted (contracts : Contracts) (resendPolicy : TombstoneResend)
    (actions : List PumpAction)
    (hbroker : ∀ sequence, .publish sequence ∈ actions → sequence < 2 ^ 63) :
    let s := Pump.run contracts resendPolicy actions
    (∀ a ∈ s.acknowledged, Accounted s.db s.carry s.log a) ∧
      ∀ row ∈ s.db.outboxEvents, row.publishedStreamSeqs.Pairwise (· < ·) := by
  have hkept : PumpKept (Pump.run contracts resendPolicy actions) := .run actions hbroker
  exact ⟨hkept.books.accounted, fun row hrow => (hkept.books.ordered.rows row hrow).ascending⟩

def lostCommit : List PumpAction :=
  (Event.receipt 1 0 "account" "first" ++ [Event.importRun 1 0
      (.ofRecords [] [.ofMessages "c" [.ofText "p" none "question"]]) []]).map
    (fun event => .transact (.work ⟨[(7, "account")], 1000000⟩ event)) ++
    [.snapshot, .queryPresent, .select 5, .lock, .publish 11, .mark 5, .commit .unknown,
      .settle 0 false, .snapshot, .queryPresent, .select 6, .lock, .publish 12, .mark 6,
      .commit .landed, .lock, .publish 13, .abandon, .settle 1 false,
      .transact (.plan 1 99 (.archive 3)),
      .transact (.removeRows 9 ⟨"evidence", 1, "text/plain"⟩ 99), .snapshot, .queryPresent,
      .reconcile 8 .landed]

set_option maxRecDepth 100000 in
theorem lostCommit_accounted :
    (Pump.run .permissive ⟨60, 600⟩ lostCommit).acknowledged.map (·.sequence) = [11, 12, 13] ∧
      ∀ a ∈ (Pump.run .permissive ⟨60, 600⟩ lostCommit).acknowledged,
        Accounted (Pump.run .permissive ⟨60, 600⟩ lostCommit).db
          (Pump.run .permissive ⟨60, 600⟩ lostCommit).carry
          (Pump.run .permissive ⟨60, 600⟩ lostCommit).log a := by
  refine ⟨by decide +kernel, (acknowledged_accounted .permissive ⟨60, 600⟩ lostCommit ?_).1⟩
  intro sequence h
  simp only [lostCommit, Event.receipt, List.cons_append, List.nil_append, List.map_cons,
    List.map_nil, List.mem_cons, reduceCtorEq, PumpAction.publish.injEq, List.not_mem_nil, or_false,
    false_or] at h
  omega

end ChatgptArchive
