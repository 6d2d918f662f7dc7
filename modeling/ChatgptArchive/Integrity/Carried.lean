import ChatgptArchive.Pump
import ChatgptArchive.Integrity.Requests

/-!
# Accounting for the copies in the stream

Every copy the broker acknowledged is on its row, in the pump's memory, or in an erasure command.
The log holds each row as it was stored, so an identity stands for one envelope for ever, also after
its row is gone.
-/

namespace ChatgptArchive

open List

variable {α : Type} {n : Nat} {log log' : List OutboxEventRow} {db : Database} {carry : Carry}

/-! ## Chunks -/

theorem toChunksGo_spec (hn : 0 < n) (xs : List α) :
    ∀ (current : Array α) (done : Array (List α)), current.size ≤ n →
      (∀ chunk ∈ done, chunk.length ≤ n) →
      (List.toChunks.go n xs current done).flatten =
          done.toList.flatten ++ (current.toList ++ xs) ∧
        ∀ chunk ∈ List.toChunks.go n xs current done, chunk.length ≤ n := by
  induction xs with
  | nil =>
    intro current done hcurrent hdone
    refine ⟨by simp [List.toChunks.go], fun chunk hchunk => ?_⟩
    have hmem : chunk ∈ done ∨ chunk = current.toList := by simpa [List.toChunks.go] using hchunk
    rcases hmem with hmem | rfl
    · exact hdone chunk hmem
    · exact hcurrent
  | cons y xs ih =>
    intro current done hcurrent hdone
    rw [List.toChunks.go]
    split
    · -- the current chunk is full
      have hfull := ih (#[].push y) (done.push current.toList) hn fun chunk hchunk => by
        rcases Array.mem_push.mp hchunk with hchunk | rfl
        · exact hdone chunk hchunk
        · exact hcurrent
      exact ⟨hfull.1.trans (by simp), hfull.2⟩
    · rename_i hroom
      have hsize : (current.push y).size ≤ n := by
        rw [Array.size_push]
        exact lt_of_le_of_ne hcurrent fun heq => hroom (beq_iff_eq.mpr heq)
      have hmore := ih (current.push y) done hsize hdone
      exact ⟨hmore.1.trans (by simp), hmore.2⟩

theorem toChunks_spec (hn : 0 < n) (xs : List α) :
    (xs.toChunks n).flatten = xs ∧ ∀ chunk ∈ xs.toChunks n, chunk.length ≤ n := by
  unfold List.toChunks
  split
  · exact ⟨rfl, nofun⟩
  · cases hn
  · rename_i x xs _
    have hgo := toChunksGo_spec hn xs #[x] #[] hn (by simp)
    exact ⟨hgo.1.trans (by simp), hgo.2⟩

theorem mem_toChunks {x : α} {xs : List α} (h : x ∈ xs) (hn : 0 < n) :
    ∃ chunk ∈ xs.toChunks n, x ∈ chunk := by
  rw [← (toChunks_spec hn xs).1] at h
  exact mem_flatten.mp h

/-! ## The carry -/

namespace Carry

variable {carry : Carry} {id : Nat} {entry : Carried}

theorem mem_of_get? (h : carry.get? id = some entry) : (id, entry) ∈ carry := by
  obtain ⟨before, after, rfl, -⟩ := List.lookup_eq_some_iff.mp h
  exact mem_append_right _ mem_cons_self

theorem get?_of_mem (hkeys : (carry.map (·.1)).Nodup) (h : (id, entry) ∈ carry) :
    carry.get? id = some entry := by
  obtain ⟨before, after, rfl⟩ := append_of_mem h
  refine List.lookup_eq_some_iff.mpr ⟨before, after, rfl, fun p hp => ?_⟩
  rw [map_append, map_cons] at hkeys
  have hne := (nodup_append.mp hkeys).2.2 p.1 (mem_map_of_mem hp) id
    mem_cons_self
  exact bne_iff_ne.mpr hne.symm

theorem mem_forget {p : Nat × Carried} : p ∈ carry.forget id ↔ p ∈ carry ∧ p.1 ≠ id := by
  simp [forget]

theorem nodup_forget (hkeys : (carry.map (·.1)).Nodup) (id : Nat) :
    ((carry.forget id).map (·.1)).Nodup :=
  hkeys.sublist (filter_sublist.map _)

end Carry

/-! ## The log -/

namespace Database

variable {db db' : Database}

/-- What every write of the system does to the outbox: the rows below the next identity were there
before, with their envelopes and keys. -/
structure Continues (db db' : Database) : Prop where
  next_le : db.nextOutboxId ≤ db'.nextOutboxId
  rows : ∀ row ∈ db'.outboxEvents, row.id < db.nextOutboxId → ∃ old ∈ db.outboxEvents,
    old.id = row.id ∧ old.envelope = row.envelope ∧ old.deduplicationKey = row.deduplicationKey

theorem Commits.continues (h : db.Commits db') : db.Continues db' := by
  refine ⟨h.next_le, fun row hrow hlt => ?_⟩
  rcases h.mem hrow with hrow | ⟨hle, -⟩
  · exact ⟨row, hrow, rfl, rfl, rfl⟩
  · exact absurd hlt (Nat.not_lt.mpr hle)

theorem Progresses.continues {id : Nat} (h : db.Progresses id db') : db.Continues db' := by
  refine ⟨by rw [h.eq], fun row hrow _ => ?_⟩
  obtain ⟨old, hold, rfl | ⟨f, hf, rfl⟩⟩ := h.mem hrow
  · exact ⟨_, hold, rfl, rfl, rfl⟩
  · exact ⟨old, hold, (hf.id old).symm, (hf.envelope old).symm, (hf.deduplicationKey old).symm⟩

end Database

structure Logged (db : Database) (log : List OutboxEventRow) : Prop where
  ids : (log.map (·.id)).Nodup
  fresh : ∀ l ∈ log, l.id < db.nextOutboxId
  rows : ∀ row ∈ db.outboxEvents, ∃ l ∈ log, l.id = row.id ∧ l.envelope = row.envelope

theorem Logged.write {db db' : Database} {log : List OutboxEventRow} (h : Logged db log)
    (hkept : Kept db') (hcontinues : db.Continues db') : Logged db' (log ++ db.stored db') := by
  have hstored : ∀ row, row ∈ db.stored db' ↔ row ∈ db'.outboxEvents ∧ db.nextOutboxId ≤ row.id :=
    fun row => by simp [Database.stored]
  refine ⟨?_, fun l hl => ?_, fun row hrow => ?_⟩
  · rw [map_append]
    refine h.ids.append (hkept.ids.sublist (filter_sublist.map _)) fun id hid hid' => ?_
    obtain ⟨l, hl, rfl⟩ := mem_map.mp hid
    obtain ⟨l', hl', heq⟩ := mem_map.mp hid'
    have hlt := h.fresh l hl
    have hle := ((hstored l').mp hl').2
    omega
  · rcases mem_append.mp hl with hl | hl
    · exact (h.fresh l hl).trans_le hcontinues.next_le
    · exact hkept.fresh l ((hstored l).mp hl).1
  · rcases Nat.lt_or_ge row.id db.nextOutboxId with hlt | hle
    · obtain ⟨old, hold, hid, henvelope, -⟩ := hcontinues.rows row hrow hlt
      obtain ⟨l, hl, hlid, hlenvelope⟩ := h.rows old hold
      exact ⟨l, mem_append_left _ hl, hlid.trans hid, hlenvelope.trans henvelope⟩
    · exact ⟨row, mem_append_right _ ((hstored row).mpr ⟨hrow, hle⟩), rfl, rfl⟩

def Tracks (log : List OutboxEventRow) (id : Nat) (owner : TenantRef) : Prop :=
  ∃ l ∈ log, l.id = id ∧ l.envelope.carriedOwner = some owner

theorem Tracks.mono {id : Nat} {owner : TenantRef} (h : Tracks log id owner) (hsub : log ⊆ log') :
    Tracks log' id owner := by
  obtain ⟨l, hl, hrest⟩ := h
  exact ⟨l, hsub hl, hrest⟩

theorem Tracks.owner_eq (hlog : Logged db log) {id : Nat} {owner owner' : TenantRef}
    (h : Tracks log id owner) (h' : Tracks log id owner') : owner = owner' := by
  obtain ⟨l, hl, hid, howner⟩ := h
  obtain ⟨l', hl', hid', howner'⟩ := h'
  obtain rfl := inj_on_of_nodup_map hlog.ids hl hl' (hid.trans hid'.symm)
  exact Option.some.inj (howner.symm.trans howner')

theorem Tracks.envelope (hlog : Logged db log) {owner : TenantRef} {row : OutboxEventRow}
    (hrow : row ∈ db.outboxEvents) (h : Tracks log row.id owner) :
    row.envelope.carriedOwner = some owner := by
  obtain ⟨l, hl, hid, howner⟩ := h
  obtain ⟨l', hl', hid', henvelope⟩ := hlog.rows row hrow
  obtain rfl := inj_on_of_nodup_map hlog.ids hl hl' (hid.trans hid'.symm)
  rwa [← henvelope]

def Names (payload : EventPayload) (owner : TenantRef) (sequence : Nat) : Prop :=
  ∃ command, payload = .streamErasureRequested command ∧ command.owner = owner ∧
    sequence ∈ command.streamSequences

def Commanded (log : List OutboxEventRow) (owner : TenantRef) (sequence : Nat) : Prop :=
  ∃ l ∈ log, Names l.envelope.payload owner sequence

theorem Logged.commanded (h : Logged db log) {row : OutboxEventRow} (hrow : row ∈ db.outboxEvents)
    {owner : TenantRef} {sequence : Nat} (hnames : Names row.envelope.payload owner sequence) :
    Commanded log owner sequence := by
  obtain ⟨l, hl, -, henvelope⟩ := h.rows row hrow
  exact ⟨l, hl, henvelope ▸ hnames⟩

/-! ## Accounts -/

/-- The copy is on its row, in the carry under its row's identity, or in an erasure command that
was enqueued for its owner. -/
def Accounted (db : Database) (carry : Carry) (log : List OutboxEventRow)
    (a : Acknowledgement) : Prop :=
  (∃ row ∈ db.outboxEvents, row.id = a.rowId ∧ a.sequence ∈ row.publishedStreamSeqs) ∨
    (∃ entry, carry.get? a.rowId = some entry ∧ a.sequence ∈ entry.sequences) ∨
      Commanded log a.owner a.sequence

structure CarryKept (log : List OutboxEventRow) (carry : Carry) : Prop where
  keys : (carry.map (·.1)).Nodup
  eventIds : ∀ p ∈ carry, p.2.eventId = p.1
  owners : ∀ p ∈ carry, Tracks log p.1 p.2.owner

theorem CarryKept.mono (h : CarryKept log carry) (hsub : log ⊆ log') : CarryKept log' carry :=
  ⟨h.keys, h.eventIds, fun p hp => (h.owners p hp).mono hsub⟩

theorem CarryKept.forget (h : CarryKept log carry) (id : Nat) : CarryKept log (carry.forget id) :=
  ⟨Carry.nodup_forget h.keys id, fun p hp => h.eventIds p (Carry.mem_forget.mp hp).1,
    fun p hp => h.owners p (Carry.mem_forget.mp hp).1⟩

def DeliveryCandidate.Stored (log : List OutboxEventRow) (c : DeliveryCandidate) : Prop :=
  ∃ l ∈ log, l.id = c.id ∧ l.envelope = c.envelope

theorem DeliveryCandidate.Stored.mono {c : DeliveryCandidate} (h : c.Stored log) (hsub : log ⊆ log') :
    c.Stored log' := by
  obtain ⟨l, hl, hrest⟩ := h
  exact ⟨l, hsub hl, hrest⟩

structure Remembered (carry : Carry) (candidate : DeliveryCandidate) (sequence : Nat)
    (carry' : Carry) (sequences : List Nat) : Prop where
  kept : ∀ p ∈ carry, ∃ entry, (p.1, entry) ∈ carry' ∧ p.2.sequences ⊆ entry.sequences
  beside : ∀ p ∈ carry', p.1 ≠ candidate.id → p ∈ carry
  added : ∀ owner, candidate.envelope.carriedOwner = some owner →
    ∃ entry, (candidate.id, entry) ∈ carry' ∧ sequence ∈ entry.sequences
  recorded : ∀ entry, (candidate.id, entry) ∈ carry' → entry.sequences ⊆ sequences

theorem CarryKept.remember {carry' : Carry} {candidate : DeliveryCandidate} {sequence : Nat}
    {sequences : List Nat} (hlog : Logged db log) (h : CarryKept log carry)
    (hcandidate : candidate.Stored log)
    (hok : carry.remember candidate sequence = some (carry', sequences)) :
    CarryKept log carry' ∧ Remembered carry candidate sequence carry' sequences := by
  obtain ⟨l, hl, hlid, henvelope⟩ := hcandidate
  unfold Carry.remember at hok
  split at hok
  · cases hok
  · split at hok
    · rename_i hnone
      obtain ⟨rfl, rfl⟩ := Prod.mk.inj (Option.some.inj hok)
      refine ⟨h, fun p hp => ⟨p.2, hp, List.Subset.refl _⟩, fun p hp _ => hp, ?_, ?_⟩
      · intro owner howner
        rw [hnone] at howner
        cases howner
      · -- a row without a carried owner has no entry
        intro entry hentry
        obtain ⟨l', hl', hid', howner⟩ := h.owners _ hentry
        obtain rfl := inj_on_of_nodup_map hlog.ids hl hl' (hlid.trans hid'.symm)
        rw [henvelope, hnone] at howner
        cases howner
    · rename_i owner howner
      have htracks : Tracks log candidate.id owner := ⟨l, hl, hlid, henvelope ▸ howner⟩
      dsimp only at hok
      generalize hcarried : (carry.get? candidate.id).getD
        { owner, eventId := candidate.id, accountId := candidate.accountId, sequences := [] } =
          carried at hok
      obtain ⟨rfl, rfl⟩ := Prod.mk.inj (Option.some.inj hok)
      -- the entry that is extended is the one in the carry, or a new and empty one
      have hold : ∀ entry, (candidate.id, entry) ∈ carry → entry = carried := by
        intro entry hentry
        rw [Carry.get?_of_mem h.keys hentry] at hcarried
        exact hcarried
      have hcarried : carried.eventId = candidate.id ∧ Tracks log candidate.id carried.owner := by
        cases hget : carry.get? candidate.id with
        | none =>
          rw [hget] at hcarried
          subst hcarried
          exact ⟨rfl, htracks⟩
        | some entry =>
          rw [hget] at hcarried
          subst hcarried
          have hmem := Carry.mem_of_get? hget
          exact ⟨h.eventIds _ hmem, h.owners _ hmem⟩
      refine ⟨⟨?_, fun p hp => ?_, fun p hp => ?_⟩, fun p hp => ?_, fun p hp hne => ?_,
        fun _ _ => ?_, fun entry hentry => ?_⟩
      · refine nodup_cons.mpr ⟨fun hmem => ?_, Carry.nodup_forget h.keys _⟩
        obtain ⟨p, hp, hid⟩ := mem_map.mp hmem
        exact (Carry.mem_forget.mp hp).2 hid
      · rcases mem_cons.mp hp with rfl | hp
        · exact hcarried.1
        · exact h.eventIds p (Carry.mem_forget.mp hp).1
      · rcases mem_cons.mp hp with rfl | hp
        · exact hcarried.2
        · exact h.owners p (Carry.mem_forget.mp hp).1
      · obtain ⟨id, entry⟩ := p
        by_cases hid : id = candidate.id
        · subst hid
          refine ⟨_, mem_cons_self, fun n hn => mem_ascending.mpr ?_⟩
          rw [hold entry hp] at hn
          exact mem_cons_of_mem _ hn
        · exact ⟨entry, mem_cons_of_mem _ (Carry.mem_forget.mpr ⟨hp, hid⟩), List.Subset.refl _⟩
      · rcases mem_cons.mp hp with rfl | hp
        · exact absurd rfl hne
        · exact (Carry.mem_forget.mp hp).1
      · exact ⟨_, mem_cons_self, mem_ascending.mpr mem_cons_self⟩
      · rcases mem_cons.mp hentry with heq | hentry
        · rw [(Prod.mk.inj heq).2]
          exact List.Subset.refl _
        · exact absurd rfl (Carry.mem_forget.mp hentry).2

/-! ## Erasure commands -/

namespace Database

variable {db db' : Database}

theorem erasureEmission_names (now : Instant) (requestRef : Uuid) (accountId : Option Uuid)
    (owner : TenantRef) (key : Nat → DeduplicationKey) {chunk : List Nat × Nat} {sequence : Nat}
    (h : sequence ∈ chunk.1) :
    Names (erasureEmission now requestRef accountId owner key chunk).envelope.payload owner
      sequence :=
  ⟨_, rfl, rfl, h⟩

theorem mem_publishedFacts {ids : List Nat} {exports : List Uuid} {row : OutboxEventRow}
    (hrow : row ∈ db.outboxEvents) (hdropped : droppedFact ids exports row = true)
    {owner : TenantRef} (howner : row.envelope.carriedOwner = some owner) {sequence : Nat}
    (hsequence : sequence ∈ row.publishedStreamSeqs) :
    (owner, sequence) ∈ db.publishedFacts ids exports := by
  obtain ⟨howner, hcontent⟩ := Option.filter_eq_some_iff.mp howner
  refine mem_flatMap.mpr ⟨row, mem_filter.mpr ⟨hrow, ?_⟩, ?_⟩
  · exact Bool.and_eq_true_iff.mpr ⟨hdropped, hcontent⟩
  · rw [howner]
    simpa using hsequence

theorem mem_erasureSteps (now : Instant) (tenantId requestId : Uuid) {facts : PublishedFacts}
    {owner : TenantRef} {sequence : Nat} (h : (owner, sequence) ∈ facts) :
    ∃ chunk ∈ ((PublishedFacts.sequencesOf facts owner).toChunks 500).zipIdx,
      sequence ∈ chunk.1 ∧ .emit (erasureEmission now requestId (some tenantId) owner
        (.streamErasure requestId owner) chunk) ∈ erasureSteps now tenantId requestId facts := by
  have hsequence : sequence ∈ PublishedFacts.sequencesOf facts owner :=
    mem_ascending.mpr (mem_map.mpr ⟨_, mem_filter.mpr ⟨h, decide_eq_true rfl⟩, rfl⟩)
  obtain ⟨chunk, hchunk, hmem⟩ := mem_toChunks hsequence (Nat.succ_pos 499)
  obtain ⟨i, hi, rfl⟩ := getElem_of_mem hchunk
  have hzip := mk_mem_zipIdx_iff_getElem?.mpr (getElem?_eq_getElem hi)
  refine ⟨_, hzip, hmem, mem_flatMap.mpr ⟨owner.user, ?_, mem_map_of_mem hzip⟩⟩
  exact mem_ascending.mpr (mem_map.mpr ⟨_, h, rfl⟩)

theorem eq_of_erasure_key {now : Instant} {evidenceRef : BlobRef}
    {request : PrivacyDeletionRequestRow} {e : Emission} {owner : TenantRef} {i : Nat}
    (h : .emit e ∈ db.retractions now evidenceRef request)
    (hkey : e.key = .streamErasure request.id owner i) :
    ∃ chunk, ((PublishedFacts.sequencesOf (db.publishedFacts
        (db.serialItemIds request.id .outboxEvent) (db.removedIds request.id .export))
          owner).toChunks 500)[i]? = some chunk ∧
      e = erasureEmission now request.id (some request.tenantId) owner
        (.streamErasure request.id owner) (chunk, i) := by
  rcases mem_append.mp h with h | h
  · obtain ⟨announcement, -, h⟩ := mem_flatMap.mp h
    rcases mem_append.mp h with h | h
    · obtain ⟨owner, -, heq⟩ := mem_map.mp h
      cases heq
      cases hkey
    · cases mem_singleton.mp h
  · obtain ⟨user, -, h⟩ := mem_flatMap.mp h
    obtain ⟨⟨chunk, n⟩, hchunk, heq⟩ := mem_map.mp h
    cases heq
    cases hkey
    exact ⟨chunk, mk_mem_zipIdx_iff_getElem?.mp hchunk, rfl⟩

/-- The keys of a request's commands are not taken before its row phase. -/
theorem Ordered.remaining_unerased (h : Ordered db) {request : PrivacyDeletionRequestRow}
    (hplanned : db.Planned request) {owner : TenantRef} {i : Nat} :
    ∀ old ∈ (db.remaining request).outboxEvents,
      old.deduplicationKey ≠ some (.streamErasure request.id owner i) := by
  intro old hold hkey
  have hsettled := h.requested old (mem_remaining hold) _ hkey request.id rfl
  exact hsettled.2 request (mem_of_find?_eq_some hplanned.1) rfl hplanned.2

/-- The sequences of a dropped fact are named by a command of the same transaction. -/
theorem Ordered.dropped_named (h : Ordered db) {now : Instant} {evidenceRef : BlobRef}
    {request : PrivacyDeletionRequestRow} (hphase : db.RowPhase now evidenceRef request db')
    {row : OutboxEventRow} (hrow : row ∈ db.outboxEvents)
    (hdropped : droppedFact (db.serialItemIds request.id .outboxEvent)
      (db.removedIds request.id .export) row = true)
    {owner : TenantRef} (howner : row.envelope.carriedOwner = some owner) {sequence : Nat}
    (hsequence : sequence ∈ row.publishedStreamSeqs) :
    ∃ row' ∈ db'.outboxEvents, Names row'.envelope.payload owner sequence := by
  obtain ⟨repairs, hrepairs, heq⟩ := hphase.delivers
  have hrows : db'.outboxEvents = _ := deliveries_frame heq fun _ => rfl
  obtain ⟨⟨chunk, i⟩, hchunk, hmem, hstep⟩ := mem_erasureSteps now request.tenantId request.id
    (mem_publishedFacts hrow hdropped howner hsequence)
  have hnew : ∀ e, .emit e ∈ db.retractions now evidenceRef request ++ repairs →
      e.key = .streamErasure request.id owner i → Names e.envelope.payload owner sequence := by
    intro e he hkey
    rcases mem_append.mp he with he | he
    · obtain ⟨chunk', hchunk', rfl⟩ := eq_of_erasure_key he hkey
      have hsame := mk_mem_zipIdx_iff_getElem?.mp hchunk
      rw [hchunk'] at hsame
      cases hsame
      exact erasureEmission_names _ _ _ _ _ hmem
    · cases hrepairs _ he
      cases hkey
  obtain ⟨row', hrow', -, hnames⟩ := exists_key_deliverAll
    (P := fun envelope => Names envelope.payload owner sequence) rfl _
    (mem_append_left repairs (mem_append_right _ hstep))
    (fun old hmem hkey => absurd hkey (h.remaining_unerased hphase.planned old hmem)) hnew
  exact ⟨row', hrows ▸ hrow', hnames⟩

end Database

end ChatgptArchive
