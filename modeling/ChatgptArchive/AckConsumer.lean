import ChatgptArchive.Integrity.UndeliveredRetractions

/-!
# The consumer of deletion acknowledgements

Knowledge answers a tombstone by a message in a durable of the broker. `deletion_ack/consumer.rs`
records each delivery in the outbox and settles the message. A settlement can be lost, and an update
can be committed although it reported an error: then the message is delivered again.
-/

namespace ChatgptArchive

open List

structure DeletionAcknowledged where
  acknowledgedEventId : Nat
  owner : TenantRef
  refused : Bool
  deriving DecidableEq, Repr

/-- An event envelope; `payload` is what it holds when that is an acknowledgement. -/
structure AckEnvelope where
  eventType : String
  producer : String
  payload : Option DeletionAcknowledged
  deriving DecidableEq, Repr

abbrev AckMessage := Option AckEnvelope

inductive AckApplication where
  | applied | refused | unmatched
  deriving DecidableEq, Repr

inductive Handling where
  | terminate
  | applied (application : AckApplication)
  | retry
  deriving DecidableEq, Repr

structure AckSummary where
  applied : Nat
  refused : Nat
  ignored : Nat
  terminated : Nat
  retried : Nat
  deriving DecidableEq, Repr

def AckSummary.default : AckSummary := ⟨0, 0, 0, 0, 0⟩

def AckMessage.acknowledgement (message : AckMessage) : Option DeletionAcknowledged := do
  let envelope ← message
  if envelope.eventType ≠ "knowledge.deletion.acknowledged.v1" ||
    envelope.producer ≠ "ratatoskr-knowledge" then none
  envelope.payload

def DeletionAcknowledged.names (ack : DeletionAcknowledged) (e : OutboxEventRow) : Bool :=
  e.id = ack.acknowledgedEventId && (e.eventType = .subjectTombstoned && e.acknowledgedAt.isNone &&
    e.envelope.tenantId = some ack.owner)

def Database.ackApplication (db : Database) (ack : DeletionAcknowledged) : AckApplication :=
  if db.outboxEvents.any ack.names then if ack.refused then .refused else .applied
  else .unmatched

def AckSummary.count (summary : AckSummary) : Handling → AckSummary
  | .terminate => { summary with terminated := summary.terminated + 1 }
  | .applied .applied => { summary with applied := summary.applied + 1 }
  | .applied .refused => { summary with refused := summary.refused + 1 }
  | .applied .unmatched => { summary with ignored := summary.ignored + 1 }
  | .retry => { summary with retried := summary.retried + 1 }

def Handling.counted (message : AckMessage) : Handling → List DeletionAcknowledged
  | .applied .applied | .applied .refused => message.acknowledgement.toList
  | _ => []

/-- The unsettled messages of the durable and the summary of the session, beside the pump. -/
structure AckConsumer where
  pump : Pump
  messages : List AckMessage
  summary : AckSummary
  deriving DecidableEq, Repr

inductive AckAction where
  | arrive (message : AckMessage)
  | deliver (index : Nat) (now : Instant) (outcome : CommitOutcome) (settles : Bool)
  | connect
  | beside (action : PumpAction)
  deriving DecidableEq, Repr

namespace AckConsumer

section Model

variable (contracts : Contracts) (resendPolicy : TombstoneResend)

def handle (now : Instant) (outcome : CommitOutcome) (pump : Pump) (message : AckMessage) :
    Handling × Pump :=
  match message.acknowledgement with
  | none => (.terminate, pump)
  | some ack =>
    let updated := pump.step contracts resendPolicy
      (.acknowledge now ack.acknowledgedEventId ack.owner)
    match outcome with
    | .landed => (.applied (pump.db.ackApplication ack), updated)
    | .failed => (.retry, pump)
    -- the update is committed and the call has failed
    | .unknown => (.retry, updated)

def waits (pump : Pump) (message : AckMessage) : Bool :=
  message.acknowledgement.any fun ack => pump.isLocked ack.acknowledgedEventId

def step (s : AckConsumer) : AckAction → AckConsumer
  | .arrive message => { s with messages := s.messages ++ [message] }
  | .deliver index now outcome settles =>
    match s.messages[index]? with
    | none => s
    | some message =>
      if waits s.pump message then s
      else
        let (handling, pump) := handle contracts resendPolicy now outcome s.pump message
        -- a message that is to be retried stays, and so does one whose settlement is lost
        { pump
          messages := if settles && handling ≠ .retry then s.messages.eraseIdx index else s.messages
          summary := s.summary.count handling }
  | .connect => { s with summary := .default }
  | .beside action => { s with pump := s.pump.step contracts resendPolicy action }

def initial : AckConsumer := ⟨.initial, [], .default⟩

def run (actions : List AckAction) : AckConsumer :=
  Run.run (step contracts resendPolicy) initial actions

end Model

variable {contracts : Contracts} {resendPolicy : TombstoneResend}

/-- The summary tells how many acknowledgements were counted; each is of another tombstone, which is
acknowledged or gone for good. -/
structure Counts (counted : List DeletionAcknowledged) (s : AckConsumer) : Prop where
  ordered : s.pump.db.Ordered
  distinct : (counted.map (·.acknowledgedEventId)).Nodup
  applied : s.summary.applied = counted.countP (!·.refused)
  refused : s.summary.refused = counted.countP (·.refused)
  quiet : ∀ ack ∈ counted, Quiet ack.acknowledgedEventId s.pump.db

theorem quiet_acknowledge {db : Database} (hordered : db.Ordered) (now : Instant)
    {ack : DeletionAcknowledged} {row : OutboxEventRow} (hrow : row ∈ db.outboxEvents)
    (hnames : ack.names row = true) :
    Quiet row.id (db.acknowledge now ack.acknowledgedEventId ack.owner) := by
  refine ⟨hordered.fresh row hrow, fun other hother hid => ?_⟩
  rcases Table.mem_updateWhere.mp hother with ⟨hother, hnot⟩ | ⟨old, -, -, rfl⟩
  · -- the row with this identity is the one the update has matched
    rw [hordered.eq_of_id hother hrow hid] at hnot
    exact absurd hnames (Bool.eq_false_iff.mp hnot)
  · rfl

theorem handle_moves (now : Instant) (outcome : CommitOutcome) (pump : Pump)
    (message : AckMessage) :
    Moves pump.db (handle contracts resendPolicy now outcome pump message).2.db := by
  unfold handle
  split
  · exact .same
  · cases outcome with
    | failed => exact .same
    | landed => exact step_moves ..
    | unknown => exact step_moves ..

namespace Counts

variable {s : AckConsumer} {counted : List DeletionAcknowledged} (h : Counts counted s)
include h

theorem moves {s' : AckConsumer} (hmoves : Moves s.pump.db s'.pump.db)
    (happlied : s'.summary.applied = s.summary.applied)
    (hrefused : s'.summary.refused = s.summary.refused) : Counts counted s' :=
  ⟨hmoves.ordered h.ordered, h.distinct, happlied.trans h.applied, hrefused.trans h.refused,
    fun ack hack => (h.quiet ack hack).moves hmoves⟩

/-- An acknowledgement is counted when it finds a tombstone that was not acknowledged before. -/
theorem answered (now : Instant) {pump : Pump} {ack : DeletionAcknowledged}
    (hdb : pump.db = s.pump.db.acknowledge now ack.acknowledgedEventId ack.owner)
    (hany : s.pump.db.outboxEvents.any ack.names = true) (messages : List AckMessage) :
    Counts (ack :: counted)
      ⟨pump, messages, s.summary.count (.applied (s.pump.db.ackApplication ack))⟩ := by
  have hmoves : Moves s.pump.db pump.db := hdb ▸ .progresses (s.pump.db.acknowledge_progresses ..)
  obtain ⟨row, hrow, hnames⟩ := any_eq_true.mp hany
  have hnamed : row.id = ack.acknowledgedEventId ∧ row.acknowledgedAt = none := by
    simp [DeletionAcknowledged.names, Option.isNone_iff_eq_none] at hnames
    exact ⟨hnames.1, hnames.2.1.2⟩
  have hfresh : ack.acknowledgedEventId ∉ counted.map (·.acknowledgedEventId) := by
    intro hmem
    obtain ⟨earlier, hearlier, heq⟩ := mem_map.mp hmem
    -- the tombstone of an acknowledgement that was counted is acknowledged
    have hacknowledged := (h.quiet earlier hearlier).acknowledged row hrow (hnamed.1.trans heq.symm)
    simp [hnamed.2] at hacknowledged
  have happlication : s.pump.db.ackApplication ack = if ack.refused then .refused else .applied :=
    if_pos hany
  refine ⟨hmoves.ordered h.ordered, nodup_cons.mpr ⟨hfresh, h.distinct⟩, ?_, ?_,
    forall_mem_cons.mpr ⟨hnamed.1 ▸ hdb ▸ quiet_acknowledge h.ordered now hrow hnames,
      fun earlier hearlier => (h.quiet earlier hearlier).moves hmoves⟩⟩
  · rw [happlication, countP_cons, ← h.applied]
    cases ack.refused <;> rfl
  · rw [happlication, countP_cons, ← h.refused]
    cases ack.refused <;> rfl

theorem deliver (now : Instant) (outcome : CommitOutcome) {message : AckMessage}
    (hwaits : ¬waits s.pump message = true) (messages : List AckMessage) :
    let handled := handle contracts resendPolicy now outcome s.pump message
    Counts (handled.1.counted message ++ counted)
      ⟨handled.2, messages, s.summary.count handled.1⟩ := by
  intro handled
  have hmoves : Moves s.pump.db handled.2.db := handle_moves ..
  cases hack : message.acknowledgement with
  | none =>
    have hhandled : handled.1 = .terminate := by simp only [handled, handle, hack]
    rw [hhandled]
    exact h.moves hmoves rfl rfl
  | some ack =>
    cases outcome with
    | failed | unknown =>
      have hhandled : handled.1 = .retry := by simp only [handled, handle, hack]
      rw [hhandled]
      exact h.moves hmoves rfl rfl
    | landed =>
      have hfree : s.pump.isLocked ack.acknowledgedEventId = false := by
        simpa [waits, hack] using hwaits
      have hhandled : handled.1 = .applied (s.pump.db.ackApplication ack) := by
        simp only [handled, handle, hack]
      have hdb : handled.2.db = s.pump.db.acknowledge now ack.acknowledgedEventId ack.owner := by
        simp [handled, handle, hack, Pump.step, hfree, Pump.write]
      rw [hhandled]
      by_cases hany : s.pump.db.outboxEvents.any ack.names = true
      · have hcounted := h.answered now hdb hany messages
        cases hrefused : ack.refused <;>
          simpa [Database.ackApplication, hany, hrefused, Handling.counted, hack] using hcounted
      · have hunmatched : s.pump.db.ackApplication ack = .unmatched := if_neg hany
        rw [hunmatched]
        exact h.moves hmoves rfl rfl

end Counts

end AckConsumer

end ChatgptArchive
