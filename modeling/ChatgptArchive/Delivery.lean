import ChatgptArchive.PrivacyDeletion.Rows

/-!
# Delivering the outbox

The statements that move an outbox row between its delivery states, and the selection of the rows
a pass of the pump publishes. Instants are microseconds. The event id of a stored envelope is the
id of its row: every row holds an envelope of its own.
-/

namespace ChatgptArchive

/-- How long a published tombstone waits before it is published again, and the longest wait. -/
structure TombstoneResend where
  after : Nat
  cap : Nat
  deriving DecidableEq, Repr

structure DeliveryCandidate where
  id : Nat
  envelope : EventEnvelope
  accountId : Option Uuid
  /-- Whether the row is an already published tombstone that is published again. -/
  resend : Bool
  deriving DecidableEq, Repr

def batchSize : Nat := 32

def maxBackoffSeconds : Nat := 300

def failureBackoff (attemptCount : Nat) : Nat :=
  min (2 ^ min attemptCount 8) maxBackoffSeconds * 1000000

def due (instant : Option Instant) (now : Instant) : Bool := instant.all fun at_ => at_ ≤ now

/-- A row that a pass publishes: one that was never published, or a published tombstone whose
acknowledgement is overdue. -/
def OutboxEventRow.pending (row : OutboxEventRow) (now : Instant) : Bool :=
  row.undeliverableAt.isNone &&
    ((row.publishedAt.isNone && due row.nextAttemptAt now) ||
      (row.eventType = .subjectTombstoned && row.publishedAt.isSome &&
        row.acknowledgedAt.isNone && row.nextResendAt.any fun at_ => at_ ≤ now))

def OutboxEventRow.candidate (row : OutboxEventRow) : DeliveryCandidate :=
  { id := row.id, envelope := row.envelope, accountId := row.tenantId
    resend := row.publishedAt.isSome }

namespace Database

variable (db : Database)

def pendingRows (now : Instant) : List DeliveryCandidate :=
  -- the batch of a pass, in id order. It is chosen without a lock
  (((db.outboxEvents.filter fun e => e.pending now).insertionSort fun a b => a.id ≤ b.id).take
    batchSize).map OutboxEventRow.candidate

def updateOutbox (id : Nat) (guard : OutboxEventRow → Bool)
    (update : OutboxEventRow → OutboxEventRow) : Database :=
  { db with
    outboxEvents := Table.updateWhere (fun e => e.id = id && guard e) update db.outboxEvents }

def markPublished (now : Instant) (id : Nat) (sequences : List Nat)
    (resendAfter : Nat) : Database :=
  -- marks a first publication. The sequences are merged with the ones on the row, ascending and
  -- without duplicates. A tombstone also schedules its first resend
  db.updateOutbox id (fun e => e.publishedAt.isNone) fun e => { e with
    publishedAt := some now
    publishedStreamSeqs := ascending (e.publishedStreamSeqs ++ sequences)
    nextResendAt := if e.eventType = .subjectTombstoned then some (now + resendAfter) else none }

def markResent (now : Instant) (id : Nat) (resend : TombstoneResend) : Database :=
  -- books a resend: the wait doubles every time and never exceeds the cap
  db.updateOutbox id (fun e => e.acknowledgedAt.isNone) fun e => { e with
    nextResendAt := some (now + min (resend.after * 2 ^ min (e.resendCount + 1) 30) resend.cap)
    resendCount := e.resendCount + 1 }

def recordResendFailure (now : Instant) (id : Nat) : Database :=
  -- a republish the broker did not acknowledge is not a resend
  db.updateOutbox id (fun e => e.publishedAt.isSome && e.acknowledgedAt.isNone) fun e => { e with
    attemptCount := e.attemptCount + 1
    nextResendAt := some (now + failureBackoff e.attemptCount) }

def markUndeliverable (now : Instant) (id : Nat) : Database :=
  -- a permanent failure: the row is kept as evidence and never retried
  db.updateOutbox id (fun e => e.publishedAt.isNone && e.undeliverableAt.isNone) fun e => { e with
    undeliverableAt := some now }

def recordFailure (now : Instant) (id : Nat) : Database :=
  db.updateOutbox id (fun e => e.publishedAt.isNone) fun e => { e with
    attemptCount := e.attemptCount + 1
    nextAttemptAt := some (now + failureBackoff e.attemptCount) }

def acknowledge (now : Instant) (eventId : Nat) (owner : TenantRef) : Database :=
  -- Knowledge's acknowledgement of the tombstone with the given event id and owner. It sets
  -- `published_at` when the row has none, so an acknowledged row is never published again
  db.updateOutbox eventId (fun e => e.eventType = .subjectTombstoned && e.acknowledgedAt.isNone &&
    e.envelope.tenantId = some owner) fun e => { e with
      acknowledgedAt := some now
      publishedAt := e.publishedAt.or (some now) }

end Database

end ChatgptArchive
