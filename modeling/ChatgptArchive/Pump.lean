import ChatgptArchive.Delivery
import ChatgptArchive.Service

/-!
# The pump

One pump process publishes the outbox, pass after pass, while every other transaction of the service
commits in between. A first publication holds its row's lock from before the publish until its
commit lands, fails, or is given up with an unknown outcome: then the lock stays until the database
settles it. `log` and `acknowledged` record what was ever stored and acknowledged.
-/

namespace ChatgptArchive

def EventEnvelope.carriedOwner (envelope : EventEnvelope) : Option TenantRef :=
  envelope.tenantId.filter fun _ => contentBearing envelope.payload.eventType

structure Carried where
  owner : TenantRef
  eventId : Nat
  accountId : Option Uuid
  sequences : List Nat
  deriving DecidableEq, Repr

abbrev Carry := List (Nat × Carried)

namespace Carry

def get? (carry : Carry) (id : Nat) : Option Carried := List.lookup id carry

def forget (carry : Carry) (id : Nat) : Carry := carry.filter fun entry => entry.1 ≠ id

def remember (carry : Carry) (candidate : DeliveryCandidate) (sequence : Nat) :
    Option (Carry × List Nat) :=
  -- notes an acknowledgement and returns every sequence the row must record when its mark lands.
  -- Only the content-bearing facts are carried. A sequence above the column's range is an error
  if 2 ^ 63 ≤ sequence then none
  else match candidate.envelope.carriedOwner with
    | none => some (carry, [sequence])
    | some owner =>
      let carried := (carry.get? candidate.id).getD
        { owner, eventId := candidate.id, accountId := candidate.accountId, sequences := [] }
      let sequences := ascending (sequence :: carried.sequences)
      some ((candidate.id, { carried with sequences }) :: carry.forget candidate.id, sequences)

end Carry

structure RowLock where
  id : Nat
  mark : Option (Instant × List Nat)
  deriving DecidableEq, Repr

inductive Control where
  | idle
  | snapshotted (carried : Carry)
  | reconciling (orphans : Carry)
  | publishing (batch : List DeliveryCandidate)
  | locked (candidate : DeliveryCandidate) (batch : List DeliveryCandidate)
  | remembered (candidate : DeliveryCandidate) (sequences : List Nat)
      (batch : List DeliveryCandidate)
  | marked (candidate : DeliveryCandidate) (batch : List DeliveryCandidate)
  | refused (candidate : DeliveryCandidate) (batch : List DeliveryCandidate)
  | resent (candidate : DeliveryCandidate) (batch : List DeliveryCandidate)
  deriving DecidableEq, Repr

def Control.holds : Control → Option Nat
  | .locked candidate _ | .remembered candidate _ _ | .marked candidate _ => some candidate.id
  | _ => none

structure Acknowledgement where
  rowId : Nat
  owner : TenantRef
  sequence : Nat
  deriving DecidableEq, Repr

structure Pump where
  db : Database
  carry : Carry
  locks : List RowLock
  control : Control
  log : List OutboxEventRow
  acknowledged : List Acknowledgement
  deriving DecidableEq, Repr

/-- What the pump learns of a commit: it landed, it failed, or the connection was lost before the
answer. -/
inductive CommitOutcome where
  | landed | failed | unknown
  deriving DecidableEq, Repr

inductive PumpAction where
  | transact (transaction : ServiceTransaction)
  | acknowledge (now : Instant) (eventId : Nat) (owner : TenantRef)
  | snapshot
  | queryPresent
  | reconcile (now : Instant) (outcome : CommitOutcome)
  | select (now : Instant)
  | oversize (now : Instant)
  | skip
  | lock
  | publish (sequence : Nat)
  | refuse
  | recordFailure (now : Instant)
  | mark (now : Instant)
  | commit (outcome : CommitOutcome)
  | resend
  | markResent (now : Instant)
  | abandon
  | settle (id : Nat) (landed : Bool)
  deriving DecidableEq, Repr

namespace Pump

def initial : Pump :=
  { db := .empty, carry := [], locks := [], control := .idle, log := [], acknowledged := [] }

def write (s : Pump) (db : Database) : Pump :=
  { s with
    db := db
    log := s.log ++ s.db.stored db }

def isLocked (s : Pump) (id : Nat) : Bool := s.locks.any fun lock => lock.id = id

def unlock (s : Pump) (id : Nat) : Pump :=
  { s with locks := s.locks.filter fun lock => lock.id ≠ id }

def setMark (s : Pump) (id : Nat) (mark : Instant × List Nat) : Pump :=
  { s with
    locks := Table.updateWhere (fun lock => lock.id = id)
      (fun lock => { lock with mark := some mark }) s.locks }

def goTo (s : Pump) (control : Control) : Pump := { s with control }

def markOf (s : Pump) (id : Nat) : Option (Instant × List Nat) :=
  (s.locks.find? fun lock => lock.id = id).bind (·.mark)

def reconciled (db : Database) (now : Instant) (entry : Carried) : Database :=
  Database.enqueueOwnerErasure now entry.eventId entry.accountId entry.owner
    (.reconcileErasure entry.eventId) db (entry.sequences.toChunks 500).zipIdx

def lockable (s : Pump) (id : Nat) : Bool :=
  !s.isLocked id &&
    s.db.outboxEvents.any fun e => e.id = id && e.publishedAt.isNone && e.undeliverableAt.isNone

def acknowledgedBy (candidate : DeliveryCandidate) (sequence : Nat) : List Acknowledgement :=
  candidate.envelope.carriedOwner.toList.map fun owner =>
    { rowId := candidate.id, owner, sequence }

variable (contracts : Contracts) (resendPolicy : TombstoneResend)

def step (s : Pump) : PumpAction → Pump
  -- one step of the system. An action that its state does not allow does nothing. A statement that
  -- meets a row lock waits, so it is not allowed while the lock is held
  | .transact transaction =>
    let db := s.db.commit contracts transaction
    if s.locks.all fun lock => db.outboxEvents.any fun e => e.id = lock.id then s.write db else s
  | .acknowledge now eventId owner =>
    if s.isLocked eventId then s else s.write (s.db.acknowledge now eventId owner)
  | .snapshot =>
    match s.control with
    | .idle => s.goTo (.snapshotted s.carry)
    | _ => s
  | .queryPresent =>
    match s.control with
    | .snapshotted carried => s.goTo (.reconciling
        (carried.filter fun entry => !s.db.outboxEvents.any fun e => e.id = entry.1))
    | _ => s
  | .reconcile now outcome =>
    match s.control with
    | .reconciling ((id, entry) :: orphans) =>
      match outcome with
      | .landed =>
        let s := s.write (reconciled s.db now entry)
        { s with
          carry := s.carry.forget id
          control := .reconciling orphans }
      | .failed => s.goTo .idle
      | .unknown => (s.write (reconciled s.db now entry)).goTo .idle
    | _ => s
  | .select now =>
    match s.control with
    | .reconciling [] => s.goTo (.publishing (s.db.pendingRows now))
    | _ => s
  | .oversize now =>
    match s.control with
    | .publishing (candidate :: batch) =>
      if s.isLocked candidate.id then s
      else (s.write (s.db.markUndeliverable now candidate.id)).goTo (.publishing batch)
    | _ => s
  | .skip =>
    match s.control with
    | .publishing (candidate :: batch) =>
      if candidate.resend then s else s.goTo (.publishing batch)
    | _ => s
  | .lock =>
    match s.control with
    | .publishing (candidate :: batch) =>
      if !candidate.resend && s.lockable candidate.id then
        { s with
          locks := ⟨candidate.id, none⟩ :: s.locks
          control := .locked candidate batch }
      else s
    | _ => s
  | .publish sequence =>
    match s.control with
    | .locked candidate batch =>
      let s := { s with acknowledged := s.acknowledged ++ acknowledgedBy candidate sequence }
      match s.carry.remember candidate sequence with
      | none => (s.unlock candidate.id).goTo .idle
      | some (carry, sequences) =>
        { s with
          carry
          control := .remembered candidate sequences batch }
    | _ => s
  | .refuse =>
    match s.control with
    | .locked candidate batch => (s.unlock candidate.id).goTo (.refused candidate batch)
    | .publishing (candidate :: batch) =>
      if candidate.resend then s.goTo (.refused candidate batch) else s
    | _ => s
  | .recordFailure now =>
    match s.control with
    | .refused candidate batch =>
      if s.isLocked candidate.id then s
      else (s.write (if candidate.resend then s.db.recordResendFailure now candidate.id
          else s.db.recordFailure now candidate.id)).goTo (.publishing batch)
    | _ => s
  | .mark now =>
    match s.control with
    | .remembered candidate sequences batch =>
      if s.db.outboxEvents.any fun e => e.id = candidate.id && e.publishedAt.isNone then
        (s.setMark candidate.id (now, sequences)).goTo (.marked candidate batch)
      else (s.unlock candidate.id).goTo (.publishing batch)
    | _ => s
  | .commit outcome =>
    match s.control with
    | .marked candidate batch =>
      match outcome, s.markOf candidate.id with
      | .landed, some (now, sequences) =>
        let s := (s.write (s.db.markPublished now candidate.id sequences
          resendPolicy.after)).unlock candidate.id
        { s with
          carry := s.carry.forget candidate.id
          control := .publishing batch }
      | .failed, _ => (s.unlock candidate.id).goTo .idle
      | _, _ => s.goTo .idle
    | _ => s
  | .resend =>
    match s.control with
    | .publishing (candidate :: batch) =>
      if candidate.resend then s.goTo (.resent candidate batch) else s
    | _ => s
  | .markResent now =>
    match s.control with
    | .resent candidate batch =>
      if s.isLocked candidate.id then s
      else (s.write (s.db.markResent now candidate.id resendPolicy)).goTo (.publishing batch)
    | _ => s
  | .abandon => s.goTo .idle
  | .settle id landed =>
    if s.control.holds = some id then s
    else match landed, s.markOf id with
      | true, some (now, sequences) =>
        (s.write (s.db.markPublished now id sequences resendPolicy.after)).unlock id
      | _, _ => s.unlock id

theorem step_abandon (s : Pump) : s.step contracts resendPolicy .abandon = s.goTo .idle := by
  simp only [step]

def run (actions : List PumpAction) : Pump :=
  Run.run (step contracts resendPolicy) initial actions

end Pump

end ChatgptArchive
