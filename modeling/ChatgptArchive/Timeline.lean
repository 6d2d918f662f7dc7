import ChatgptArchive.Integrity.TombstoneCoverage

/-!
# Transactions in time

The database fixes `now()` when a transaction begins, and the transaction takes its tenant's lock at
some later point: from there to its commit no other transaction of the tenant acts, so that part is
one action.
-/

namespace ChatgptArchive

def OutboxEventRow.about (row : OutboxEventRow) : Option (SubjectKind × Uuid) :=
  row.notice.map fun n => (n.key.kind, n.key.subjectId)

def OutboxEventRow.occurredAt (row : OutboxEventRow) : Instant := row.envelope.occurredAt

def Event.now : Event → Option Instant
  | .createRun now _ _ _ | .markRun now _ _ _ | .publish now _ | .importRun now _ _ _
  | .failRun now _ | .reportRun now _ | .reparse now _ _ _ _ _ _ | .delete now _ _ _ _ => some now
  | .recordHash _ _ _ | .bindOperation _ _ => none

def ServiceTransaction.now : ServiceTransaction → Option Instant
  | .work _ event => event.now
  | .removeRows now _ _ => some now
  | .plan _ _ _ | .complete _ => none

/-- The tenant a transaction adds facts for, its `now()`, and the last instant it can give one. -/
structure Stamps where
  tenantId : Uuid
  first : Instant
  last : Instant
  deriving DecidableEq, Repr

def lastRepair (now : Instant) (survivors : Survivors) : Instant :=
  -- the instant of the last repair: a millisecond after the tombstones, and a microsecond more for
  -- every repair before it
  match survivors.projects.length + survivors.conversations.length with
  | 0 => now
  | n + 1 => now + 1000 + n

def ServiceTransaction.stamps (db : Database) : ServiceTransaction → Option Stamps
  | .work _ event => (event.origin db).map fun origin => ⟨origin.1, origin.2, origin.2⟩
  | .removeRows now _ requestId =>
    (db.privacyDeletionRequests.find? fun r => r.id = requestId).map fun r =>
      ⟨r.tenantId, now, lastRepair now (db.findSurvivors requestId)⟩
  | .plan _ _ _ | .complete _ => none

/-- `opened` gives each open transaction its `now()`; `log` holds every outbox row ever stored. -/
structure Timeline where
  db : Database
  clock : Instant
  opened : List (Nat × Instant)
  log : List OutboxEventRow
  stamped : List Stamps
  deriving DecidableEq, Repr

inductive TimelineAction where
  /-- A transaction begins, some time after the last one did. -/
  | start (id : Nat) (pause : Nat)
  /-- An open transaction takes its lock, does its work and commits. -/
  | commit (id : Nat) (transaction : ServiceTransaction)
  deriving DecidableEq, Repr

namespace Timeline

def initial : Timeline := { db := .empty, clock := 0, opened := [], log := [], stamped := [] }

def committed (contracts : Contracts) (s : Timeline) (id : Nat) (transaction : ServiceTransaction) :
    Timeline :=
  let db := s.db.commit contracts transaction
  { s with
    db := db
    opened := s.opened.filter fun entry => entry.1 ≠ id
    log := s.log ++ s.db.stored db
    stamped := s.stamped ++
      if (s.db.stored db).isEmpty then [] else (transaction.stamps s.db).toList }

def step (contracts : Contracts) (s : Timeline) : TimelineAction → Timeline
  | .start id pause =>
    if (s.opened.lookup id).isSome then s
    else
      { s with
        clock := s.clock + pause + 1
        opened := (id, s.clock + pause + 1) :: s.opened }
  | .commit id transaction =>
    match s.opened.lookup id with
    | none => s
    | some began =>
      if transaction.now.all (· = began) then committed contracts s id transaction else s

def run (contracts : Contracts) (actions : List TimelineAction) : Timeline :=
  Run.run (step contracts) initial actions

/-- No transaction of the tenant that stored facts before this one gave a fact an instant after this
one's `now()`. -/
def inOrder (s : Timeline) : TimelineAction → Bool
  | .start _ _ => true
  | .commit _ transaction => (transaction.stamps s.db).all fun stamps =>
      s.stamped.all fun earlier => earlier.tenantId ≠ stamps.tenantId ∨ earlier.last ≤ stamps.first

end Timeline

end ChatgptArchive
