import ChatgptArchive.History

/-!
# The transactions of the service

A privacy deletion is planned, removes its rows and completes in three transactions, and any other
transaction may commit between them. Transactions of one tenant are serialized by its lock, so a run
of the service is a list of committed transactions.
-/

namespace ChatgptArchive

inductive ServiceTransaction where
  | work (config : ImportConfig) (event : Event)
  | plan (tenantId requestId : Uuid) (scope : PrivacyDeletionScope)
  | removeRows (now : Instant) (evidenceRef : BlobRef) (requestId : Uuid)
  | complete (requestId : Uuid)
  deriving DecidableEq, Repr

def Event.isDeletion : Event → Bool
  | .delete .. => true
  | _ => false

def Event.origin (db : Database) : Event → Option (Uuid × Instant)
  | .importRun now runId _ _ =>
    (db.runInState ImportState.attempted runId).map fun attempt => (attempt.2.accountId, now)
  | .reparse now tenantId _ _ _ _ _ => some (tenantId, now)
  | _ => none

namespace Database

def purging (db : Database) (requestId : Uuid) : Bool :=
  (db.privacyDeletionRequests.find? fun r => r.id = requestId).any fun r => r.status = .purging

def commit (contracts : Contracts) (db : Database) : ServiceTransaction → Database
  -- the database after a transaction. A deletion consists of transactions of its own, so it is not
  -- among the other work; a request is completed only after its row phase
  | .work config event => if event.isDeletion then db else db.step contracts config event
  | .plan tenantId requestId scope =>
    match db.plan tenantId requestId scope with
    | .ok (some planned) => planned
    | _ => db
  | .removeRows now evidenceRef requestId =>
    committed db (db.removeRows contracts now evidenceRef requestId)
  | .complete requestId => if db.purging requestId then db.complete requestId else db

def stored (db db' : Database) : List OutboxEventRow :=
  db'.outboxEvents.filter fun e => db.nextOutboxId ≤ e.id

end Database

end ChatgptArchive
