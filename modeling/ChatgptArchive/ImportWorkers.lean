import ChatgptArchive.History

/-!
# Import workers

A worker selects a run and reads its archive before it takes the tenant's lock, so it finishes an
attempt on a run that receipts and other workers may have moved in between. The state holds the row
each worker has selected, as it was then.
-/

namespace ChatgptArchive

def ImportState.isTerminal : ImportState → Bool
  | .completed | .partiallyCompleted | .failed | .duplicate | .quarantined => true
  | _ => false

/-- What a worker makes of the archive: the parse and its artifacts, or the error that stopped it. -/
abbrev Built := Except ReparseError (ParsedConversations × List BlobRef)

def attemptEvent (now : Instant) (selected : ImportRunRow) (built : Built) : Option Event :=
  -- the transaction that ends an attempt, by the state the run had when it was selected. A failure
  -- that repeating may cure commits nothing, and a run selected as failed is only reported
  if selected.state = .failed then some (.failRun now selected.id)
  else if selected.state.imported then some (.reportRun now selected.id)
  else match built with
    | .ok (parsed, artifacts) => some (.importRun now selected.id parsed artifacts)
    | .error e => if e.permanent then some (.failRun now selected.id) else none

structure ImportWorkers where
  db : Database
  attempts : List (Nat × ImportRunRow)
  deriving DecidableEq, Repr

inductive WorkerAction where
  | select (worker : Nat)
  | finish (worker : Nat) (config : ImportConfig) (now : Instant) (built : Built)
  | receipt (event : Event)

namespace ImportWorkers

def initial : ImportWorkers := { db := .empty, attempts := [] }

def transaction (s : ImportWorkers) : WorkerAction → Option Event
  | .select _ => none
  | .finish worker _ now built =>
    (s.attempts.lookup worker).bind fun selected => attemptEvent now selected built
  | .receipt event => if event.isReceipt then some event else none

def configOf : WorkerAction → ImportConfig
  | .finish _ config _ _ => config
  | .select _ | .receipt _ => default

def committedDb (contracts : Contracts) (s : ImportWorkers) (action : WorkerAction) : Database :=
  match s.transaction action with
  | some event => s.db.step contracts (configOf action) event
  | none => s.db

def step (contracts : Contracts) (s : ImportWorkers) (action : WorkerAction) : ImportWorkers :=
  { db := s.committedDb contracts action
    attempts := match action with
      | .select worker =>
        if (s.attempts.lookup worker).isSome then s.attempts
        else match s.db.selectPending with
          | some (selected, _) => (worker, selected) :: s.attempts
          | none => s.attempts
      | .finish worker _ _ _ => s.attempts.filter fun entry => entry.1 ≠ worker
      | .receipt _ => s.attempts }

def run (contracts : Contracts) (actions : List WorkerAction) : ImportWorkers :=
  Run.run (step contracts) initial actions

end ImportWorkers

namespace Database

def runState (db : Database) (runId : Uuid) : Option ImportState :=
  (db.importRuns.find? fun r => r.id = runId).map (·.state)

/-- An import does not commit for a run that has failed since its selection, and a receipt ends no
run that is at its end already. -/
def sparesTerminal (db : Database) : Event → Bool
  | .importRun _ runId _ _ => db.runState runId ≠ some .failed
  | .markRun _ _ expected _ => !expected.isTerminal
  | _ => true

/-- A failure is not reported for a run that was imported since its selection, nor an import for one
that failed since. -/
def reportsOutcome (db : Database) : Event → Bool
  | .failRun _ runId => !(db.runState runId).any ImportState.imported
  | .reportRun _ runId => db.runState runId ≠ some .failed
  | _ => true

end Database

end ChatgptArchive
