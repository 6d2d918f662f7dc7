import ChatgptArchive.Receiver

/-!
# One call over failing storage

A `receive` or a `resume` that runs to its end with no other call at work. Each statement of the
call can report an error of the stream, the staging file, the blob store or the database.
-/

namespace ChatgptArchive

inductive FaultPoint where
  /-- `load_run` at the start of a resume -/
  | loadRun
  /-- `File::create` -/
  | openFile
  /-- the next chunk, with so many chunks left; with none left, the flush and the sync -/
  | stream (left : Nat)
  | recordHash
  /-- `remove_file` before a receive fails its run -/
  | discardFile
  /-- the update of `fail_run` -/
  | failRun
  /-- `hash_file` -/
  | readFile
  /-- `load_run` and `mark_run` of `verify_staged` -/
  | reloadRun
  | failReloaded
  | findExportByDigest
  /-- `bind_platform_operation` -/
  | readOwner
  | insertBinding
  | markDuplicate
  | publishStaged
  | publishExport
  /-- `remove_file` after `settle_hashed` -/
  | clearFile
  | answer
  deriving DecidableEq, Repr

def Stage.faultPoint : Stage → FaultPoint
  | .accepted _ => .openFile
  | .streaming _ _ rest => .stream rest.length
  | .staged _ _ | .rehashed _ _ _ => .recordHash
  | .discarding _ => .discardFile
  | .failing _ _ => .failRun
  | .loaded _ => .readFile
  | .drifted _ _ => .reloadRun
  | .reloaded _ => .failReloaded
  | .settling _ .looking => .findExportByDigest
  | .settling _ (.binding _ _) => .readOwner
  | .settling _ (.inserting _ _ _) => .insertBinding
  | .settling _ (.marking _) => .markDuplicate
  | .settling _ .storing => .publishStaged
  | .settling _ (.publishing _) => .publishExport
  | .clearing _ => .clearFile
  | .returned _ => .answer

def Stage.remaining : Stage → Nat
  | .accepted upload => upload.chunks.length + 10
  | .streaming _ _ rest => rest.length + 9
  | .loaded _ => 9
  | .staged _ _ | .rehashed _ _ _ => 8
  | .settling _ .looking => 7
  | .settling _ .storing => 6
  | .settling _ (.publishing _) => 5
  | .settling _ (.binding _ _) => 4
  | .settling _ (.inserting _ _ _) => 3
  | .settling _ (.marking _) => 2
  | .drifted _ _ => 3
  | .discarding _ | .reloaded _ => 2
  | .failing _ _ | .clearing _ => 1
  | .returned _ => 0

namespace Call

variable (sha256 : Bytes → String) (maxArchiveBytes : Nat) (fault : FaultPoint → Bool)

def advance (s : Intake × Call) (now : Instant) : Intake × Call :=
  s.2.next sha256 maxArchiveBytes s.1 now (fault s.2.stage.faultPoint)

def receive (s : Intake) (now : Instant) (upload : Upload) (clock : List Instant) :
    Intake × Call :=
  Run.run (advance sha256 maxArchiveBytes fault) (accept s now upload) clock

def resume (s : Intake) (runId : Uuid) (clock : List Instant) : Intake × Call :=
  -- a resume. When it cannot load the run it returns with nothing done
  if fault .loadRun then (s, ⟨runId, none, false, .returned (.error (.repository .backend))⟩)
  else Run.run (advance sha256 maxArchiveBytes fault) (s, load s runId) clock

end Call

end ChatgptArchive
