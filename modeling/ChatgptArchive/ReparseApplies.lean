import ChatgptArchive.Service

/-!
# Applies of reparse plans

An apply makes its checks one after the other on the pool, stores the artifacts and only then takes
the tenant's lock, where it looks for a prior report and nothing else.
-/

namespace ChatgptArchive

inductive ApplyStage where
  | unblocked | unreported | current | verified
  deriving DecidableEq, Repr

def ApplyStage.compared : ApplyStage → Bool
  | .current | .verified => true
  | _ => false

def ApplyStage.check (db : Database) (plan : ReparsePlan) : ApplyStage → Option ApplyStage
  | .unblocked => if db.hasPriorReport plan then none else some .unreported
  | .unreported =>
    if db.currentProjection plan.exportId = plan.inputProjection then some .current else none
  | .current => if db.rawUnchanged plan then some .verified else none
  | .verified => some .verified

structure ReparseApplies where
  db : Database
  plans : List ReparsePlan
  applies : List (Nat × ReparsePlan × ApplyStage)
  deriving DecidableEq, Repr

inductive ApplyAction where
  /-- Any transaction of the service that is no reparse. -/
  | transact (transaction : ServiceTransaction)
  /-- A plan is made over the projection that was read. -/
  | plan (tenantId archiveId : Uuid) (inputProjection : List (String × Option ContentDigest))
      (registryFingerprint : List ParserId) (parsed : ParsedConversations)
      (artifacts : List BlobRef)
  /-- An apply of a plan begins: it looks for unfinished deletions of the tenant. -/
  | start (id : Nat) (plan : ReparsePlan)
  | check (id : Nat)
  /-- The transaction of an apply that has passed its checks. -/
  | commit (id : Nat) (config : ImportConfig) (now : Instant)
  deriving DecidableEq, Repr

def ServiceTransaction.isReparse : ServiceTransaction → Bool
  | .work _ (.reparse _ _ _ _ _ _ _) => true
  | _ => false

/-- The transaction writes the projection of an export that an apply has compared already, or plans
a deletion of the tenant. -/
def ServiceTransaction.disturbs (db : Database) (plan : ReparsePlan) (stage : ApplyStage) :
    ServiceTransaction → Bool
  | .work _ event => stage.compared && event.written db = some plan.exportId
  | .plan tenantId _ _ => tenantId = plan.tenantId
  | .removeRows _ _ _ | .complete _ => false

namespace ReparseApplies

def initial : ReparseApplies := { db := .empty, plans := [], applies := [] }

def without (s : ReparseApplies) (id : Nat) : List (Nat × ReparsePlan × ApplyStage) :=
  s.applies.filter fun entry => entry.1 ≠ id

def step (contracts : Contracts) (s : ReparseApplies) : ApplyAction → ReparseApplies
  | .transact transaction =>
    if transaction.isReparse then s
    else { s with db := s.db.commit contracts transaction }
  | .plan tenantId archiveId inputProjection registryFingerprint parsed artifacts =>
    match s.db.reparsePlan tenantId archiveId inputProjection
      registryFingerprint parsed artifacts with
    | .ok plan => { s with plans := plan :: s.plans }
    | .error _ => s
  | .start id plan =>
    if s.plans.contains plan && !s.db.privacyBlocked plan.tenantId then
      { s with applies := (id, plan, .unblocked) :: s.without id }
    else s
  | .check id =>
    match s.applies.lookup id with
    | none => s
    | some (plan, stage) =>
      match stage.check s.db plan with
      | some next => { s with applies := (id, plan, next) :: s.without id }
      | none => { s with applies := s.without id }
  | .commit id config now =>
    match s.applies.lookup id with
    | some (plan, .verified) =>
      { s with
        db := committed s.db
          (s.db.commitReparse contracts config.owners config.maxEventBytes now plan)
        applies := s.without id }
    | _ => s

def run (contracts : Contracts) (actions : List ApplyAction) : ReparseApplies :=
  Run.run (step contracts) initial actions

def undisturbed (s : ReparseApplies) : ApplyAction → Bool
  | .transact transaction =>
    s.applies.all fun entry => !transaction.disturbs s.db entry.2.1 entry.2.2
  | .commit id _ _ =>
    (s.applies.lookup id).all fun committing => s.applies.all fun entry =>
      entry.1 = id || !(entry.2.2.compared && entry.2.1.exportId = committing.1.exportId)
  | .plan _ _ _ _ _ _ | .start _ _ | .check _ => true

/-- The apply commits: it has passed its checks, its transaction finds no prior report and
succeeds. -/
def commits (contracts : Contracts) (s : ReparseApplies) (id : Nat) (config : ImportConfig)
    (now : Instant) (plan : ReparsePlan) : Prop :=
  s.applies.lookup id = some (plan, .verified) ∧ s.db.hasPriorReport plan = false ∧
    (s.db.commitReparse contracts config.owners config.maxEventBytes now plan).isOk = true

instance (contracts : Contracts) (s : ReparseApplies) (id : Nat) (config : ImportConfig)
    (now : Instant) (plan : ReparsePlan) : Decidable (s.commits contracts id config now plan) :=
  inferInstanceAs (Decidable (_ ∧ _ ∧ _))

end ReparseApplies

end ChatgptArchive
