import ChatgptArchive.Integrity.Records

/-!
# Which events project a parse

Of the events other than deletions only an import and an applied reparse write the normalized
records, and they write the projection of one plan.
-/

namespace ChatgptArchive

def Event.parsed : Event → Option ParsedConversations
  | .importRun _ _ parsed _ | .reparse _ _ _ _ _ parsed _ => some parsed
  | _ => none

namespace Database

variable {db db' : Database}

def normalized (db : Database) : Database :=
  { empty with
    projects := db.projects, conversations := db.conversations, messages := db.messages
    contentParts := db.contentParts, revisions := db.revisions
    observations := db.observations, entityVersions := db.entityVersions }

theorem normalized_frame (h : db'.normalized = db.normalized) {α : Type*} {f : Database → α}
    (hf : ∀ db, f db.normalized = f db) : f db' = f db := by
  rw [← hf db', h, hf]

theorem normalized_of_records (h : db'.records = db.records) : db'.normalized = db.normalized :=
  records_frame h fun _ => rfl

theorem normalized_of_held (h : db'.held = db.held) : db'.normalized = db.normalized :=
  held_frame h fun _ => rfl

def Projects (plan : ReparsePlan) (db db' : Database) : Prop :=
  ∃ start, Sound start ∧ start.HasExport plan.exportId plan.tenantId ∧
    start.normalized = db.normalized ∧
    db'.normalized = (start.persistProjection plan).normalized

theorem recordStep_normalized (h : RecordStep none db db') : db'.normalized = db.normalized := by
  cases h with
  | same heq => exact normalized_of_held heq
  | skip heq => exact (normalized_of_held heq).trans rfl
  | createRun | insertExport | updateRuns | insertArtifact => rfl
  | write _ hwritten _ => cases hwritten

theorem records_normalized (h : Records none db db') : db'.normalized = db.normalized := by
  refine h.preserves (P := fun db' => db'.normalized = db.normalized) rfl ?_
  intro db₁ db₂ hstep heq
  exact (recordStep_normalized hstep).trans heq

theorem insertArtifacts_normalized (exportId : Uuid) (references : List (BlobRef × Nat)) :
    ∀ db : Database, (insertArtifacts exportId db references).normalized = db.normalized := by
  induction references with
  | nil => exact fun _ => rfl
  | cons head references ih => exact fun db => ih _

theorem projectAndReport_projects (h : Sound db) {contracts : Contracts} {config : ImportConfig}
    {now : Instant} {runId : Uuid} {plan : ReparsePlan} {summary : ImportSummary}
    {gaps : List AiGap} (hexport : db.HasExport plan.exportId plan.tenantId)
    (hok : projectAndReport contracts config now (db.persistRows now runId plan summary gaps) runId
      plan summary = .ok db') : Projects plan db db' := by
  obtain ⟨hartifacts, -, -, hexport'⟩ := h.persistArtifacts hexport
  have hrecords := normalized_of_records (projectAndReport_records hok)
  exact ⟨db.persistArtifacts plan, hartifacts, hexport', insertArtifacts_normalized .., hrecords⟩

/-- An event without a parse leaves the normalized records. -/
theorem step_normalized (db : Database) (contracts : Contracts) (config : ImportConfig)
    {event : Event} (hevent : event.isDeletion = false) (hparsed : event.parsed = none) :
    (db.step contracts config event).normalized = db.normalized := by
  refine records_normalized ?_
  have hrecords := step_records db contracts config hevent
  cases event <;> first | exact hrecords | cases hparsed

end Database

end ChatgptArchive
