import ChatgptArchive.Integrity.Removal
import ChatgptArchive.Outcome

/-!
# The statements of the row phase

A removal takes lists of identities from its inventory. When the lists cover every dependent row,
each statement keeps the constraints, with one exception: a message that stays while its parent
goes violates them at the delete of the messages.
-/

namespace ChatgptArchive.Database

open Table

variable {db : Database} {statement : Database → Database} {statements : List (Database → Database)}

structure Covers (db : Database) (tenantId : Uuid) (removed : Category → List Uuid) : Prop where
  rawRecord : ∀ r ∈ db.rawRecords, r.exportId ∉ removed .export
  importRun : ∀ r ∈ db.importRuns, ∀ e, r.exportId = some e → e ∈ removed .export →
    r.id ∈ removed .importRun
  operationImport : ∀ p ∈ db.platformOperationImports, p.importRunId ∈ removed .importRun →
    db.boundToExports (removed .export) p = true
  completenessReport : ∀ c ∈ db.completenessReports, c.importRunId ∈ removed .importRun →
    c.id ∈ removed .completenessReport
  contentPart : ∀ p ∈ db.contentParts, p.messageId ∈ removed .message →
    p.id ∈ removed .contentPart
  revision : ∀ r ∈ db.revisions, r.observedIn ∈ removed .export → r.id ∈ removed .revision
  message : ∀ m ∈ db.messages, m.conversationId ∈ removed .conversation →
    m.id ∈ removed .message
  accountExport : removed .account ≠ [] → ∀ e ∈ db.exports, e.accountId = tenantId →
    e.id ∈ removed .export
  accountProject : removed .account ≠ [] → ∀ p ∈ db.projects, p.accountId = tenantId →
    p.id ∈ removed .project
  accountConversation : removed .account ≠ [] → ∀ c ∈ db.conversations, c.accountId = tenantId →
    c.id ∈ removed .conversation

def ParentsStay (db : Database) (messages : List Uuid) : Prop :=
  ∀ m ∈ db.messages, m.id ∉ messages → ∀ p, m.parentMessageId = some p → p ∉ messages

/-! ## Running statements -/

theorem checked_of_consistent (h : db.Consistent) : db.checked = .ok db :=
  if_pos (danglingReferences_eq_nil_iff.mpr h)

theorem checked_of_not_consistent (h : ¬db.Consistent) :
    db.checked = .error (.foreignKey db.danglingReferences) :=
  if_neg (mt danglingReferences_eq_nil_iff.mp h)

theorem checked_eq_ok {db' : Database} (h : db.checked = .ok db') : db = db' := by
  unfold checked at h
  split at h <;> cases h
  rfl

theorem runStatements_cons (h : (statement db).Consistent) :
    runStatements (statement :: statements) db = runStatements statements (statement db) := by
  rw [runStatements, checked_of_consistent h]
  rfl

theorem runStatements_cons_error (h : ¬(statement db).Consistent) :
    runStatements (statement :: statements) db =
      .error (.foreignKey (statement db).danglingReferences) := by
  rw [runStatements, checked_of_not_consistent h]
  rfl

/-! ## The tables along the phase -/

variable (removed : Category → List Uuid)

def beforeMessages (db : Database) : Database :=
  { db with
    platformOperationImports :=
      Table.deleteWhere (db.boundToExports (removed .export)) db.platformOperationImports
    reparseRuns := Table.deleteWhere (fun r => (removed .export).contains r.exportId) db.reparseRuns
    completenessReports := Table.deleteWhere
      (fun r => (removed .completenessReport).contains r.id) db.completenessReports
    messageRelations := Table.deleteWhere
      (fun r => (removed .messageRelation).contains r.id) db.messageRelations
    contentParts := Table.deleteWhere
      (fun r => (removed .contentPart).contains r.id) db.contentParts
    revisions := Table.deleteWhere (fun r => (removed .revision).contains r.id) db.revisions
    assets := Table.deleteWhere (fun r => (removed .asset).contains r.id) db.assets }

def afterDependents (inbox : List Nat) (db : Database) :
    Database :=
  { beforeMessages removed db with
    messages := Table.deleteWhere (fun r => (removed .message).contains r.id) db.messages
    conversations := Table.updateWhere (fun c => c.projectId.any (removed .project).contains)
      (fun c => { c with projectId := none })
      (Table.deleteWhere (fun r => (removed .conversation).contains r.id) db.conversations)
    projects := Table.deleteWhere (fun r => (removed .project).contains r.id) db.projects
    extractedArtifacts := Table.deleteWhere
      (fun r => (removed .extractedArtifact).contains r.id) db.extractedArtifacts
    importRuns := Table.deleteWhere (fun r => (removed .importRun).contains r.id) db.importRuns
    inboxEvents := Table.deleteWhere (fun r => inbox.contains r.id) db.inboxEvents }

def beforeExports (exports : List Uuid) (outbox : List Nat) (db : Database) : Database :=
  { db with
    outboxEvents := Table.deleteWhere (droppedFact outbox exports) db.outboxEvents
    projects := (repointProjects exports db).projects
    conversations := (repointConversations exports db).conversations
    assets := (repointAssets exports db).assets
    observations := (deleteObservations exports db).observations }

abbrev exportsRemoved (inbox outbox : List Nat) (db : Database) :
    Database :=
  deleteExports (removed .export)
    (beforeExports (removed .export) outbox (afterDependents removed inbox db))

def rowsRemoved (inbox outbox : List Nat) (tenantId : Uuid)
    (db : Database) : Database :=
  let db := deleteExports (removed .export)
    (beforeExports (removed .export) outbox (afterDependents removed inbox db))
  if (removed .account).isEmpty then db else deleteAccount tenantId db

section Phase

variable {tenantId : Uuid} {removed : Category → List Uuid} {inbox outbox : List Nat}

/-! ## The dependents -/

theorem dependentStatements_beforeMessages (removed : Category → List Uuid) (inbox : List Nat)
    (h : db.Consistent) : (beforeMessages removed db).Consistent ∧
      runStatements (dependentStatements removed inbox) db =
        runStatements ((dependentStatements removed inbox).drop 7) (beforeMessages removed db) := by
  have h₁ := (LeafDelete.operationImports (removed .export)).consistent h
  have h₂ := (LeafDelete.reparseRuns (removed .export)).consistent h₁
  have h₃ := (LeafDelete.completenessReports (removed .completenessReport)).consistent h₂
  have h₄ := (LeafDelete.messageRelations (removed .messageRelation)).consistent h₃
  have h₅ := (LeafDelete.contentParts (removed .contentPart)).consistent h₄
  have h₆ := (LeafDelete.revisions (removed .revision)).consistent h₅
  have h₇ := (LeafDelete.assets (removed .asset)).consistent h₆
  refine ⟨h₇, ?_⟩
  unfold dependentStatements
  rw [runStatements_cons h₁, runStatements_cons h₂, runStatements_cons h₃, runStatements_cons h₄,
    runStatements_cons h₅, runStatements_cons h₆, runStatements_cons h₇]
  rfl

theorem dependentStatements_violated (h : db.Consistent)
    (hparents : ¬ParentsStay db (removed .message)) :
    ∃ refs, runStatements (dependentStatements removed inbox) db = .error (.foreignKey refs) := by
  simp only [ParentsStay, not_forall, not_not] at hparents
  obtain ⟨m, hm, hkept, p, hparent, hp⟩ := hparents
  have hviolated : ¬(deleteMessages (removed .message) (beforeMessages removed db)).Consistent :=
    not_consistent_deleteMessages (m := m) hm hkept hparent hp
  exact ⟨_, (dependentStatements_beforeMessages removed inbox h).2.trans
    (runStatements_cons_error hviolated)⟩

theorem dependentStatements_ok (h : db.Consistent) (hrelations : db.messageRelations = [])
    (hcovers : Covers db tenantId removed) (hparents : ParentsStay db (removed .message)) :
    runStatements (dependentStatements removed inbox) db = .ok (afterDependents removed inbox db) ∧
      (afterDependents removed inbox db).Consistent := by
  obtain ⟨h₇, hrun⟩ := dependentStatements_beforeMessages removed inbox h
  -- each delete finds its dependents gone: the inventory lists them too
  have h₈ : (deleteMessages (removed .message) (beforeMessages removed db)).Consistent := by
    refine h₇.deleteMessages ?_ (fun p hp hmem => ?_) hparents
    · show Table.deleteWhere _ db.messageRelations = []
      rw [hrelations]
      rfl
    · obtain ⟨hp, hkept⟩ := mem_deleteWhere.mp hp
      exact absurd (hcovers.contentPart p hp hmem) (by simpa using hkept)
  have h₉ := h₈.deleteConversations (removed .conversation) fun m hm hmem => by
    obtain ⟨hm, hkept⟩ := mem_deleteWhere.mp hm
    exact absurd (hcovers.message m hm hmem) (by simpa using hkept)
  have h₁₀ := h₉.unlinkProjects (removed .project)
  have h₁₁ := h₁₀.deleteProjects (removed .project) fun c hc p hp =>
    unlinkProjects_unlinked hc hp
  have h₁₂ := (LeafDelete.extractedArtifacts (removed .extractedArtifact)).consistent h₁₁
  have h₁₃ := h₁₂.deleteImportRuns (removed .importRun)
    (fun p hp hmem => by
      obtain ⟨hp, hkept⟩ := mem_deleteWhere.mp hp
      exact absurd (hcovers.operationImport p hp hmem) (by simpa using hkept))
    (fun c hc hmem => by
      obtain ⟨hc, hkept⟩ := mem_deleteWhere.mp hc
      exact absurd (hcovers.completenessReport c hc hmem) (by simpa using hkept))
  have h₁₄ := (LeafDelete.inboxEvents inbox).consistent h₁₃
  refine ⟨hrun.trans ?_, h₁₄⟩
  unfold dependentStatements
  simp only [List.drop_succ_cons, List.drop_zero]
  rw [runStatements_cons h₈, runStatements_cons h₉, runStatements_cons h₁₀,
    runStatements_cons h₁₁, runStatements_cons h₁₂, runStatements_cons h₁₃, runStatements_cons h₁₄]
  rfl

/-! ## The exports -/

theorem releasesExports (hcovers : Covers db tenantId removed) :
    ReleasesExports (beforeExports (removed .export) outbox (afterDependents removed inbox db))
      (removed .export) where
  importRun r hr e he hmem := by
    obtain ⟨hr, hkept⟩ := mem_deleteWhere.mp hr
    exact absurd (hcovers.importRun r hr e he hmem) (by simpa using hkept)
  operationImport p hp hmem := by
    obtain ⟨-, hkept⟩ := mem_deleteWhere.mp hp
    simp [boundToExports, hmem] at hkept
  projectFirst _ hp _ he := repointProjects_released hp (.inl he)
  projectLast _ hp _ he := repointProjects_released hp (.inr he)
  conversationFirst _ hc _ he := repointConversations_released hc (.inl he)
  conversationLast _ hc _ he := repointConversations_released hc (.inr he)
  revision r hr hmem := by
    obtain ⟨hr, hkept⟩ := mem_deleteWhere.mp hr
    exact absurd (hcovers.revision r hr hmem) (by simpa using hkept)
  rawRecord := hcovers.rawRecord
  reparseRun r hr hmem := by
    obtain ⟨-, hkept⟩ := mem_deleteWhere.mp hr
    simp [hmem] at hkept

/-- The projects that stay: the rows that were not listed, with their provenance repointed. -/
theorem mem_repointedProjects {p : ProjectRow} :
    p ∈ (repointProjects (removed .export) (afterDependents removed inbox db)).projects →
      ∃ q ∈ db.projects, q.id ∉ removed .project ∧
        ∃ first last, p = { q with firstSeenExport := first, lastSeenExport := last } := by
  intro hp
  rcases mem_updateWhere.mp hp with ⟨hp, -⟩ | ⟨q, hq, -, rfl⟩
  · obtain ⟨hp, hkept⟩ := mem_deleteWhere.mp hp
    exact ⟨p, hp, by simpa using hkept, _, _, rfl⟩
  · obtain ⟨hq, hkept⟩ := mem_deleteWhere.mp hq
    exact ⟨q, hq, by simpa using hkept, _, _, rfl⟩

theorem repointedProject_mem {q : ProjectRow} (hq : q ∈ db.projects)
    (hkept : q.id ∉ removed .project) : ∃ first last,
      { q with firstSeenExport := first, lastSeenExport := last } ∈
        (repointProjects (removed .export) (afterDependents removed inbox db)).projects := by
  have hmem : q ∈ (afterDependents removed inbox db).projects :=
    mem_deleteWhere.mpr ⟨hq, by simpa using hkept⟩
  by_cases hp : (q.firstSeenExport.any (removed .export).contains ||
      q.lastSeenExport.any (removed .export).contains) = true
  · exact ⟨_, _, mem_updateWhere.mpr (.inr ⟨q, hmem, hp, rfl⟩)⟩
  · exact ⟨_, _, mem_updateWhere.mpr (.inl ⟨hmem, by simpa using hp⟩)⟩

def unlinked (projects : List Uuid) (c : ConversationRow) : ConversationRow :=
  if c.projectId.any projects.contains then { c with projectId := none } else c

theorem mem_repointedConversations {c : ConversationRow} :
    c ∈ (repointConversations (removed .export) (afterDependents removed inbox db)).conversations →
      ∃ d ∈ db.conversations, d.id ∉ removed .conversation ∧ ∃ first last,
        c = { unlinked (removed .project) d with
          firstSeenExport := first, lastSeenExport := last } := by
  have hunlinked : ∀ d ∈ (afterDependents removed inbox db).conversations, ∃ d' ∈ db.conversations,
      d'.id ∉ removed .conversation ∧ d = unlinked (removed .project) d' := by
    intro d hd
    obtain ⟨d', hd', rfl⟩ := List.mem_map.mp hd
    obtain ⟨hd', hkept⟩ := mem_deleteWhere.mp hd'
    exact ⟨d', hd', by simpa using hkept, rfl⟩
  intro hc
  rcases mem_updateWhere.mp hc with ⟨hc, -⟩ | ⟨d, hd, -, rfl⟩
  · obtain ⟨d, hd, hkept, rfl⟩ := hunlinked c hc
    exact ⟨d, hd, hkept, _, _, rfl⟩
  · obtain ⟨d', hd', hkept, rfl⟩ := hunlinked d hd
    exact ⟨d', hd', hkept, _, _, rfl⟩

theorem repointedConversation_mem {d : ConversationRow} (hd : d ∈ db.conversations)
    (hkept : d.id ∉ removed .conversation) : ∃ first last,
      { unlinked (removed .project) d with firstSeenExport := first, lastSeenExport := last } ∈
        (repointConversations (removed .export)
          (afterDependents removed inbox db)).conversations := by
  have hmem : unlinked (removed .project) d ∈ (afterDependents removed inbox db).conversations :=
    List.mem_map.mpr ⟨d, mem_deleteWhere.mpr ⟨hd, by simpa using hkept⟩, rfl⟩
  generalize unlinked (removed .project) d = c at hmem ⊢
  by_cases hp : (c.firstSeenExport.any (removed .export).contains ||
      c.lastSeenExport.any (removed .export).contains) = true
  · exact ⟨_, _, mem_updateWhere.mpr (.inr ⟨c, hmem, hp, rfl⟩)⟩
  · exact ⟨_, _, mem_updateWhere.mpr (.inl ⟨hmem, by simpa using hp⟩)⟩

@[simp] theorem unlinked_id (projects : List Uuid) (c : ConversationRow) :
    (unlinked projects c).id = c.id := by
  unfold unlinked
  split <;> rfl

@[simp] theorem unlinked_accountId (projects : List Uuid) (c : ConversationRow) :
    (unlinked projects c).accountId = c.accountId := by
  unfold unlinked
  split <;> rfl

/-- No statement finds a dangling reference: what referred to its rows is gone. -/
theorem exportStatements_ok (hrelations : db.messageRelations = []) (hassets : db.assets = [])
    (hcovers : Covers db tenantId removed)
    (hdependents : (afterDependents removed inbox db).Consistent) :
    runStatements (exportStatements removed outbox tenantId) (afterDependents removed inbox db) =
        .ok (rowsRemoved removed inbox outbox tenantId db) ∧
      (exportsRemoved removed inbox outbox db).Consistent ∧
      (rowsRemoved removed inbox outbox tenantId db).Consistent := by
  have h₁ := (LeafDelete.outboxEvents outbox (removed .export)).consistent hdependents
  have h₂ := h₁.repointProjects (removed .export)
  have h₃ := h₂.repointConversations (removed .export)
  have h₄ := h₃.repointAssets (removed .export)
  have h₅ := (LeafDelete.observations (removed .export)).consistent h₄
  have hbefore : deleteObservations (removed .export) (repointAssets (removed .export)
      (repointConversations (removed .export) (repointProjects (removed .export)
        (dropPublishedFactRows outbox (removed .export) (afterDependents removed inbox db))))) =
      beforeExports (removed .export) outbox (afterDependents removed inbox db) := rfl
  have h₆ : (deleteExports (removed .export) (beforeExports (removed .export) outbox
      (afterDependents removed inbox db))).Consistent := by
    refine (hbefore ▸ h₅).deleteExports ?_ ?_ (releasesExports hcovers)
    · show Table.updateWhere _ _ (Table.deleteWhere _ db.assets) = []
      rw [hassets]
      rfl
    · show Table.deleteWhere _ db.messageRelations = []
      rw [hrelations]
      rfl
  unfold exportStatements rowsRemoved
  simp only [List.cons_append, List.nil_append]
  rw [runStatements_cons h₁, runStatements_cons h₂, runStatements_cons h₃, runStatements_cons h₄,
    runStatements_cons h₅, hbefore, runStatements_cons h₆]
  by_cases haccount : (removed .account).isEmpty = true
  · rw [if_pos haccount, if_pos haccount]
    exact ⟨rfl, h₆, h₆⟩
  · have hne : removed .account ≠ [] := by simpa using haccount
    have h₇ : (deleteAccount tenantId (exportsRemoved removed inbox outbox db)).Consistent := by
      refine h₆.deleteAccount (fun e he htenant => ?_) (fun p hp htenant => ?_)
        fun c hc htenant => ?_
      · obtain ⟨he, hkept⟩ := mem_deleteWhere.mp he
        exact absurd (hcovers.accountExport hne e he htenant) (by simpa using hkept)
      · obtain ⟨q, hq, hkept, _, _, rfl⟩ := mem_repointedProjects hp
        exact hkept (hcovers.accountProject hne q hq htenant)
      · obtain ⟨d, hd, hkept, _, _, rfl⟩ := mem_repointedConversations hc
        exact hkept (hcovers.accountConversation hne d hd
          ((unlinked_accountId (removed .project) d).symm.trans htenant))
    rw [if_neg haccount, if_neg haccount, runStatements_cons h₇]
    exact ⟨rfl, h₆, h₇⟩

end Phase

end ChatgptArchive.Database
