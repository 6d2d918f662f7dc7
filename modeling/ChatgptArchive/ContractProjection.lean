import ChatgptArchive.Outbox
import ChatgptArchive.NormalizedPersist

/-!
# Projecting the persisted import into facts

The facts of an import are read back from the rows in the transaction that wrote them: the head,
then each project, then each conversation the export observes whose content digest differs from
the one last announced.
-/

namespace ChatgptArchive

open NormalizedArchiveEvent

inductive ProjectionError where
  | store
  | event (error : OutboxError)
  | unrepresentable
  deriving DecidableEq, Repr

inductive HeadPolicy where
  | always | withChangedEntities
  deriving DecidableEq, Repr

/-- The Platform users of the configured `(user, account external reference)` pairs; a later pair
replaces an earlier one. -/
abbrev OwnerResolver := List (Uuid × String)

def OwnerResolver.ownerOf (owners : OwnerResolver) (externalRef : String) : Option TenantRef :=
  (owners.reverse.find? fun pair => pair.2 = externalRef).map fun pair => ⟨pair.1⟩

structure FactScope where
  archiveId : Uuid
  exportId : Uuid
  accountId : Uuid
  parser : ParserId
  head : HeadPolicy
  maxEventBytes : Nat
  deriving DecidableEq, Repr

structure ProjectionOutcome where
  enqueued : Nat
  tooLarge : Nat
  deriving DecidableEq, Repr

structure Candidate where
  event : NormalizedArchiveEvent
  digest : String
  deriving DecidableEq, Repr

def represented {α : Type} (value : Option α) : Except ProjectionError α :=
  match value with
  | some a => .ok a
  | none => .error .unrepresentable

def ofOutbox {α : Type} : Except OutboxError α → Except ProjectionError α
  | .ok a => .ok a
  | .error e => .error (.event e)

section Contract

variable (contracts : Contracts)

def spellParserChar (c : Char) : Char := if c.isAlphanum then c.toLower else '_'

def contractParserName (name : String) : Option String :=
  -- the contract parser name for a registry name: lowercase snake case, at most 32 characters
  parseText contracts.parserName
    (String.ofList ((name.toList.map spellParserChar).take 32))

def entityProvenance (base : AiArchiveProvenance) (parserName parserVersion : Option String) :
    Option AiArchiveProvenance :=
  match parserName, parserVersion with
  | some name, some version =>
    (contractParserName contracts name).bind fun parserName =>
      (parseText contracts.parserVersion version).map fun parserVersion =>
        { base with parserName, parserVersion }
  | _, _ => some base

/-! ## The head -/

namespace Database

def latestCompleteness (db : Database) (exportId : Uuid) : Option CompletenessReportRow :=
  ((db.completenessReports.flatMap fun c =>
      (db.importRuns.filter fun r => r.id = c.importRunId && r.exportId = some exportId).map
        fun r => (r, c)).insertionSort
    fun a b => b.1.startedAt < a.1.startedAt ∨
      (b.1.startedAt = a.1.startedAt ∧ b.1.id ≤ a.1.id)).head?.map (·.2)

def observes (db : Database) (exportId : Uuid) (kind : EntityKind) (entityId : Uuid) : Bool :=
  db.observations.any fun o => o.exportId = exportId && o.kind = kind && o.entityId = entityId

def observedConversations (db : Database) (exportId : Uuid) : List ConversationRow :=
  db.conversations.filter fun c => db.observes exportId .conversation c.id

def completenessReport (db : Database) (exportId : Uuid) :
    Except ProjectionError AiCompletenessReport :=
  match db.latestCompleteness exportId with
  | none => .error .store
  | some stored =>
    let conversations := db.observedConversations exportId
    .ok { completeness := stored.status
          conversationCount := toU32 conversations.length
          messageCount := toU32 (conversations.flatMap fun c =>
            db.messages.filter fun m => m.conversationId = c.id).length
          assetCount := stored.counts.count "assets"
          gapCount := toU32 stored.gaps.length
          gaps := stored.gaps }

def loadImport (db : Database) (scope : FactScope) (owner : TenantRef) (now : Instant) :
    Except ProjectionError (AiArchiveImport × String) := do
  let some row := db.exports.find? fun e => e.id = scope.exportId | .error .store
  let report ← db.completenessReport scope.exportId
  let provider ← represented (parseText contracts.aiProvider "chatgpt")
  let parserName ← represented (contractParserName contracts scope.parser.name)
  let parserVersion ← represented (parseText contracts.parserVersion scope.parser.version)
  let head : AiArchiveImport :=
    { aiArchiveId := scope.archiveId, provider, owner, sourceExport := row.blobRef
      importedAt := now, parserName, parserVersion, completenessReport := report }
  if contracts.importValid head then
    let digest ← represented (contracts.digestOf (.head { head with importedAt := 0 }))
    return (head, digest)
  else .error .unrepresentable

end Database

/-! ## Projects -/

def projectTitle (title : Option String) (externalId : String) : Option String :=
  -- a project is titled by its provider title, or by its provider id
  (title.bind (parseText contracts.aiTitle)).or (parseText contracts.aiTitle externalId)

def projectFact (row : ProjectRow) (base : AiArchiveProvenance) :
    Except ProjectionError AiProjectFact := do
  let provenance ← represented (entityProvenance contracts base row.parserName row.parserVersion)
  let title ← represented (projectTitle contracts row.title row.externalId)
  let project : AiProject :=
    { aiProjectId := row.id, provider := provenance.provider
      externalProjectId := parseText contracts.entityLocalId row.externalId
      title
      description := row.description.bind (parseText contracts.aiText)
      instructions := row.instructions.bind (parseText contracts.aiText)
      parserName := provenance.parserName, parserVersion := provenance.parserVersion }
  let digest ← represented (contracts.digestOf (.project project))
  return { importProvenance := provenance, project, contentDigest := digest }

/-! ## Conversations -/

def authorRole : MessageRole → Option AiAuthorRole
  | .user => some .user
  | .assistant => some .assistant
  | .system => some .system
  | .tool => some .tool
  | .internal | .unknown => none

def contentPart (kind : ContentPartKind) (payload : Value) : AiContentPart :=
  -- plain text becomes a text part; every other shape is carried verbatim
  match kind, payload with
  | .text, .string text =>
    if contracts.aiText text then .text text else .unknown kind payload
  | _, _ => .unknown kind payload

def compareNullsLast : Option Timestamp → Option Timestamp → Ordering
  | some a, some b => compare a b
  | some _, none => .lt
  | none, some _ => .gt
  | none, none => .eq

def messageRowOrder (a b : MessageRow) : Prop :=
  ((compare a.sourceOrdinal b.sourceOrdinal).then
    ((compareNullsLast a.createdAt b.createdAt).then
      ((compare a.externalId b.externalId).then (compare a.id b.id)))) ≠ .gt

instance : DecidableRel messageRowOrder := fun _ _ => inferInstanceAs (Decidable (_ ≠ _))

namespace Database

def messageRows (db : Database) (conversationId : Uuid) : List MessageRow :=
  (db.messages.filter fun m => m.conversationId = conversationId).insertionSort messageRowOrder

def latestParts (db : Database) (messageId : Uuid) : List ContentPartRow :=
  match db.latestPartRevision messageId with
  | some revision => db.partsAt messageId revision
  | none => []

end Database

def nearestRepresentedParent (rows : List MessageRow) :
    Nat → List Uuid → Option Uuid → Option String
  -- the walk to the nearest represented ancestor. `seen` stops it on a cycle; each step adds a row
  -- to it, so one more step than there are rows is never reached
  | 0, _, _ => none
  | _, _, none => none
  | fuel + 1, seen, some parentId =>
    if seen.contains parentId then none
    else match rows.find? fun m => m.id = parentId with
      | none => none
      | some parent =>
        if (authorRole parent.role).isSome then
          parseText contracts.entityLocalId parent.externalId
        else nearestRepresentedParent rows fuel (parentId :: seen) parent.parentMessageId

def roleWarning : WarningEnvelope :=
  ⟨"ai_archive.message_role_unrepresentable",
    "Messages with an internal or unknown provider role were left out of this conversation."⟩

def identityWarning : WarningEnvelope :=
  ⟨"ai_archive.message_id_unrepresentable",
    "Messages without a representable provider identity were left out of this conversation."⟩

def warningIf (present : Bool) (warning : WarningEnvelope) :
    Except ProjectionError (List WarningEnvelope) :=
  if present then
    if contracts.errorCode warning.code && contracts.safeMessage warning.message then .ok [warning]
    else .error .unrepresentable
  else .ok []

namespace Database

def contractMessage (db : Database) (rows : List MessageRow) (parserName parserVersion : String)
    (row : MessageRow) : Option AiMessage :=
  -- one row as a contract message; `none` when its role or identity is not represented
  (authorRole row.role).bind fun role =>
    (parseText contracts.entityLocalId row.externalId).map fun externalId =>
      { externalMessageId := externalId, authorRole := role
        parentMessageId := nearestRepresentedParent contracts rows (rows.length + 1) [row.id]
          row.parentMessageId
        parts := (db.latestParts row.id).map fun p => contentPart contracts p.partKind p.payload
        model := row.modelSlug.bind (parseText contracts.aiModelName)
        providerCreatedAt := row.createdAt.bind contracts.wireInstant
        parserName, parserVersion }

def conversationMessages (db : Database) (conversationId : Uuid)
    (parserName parserVersion : String) :
    Except ProjectionError (List AiMessage × List WarningEnvelope) := do
  let rows := db.messageRows conversationId
  let messages := rows.filterMap (db.contractMessage contracts rows parserName parserVersion)
  let roleLeftOut := rows.any fun row => (authorRole row.role).isNone
  let identityLeftOut := rows.any fun row =>
    (authorRole row.role).isSome && !contracts.entityLocalId row.externalId
  let roleWarnings ← warningIf contracts roleLeftOut roleWarning
  let identityWarnings ← warningIf contracts identityLeftOut identityWarning
  return (messages, roleWarnings ++ identityWarnings)

def conversationFact (db : Database) (row : ConversationRow) (base : AiArchiveProvenance) :
    Except ProjectionError AiConversationFact := do
  let provenance ← represented (entityProvenance contracts base row.parserName row.parserVersion)
  let (messages, warnings) ← db.conversationMessages contracts row.id provenance.parserName
    provenance.parserVersion
  let contentDigest ← represented (contracts.computeContentDigest messages)
  return {
    importProvenance := provenance
    conversation :=
      { aiConversationId := row.id, provider := provenance.provider
        externalConversationId := parseText contracts.entityLocalId row.externalId
        owner := provenance.owner, projectRef := row.projectId
        title := row.title.bind (parseText contracts.aiTitle)
        providerCreatedAt := row.providerCreatedAt.bind contracts.wireInstant
        providerUpdatedAt := row.providerUpdatedAt.bind contracts.wireInstant
        messages, contentDigest
        parserName := provenance.parserName, parserVersion := provenance.parserVersion
        warnings } }

end Database

/-! ## What is news -/

def EventPayload.contentDigest : EventPayload → Option String
  | .conversationAdded fact | .conversationUpdated fact => some fact.conversation.contentDigest
  | .projectAdded fact | .projectUpdated fact => some fact.contentDigest
  | _ => none

def projectTypes : List EventType := [.projectAdded, .projectUpdated]

def conversationTypes : List EventType := [.conversationAdded, .conversationUpdated]

namespace Database

def latestFact (db : Database) (aggregateId : Uuid) (types : List EventType) :
    Option OutboxEventRow :=
  ((db.outboxEvents.filter fun e =>
      e.aggregateId = aggregateId && types.contains e.eventType).insertionSort
    fun a b => b.id ≤ a.id).head?

def lastEmittedDigest (db : Database) (aggregateId : Uuid) (types : List EventType) :
    Option String :=
  (db.latestFact aggregateId types).bind fun e => e.envelope.payload.contentDigest

def projectCandidate (db : Database) (base : AiArchiveProvenance) (row : ProjectRow) :
    Except ProjectionError (Option Candidate) := do
  let fact ← projectFact contracts row base
  match db.lastEmittedDigest row.id projectTypes with
  | some digest =>
    if digest = fact.contentDigest then return none
    else
      let event ← ofOutbox (projectUpdated contracts fact)
      return some ⟨event, fact.contentDigest⟩
  | none =>
    let event ← ofOutbox (projectAdded contracts fact)
    return some ⟨event, fact.contentDigest⟩

def conversationCandidate (db : Database) (base : AiArchiveProvenance) (row : ConversationRow) :
    Except ProjectionError (Option Candidate) := do
  let fact ← db.conversationFact contracts row base
  match db.lastEmittedDigest row.id conversationTypes with
  | some digest =>
    if digest = fact.conversation.contentDigest then return none
    else
      let event ← ofOutbox (conversationUpdated contracts fact)
      return some ⟨event, fact.conversation.contentDigest⟩
  | none =>
    let event ← ofOutbox (conversationAdded contracts fact)
    return some ⟨event, fact.conversation.contentDigest⟩

end Database

def collectCandidates {α : Type} (candidate : α → Except ProjectionError (Option Candidate)) :
    List α → Except ProjectionError (List Candidate)
  | [] => .ok []
  | row :: rows => do
    let head ← candidate row
    let tail ← collectCandidates candidate rows
    return head.toList ++ tail

def projectRowOrder (a b : ProjectRow) : Prop :=
  a.externalId < b.externalId ∨ (a.externalId = b.externalId ∧ a.id ≤ b.id)

instance : DecidableRel projectRowOrder := fun _ _ => inferInstanceAs (Decidable (_ ∨ _))

def conversationRowOrder (a b : ConversationRow) : Prop :=
  a.externalId < b.externalId ∨ (a.externalId = b.externalId ∧ a.id ≤ b.id)

instance : DecidableRel conversationRowOrder := fun _ _ => inferInstanceAs (Decidable (_ ∨ _))

namespace Database

def projectCandidates (db : Database) (exportId : Uuid) (base : AiArchiveProvenance) :
    Except ProjectionError (List Candidate) :=
  collectCandidates (db.projectCandidate contracts base)
    ((db.projects.filter fun p => db.observes exportId .project p.id).insertionSort
      projectRowOrder)

def conversationCandidates (db : Database) (exportId : Uuid) (base : AiArchiveProvenance) :
    Except ProjectionError (List Candidate) :=
  collectCandidates (db.conversationCandidate contracts base)
    ((db.observedConversations exportId).insertionSort conversationRowOrder)

/-! ## Enqueueing -/

def enqueueFacts (scope : FactScope) (now : Instant) :
    Database → ProjectionOutcome → List Candidate → Database × ProjectionOutcome
  -- enqueues the facts in order; one above the size limit is counted and left out
  | db, outcome, [] => (db, outcome)
  | db, outcome, candidate :: queue =>
    if contracts.serializedLen candidate.event.envelope > scope.maxEventBytes then
      enqueueFacts scope now db { outcome with tooLarge := toU32 (outcome.tooLarge + 1) } queue
    else
      let (added, db) := db.enqueueNormalizedEvent now candidate.event
        { accountId := scope.accountId, exportId := some scope.exportId
          deduplicationKey :=
            .fact candidate.event.eventType candidate.event.aggregateId candidate.digest }
      enqueueFacts scope now db
        (if added then { outcome with enqueued := outcome.enqueued + 1 } else outcome) queue

def ownerOfAccount (db : Database) (owners : OwnerResolver) (accountId : Uuid) :
    Option TenantRef :=
  (db.accounts.find? fun a => a.id = accountId).bind fun a => owners.ownerOf a.externalRef

def importFacts (db : Database) (scope : FactScope) (owner : TenantRef) (now : Instant) :
    Except ProjectionError (List Candidate) := do
  let (head, headDigest) ← db.loadImport contracts scope owner now
  let base := AiArchiveProvenance.fromImport head
  let projects ← db.projectCandidates contracts scope.exportId base
  let conversations ← db.conversationCandidates contracts scope.exportId base
  let changed := projects ++ conversations
  if scope.head = .always ∨ changed ≠ [] then
    return ⟨archiveImported head, headDigest⟩ :: changed
  else return changed

def projectImportFacts (db : Database) (owners : OwnerResolver) (scope : FactScope)
    (now : Instant) : Except ProjectionError (Database × ProjectionOutcome) :=
  -- enqueues the facts of one persisted import. An account without a Platform mapping emits nothing
  -- at all
  match db.ownerOfAccount owners scope.accountId with
  | none => .ok (db, ⟨0, 0⟩)
  | some owner => do
    let queue ← db.importFacts contracts scope owner now
    return enqueueFacts contracts scope now db ⟨0, 0⟩ queue

end Database

end Contract

end ChatgptArchive
