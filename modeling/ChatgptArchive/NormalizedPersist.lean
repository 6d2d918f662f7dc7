import ChatgptArchive.EntityVersions

/-!
# Persisting the normalized detail

The writers shared by the initial import, an applied reparse and the restoration of a survivor:
projects, conversation headers, messages with their order and times, and content-part revisions.
-/

namespace ChatgptArchive

abbrev IdMap := List (String × Uuid)

def IdMap.get? (ids : IdMap) (externalId : String) : Option Uuid := List.lookup externalId ids

theorem IdMap.get?_cons (ids : IdMap) (x y : String) (id : Uuid) :
    IdMap.get? ((y, id) :: ids) x = if x = y then some id else ids.get? x := by
  rw [IdMap.get?, List.lookup_cons]
  by_cases h : x = y
  · simp [h]
  · rw [if_neg h, show (x == y) = false by simpa using h]
    rfl

def presentedProject (parser : ParserId) (project : ParsedProject) : ProjectVersion :=
  { title := project.title, description := project.description
    instructions := instructionText project
    parserName := parser.name, parserVersion := parser.version }

def newProject (id tenantId exportId : Uuid) (externalId : String) (version : ProjectVersion) :
    ProjectRow :=
  { id, accountId := tenantId, externalId
    title := version.title, description := version.description
    instructions := version.instructions
    firstSeenExport := some exportId, lastSeenExport := some exportId
    parserName := some version.parserName, parserVersion := some version.parserVersion
    contentDigest := some version.digest }

def mergeProject (exportId : Uuid) (version : ProjectVersion) (row : ProjectRow) : ProjectRow :=
  -- what the insert makes of the row it conflicts with. The stamp moves only when the content
  -- changed
  { row with
    parserName := if row.contentDigest = some version.digest ∧ row.parserName.isSome
      then row.parserName else some version.parserName
    parserVersion := if row.contentDigest = some version.digest ∧ row.parserVersion.isSome
      then row.parserVersion else some version.parserVersion
    title := version.title, description := version.description
    instructions := version.instructions, contentDigest := some version.digest
    firstSeenExport := row.firstSeenExport.or (some exportId)
    lastSeenExport := some exportId }

def newMessage (id conversationId : Uuid) (ordinal : Nat) (message : ParsedMessage) : MessageRow :=
  { id, conversationId, externalId := message.externalId, parentMessageId := none
    role := message.role, modelSlug := message.modelSlug, sourceOrdinal := ordinal
    createdAt := providerInstant message.createdAtEpochSeconds
    updatedAt := providerInstant message.updatedAtEpochSeconds
    providerMetadata := message.providerMetadata }

def mergeMessage (ordinal : Nat) (message : ParsedMessage) (row : MessageRow) : MessageRow :=
  -- the parent of a stored message is not among the columns an upsert sets
  { row with
    role := message.role, modelSlug := message.modelSlug, sourceOrdinal := ordinal
    createdAt := providerInstant message.createdAtEpochSeconds
    updatedAt := providerInstant message.updatedAtEpochSeconds
    providerMetadata := message.providerMetadata }

def writeHeader (exportId : Uuid) (projectId : Option Uuid) (conversation : ParsedConversation)
    (parser : ParserId) (row : ConversationRow) : ConversationRow :=
  { row with
    title := conversation.title
    projectId := projectId.or row.projectId
    providerCreatedAt := providerInstant conversation.createdAtEpochSeconds
    providerUpdatedAt := providerInstant conversation.updatedAtEpochSeconds
    firstSeenExport := row.firstSeenExport.or (some exportId)
    lastSeenExport := some exportId
    parserName := some parser.name
    parserVersion := some parser.version }

namespace Database

def upsertProject (db : Database) (tenantId exportId : Uuid) (externalId : String)
    (version : ProjectVersion) : ProjectRow × Database :=
  let (id, db) := db.freshUuid
  let (row, projects) := Table.upsert
    (fun p => p.accountId = tenantId && p.externalId = externalId)
    (newProject id tenantId exportId externalId version) (mergeProject exportId version)
    db.projects
  (row, { db with projects })

def persistProject (db : Database) (tenantId exportId : Uuid) (parser : ParserId)
    (project : ParsedProject) : Uuid × Database :=
  let version := presentedProject parser project
  let (row, db) := db.upsertProject tenantId exportId project.externalId version
  -- the stamp the row carries now is the one this content was first written under
  let stamped : ProjectVersion := { version with
    parserName := row.parserName.getD version.parserName
    parserVersion := row.parserVersion.getD version.parserVersion }
  let db := db.observe exportId .project row.id version.digest
  (row.id, db.keepProjectVersion row.id stamped)

def persistProjects (tenantId exportId : Uuid) (parser : ParserId) :
    Database → IdMap → List ParsedProject → Database × IdMap
  -- upserts every project the parse evidenced and returns provider id to row id
  | db, ids, [] => (db, ids)
  | db, ids, project :: projects =>
    let (id, db) := db.persistProject tenantId exportId parser project
    persistProjects tenantId exportId parser db ((project.externalId, id) :: ids) projects

def updateConversationHeader (db : Database) (exportId conversationId : Uuid)
    (projectId : Option Uuid) (conversation : ParsedConversation) (parser : ParserId) : Database :=
  { db with
    conversations := Table.updateWhere (fun c => c.id = conversationId)
      (writeHeader exportId projectId conversation parser) db.conversations }

def upsertMessage (db : Database) (conversationId : Uuid) (ordinal : Nat)
    (message : ParsedMessage) : MessageRow × Database :=
  let (id, db) := db.freshUuid
  let (row, messages) := Table.upsert
    (fun m => m.conversationId = conversationId && m.externalId = message.externalId)
    (newMessage id conversationId ordinal message) (mergeMessage ordinal message) db.messages
  (row, { db with messages })

def observeMessage (db : Database) (exportId messageId : Uuid) : Database :=
  -- a message observation carries no digest and an existing one stays as it is
  { db with
    observations := Table.insertAbsent
      (fun o => o.exportId = exportId && o.kind = .message && o.entityId = messageId)
      ⟨exportId, .message, messageId, none⟩ db.observations }

def persistMessage (db : Database) (exportId conversationId : Uuid) (ordinal : Nat)
    (message : ParsedMessage) : Uuid × Database :=
  let (row, db) := db.upsertMessage conversationId ordinal message
  (row.id, db.observeMessage exportId row.id)

def partsOf (db : Database) (messageId : Uuid) : List ContentPartRow :=
  db.contentParts.filter fun p => p.messageId = messageId

def latestPartRevision (db : Database) (messageId : Uuid) : Option Nat :=
  ((db.partsOf messageId).map (·.revision)).max?

def partsAt (db : Database) (messageId : Uuid) (revision : Nat) : List ContentPartRow :=
  ((db.partsOf messageId).filter fun p => p.revision = revision).insertionSort
    fun a b => a.ordinal ≤ b.ordinal

def partsUnchanged (stored : List ContentPartRow) (parts : List ParsedContentPart) : Bool :=
  stored.map (fun p => (p.ordinal, p.payload)) = parts.map fun p => (p.ordinal, p.payload)

def insertPart (messageId : Uuid) (revision : Nat) (db : Database) (part : ParsedContentPart) :
    Database :=
  let (id, db) := db.freshUuid
  { db with
    contentParts := db.contentParts ++ [{
      id, messageId, revision, ordinal := part.ordinal, partKind := part.kind
      payload := part.payload, blobRef := none }] }

def insertParts (messageId : Uuid) (revision : Nat) :
    Database → List ParsedContentPart → Database
  | db, [] => db
  | db, part :: parts =>
    insertParts messageId revision (insertPart messageId revision db part) parts

def persistParts (db : Database) (messageId : Uuid) (parts : List ParsedContentPart) : Database :=
  -- adds a content-part revision only when the parts differ from the latest one
  match db.latestPartRevision messageId with
  | some latest =>
    if partsUnchanged (db.partsAt messageId latest) parts then db
    else insertParts messageId (latest + 1) db parts
  | none => insertParts messageId 0 db parts

def persistMessages (exportId conversationId : Uuid) :
    Database → IdMap → List (ParsedMessage × Nat) → Database × IdMap
  | db, ids, [] => (db, ids)
  | db, ids, (message, ordinal) :: messages =>
    let (id, db) := db.persistMessage exportId conversationId ordinal message
    let db := db.persistParts id message.parts
    persistMessages exportId conversationId db ((message.externalId, id) :: ids) messages

def setParent (db : Database) (messageId parentId : Uuid) : Database :=
  { db with
    messages := Table.updateWhere (fun m => m.id = messageId)
      (fun m => { m with parentMessageId := some parentId }) db.messages }

def linkParents (ids : IdMap) : Database → List ParsedMessage → Database
  -- the second pass over the messages: a parent is set only when the parse presents it too
  | db, [] => db
  | db, message :: messages =>
    match ids.get? message.externalId, message.parentExternalId.bind ids.get? with
    | some messageId, some parentId => linkParents ids (db.setParent messageId parentId) messages
    | _, _ => linkParents ids db messages

def persistConversationDetail (db : Database) (exportId conversationId : Uuid)
    (projectId : Option Uuid) (conversation : ParsedConversation) (parser : ParserId) : Database :=
  let db := db.updateConversationHeader exportId conversationId projectId conversation parser
  let (db, ids) := persistMessages exportId conversationId db [] conversation.messages.zipIdx
  linkParents ids db conversation.messages

/-! ## What the writers reach -/

structure Unmessaged {α : Type*} (f : Database → α) : Prop where
  messages : ∀ (db : Database) messages nextUuid, f { db with messages, nextUuid } = f db
  parts : ∀ (db : Database) contentParts nextUuid, f { db with contentParts, nextUuid } = f db
  observe : ∀ (db : Database) exportId messageId, f (db.observeMessage exportId messageId) = f db

structure Undetailed {α : Type*} (f : Database → α) : Prop extends Unmessaged f where
  header : ∀ (db : Database) exportId conversationId projectId conversation parser,
    f (db.updateConversationHeader exportId conversationId projectId conversation parser) = f db

section Detail

variable {α : Type*} {f : Database → α} (hf : Unmessaged f)
include hf

theorem insertParts_unmessaged (messageId : Uuid) (revision : Nat)
    (parts : List ParsedContentPart) : ∀ db : Database,
    f (insertParts messageId revision db parts) = f db := by
  induction parts with
  | nil => exact fun _ => rfl
  | cons part parts ih => exact fun db => (ih _).trans (hf.parts db _ _)

theorem persistParts_unmessaged (db : Database) (messageId : Uuid)
    (parts : List ParsedContentPart) : f (db.persistParts messageId parts) = f db := by
  unfold persistParts
  split
  · split
    · rfl
    · exact insertParts_unmessaged hf ..
  · exact insertParts_unmessaged hf ..

theorem persistMessages_unmessaged (exportId conversationId : Uuid)
    (messages : List (ParsedMessage × Nat)) : ∀ (db : Database) (ids : IdMap),
    f (persistMessages exportId conversationId db ids messages).1 = f db := by
  induction messages with
  | nil => exact fun _ _ => rfl
  | cons head messages ih =>
    intro db ids
    refine (ih _ _).trans ((persistParts_unmessaged hf ..).trans ?_)
    exact (hf.observe ..).trans (hf.messages db _ _)

theorem linkParents_unmessaged (ids : IdMap) (messages : List ParsedMessage) :
    ∀ db : Database, f (linkParents ids db messages) = f db := by
  induction messages with
  | nil => exact fun _ => rfl
  | cons message messages ih =>
    intro db
    unfold linkParents
    split
    · exact (ih _).trans (hf.messages db _ _)
    · exact ih db

theorem persistConversationDetail_unmessaged (db : Database) (exportId conversationId : Uuid)
    (projectId : Option Uuid) (conversation : ParsedConversation) (parser : ParserId) :
    f (db.persistConversationDetail exportId conversationId projectId conversation parser) =
      f (db.updateConversationHeader exportId conversationId projectId conversation parser) :=
  (linkParents_unmessaged hf ..).trans (persistMessages_unmessaged hf ..)

theorem observeMessages_unmessaged (exportId : Uuid) (ids : List Uuid) : ∀ db : Database,
    f (ids.foldl (fun db id => db.observeMessage exportId id) db) = f db := by
  induction ids with
  | nil => exact fun _ => rfl
  | cons id ids ih => exact fun db => (ih _).trans (hf.observe ..)

end Detail

theorem persistConversationDetail_undetailed {α : Type*} {f : Database → α} (hf : Undetailed f)
    (db : Database) (exportId conversationId : Uuid) (projectId : Option Uuid)
    (conversation : ParsedConversation) (parser : ParserId) :
    f (db.persistConversationDetail exportId conversationId projectId conversation parser) =
      f db :=
  (persistConversationDetail_unmessaged hf.toUnmessaged ..).trans (hf.header ..)

end Database

def projectOfConversation (parsed : ParsedConversations) (projects : IdMap)
    (conversationExternalId : String) : Option Uuid :=
  (projectExternalIdOf parsed conversationExternalId).bind projects.get?

end ChatgptArchive
