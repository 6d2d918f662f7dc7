import Mathlib.Logic.Relation
import ChatgptArchive.Integrity.Import

/-!
# The statements of a projection

Persisting a projection is a sequence of single statements, each on records of the tenant whose
export is persisted. What one statement keeps, the projection keeps.
-/

namespace ChatgptArchive

open List Table

variable {P : Uuid → Prop}

def IdMap.All (ids : IdMap) (P : Uuid → Prop) : Prop :=
  ∀ externalId id, ids.get? externalId = some id → P id

theorem IdMap.All.nil : IdMap.All [] P := by
  intro key value hget
  simp [IdMap.get?] at hget

theorem IdMap.All.cons {ids : IdMap} {P : Uuid → Prop} (hids : ids.All P) {externalId : String}
    {id : Uuid} (hid : P id) : IdMap.All ((externalId, id) :: ids) P := by
  intro key value hget
  simp only [IdMap.get?, lookup_cons] at hget
  split at hget
  · exact Option.some.inj hget ▸ hid
  · exact hids key value hget

theorem IdMap.All.mono {ids : IdMap} {Q : Uuid → Prop} (hids : ids.All P) (h : ∀ id, P id → Q id) :
    ids.All Q :=
  fun key value hget => h value (hids key value hget)

namespace Database

def OwnsProject (db : Database) (tenantId id : Uuid) : Prop :=
  (id, tenantId) ∈ db.projects.map fun p => (p.id, p.accountId)

def OwnsConversation (db : Database) (tenantId id : Uuid) : Prop :=
  (id, tenantId) ∈ db.conversations.map fun c => (c.id, c.accountId)

def OwnsMessage (db : Database) (tenantId id : Uuid) : Prop :=
  ∃ conversationId, (id, conversationId) ∈ db.messages.map (fun m => (m.id, m.conversationId)) ∧
    db.OwnsConversation tenantId conversationId

inductive Write (tenantId exportId : Uuid) : Database → Database → Prop
  | upsertProject (db : Database) (externalId : String) (version : ProjectVersion) :
      Write tenantId exportId db (db.upsertProject tenantId exportId externalId version).2
  | observeProject {db : Database} {id : Uuid} (h : db.OwnsProject tenantId id)
      (digest : ContentDigest) : Write tenantId exportId db (db.observe exportId .project id digest)
  | keepProject {db : Database} {id : Uuid} (h : db.OwnsProject tenantId id)
      (version : ProjectVersion) : Write tenantId exportId db (db.keepProjectVersion id version)
  | upsertConversation (db : Database) (externalId : String) :
      Write tenantId exportId db (db.upsertConversation tenantId externalId).2
  | observeConversation {db : Database} {id : Uuid} (h : db.OwnsConversation tenantId id)
      (digest : ContentDigest) :
      Write tenantId exportId db (db.observe exportId .conversation id digest)
  | appendRevision {db : Database} {id : Uuid} (h : db.OwnsConversation tenantId id)
      (digest : ContentDigest) (parser : ParserId) :
      Write tenantId exportId db (db.appendRevision id exportId digest parser)
  | keepConversation {db : Database} {id : Uuid} (h : db.OwnsConversation tenantId id)
      (digest : ContentDigest) (version : ConversationVersion) :
      Write tenantId exportId db (db.keepConversationVersion id digest version)
  | markSeen {db : Database} {id : Uuid} (h : db.OwnsConversation tenantId id) :
      Write tenantId exportId db (db.markConversationSeen id exportId)
  | updateHeader {db : Database} {id : Uuid} (h : db.OwnsConversation tenantId id)
      {projectId : Option Uuid} (hproject : ∀ p, projectId = some p → db.OwnsProject tenantId p)
      (conversation : ParsedConversation) (parser : ParserId) :
      Write tenantId exportId db
        (db.updateConversationHeader exportId id projectId conversation parser)
  | upsertMessage {db : Database} {id : Uuid} (h : db.OwnsConversation tenantId id) (ordinal : Nat)
      (message : ParsedMessage) :
      Write tenantId exportId db (db.upsertMessage id ordinal message).2
  | observeMessage {db : Database} {id : Uuid} (h : db.OwnsMessage tenantId id) :
      Write tenantId exportId db (db.observeMessage exportId id)
  | insertPart {db : Database} {id : Uuid} (h : db.OwnsMessage tenantId id) (revision : Nat)
      (part : ParsedContentPart) :
      Write tenantId exportId db (Database.insertPart id revision db part)
  | setParent {db : Database} {id parent : Uuid} (h : db.OwnsMessage tenantId id)
      (hparent : db.OwnsMessage tenantId parent) :
      Write tenantId exportId db (db.setParent id parent)

def Writes (tenantId exportId : Uuid) : Database → Database → Prop :=
  Relation.ReflTransGen (Write tenantId exportId)

section Owns

variable {db : Database} {t id : Uuid}

theorem OwnsConversation.update (ho : db.OwnsConversation t id) {p : ConversationRow → Bool}
    {f : ConversationRow → ConversationRow}
    (hf : ∀ c, ((f c).id, (f c).accountId) = (c.id, c.accountId)) :
    ({ db with conversations := Table.updateWhere p f db.conversations } : Database).OwnsConversation
      t id := by
  rw [OwnsConversation, map_updateWhere hf]
  exact ho

theorem appendRevision_messages (db : Database) (id exportId : Uuid) (digest : ContentDigest)
    (parser : ParserId) : (db.appendRevision id exportId digest parser).messages = db.messages := by
  unfold appendRevision
  split <;> rfl

end Owns

namespace Write

variable {tenantId exportId : Uuid} {db db' : Database}

variable (h : Write tenantId exportId db db')
include h

theorem grows : Grows db db' := by
  cases h with
  | upsertProject externalId version => exact .upsertProject ..
  | observeProject h digest => exact .observe ..
  | keepProject h version => exact .keepSnapshot ..
  | upsertConversation externalId => exact .upsertConversation ..
  | observeConversation h digest => exact .observe ..
  | appendRevision h digest parser => exact .appendRevision ..
  | keepConversation h digest version => exact .keepConversationVersion ..
  | markSeen h => exact .updateConversations fun _ => rfl
  | updateHeader h hproject conversation parser => exact .updateConversations fun _ => rfl
  | upsertMessage h ordinal message => exact .upsertMessage ..
  | observeMessage h => exact .observeMessage ..
  | insertPart h revision part => exact (Grows.freshUuid db).trans (.addContentPart _ _)
  | setParent h hparent => exact .updateMessages fun _ => rfl

theorem ownsProject {t id : Uuid} (ho : db.OwnsProject t id) : db'.OwnsProject t id := by
  cases h with
  | upsertProject externalId version =>
    refine map_upsert_subset ?_ ho
    exact fun _ => rfl
  | appendRevision h digest parser => rwa [OwnsProject, appendRevision_projects]
  | _ => exact ho

theorem ownsConversation {t id : Uuid}
    (ho : db.OwnsConversation t id) : db'.OwnsConversation t id := by
  cases h with
  | upsertConversation externalId =>
    refine map_upsert_subset ?_ ho
    exact fun _ => rfl
  | appendRevision h digest parser => rwa [OwnsConversation, appendRevision_conversations]
  | keepConversation h digest version => exact ho.update fun _ => rfl
  | markSeen h => exact ho.update fun _ => rfl
  | updateHeader h hproject conversation parser => exact ho.update fun _ => rfl
  | _ => exact ho

theorem ownsMessage {t id : Uuid} (ho : db.OwnsMessage t id) : db'.OwnsMessage t id := by
  obtain ⟨c, hm, hc⟩ := ho
  refine ⟨c, ?_, h.ownsConversation hc⟩
  cases h with
  | upsertMessage h ordinal message =>
    refine map_upsert_subset ?_ hm
    exact fun _ => rfl
  | appendRevision h digest parser => rwa [appendRevision_messages]
  | setParent h hparent =>
    rw [Database.setParent, map_updateWhere]
    · exact hm
    · exact fun _ => rfl
  | _ => exact hm

end Write

namespace Writes

variable {tenantId exportId : Uuid} {db db' db'' : Database} {conversationId : Uuid}
  {plan : ReparsePlan} {projects : IdMap}

theorem single (h : Write tenantId exportId db db') : Writes tenantId exportId db db' :=
  Relation.ReflTransGen.single h

theorem refl (db : Database) : Writes tenantId exportId db db := Relation.ReflTransGen.refl

section

variable (h : Writes tenantId exportId db db')
include h

theorem trans (h' : Writes tenantId exportId db' db'') :
    Writes tenantId exportId db db'' :=
  Relation.ReflTransGen.trans h h'

omit h in
theorem preserves {P : Database → Prop} (h : Writes tenantId exportId db db') (hP : P db)
    (hstep : ∀ {db db' : Database}, Write tenantId exportId db db' → P db → P db') : P db' := by
  induction h with
  | refl => exact hP
  | tail _ hwrite ih => exact hstep hwrite ih

theorem grows : Grows db db' :=
  h.preserves (P := Grows db) (.refl db) fun hwrite hgrows => hgrows.trans hwrite.grows

theorem ownsProject {t id : Uuid} (ho : db.OwnsProject t id) : db'.OwnsProject t id :=
  h.preserves ho fun hwrite ho => hwrite.ownsProject ho

theorem ownsConversation {t id : Uuid}
    (ho : db.OwnsConversation t id) : db'.OwnsConversation t id :=
  h.preserves ho fun hwrite ho => hwrite.ownsConversation ho

theorem ownsMessage {t id : Uuid} (ho : db.OwnsMessage t id) : db'.OwnsMessage t id :=
  h.preserves ho fun hwrite ho => hwrite.ownsMessage ho

end

/-! ## One message -/

theorem persistMessage (exportId : Uuid) {conversationId : Uuid}
    (h : db.OwnsConversation tenantId conversationId) (ordinal : Nat) (message : ParsedMessage) :
    Writes tenantId exportId db (db.persistMessage exportId conversationId ordinal message).2 ∧
      (db.persistMessage exportId conversationId ordinal message).2.OwnsMessage tenantId
        (db.persistMessage exportId conversationId ordinal message).1 := by
  have hupsert : Write tenantId exportId db (db.upsertMessage conversationId ordinal message).2 :=
    .upsertMessage h ordinal message
  have hrow := db.upsertMessage_row conversationId ordinal message
  have hmem : (db.upsertMessage conversationId ordinal message).1 ∈
      (db.upsertMessage conversationId ordinal message).2.messages := upsert_fst_mem
  have howns : (db.upsertMessage conversationId ordinal message).2.OwnsMessage tenantId
      (db.upsertMessage conversationId ordinal message).1.id := by
    refine ⟨conversationId, mem_map.mpr ⟨_, hmem, ?_⟩, hupsert.ownsConversation h⟩
    rw [hrow.1]
  have hobserve : Write tenantId exportId (db.upsertMessage conversationId ordinal message).2
      (db.persistMessage exportId conversationId ordinal message).2 := .observeMessage howns
  exact ⟨(single hupsert).trans (single hobserve), hobserve.ownsMessage howns⟩

theorem insertParts (exportId : Uuid) {messageId : Uuid} (revision : Nat)
    (parts : List ParsedContentPart) :
    ∀ {db : Database}, db.OwnsMessage tenantId messageId →
      Writes tenantId exportId db (Database.insertParts messageId revision db parts) := by
  induction parts with
  | nil => exact fun _ => refl _
  | cons part parts ih =>
    intro db h
    have hpart : Write tenantId exportId db (Database.insertPart messageId revision db part) :=
      .insertPart h revision part
    exact (single hpart).trans (ih (hpart.ownsMessage h))

theorem persistParts (exportId : Uuid) {messageId : Uuid} (h : db.OwnsMessage tenantId messageId)
    (parts : List ParsedContentPart) :
    Writes tenantId exportId db (db.persistParts messageId parts) := by
  unfold Database.persistParts
  split
  · split
    · exact refl db
    · exact insertParts exportId _ parts h
  · exact insertParts exportId _ parts h

/-! ## One conversation -/

theorem persistMessages (exportId : Uuid) {conversationId : Uuid}
    (messages : List (ParsedMessage × Nat)) :
    ∀ {db : Database} {ids : IdMap}, db.OwnsConversation tenantId conversationId →
      ids.All (db.OwnsMessage tenantId) →
      Writes tenantId exportId db
          (Database.persistMessages exportId conversationId db ids messages).1 ∧
        (Database.persistMessages exportId conversationId db ids messages).2.All
          ((Database.persistMessages exportId conversationId db ids messages).1.OwnsMessage
            tenantId) := by
  induction messages with
  | nil => exact fun _ hids => ⟨refl _, hids⟩
  | cons head messages ih =>
    obtain ⟨message, ordinal⟩ := head
    intro db ids h hids
    obtain ⟨hmessage, howns⟩ := persistMessage exportId h ordinal message
    have hparts := persistParts exportId howns message.parts
    have hboth := hmessage.trans hparts
    obtain ⟨hrest, hall⟩ := ih (hboth.ownsConversation h)
      ((hids.mono fun _ => hboth.ownsMessage).cons (hparts.ownsMessage howns))
    exact ⟨hboth.trans hrest, hall⟩

theorem linkParents {ids : IdMap} (messages : List ParsedMessage) :
    ∀ {db : Database}, ids.All (db.OwnsMessage tenantId) →
      Writes tenantId exportId db (Database.linkParents ids db messages) := by
  induction messages with
  | nil => exact fun _ => refl _
  | cons message messages ih =>
    intro db hids
    unfold Database.linkParents
    split
    · rename_i messageId parentId hid hparent
      obtain ⟨externalId, -, hget⟩ := Option.bind_eq_some_iff.mp hparent
      have hlink : Write tenantId exportId db (db.setParent messageId parentId) :=
        .setParent (hids _ _ hid) (hids _ _ hget)
      exact (single hlink).trans (ih (hids.mono fun _ => hlink.ownsMessage))
    · exact ih hids

theorem persistConversationDetail (h : db.OwnsConversation tenantId conversationId)
    {projectId : Option Uuid} (hproject : ∀ p, projectId = some p → db.OwnsProject tenantId p)
    (conversation : ParsedConversation) (parser : ParserId) :
    Writes tenantId exportId db
      (db.persistConversationDetail exportId conversationId projectId conversation parser) := by
  have hheader : Write tenantId exportId db
      (db.updateConversationHeader exportId conversationId projectId conversation parser) :=
    .updateHeader h hproject conversation parser
  obtain ⟨hmessages, hids⟩ := persistMessages exportId conversation.messages.zipIdx
    (hheader.ownsConversation h) .nil
  exact (single hheader).trans (hmessages.trans (linkParents conversation.messages hids))

theorem observePresented (h : db.OwnsConversation tenantId conversationId) (presented : List String) :
    Writes tenantId exportId db (db.observePresented exportId conversationId presented) := by
  unfold Database.observePresented
  have hids : ∀ id ∈ (db.messages.filter fun m => m.conversationId = conversationId &&
      presented.contains m.externalId).map (·.id), db.OwnsMessage tenantId id := by
    intro id hid
    obtain ⟨m, hm, rfl⟩ := mem_map.mp hid
    simp only [mem_filter, Bool.and_eq_true, decide_eq_true_eq] at hm
    exact ⟨conversationId, mem_map.mpr ⟨m, hm.1, by rw [hm.2.1]⟩, h⟩
  generalize (db.messages.filter fun m => m.conversationId = conversationId &&
    presented.contains m.externalId).map (·.id) = ids at hids
  clear h
  induction ids generalizing db with
  | nil => exact refl db
  | cons id ids ih =>
    have hobserve : Write tenantId exportId db (db.observeMessage exportId id) :=
      .observeMessage (hids id mem_cons_self)
    exact (single hobserve).trans
      (ih fun i hi => hobserve.ownsMessage (hids i (mem_cons_of_mem _ hi)))

/-! ## A plan -/

/-- The statements of a conversation, in the order the writer runs them. -/
theorem persistConversation (hprojects : projects.All (db.OwnsProject plan.tenantId))
    (conversation : ParsedConversation) :
    Writes plan.tenantId plan.exportId db (db.persistConversation plan projects conversation) := by
  have hupsert : Write plan.tenantId plan.exportId db
      (db.upsertConversation plan.tenantId conversation.externalId).2 :=
    .upsertConversation db conversation.externalId
  have hrow := db.upsertConversation_row plan.tenantId conversation.externalId
  have hmem : (db.upsertConversation plan.tenantId conversation.externalId).1 ∈
      (db.upsertConversation plan.tenantId conversation.externalId).2.conversations :=
    upsert_fst_mem
  unfold Database.persistConversation
  generalize db.upsertConversation plan.tenantId conversation.externalId = upserted at *
  obtain ⟨row, db₁⟩ := upserted
  dsimp only at hupsert hrow hmem ⊢
  have howns : db₁.OwnsConversation plan.tenantId row.id :=
    mem_map.mpr ⟨row, hmem, by rw [hrow.1]⟩
  have hobserve : Write plan.tenantId plan.exportId db₁
      (db₁.observe plan.exportId .conversation row.id (conversationDigest conversation)) :=
    .observeConversation howns _
  have hseen := (single hupsert).trans (single hobserve)
  have howns' := hobserve.ownsConversation howns
  split
  · -- unchanged content is marked as seen and its messages are observed
    have hmark : Write plan.tenantId plan.exportId _
        ((db₁.observe plan.exportId .conversation row.id
          (conversationDigest conversation)).markConversationSeen row.id plan.exportId) :=
      .markSeen howns'
    exact hseen.trans ((single hmark).trans
      (observePresented (hmark.ownsConversation howns') _))
  · have hrevision : Write plan.tenantId plan.exportId _
        ((db₁.observe plan.exportId .conversation row.id
          (conversationDigest conversation)).appendRevision row.id plan.exportId
          (conversationDigest conversation) plan.targetParser) :=
      .appendRevision howns' _ _
    have hkeep : Write plan.tenantId plan.exportId _ _ :=
      .keepConversation (hrevision.ownsConversation howns') (conversationDigest conversation)
        (presentedConversation plan conversation)
    have hkept := hseen.trans ((single hrevision).trans (single hkeep))
    refine hkept.trans (persistConversationDetail
      (hkeep.ownsConversation (hrevision.ownsConversation howns')) (fun p hp => ?_) _ _)
    obtain ⟨externalId, -, hget⟩ := Option.bind_eq_some_iff.mp hp
    exact hkept.ownsProject (hprojects externalId p hget)

theorem persistConversations (conversations : List ParsedConversation) :
    ∀ {db : Database}, projects.All (db.OwnsProject plan.tenantId) →
      Writes plan.tenantId plan.exportId db
        (Database.persistConversations plan projects db conversations) := by
  induction conversations with
  | nil => exact fun _ => refl _
  | cons conversation conversations ih =>
    intro db hprojects
    have hhead := persistConversation hprojects conversation
    exact hhead.trans (ih (hprojects.mono fun _ => hhead.ownsProject))

theorem persistProject (db : Database) (tenantId exportId : Uuid) (parser : ParserId)
    (project : ParsedProject) :
    Writes tenantId exportId db (db.persistProject tenantId exportId parser project).2 ∧
      (db.persistProject tenantId exportId parser project).2.OwnsProject tenantId
        (db.persistProject tenantId exportId parser project).1 := by
  have hupsert : Write tenantId exportId db (db.upsertProject tenantId exportId
      project.externalId (presentedProject parser project)).2 := .upsertProject ..
  have hrow := db.upsertProject_row tenantId exportId project.externalId
    (presentedProject parser project)
  have hmem : (db.upsertProject tenantId exportId project.externalId
      (presentedProject parser project)).1 ∈ (db.upsertProject tenantId exportId
        project.externalId (presentedProject parser project)).2.projects := upsert_fst_mem
  unfold Database.persistProject
  dsimp only
  generalize db.upsertProject tenantId exportId project.externalId
    (presentedProject parser project) = upserted at *
  obtain ⟨row, db₁⟩ := upserted
  dsimp only at hupsert hrow hmem ⊢
  have howns : db₁.OwnsProject tenantId row.id := mem_map.mpr ⟨row, hmem, by rw [hrow.1]⟩
  have hobserve : Write tenantId exportId db₁ (db₁.observe exportId .project row.id
      (presentedProject parser project).digest) := .observeProject howns _
  have hkeep : Write tenantId exportId _ _ := .keepProject (hobserve.ownsProject howns)
    { presentedProject parser project with
      parserName := row.parserName.getD (presentedProject parser project).parserName
      parserVersion := row.parserVersion.getD (presentedProject parser project).parserVersion }
  exact ⟨(single hupsert).trans ((single hobserve).trans (single hkeep)),
    hkeep.ownsProject (hobserve.ownsProject howns)⟩

theorem persistProjects (tenantId exportId : Uuid) (parser : ParserId)
    (projects : List ParsedProject) :
    ∀ {db : Database} {ids : IdMap}, ids.All (db.OwnsProject tenantId) →
      Writes tenantId exportId db
          (Database.persistProjects tenantId exportId parser db ids projects).1 ∧
        (Database.persistProjects tenantId exportId parser db ids projects).2.All
          ((Database.persistProjects tenantId exportId parser db ids projects).1.OwnsProject
            tenantId) := by
  induction projects with
  | nil => exact fun hids => ⟨refl _, hids⟩
  | cons project projects ih =>
    intro db ids hids
    obtain ⟨hproject, howns⟩ := persistProject db tenantId exportId parser project
    obtain ⟨hrest, hall⟩ := ih ((hids.mono fun _ => hproject.ownsProject).cons howns)
    exact ⟨hproject.trans hrest, hall⟩

theorem persistProjection (db : Database) (plan : ReparsePlan) :
    Writes plan.tenantId plan.exportId db (db.persistProjection plan) := by
  have hnil : IdMap.All [] (db.OwnsProject plan.tenantId) := .nil
  obtain ⟨hprojects, hids⟩ := persistProjects plan.tenantId plan.exportId plan.targetParser
    plan.parsed.projects hnil
  exact hprojects.trans (persistConversations plan.parsed.conversations hids)

end Writes

end Database

end ChatgptArchive
