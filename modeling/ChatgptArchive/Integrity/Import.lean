import ChatgptArchive.Integrity.Statements

/-!
# Persisting a projection keeps a database sound

The loops of `persistProjection` over the statements: each one keeps the database sound and only
adds identities and observations.
-/

namespace ChatgptArchive

open List Table

namespace Database

variable (db : Database)

def unwritten : Database :=
  { db with
    nextUuid := 0, projects := [], conversations := [], messages := [], contentParts := []
    observations := [], entityVersions := [], revisions := [] }

theorem unwritten_frame {db db' : Database} (h : db'.unwritten = db.unwritten) {α : Type*}
    {f : Database → α} (hf : ∀ db, f db.unwritten = f db) : f db' = f db := by
  rw [← hf db', h, hf]

/-- Identities and observations are added, never removed, and no other table is written. -/
structure Grows (db db' : Database) : Prop where
  unwritten : db'.unwritten = db.unwritten
  projects : ∀ id ∈ db.projects.map (·.id), id ∈ db'.projects.map (·.id)
  conversations : ∀ id ∈ db.conversations.map (·.id), id ∈ db'.conversations.map (·.id)
  messages : ∀ id ∈ db.messages.map (·.id), id ∈ db'.messages.map (·.id)
  observes : ∀ {e k i}, db.Observes e k i → db'.Observes e k i

namespace Grows

variable {db db' db'' : Database}

theorem refl (db : Database) : Grows db db := ⟨rfl, fun _ h => h, fun _ h => h, fun _ h => h, id⟩

theorem trans (h : Grows db db') (h' : Grows db' db'') : Grows db db'' where
  unwritten := h'.unwritten.trans h.unwritten
  projects id hid := h'.projects id (h.projects id hid)
  conversations id hid := h'.conversations id (h.conversations id hid)
  messages id hid := h'.messages id (h.messages id hid)
  observes ho := h'.observes (h.observes ho)

theorem exports (h : Grows db db') : db'.exports = db.exports :=
  unwritten_frame h.unwritten fun _ => rfl

theorem importRuns (h : Grows db db') : db'.importRuns = db.importRuns :=
  unwritten_frame h.unwritten fun _ => rfl

theorem hasExport (h : Grows db db') {e a : Uuid} : db'.HasExport e a ↔ db.HasExport e a := by
  rw [HasExport, HasExport, h.exports]

theorem of_observations {observations : List ObservationRow} {entityVersions : List EntityVersionRow}
    (hold : ∀ o ∈ db.observations, o.key ∈ observations.map ObservationRow.key) :
    Grows db { db with observations, entityVersions } := by
  refine ⟨rfl, fun _ h => h, fun _ h => h, fun _ h => h, ?_⟩
  rintro e k i ⟨o, ho, rfl, rfl, rfl⟩
  obtain ⟨q, hq, hkey⟩ := mem_map.mp (hold o ho)
  simp only [ObservationRow.key, Prod.mk.injEq] at hkey
  exact ⟨q, hq, hkey⟩

theorem observe (db : Database) (exportId : Uuid) (kind : EntityKind) (entityId : Uuid)
    (digest : ContentDigest) : Grows db (db.observe exportId kind entityId digest) := by
  refine of_observations fun o ho => map_upsert_subset ?_ (mem_map_of_mem ho)
  exact fun _ => rfl

theorem keepSnapshot (db : Database) (kind : EntityKind) (entityId : Uuid) (digest : ContentDigest)
    (snapshot : Snapshot) : Grows db (db.keepSnapshot kind entityId digest snapshot) :=
  ⟨rfl, fun _ h => h, fun _ h => h, fun _ h => h, id⟩

theorem keepConversationVersion (db : Database) (conversationId : Uuid) (digest : ContentDigest)
    (version : ConversationVersion) :
    Grows db (db.keepConversationVersion conversationId digest version) :=
  ⟨rfl, fun _ h => h, fun i hi => by
    rwa [Database.keepConversationVersion, setConversationDigest, map_updateWhere]
    exact fun _ => rfl,
    fun _ h => h, id⟩

theorem observeMessage (db : Database) (exportId messageId : Uuid) :
    Grows db (db.observeMessage exportId messageId) :=
  of_observations fun _ ho => mem_map_of_mem (mem_insertAbsent.mpr (.inl ho))

theorem updateConversations {p : ConversationRow → Bool} {f : ConversationRow → ConversationRow}
    (hid : ∀ c, (f c).id = c.id) :
    Grows db { db with conversations := Table.updateWhere p f db.conversations } :=
  ⟨rfl, fun _ h => h, fun _ h => by rwa [map_updateWhere hid], fun _ h => h, id⟩

theorem updateMessages {p : MessageRow → Bool} {f : MessageRow → MessageRow}
    (hid : ∀ m, (f m).id = m.id) :
    Grows db { db with messages := Table.updateWhere p f db.messages } :=
  ⟨rfl, fun _ h => h, fun _ h => h, fun _ h => by rwa [map_updateWhere hid], id⟩

theorem upsertProject (db : Database) (tenantId exportId : Uuid) (externalId : String)
    (version : ProjectVersion) :
    Grows db (db.upsertProject tenantId exportId externalId version).2 := by
  refine ⟨rfl, fun i hi => ?_, fun _ h => h, fun _ h => h, id⟩
  refine map_upsert_subset ?_ hi
  exact fun _ => rfl

theorem upsertConversation (db : Database) (tenantId : Uuid) (externalId : String) :
    Grows db (db.upsertConversation tenantId externalId).2 := by
  refine ⟨rfl, fun _ h => h, fun i hi => ?_, fun _ h => h, id⟩
  exact map_upsert_subset (fun _ => rfl) hi

theorem upsertMessage (db : Database) (conversationId : Uuid) (ordinal : Nat)
    (message : ParsedMessage) : Grows db (db.upsertMessage conversationId ordinal message).2 := by
  refine ⟨rfl, fun _ h => h, fun _ h => h, fun i hi => ?_, id⟩
  refine map_upsert_subset ?_ hi
  exact fun _ => rfl

theorem persistMessage (db : Database) (exportId conversationId : Uuid) (ordinal : Nat)
    (message : ParsedMessage) :
    Grows db (db.persistMessage exportId conversationId ordinal message).2 :=
  (upsertMessage db conversationId ordinal message).trans (observeMessage _ _ _)

theorem addContentPart (db : Database) (part : ContentPartRow) :
    Grows db { db with contentParts := db.contentParts ++ [part] } :=
  ⟨rfl, fun _ h => h, fun _ h => h, fun _ h => h, id⟩

theorem freshUuid (db : Database) : Grows db db.freshUuid.2 :=
  ⟨rfl, fun _ h => h, fun _ h => h, fun _ h => h, id⟩

theorem appendRevision (db : Database) (conversationId exportId : Uuid) (digest : ContentDigest)
    (parser : ParserId) : Grows db (db.appendRevision conversationId exportId digest parser) := by
  unfold Database.appendRevision
  split
  · exact refl db
  · exact ⟨rfl, fun _ h => h, fun _ h => h, fun _ h => h, id⟩

end Grows

theorem appendRevision_projects (id exportId : Uuid) (digest : ContentDigest) (parser : ParserId) :
    (db.appendRevision id exportId digest parser).projects = db.projects := by
  unfold appendRevision
  split <;> rfl

theorem appendRevision_conversations (id exportId : Uuid) (digest : ContentDigest)
    (parser : ParserId) :
    (db.appendRevision id exportId digest parser).conversations = db.conversations := by
  unfold appendRevision
  split <;> rfl

theorem observes_observe (exportId : Uuid) (kind : EntityKind) (entityId : Uuid)
    (digest : ContentDigest) :
    (db.observe exportId kind entityId digest).Observes exportId kind entityId := by
  refine ⟨_, upsert_fst_mem, ?_⟩
  exact upsert_fst (P := fun o : ObservationRow =>
      o.exportId = exportId ∧ o.kind = kind ∧ o.entityId = entityId)
    (fun _ _ ho => by simpa [and_assoc] using ho) (fun _ => ⟨rfl, rfl, rfl⟩)

/-! ## The rows an upsert returns -/

theorem upsertProject_row (tenantId exportId : Uuid) (externalId : String)
    (version : ProjectVersion) :
    (db.upsertProject tenantId exportId externalId version).1.accountId = tenantId ∧
      (db.upsertProject tenantId exportId externalId version).1.externalId = externalId :=
  upsert_fst (P := fun row : ProjectRow =>
      row.accountId = tenantId ∧ row.externalId = externalId)
    (fun _ _ hp => by simpa [mergeProject] using hp) (fun _ => ⟨rfl, rfl⟩)

theorem upsertConversation_row (tenantId : Uuid) (externalId : String) :
    (db.upsertConversation tenantId externalId).1.accountId = tenantId ∧
      (db.upsertConversation tenantId externalId).1.externalId = externalId :=
  upsert_fst (P := fun row : ConversationRow =>
      row.accountId = tenantId ∧ row.externalId = externalId)
    (fun _ _ hc => by simpa using hc) (fun _ => ⟨rfl, rfl⟩)

theorem upsertMessage_row (conversationId : Uuid) (ordinal : Nat) (message : ParsedMessage) :
    (db.upsertMessage conversationId ordinal message).1.conversationId = conversationId ∧
      (db.upsertMessage conversationId ordinal message).1.externalId = message.externalId :=
  upsert_fst (P := fun row : MessageRow =>
      row.conversationId = conversationId ∧ row.externalId = message.externalId)
    (fun _ _ hm => by simpa [mergeMessage] using hm) (fun _ => ⟨rfl, rfl⟩)

end Database

namespace Sound

open Database

variable {db : Database} {ids : IdMap} {db' : Database}

/-! ## One message -/

theorem persistMessage (h : Sound db) {exportId conversationId : Uuid} (ordinal : Nat)
    (message : ParsedMessage) (hobs : db.Observes exportId .conversation conversationId) :
    Sound (db.persistMessage exportId conversationId ordinal message).2 := by
  have hrow := db.upsertMessage_row conversationId ordinal message
  have hmem : (db.upsertMessage conversationId ordinal message).1 ∈
      (db.upsertMessage conversationId ordinal message).2.messages := upsert_fst_mem
  rcases upsert_cases
    (fun m : MessageRow => m.conversationId = conversationId && m.externalId = message.externalId)
    (newMessage db.nextUuid conversationId ordinal message) (mergeMessage ordinal message)
    db.messages with ⟨m, hm, -, heq⟩ | ⟨hnone, heq⟩
  · -- the stored row is merged in place, then observed
    have hmerged : Sound (db.upsertMessage conversationId ordinal message).2 := by
      simp only [Database.upsertMessage, Database.freshUuid, heq]
      exact h.freshUuid.updateMessages (fun _ => rfl) (fun _ => rfl)
        fun _ hm _ => h.consistent.message_parent hm
    exact hmerged.observeMessage ⟨_, hmem, rfl, hrow.1.symm ▸ hobs⟩
  · have hnew : (newMessage db.nextUuid conversationId ordinal message).key ∉
        db.messages.map MessageRow.key := by
      intro hkey
      obtain ⟨m, hm, hmkey⟩ := mem_map.mp hkey
      simp only [MessageRow.key, newMessage, Prod.mk.injEq] at hmkey
      simpa [hmkey] using hnone m hm
    have habsent : ∀ o ∈ db.observations, (o.exportId = exportId && o.kind = .message &&
        o.entityId = (newMessage db.nextUuid conversationId ordinal message).id) = false := by
      intro o ho
      by_contra hcon
      simp only [Bool.not_eq_false, Bool.and_eq_true, decide_eq_true_eq] at hcon
      obtain ⟨m, hm, hmid, -⟩ := h.observedMessage o ho hcon.1.2
      exact absurd (hmid.trans hcon.2) (Nat.ne_of_lt (h.messageFresh m hm))
    simp only [Database.persistMessage, Database.upsertMessage, Database.freshUuid, heq,
      Database.observeMessage]
    rw [insertAbsent_of_absent habsent]
    exact h.addMessage rfl rfl hnew hobs

theorem insertPart (h : Sound db) {messageId : Uuid} (revision : Nat) (part : ParsedContentPart)
    (hmessage : messageId ∈ db.messages.map (·.id)) :
    Sound (Database.insertPart messageId revision db part) :=
  h.freshUuid.addContentPart _ hmessage rfl

theorem insertParts (messageId revision : Nat) (parts : List ParsedContentPart) :
    ∀ {db : Database}, Sound db → messageId ∈ db.messages.map (·.id) →
      Sound (Database.insertParts messageId revision db parts) ∧
        Grows db (Database.insertParts messageId revision db parts) := by
  induction parts with
  | nil => exact fun h _ => ⟨h, .refl _⟩
  | cons part parts ih =>
    intro db h hmessage
    obtain ⟨hsound, hgrows⟩ := ih (h.insertPart revision part hmessage) hmessage
    exact ⟨hsound, ((Grows.freshUuid db).trans (.addContentPart _ _)).trans hgrows⟩

theorem persistParts (h : Sound db) {messageId : Uuid} (parts : List ParsedContentPart)
    (hmessage : messageId ∈ db.messages.map (·.id)) :
    Sound (db.persistParts messageId parts) ∧ Grows db (db.persistParts messageId parts) := by
  unfold Database.persistParts
  split
  · split
    · exact ⟨h, .refl db⟩
    · exact insertParts _ _ _ h hmessage
  · exact insertParts _ _ _ h hmessage

def Resolves (ids : IdMap) (db : Database) : Prop :=
  ∀ externalId id, ids.get? externalId = some id → id ∈ db.messages.map (·.id)

theorem Resolves.nil : Resolves [] db := by
  intro key value hget
  simp [IdMap.get?] at hget

theorem Resolves.cons {ids : IdMap} (hids : Resolves ids db) {externalId : String} {id : Uuid}
    (hid : id ∈ db.messages.map (·.id)) : Resolves ((externalId, id) :: ids) db := by
  intro key value hget
  simp only [IdMap.get?, lookup_cons] at hget
  split at hget
  · exact Option.some.inj hget ▸ hid
  · exact hids key value hget

theorem Resolves.grows (hids : Resolves ids db) (h : Grows db db') : Resolves ids db' :=
  fun key value hget => h.messages value (hids key value hget)

theorem persistMessages (exportId conversationId : Uuid) (messages : List (ParsedMessage × Nat)) :
    ∀ {db : Database} {ids : IdMap}, Sound db → db.Observes exportId .conversation conversationId →
      Resolves ids db →
      Sound (Database.persistMessages exportId conversationId db ids messages).1 ∧
        Grows db (Database.persistMessages exportId conversationId db ids messages).1 ∧
        Resolves (Database.persistMessages exportId conversationId db ids messages).2
          (Database.persistMessages exportId conversationId db ids messages).1 := by
  induction messages with
  | nil => exact fun h _ hids => ⟨h, .refl _, hids⟩
  | cons head messages ih =>
    obtain ⟨message, ordinal⟩ := head
    intro db ids h hobs hids
    have hmessage := h.persistMessage ordinal message hobs
    have hgrows := Grows.persistMessage db exportId conversationId ordinal message
    have hid : (db.persistMessage exportId conversationId ordinal message).1 ∈
        (db.persistMessage exportId conversationId ordinal message).2.messages.map (·.id) :=
      mem_map_of_mem upsert_fst_mem
    obtain ⟨hparts, hgrows'⟩ := hmessage.persistParts message.parts hid
    have hstep := hgrows.trans hgrows'
    obtain ⟨hsound, hrest, hres⟩ := ih hparts (hstep.observes hobs)
      ((hids.grows hstep).cons (hgrows'.messages _ hid))
    exact ⟨hsound, hstep.trans hrest, hres⟩

theorem linkParents (ids : IdMap) (messages : List ParsedMessage) :
    ∀ {db : Database}, Sound db → Resolves ids db →
      Sound (Database.linkParents ids db messages) ∧
        Grows db (Database.linkParents ids db messages) := by
  induction messages with
  | nil => exact fun h _ => ⟨h, .refl _⟩
  | cons message messages ih =>
    intro db h hids
    unfold Database.linkParents
    split
    · rename_i messageId parentId _ hparent
      obtain ⟨externalId, -, hget⟩ := Option.bind_eq_some_iff.mp hparent
      have hgrows : Grows db (db.setParent messageId parentId) := .updateMessages fun _ => rfl
      obtain ⟨hsound, hrest⟩ := ih (h.setParent messageId (hids _ _ hget)) (hids.grows hgrows)
      exact ⟨hsound, hgrows.trans hrest⟩
    · exact ih h hids

/-! ## One conversation -/

theorem observes_export (h : Sound db) {exportId : Uuid} {kind : EntityKind} {entityId : Uuid}
    (hobs : db.Observes exportId kind entityId) : exportId ∈ db.exports.map (·.id) := by
  obtain ⟨o, ho, rfl, -⟩ := hobs
  exact h.consistent.observation_export ho

theorem persistConversationDetail (h : Sound db) {exportId conversationId : Uuid}
    {projectId : Option Uuid} (conversation : ParsedConversation) (parser : ParserId)
    (hobs : db.Observes exportId .conversation conversationId)
    (hproject : ∀ p, projectId = some p → p ∈ db.projects.map (·.id)) :
    Sound (db.persistConversationDetail exportId conversationId projectId conversation parser) ∧
      Grows db (db.persistConversationDetail exportId conversationId projectId conversation
        parser) := by
  have hheader := h.updateConversationHeader conversationId conversation parser
    (h.observes_export hobs) hproject
  have hgrows : Grows db
      (db.updateConversationHeader exportId conversationId projectId conversation parser) :=
    .updateConversations fun _ => rfl
  obtain ⟨hmessages, hgrows', hids⟩ :=
    persistMessages exportId conversationId conversation.messages.zipIdx hheader
      (hgrows.observes hobs) .nil
  obtain ⟨hsound, hlinked⟩ := linkParents _ conversation.messages hmessages hids
  exact ⟨hsound, hgrows.trans (hgrows'.trans hlinked)⟩

theorem observeMessages (exportId : Uuid) (ids : List Uuid) :
    ∀ {db : Database}, Sound db →
      (∀ id ∈ ids, ∃ m ∈ db.messages, m.id = id ∧
        db.Observes exportId .conversation m.conversationId) →
      Sound (ids.foldl (fun db id => db.observeMessage exportId id) db) ∧
        Grows db (ids.foldl (fun db id => db.observeMessage exportId id) db) := by
  induction ids with
  | nil => exact fun h _ => ⟨h, .refl _⟩
  | cons id ids ih =>
    intro db h hids
    have hgrows := Grows.observeMessage db exportId id
    obtain ⟨hsound, hrest⟩ := ih (h.observeMessage (hids id (mem_cons_self ..)))
      fun i hi => by
        obtain ⟨m, hm, hmid, hobs⟩ := hids i (mem_cons_of_mem _ hi)
        exact ⟨m, hm, hmid, hgrows.observes hobs⟩
    exact ⟨hsound, hgrows.trans hrest⟩

theorem observePresented (h : Sound db) {exportId conversationId : Uuid} (presented : List String)
    (hobs : db.Observes exportId .conversation conversationId) :
    Sound (db.observePresented exportId conversationId presented) ∧
      Grows db (db.observePresented exportId conversationId presented) := by
  refine observeMessages exportId _ h fun id hid => ?_
  obtain ⟨m, hm, rfl⟩ := mem_map.mp hid
  simp only [mem_filter, Bool.and_eq_true, decide_eq_true_eq] at hm
  exact ⟨m, hm.1, rfl, hm.2.1.symm ▸ hobs⟩

def ResolvesProjects (ids : IdMap) (db : Database) : Prop :=
  ∀ externalId id, ids.get? externalId = some id → id ∈ db.projects.map (·.id)

theorem ResolvesProjects.nil : ResolvesProjects [] db := by
  intro key value hget
  simp [IdMap.get?] at hget

theorem ResolvesProjects.grows (hids : ResolvesProjects ids db) (h : Grows db db') :
    ResolvesProjects ids db' :=
  fun key value hget => h.projects value (hids key value hget)

theorem observeUnchanged (h : Sound db) {exportId conversationId : Uuid} (presented : List String)
    (hobs : db.Observes exportId .conversation conversationId) :
    Sound ((db.markConversationSeen conversationId exportId).observePresented exportId
      conversationId presented) ∧
    Grows db ((db.markConversationSeen conversationId exportId).observePresented exportId
      conversationId presented) := by
  have hseen := h.markConversationSeen conversationId (h.observes_export hobs)
  have hgrows : Grows db (db.markConversationSeen conversationId exportId) :=
    .updateConversations fun _ => rfl
  obtain ⟨hsound, hrest⟩ := hseen.observePresented presented (hgrows.observes hobs)
  exact ⟨hsound, hgrows.trans hrest⟩

theorem rewriteConversation (h : Sound db) {exportId conversationId : Uuid}
    {projectId : Option Uuid} (digest : ContentDigest) (version : ConversationVersion)
    (parser : ParserId) (hobs : db.Observes exportId .conversation conversationId)
    (hproject : ∀ p, projectId = some p → p ∈ db.projects.map (·.id)) :
    let kept := (db.appendRevision conversationId exportId digest parser).keepConversationVersion
      conversationId digest version
    Sound (kept.persistConversationDetail exportId conversationId projectId version.conversation
      parser) ∧
    Grows db (kept.persistConversationDetail exportId conversationId projectId
      version.conversation parser) := by
  have hrevision := h.appendRevision conversationId digest parser (h.observes_export hobs)
  have hgrows := (Grows.appendRevision db conversationId exportId digest parser).trans
    (.keepConversationVersion _ conversationId digest version)
  obtain ⟨hsound, hrest⟩ := (hrevision.keepConversationVersion conversationId digest
    version).persistConversationDetail version.conversation parser (hgrows.observes hobs)
      fun p hp => hgrows.projects p (hproject p hp)
  exact ⟨hsound, hgrows.trans hrest⟩

/-- Content that is stored already is observed once more; other content is rewritten. -/
theorem persistConversation (h : Sound db) {plan : ReparsePlan} {projects : IdMap}
    (conversation : ParsedConversation) (hexport : db.HasExport plan.exportId plan.tenantId)
    (hprojects : ResolvesProjects projects db) :
    Sound (db.persistConversation plan projects conversation) ∧
      Grows db (db.persistConversation plan projects conversation) := by
  have hupsert := h.upsertConversation conversation.externalId (h.hasExport_account hexport)
  have hgrows := Grows.upsertConversation db plan.tenantId conversation.externalId
  have hrow := db.upsertConversation_row plan.tenantId conversation.externalId
  have hmem : (db.upsertConversation plan.tenantId conversation.externalId).1 ∈
      (db.upsertConversation plan.tenantId conversation.externalId).2.conversations :=
    upsert_fst_mem
  unfold Database.persistConversation
  generalize db.upsertConversation plan.tenantId conversation.externalId = upserted at *
  obtain ⟨row, db₁⟩ := upserted
  simp only at hupsert hgrows hrow hmem ⊢
  have hobserve := hupsert.observeConversation (conversationDigest conversation) hmem
    (hgrows.hasExport.mpr (hrow.1.symm ▸ hexport))
  have hobserves := db₁.observes_observe plan.exportId .conversation row.id
    (conversationDigest conversation)
  have hgrows' := hgrows.trans (Grows.observe db₁ plan.exportId .conversation row.id
    (conversationDigest conversation))
  split
  · obtain ⟨hsound, hrest⟩ := hobserve.observeUnchanged
      (conversation.messages.map (·.externalId)) hobserves
    exact ⟨hsound, hgrows'.trans hrest⟩
  · obtain ⟨hsound, hrest⟩ := hobserve.rewriteConversation (conversationDigest conversation)
      (presentedConversation plan conversation) plan.targetParser hobserves fun p hp => by
        obtain ⟨externalId, -, hget⟩ := Option.bind_eq_some_iff.mp hp
        exact hprojects.grows hgrows' externalId p hget
    exact ⟨hsound, hgrows'.trans hrest⟩

theorem persistConversations (plan : ReparsePlan) (projects : IdMap)
    (conversations : List ParsedConversation) :
    ∀ {db : Database}, Sound db → db.HasExport plan.exportId plan.tenantId →
      ResolvesProjects projects db →
      Sound (Database.persistConversations plan projects db conversations) ∧
        Grows db (Database.persistConversations plan projects db conversations) := by
  induction conversations with
  | nil => exact fun h _ _ => ⟨h, .refl _⟩
  | cons conversation conversations ih =>
    intro db h hexport hprojects
    obtain ⟨hsound, hgrows⟩ := h.persistConversation conversation hexport hprojects
    obtain ⟨hsound', hrest⟩ := ih hsound (hgrows.hasExport.mpr hexport) (hprojects.grows hgrows)
    exact ⟨hsound', hgrows.trans hrest⟩

/-! ## Projects -/

theorem ResolvesProjects.cons {ids : IdMap} (hids : ResolvesProjects ids db) {externalId : String}
    {id : Uuid} (hid : id ∈ db.projects.map (·.id)) :
    ResolvesProjects ((externalId, id) :: ids) db := by
  intro key value hget
  simp only [IdMap.get?, lookup_cons] at hget
  split at hget
  · exact Option.some.inj hget ▸ hid
  · exact hids key value hget

theorem persistProject (h : Sound db) {tenantId exportId : Uuid} (parser : ParserId)
    (project : ParsedProject) (hexport : db.HasExport exportId tenantId) :
    Sound (db.persistProject tenantId exportId parser project).2 ∧
      Grows db (db.persistProject tenantId exportId parser project).2 ∧
      (db.persistProject tenantId exportId parser project).1 ∈
        (db.persistProject tenantId exportId parser project).2.projects.map (·.id) := by
  have hupsert := h.upsertProject project.externalId (presentedProject parser project) hexport
  have hgrows := Grows.upsertProject db tenantId exportId project.externalId
    (presentedProject parser project)
  have hrow := db.upsertProject_row tenantId exportId project.externalId
    (presentedProject parser project)
  have hmem : (db.upsertProject tenantId exportId project.externalId
      (presentedProject parser project)).1 ∈ (db.upsertProject tenantId exportId
        project.externalId (presentedProject parser project)).2.projects := upsert_fst_mem
  have hobserve := hupsert.observeProject (presentedProject parser project).digest hmem
    (hgrows.hasExport.mpr (hrow.1.symm ▸ hexport))
  refine ⟨hobserve.keepSnapshot _ _ _ _, hgrows.trans ?_, mem_map_of_mem hmem⟩
  exact (Grows.observe _ exportId .project _ _).trans (.keepSnapshot _ _ _ _ _)

theorem persistProjects (tenantId exportId : Uuid) (parser : ParserId)
    (projects : List ParsedProject) :
    ∀ {db : Database} {ids : IdMap}, Sound db → db.HasExport exportId tenantId →
      ResolvesProjects ids db →
      Sound (Database.persistProjects tenantId exportId parser db ids projects).1 ∧
        Grows db (Database.persistProjects tenantId exportId parser db ids projects).1 ∧
        ResolvesProjects (Database.persistProjects tenantId exportId parser db ids projects).2
          (Database.persistProjects tenantId exportId parser db ids projects).1 := by
  induction projects with
  | nil => exact fun h _ hids => ⟨h, .refl _, hids⟩
  | cons project projects ih =>
    intro db ids h hexport hids
    obtain ⟨hsound, hgrows, hid⟩ := h.persistProject parser project hexport
    obtain ⟨hsound', hrest, hids'⟩ := ih hsound (hgrows.hasExport.mpr hexport)
      ((hids.grows hgrows).cons hid)
    exact ⟨hsound', hgrows.trans hrest, hids'⟩

theorem persistProjection (h : Sound db) (plan : ReparsePlan)
    (hexport : db.HasExport plan.exportId plan.tenantId) :
    Sound (db.persistProjection plan) ∧ Grows db (db.persistProjection plan) := by
  obtain ⟨hprojects, hgrows, hids⟩ := persistProjects plan.tenantId plan.exportId
    plan.targetParser plan.parsed.projects h hexport .nil
  obtain ⟨hsound, hrest⟩ := persistConversations plan _ plan.parsed.conversations hprojects
    (hgrows.hasExport.mpr hexport) hids
  exact ⟨hsound, hgrows.trans hrest⟩

end Sound

end ChatgptArchive
