import ChatgptArchive.Integrity.Sound

/-!
# The statements of the import path keep a database sound

What the references of a sound database resolve to, and one lemma per statement that a receipt,
an import or a restoration issues.
-/

namespace ChatgptArchive

open List Table Option ObservationRow

namespace Sound

variable {db : Database}

/-! ## Identities -/

section

variable (h : Sound db)
include h

theorem project_eq_of_id {p q : ProjectRow} (hp : p ∈ db.projects)
    (hq : q ∈ db.projects) (hid : p.id = q.id) : p = q :=
  inj_on_of_nodup_map h.projectIds hp hq hid

theorem conversation_eq_of_id {c d : ConversationRow} (hc : c ∈ db.conversations)
    (hd : d ∈ db.conversations) (hid : c.id = d.id) : c = d :=
  inj_on_of_nodup_map h.conversationIds hc hd hid

theorem message_eq_of_id {m n : MessageRow} (hm : m ∈ db.messages)
    (hn : n ∈ db.messages) (hid : m.id = n.id) : m = n :=
  inj_on_of_nodup_map h.messageIds hm hn hid

theorem export_eq_of_id {e f : ExportRow} (he : e ∈ db.exports)
    (hf : f ∈ db.exports) (hid : e.id = f.id) : e = f :=
  inj_on_of_nodup_map h.exportIds he hf hid

theorem hasExport_unique {e a b : Uuid} (ha : db.HasExport e a)
    (hb : db.HasExport e b) : a = b := by
  obtain ⟨r, hr, hre, rfl⟩ := ha
  obtain ⟨s, hs, hse, rfl⟩ := hb
  rw [h.export_eq_of_id hr hs (hre.trans hse.symm)]

omit h in
theorem hasExport_id {e a : Uuid} (ha : db.HasExport e a) : e ∈ db.exports.map (·.id) := by
  obtain ⟨r, hr, rfl, -⟩ := ha
  exact mem_map.mpr ⟨r, hr, rfl⟩

theorem hasExport_account {e a : Uuid} (ha : db.HasExport e a) :
    a ∈ db.accounts.map (·.id) := by
  obtain ⟨r, hr, -, rfl⟩ := ha
  exact h.consistent.export_account hr

theorem observes_conversation_account {e : Uuid} {c : ConversationRow}
    (hc : c ∈ db.conversations) (ho : db.Observes e .conversation c.id) :
    db.HasExport e c.accountId := by
  obtain ⟨o, ho, rfl, hkind, hid⟩ := ho
  obtain ⟨d, hd, hdid, hexport⟩ := h.observedConversation o ho hkind
  rwa [h.conversation_eq_of_id hc hd (hid.symm.trans hdid.symm)]

/-! ## Statements on one table -/

theorem updateConversations {p : ConversationRow → Bool}
    {f : ConversationRow → ConversationRow} (hid : ∀ c, (f c).id = c.id)
    (hkey : ∀ c, (f c).key = c.key)
    (hproject : ∀ c ∈ db.conversations, ∀ q, (f c).projectId = some q →
      q ∈ db.projects.map (·.id))
    (hfirst : ∀ c ∈ db.conversations, ∀ e, (f c).firstSeenExport = some e →
      e ∈ db.exports.map (·.id))
    (hlast : ∀ c ∈ db.conversations, ∀ e, (f c).lastSeenExport = some e →
      e ∈ db.exports.map (·.id)) :
    Sound { db with conversations := Table.updateWhere p f db.conversations } := by
  have haccount : ∀ c, (f c).accountId = c.accountId := fun c => (Prod.ext_iff.mp (hkey c)).1
  have hmap : (Table.updateWhere p f db.conversations).map (·.id) = db.conversations.map (·.id) :=
    map_updateWhere hid _
  refine { h with
    consistent := h.consistent.setConversations (fun i hi => hmap.symm ▸ hi) fun x hx => ?_
    conversationFresh := fun x hx => ?_
    conversationIds := hmap.symm ▸ h.conversationIds
    conversationKeys := (map_updateWhere hkey db.conversations).symm ▸ h.conversationKeys
    observedConversation := fun o ho hkind => ?_ }
  · rcases mem_updateWhere.mp hx with ⟨hx, -⟩ | ⟨c, hc, -, rfl⟩
    · exact .inl hx
    · exact .inr ⟨haccount c ▸ h.consistent.conversation_account hc,
        hproject c hc, hfirst c hc, hlast c hc⟩
  · rcases mem_updateWhere.mp hx with ⟨hx, -⟩ | ⟨c, hc, -, rfl⟩
    · exact h.conversationFresh x hx
    · rw [hid]
      exact h.conversationFresh c hc
  · obtain ⟨c, hc, hcid, hexport⟩ := h.observedConversation o ho hkind
    by_cases hp : p c = true
    · exact ⟨f c, mem_updateWhere.mpr (.inr ⟨c, hc, hp, rfl⟩), (hid c).trans hcid,
        haccount c ▸ hexport⟩
    · exact ⟨c, mem_updateWhere.mpr (.inl ⟨hc, by simpa using hp⟩), hcid, hexport⟩

theorem updateMessages {p : MessageRow → Bool} {f : MessageRow → MessageRow}
    (hid : ∀ m, (f m).id = m.id) (hkey : ∀ m, (f m).key = m.key)
    (hparent : ∀ m ∈ db.messages, ∀ q, (f m).parentMessageId = some q →
      q ∈ db.messages.map (·.id)) :
    Sound { db with messages := Table.updateWhere p f db.messages } := by
  have hconv : ∀ m, (f m).conversationId = m.conversationId :=
    fun m => (Prod.ext_iff.mp (hkey m)).1
  have hmap : (Table.updateWhere p f db.messages).map (·.id) = db.messages.map (·.id) :=
    map_updateWhere hid _
  refine { h with
    consistent := h.consistent.setMessages (fun i hi => hmap.symm ▸ hi) fun x hx => ?_
    messageFresh := fun x hx => ?_
    messageIds := hmap.symm ▸ h.messageIds
    messageKeys := (map_updateWhere hkey db.messages).symm ▸ h.messageKeys
    observedMessage := fun o ho hkind => ?_
    messageObserved := fun x hx => ?_ }
  · rcases mem_updateWhere.mp hx with ⟨hx, -⟩ | ⟨m, hm, -, rfl⟩
    · exact .inl hx
    · exact .inr ⟨hconv m ▸ h.consistent.message_conversation hm,
        fun q hq => hmap.symm ▸ hparent m hm q hq⟩
  · rcases mem_updateWhere.mp hx with ⟨hx, -⟩ | ⟨m, hm, -, rfl⟩
    · exact h.messageFresh x hx
    · rw [hid]
      exact h.messageFresh m hm
  · obtain ⟨m, hm, hmid, hobs⟩ := h.observedMessage o ho hkind
    by_cases hp : p m = true
    · exact ⟨f m, mem_updateWhere.mpr (.inr ⟨m, hm, hp, rfl⟩), (hid m).trans hmid, hconv m ▸ hobs⟩
    · exact ⟨m, mem_updateWhere.mpr (.inl ⟨hm, by simpa using hp⟩), hmid, hobs⟩
  · rcases mem_updateWhere.mp hx with ⟨hx, -⟩ | ⟨m, hm, -, rfl⟩
    · exact h.messageObserved x hx
    · rw [hid]
      exact h.messageObserved m hm

end

/-! ## Observations and versions -/

def Fits (db : Database) (o : ObservationRow) : Prop :=
  match o.kind with
  | .project => ∃ p ∈ db.projects, p.id = o.entityId ∧ db.HasExport o.exportId p.accountId
  | .conversation =>
    ∃ c ∈ db.conversations, c.id = o.entityId ∧ db.HasExport o.exportId c.accountId
  | .message => ∃ m ∈ db.messages, m.id = o.entityId ∧
      db.Observes o.exportId .conversation m.conversationId
  | .asset => False

variable (h : Sound db)
include h

theorem fits {o : ObservationRow} (ho : o ∈ db.observations) : Fits db o := by
  unfold Fits
  cases hk : o.kind with
  | project => exact h.observedProject o ho hk
  | conversation => exact h.observedConversation o ho hk
  | message => exact h.observedMessage o ho hk
  | asset => exact h.noAssetObservation o ho hk

omit h in
theorem Fits.congr {o q : ObservationRow} (hkey : q.key = o.key) (h : Fits db q) : Fits db o := by
  simp only [key, Prod.mk.injEq] at hkey
  obtain ⟨he, hk, hi⟩ := hkey
  simpa only [Fits, he, hk, hi] using h

theorem Fits.export {o : ObservationRow} (ho : Fits db o) :
    o.exportId ∈ db.exports.map (·.id) := by
  unfold Fits at ho
  split at ho
  · obtain ⟨_, _, -, he⟩ := ho
    exact hasExport_id he
  · obtain ⟨_, _, -, he⟩ := ho
    exact hasExport_id he
  · obtain ⟨_, _, -, q, hq, he, -⟩ := ho
    exact he ▸ h.consistent.observation_export hq
  · exact ho.elim

theorem setObservations {rows : List ObservationRow} (hkeys : (rows.map key).Nodup)
    (hold : ∀ o ∈ db.observations, o.key ∈ rows.map key)
    (hfits : ∀ o ∈ rows, Fits db o) : Sound { db with observations := rows } := by
  have hkeep : ∀ e k i, db.Observes e k i →
      ({ db with observations := rows } : Database).Observes e k i := by
    rintro e k i ⟨o, ho, rfl, rfl, rfl⟩
    obtain ⟨q, hq, hkey⟩ := mem_map.mp (hold o ho)
    simp only [key, Prod.mk.injEq] at hkey
    exact ⟨q, hq, hkey⟩
  refine { h with
    consistent := h.consistent.setObservations fun o ho => .inr ((hfits o ho).export h)
    observationKeys := hkeys
    observedProject := fun o ho hk => ?_
    observedConversation := fun o ho hk => ?_
    observedMessage := fun o ho hk => ?_
    messageObserved := fun m hm => ?_
    noAssetObservation := fun o ho hk => ?_ }
  · have hfit := hfits o ho
    simp only [Fits, hk] at hfit
    exact hfit
  · have hfit := hfits o ho
    simp only [Fits, hk] at hfit
    exact hfit
  · have hfit := hfits o ho
    simp only [Fits, hk] at hfit
    obtain ⟨m, hm, hmid, hobs⟩ := hfit
    exact ⟨m, hm, hmid, hkeep _ _ _ hobs⟩
  · obtain ⟨e, he⟩ := h.messageObserved m hm
    exact ⟨e, hkeep _ _ _ he⟩
  · simpa only [Fits, hk] using hfits o ho

theorem recordObservation {exportId : Uuid} {kind : EntityKind} {entityId : Uuid}
    {digest : ContentDigest} (hfits : Fits db ⟨exportId, kind, entityId, some digest⟩) :
    Sound (db.recordObservation exportId kind entityId digest) := by
  refine h.setObservations ?_ ?_ ?_
  · refine nodup_map_upsert (fun _ => rfl) h.observationKeys fun hnone hmem => ?_
    obtain ⟨q, hq, hkey⟩ := mem_map.mp hmem
    simp only [key, Prod.mk.injEq] at hkey
    simpa [hkey] using hnone q hq
  · intro o ho
    refine map_upsert_subset ?_ (mem_map_of_mem ho)
    exact fun _ => rfl
  · intro o ho
    rcases mem_upsert ho with ⟨ho, -⟩ | ⟨q, hq, -, rfl⟩ | ⟨rfl, -⟩
    · exact h.fits ho
    · exact (h.fits hq).congr rfl
    · exact hfits

theorem observeMessage {exportId messageId : Uuid}
    (hfits : Fits db ⟨exportId, .message, messageId, none⟩) :
    Sound (db.observeMessage exportId messageId) := by
  refine h.setObservations ?_ ?_ ?_
  · refine nodup_map_insertAbsent h.observationKeys fun hnone hmem => ?_
    obtain ⟨q, hq, hkey⟩ := mem_map.mp hmem
    simp only [key, Prod.mk.injEq] at hkey
    simpa [hkey] using hnone q hq
  · intro o ho
    exact mem_map_of_mem (mem_insertAbsent.mpr (.inl ho))
  · intro o ho
    rcases mem_insertAbsent.mp ho with ho | ⟨rfl, -⟩
    · exact h.fits ho
    · exact hfits

theorem setVersions {rows : List EntityVersionRow} (hkeys : (rows.map EntityVersionRow.key).Nodup) :
    Sound { db with entityVersions := rows } :=
  { h with consistent := h.consistent, versionKeys := hkeys }

theorem observe {exportId : Uuid} {kind : EntityKind} {entityId : Uuid}
    {digest : ContentDigest} (hfits : Fits db ⟨exportId, kind, entityId, some digest⟩) :
    Sound (db.observe exportId kind entityId digest) :=
  (h.recordObservation hfits).setVersions (nodup_map_deleteWhere h.versionKeys)

theorem observeProject {exportId : Uuid} {p : ProjectRow} (digest : ContentDigest)
    (hp : p ∈ db.projects) (hexport : db.HasExport exportId p.accountId) :
    Sound (db.observe exportId .project p.id digest) :=
  h.observe (show ∃ p ∈ db.projects, _ from ⟨p, hp, rfl, hexport⟩)

theorem observeConversation {exportId : Uuid} {c : ConversationRow}
    (digest : ContentDigest) (hc : c ∈ db.conversations)
    (hexport : db.HasExport exportId c.accountId) :
    Sound (db.observe exportId .conversation c.id digest) :=
  h.observe (show ∃ c ∈ db.conversations, _ from ⟨c, hc, rfl, hexport⟩)

theorem keepSnapshot (kind : EntityKind) (entityId : Uuid) (digest : ContentDigest)
    (snapshot : Snapshot) : Sound (db.keepSnapshot kind entityId digest snapshot) := by
  refine h.setVersions (nodup_map_insertAbsent h.versionKeys fun hnone hmem => ?_)
  obtain ⟨v, hv, hkey⟩ := mem_map.mp hmem
  simp only [EntityVersionRow.key, Prod.mk.injEq] at hkey
  simpa [hkey] using hnone v hv

theorem setConversationDigest (conversationId : Uuid) (digest : ContentDigest) :
    Sound (db.setConversationDigest conversationId digest) :=
  h.updateConversations (fun _ => rfl) (fun _ => rfl)
    (fun _ hc _ => h.consistent.conversation_project hc)
    (fun _ hc _ => h.consistent.conversation_firstSeen hc)
    (fun _ hc _ => h.consistent.conversation_lastSeen hc)

theorem keepConversationVersion (conversationId : Uuid) (digest : ContentDigest)
    (version : ConversationVersion) :
    Sound (db.keepConversationVersion conversationId digest version) :=
  (h.keepSnapshot _ _ _ _).setConversationDigest _ _

theorem appendRevision (conversationId : Uuid) {exportId : Uuid}
    (digest : ContentDigest) (parser : ParserId) (hexport : exportId ∈ db.exports.map (·.id)) :
    Sound (db.appendRevision conversationId exportId digest parser) := by
  unfold Database.appendRevision
  split
  · exact h
  · refine { h.freshUuid with
      consistent := h.freshUuid.consistent.setRevisions fun r hr => ?_ }
    rcases mem_inserted.mp hr with hr | rfl
    · exact .inl hr
    · exact .inr hexport

/-! ## Records -/

/-- A conflict on the key merges the row, so the keys stay distinct. -/
theorem upsertProject {tenantId exportId : Uuid} (externalId : String)
    (version : ProjectVersion) (hexport : db.HasExport exportId tenantId) :
    Sound (db.upsertProject tenantId exportId externalId version).2 := by
  have hid := hasExport_id hexport
  have hfirst : ∀ p ∈ db.projects, ∀ e, (mergeProject exportId version p).firstSeenExport = some e →
      e ∈ db.exports.map (·.id) := by
    intro p hp e he
    cases hf : p.firstSeenExport with
    | none =>
      simp only [mergeProject, hf, none_or, Option.some.injEq] at he
      exact he ▸ hid
    | some f =>
      simp only [mergeProject, hf, some_or, Option.some.injEq] at he
      exact he ▸ h.consistent.project_firstSeen hp hf
  have hgrow : ∀ i ∈ db.projects.map (·.id), i ∈
      (db.upsertProject tenantId exportId externalId version).2.projects.map (·.id) := by
    intro i hi
    refine map_upsert_subset ?_ hi
    exact fun _ => rfl
  refine { h.freshUuid with
    consistent := h.freshUuid.consistent.setProjects hgrow fun x hx => ?_
    projectFresh := fun x hx => ?_
    projectIds := nodup_map_upsert (fun _ => rfl) h.projectIds fun _ hmem => ?_
    projectKeys := nodup_map_upsert (fun _ => rfl) h.projectKeys fun hnone hmem => ?_
    observedProject := fun o ho hk => ?_ }
  · rcases mem_upsert hx with ⟨hx, -⟩ | ⟨p, hp, -, rfl⟩ | ⟨rfl, -⟩
    · exact .inl hx
    · have haccount : (mergeProject exportId version p).accountId ∈ db.accounts.map (·.id) :=
        h.consistent.project_account (p := p) hp
      exact .inr ⟨haccount, hfirst p hp, fun e he => Option.some.inj he ▸ hid⟩
    · exact .inr ⟨h.hasExport_account hexport, fun e he => Option.some.inj he ▸ hid,
        fun e he => Option.some.inj he ▸ hid⟩
  · rcases mem_upsert hx with ⟨hx, -⟩ | ⟨p, hp, -, rfl⟩ | ⟨rfl, -⟩
    · exact h.freshUuid.projectFresh x hx
    · exact h.freshUuid.projectFresh p hp
    · exact Nat.lt_succ_self _
  · obtain ⟨p, hp, hpid⟩ := mem_map.mp hmem
    exact absurd hpid (Nat.ne_of_lt (h.projectFresh p hp))
  · obtain ⟨p, hp, hkey⟩ := mem_map.mp hmem
    simp only [ProjectRow.key, newProject, Prod.mk.injEq] at hkey
    simpa [hkey] using hnone p hp
  · obtain ⟨p, hp, hpid, hexp⟩ := h.observedProject o ho hk
    rcases mem_upsert_of_mem _ _ _ hp with hp | hp
    · exact ⟨p, hp, hpid, hexp⟩
    · exact ⟨_, hp, hpid, hexp⟩

theorem upsertConversation {tenantId : Uuid} (externalId : String)
    (haccount : tenantId ∈ db.accounts.map (·.id)) :
    Sound (db.upsertConversation tenantId externalId).2 := by
  have hgrow : ∀ i ∈ db.conversations.map (·.id), i ∈
      (db.upsertConversation tenantId externalId).2.conversations.map (·.id) :=
    fun i hi => map_upsert_subset (fun _ => rfl) hi
  refine { h.freshUuid with
    consistent := h.freshUuid.consistent.setConversations hgrow fun x hx => ?_
    conversationFresh := fun x hx => ?_
    conversationIds := nodup_map_upsert (fun _ => rfl) h.conversationIds fun _ hmem => ?_
    conversationKeys := nodup_map_upsert (fun _ => rfl) h.conversationKeys
      fun hnone hmem => ?_
    observedConversation := fun o ho hk => ?_ }
  · rcases mem_upsert hx with ⟨hx, -⟩ | ⟨c, hc, -, rfl⟩ | ⟨rfl, -⟩
    · exact .inl hx
    · exact .inl hc
    · exact .inr ⟨haccount, nofun, nofun, nofun⟩
  · rcases mem_upsert hx with ⟨hx, -⟩ | ⟨c, hc, -, rfl⟩ | ⟨rfl, -⟩
    · exact h.freshUuid.conversationFresh x hx
    · exact h.freshUuid.conversationFresh _ hc
    · exact Nat.lt_succ_self _
  · obtain ⟨c, hc, hcid⟩ := mem_map.mp hmem
    exact absurd hcid (Nat.ne_of_lt (h.conversationFresh c hc))
  · obtain ⟨c, hc, hkey⟩ := mem_map.mp hmem
    simp only [ConversationRow.key, newConversation, Prod.mk.injEq] at hkey
    simpa [hkey] using hnone c hc
  · obtain ⟨c, hc, hcid, hexp⟩ := h.observedConversation o ho hk
    rcases mem_upsert_of_mem _ _ _ hc with hc | hc
    · exact ⟨c, hc, hcid, hexp⟩
    · exact ⟨_, hc, hcid, hexp⟩

theorem markConversationSeen (conversationId : Uuid) {exportId : Uuid}
    (hexport : exportId ∈ db.exports.map (·.id)) :
    Sound (db.markConversationSeen conversationId exportId) := by
  refine h.updateConversations (fun _ => rfl) (fun _ => rfl)
    (fun _ hc _ => h.consistent.conversation_project hc) (fun c hc e he => ?_)
    (fun _ _ e he => Option.some.inj he ▸ hexport)
  cases hf : c.firstSeenExport with
  | none =>
    simp only [hf, none_or, Option.some.injEq] at he
    exact he ▸ hexport
  | some f =>
    simp only [hf, some_or, Option.some.injEq] at he
    exact he ▸ h.consistent.conversation_firstSeen hc hf

theorem updateConversationHeader {exportId : Uuid} (conversationId : Uuid)
    {projectId : Option Uuid} (conversation : ParsedConversation) (parser : ParserId)
    (hexport : exportId ∈ db.exports.map (·.id))
    (hproject : ∀ p, projectId = some p → p ∈ db.projects.map (·.id)) :
    Sound (db.updateConversationHeader exportId conversationId projectId conversation parser) := by
  refine h.updateConversations (fun _ => rfl) (fun _ => rfl) (fun c hc q hq => ?_)
    (fun c hc e he => ?_) (fun _ _ e he => Option.some.inj he ▸ hexport)
  · cases hp : projectId with
    | none =>
      simp only [writeHeader, hp, none_or] at hq
      exact h.consistent.conversation_project hc hq
    | some p =>
      simp only [writeHeader, hp, some_or, Option.some.injEq] at hq
      exact hq ▸ hproject p hp
  · cases hf : c.firstSeenExport with
    | none =>
      simp only [writeHeader, hf, none_or, Option.some.injEq] at he
      exact he ▸ hexport
    | some f =>
      simp only [writeHeader, hf, some_or, Option.some.injEq] at he
      exact he ▸ h.consistent.conversation_firstSeen hc hf

/-! ## Messages and parts -/

theorem setParent (messageId : Uuid) {parentId : Uuid}
    (hparent : parentId ∈ db.messages.map (·.id)) : Sound (db.setParent messageId parentId) :=
  h.updateMessages (fun _ => rfl) (fun _ => rfl) fun _ _ _ hq => Option.some.inj hq ▸ hparent

theorem addContentPart (part : ContentPartRow)
    (hmessage : part.messageId ∈ db.messages.map (·.id)) (hblob : part.blobRef = none) :
    Sound { db with contentParts := db.contentParts ++ [part] } := by
  refine { h with
    consistent := h.consistent.setContentParts fun p hp => ?_, noPartBlobs := fun p hp => ?_ }
  · rcases mem_inserted.mp hp with hp | rfl
    · exact .inl hp
    · exact .inr hmessage
  · rcases mem_inserted.mp hp with hp | rfl
    · exact h.noPartBlobs p hp
    · exact hblob

/-- A new message is observed in the export that brings it. -/
theorem addMessage {exportId : Uuid} {m : MessageRow}
    (hid : m.id = db.nextUuid) (hparent : m.parentMessageId = none)
    (hkey : m.key ∉ db.messages.map MessageRow.key)
    (hconversation : db.Observes exportId .conversation m.conversationId) :
    Sound { db with
      nextUuid := db.nextUuid + 1
      messages := db.messages ++ [m]
      observations := db.observations ++ [⟨exportId, .message, m.id, none⟩] } := by
  have hfresh : m.id ∉ db.messages.map (·.id) := by
    intro hmem
    obtain ⟨n, hn, hnid⟩ := mem_map.mp hmem
    exact absurd (hnid.trans hid) (Nat.ne_of_lt (h.messageFresh n hn))
  obtain ⟨o, ho, hoe, hok, hoi⟩ := hconversation
  obtain ⟨c, hc, hcid, -⟩ := h.observedConversation o ho hok
  have hconv : m.conversationId ∈ db.conversations.map (·.id) :=
    mem_map.mpr ⟨c, hc, hcid.trans hoi⟩
  have hconsistent : ({ db with messages := db.messages ++ [m] } : Database).Consistent := by
    refine h.consistent.setMessages (fun i hi => ?_) fun x hx => ?_
    · rw [map_append]
      exact mem_append_left _ hi
    · rcases mem_inserted.mp hx with hx | rfl
      · exact .inl hx
      · exact .inr ⟨hconv, fun p hp => nomatch hparent.symm.trans hp⟩
  have hkeep : ∀ {e k i}, db.Observes e k i → ({ db with
      nextUuid := db.nextUuid + 1
      messages := db.messages ++ [m]
      observations := db.observations ++ [⟨exportId, .message, m.id, none⟩] } :
        Database).Observes e k i :=
    fun ⟨q, hq, hrest⟩ => ⟨q, mem_append_left _ hq, hrest⟩
  refine { h.freshUuid with
    consistent := hconsistent.setObservations fun x hx => ?_
    messageFresh := fun x hx => ?_
    messageIds := ?_
    messageKeys := ?_
    observationKeys := ?_
    observedProject := fun x hx hk => ?_
    observedConversation := fun x hx hk => ?_
    observedMessage := fun x hx hk => ?_
    messageObserved := fun x hx => ?_
    noAssetObservation := fun x hx hk => ?_ }
  · rcases mem_inserted.mp hx with hx | rfl
    · exact .inl hx
    · exact .inr (show exportId ∈ _ from hoe ▸ h.consistent.observation_export ho)
  · rcases mem_inserted.mp hx with hx | rfl
    · exact h.freshUuid.messageFresh x hx
    · rw [hid]
      exact Nat.lt_succ_self _
  · rw [map_append]
    exact h.messageIds.append (nodup_singleton _) (disjoint_singleton.mpr hfresh)
  · rw [map_append]
    exact h.messageKeys.append (nodup_singleton _) (disjoint_singleton.mpr hkey)
  · rw [map_append]
    refine h.observationKeys.append (nodup_singleton _) (disjoint_singleton.mpr ?_)
    -- an observation under this identity would be one of a stored message
    intro hmem
    obtain ⟨q, hq, hqkey⟩ := mem_map.mp hmem
    simp only [key, Prod.mk.injEq] at hqkey
    obtain ⟨n, hn, hnid, -⟩ := h.observedMessage q hq hqkey.2.1
    exact hfresh (mem_map.mpr ⟨n, hn, hnid.trans hqkey.2.2⟩)
  · rcases mem_inserted.mp hx with hx | rfl
    · exact h.observedProject x hx hk
    · cases hk
  · rcases mem_inserted.mp hx with hx | rfl
    · exact h.observedConversation x hx hk
    · cases hk
  · rcases mem_inserted.mp hx with hx | rfl
    · obtain ⟨n, hn, hnid, hobs⟩ := h.observedMessage x hx hk
      exact ⟨n, mem_append_left _ hn, hnid, hkeep hobs⟩
    · exact ⟨m, mem_append_right _ (mem_singleton_self _), rfl, hkeep ⟨o, ho, hoe, hok, hoi⟩⟩
  · rcases mem_inserted.mp hx with hx | rfl
    · obtain ⟨e, he⟩ := h.messageObserved x hx
      exact ⟨e, hkeep he⟩
    · exact ⟨exportId, _, mem_append_right _ (mem_singleton_self _), rfl, rfl, rfl⟩
  · rcases mem_inserted.mp hx with hx | rfl
    · exact h.noAssetObservation x hx hk
    · cases hk

end Sound

end ChatgptArchive
