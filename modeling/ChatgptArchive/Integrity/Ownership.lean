import ChatgptArchive.Integrity.Writes

/-!
# Who an identity belongs to

An identity belongs to one tenant and names a record of one kind from the moment it is made, also
after the row that carried it is gone.
-/

namespace ChatgptArchive

open List Table Function

variable {g g' g'' : Registry} {next next' id : Uuid}

/-- The tenant an identity belongs to, and the kind of record it names. -/
structure Registry where
  owner : Uuid → Uuid
  kind : Uuid → EntityKind

inductive Tie where
  | known (id : Uuid)
  | owned (id tenantId : Uuid)
  | same (id id' : Uuid)
  | isKind (id : Uuid) (kind : EntityKind)
  deriving DecidableEq, Repr

/-- The tie holds in the registry, and the identities are among those made before `next`. -/
def Tie.Holds (g : Registry) (next : Uuid) : Tie → Prop
  | .known id => id < next
  | .owned id tenantId => id < next ∧ g.owner id = tenantId
  | .same id id' => id < next ∧ id' < next ∧ g.owner id = g.owner id'
  | .isKind id kind => id < next ∧ g.kind id = kind

def Registry.Agrees (g g' : Registry) (next : Uuid) : Prop :=
  ∀ id < next, g'.owner id = g.owner id ∧ g'.kind id = g.kind id

theorem Registry.Agrees.refl (g : Registry) (next : Uuid) : g.Agrees g next :=
  fun _ _ => ⟨rfl, rfl⟩

theorem Registry.Agrees.trans (h : g.Agrees g' next) (h' : g'.Agrees g'' next') (hle : next ≤ next') :
    g.Agrees g'' next := by
  intro id hid
  obtain ⟨howner, hkind⟩ := h id hid
  obtain ⟨howner', hkind'⟩ := h' id (hid.trans_le hle)
  exact ⟨howner'.trans howner, hkind'.trans hkind⟩

theorem Tie.Holds.mono (hagrees : g.Agrees g' next) (hle : next ≤ next') {tie : Tie}
    (h : tie.Holds g next) : tie.Holds g' next' := by
  cases tie with
  | known id => exact h.trans_le hle
  | owned id tenantId => exact ⟨h.1.trans_le hle, (hagrees id h.1).1.trans h.2⟩
  | same id id' =>
    obtain ⟨hid, hid', heq⟩ := h
    exact ⟨hid.trans_le hle, hid'.trans_le hle,
      (hagrees id hid).1.trans (heq.trans (hagrees id' hid').1.symm)⟩
  | isKind id kind => exact ⟨h.1.trans_le hle, (hagrees id h.1).2.trans h.2⟩

/-! ## The ties of the rows -/

def sameAs (id : Uuid) (target : Option Uuid) : List Tie := target.toList.map (.same id)

def ExportRow.ties (e : ExportRow) : List Tie :=
  [.owned e.id e.accountId, .owned e.aiArchiveId e.accountId]

def ImportRunRow.ties (r : ImportRunRow) : List Tie :=
  .known r.id :: r.exportId.toList.map .known

def ProjectRow.ties (p : ProjectRow) : List Tie :=
  .owned p.id p.accountId :: .isKind p.id .project ::
    (sameAs p.id p.firstSeenExport ++ sameAs p.id p.lastSeenExport)

def ConversationRow.ties (c : ConversationRow) : List Tie :=
  .owned c.id c.accountId :: .isKind c.id .conversation ::
    (sameAs c.id c.projectId ++ (sameAs c.id c.firstSeenExport ++ sameAs c.id c.lastSeenExport))

def MessageRow.ties (m : MessageRow) : List Tie :=
  .same m.id m.conversationId :: .isKind m.id .message :: sameAs m.id m.parentMessageId

def ContentPartRow.ties (p : ContentPartRow) : List Tie := [.same p.id p.messageId]

def RevisionRow.ties (r : RevisionRow) : List Tie :=
  [.same r.id r.entityId, .same r.id r.observedIn]

def ObservationRow.ties (o : ObservationRow) : List Tie :=
  [.same o.entityId o.exportId, .isKind o.entityId o.kind]

def EntityVersionRow.ties (v : EntityVersionRow) : List Tie := [.isKind v.entityId v.kind]

def ExtractedArtifactRow.ties (a : ExtractedArtifactRow) : List Tie := [.same a.id a.exportId]

def Tied {α : Type*} (ties : α → List Tie) (g : Registry) (next : Uuid) (rows : List α) : Prop :=
  ∀ r ∈ rows, ∀ tie ∈ ties r, tie.Holds g next

namespace Tied

variable {α : Type*} {ties : α → List Tie} {g g' : Registry} {next next' : Uuid} {rows rows' : List α}

variable (h : Tied ties g next rows)
include h

theorem mono (hagrees : g.Agrees g' next) (hle : next ≤ next') :
    Tied ties g' next' rows :=
  fun r hr tie htie => (h r hr tie htie).mono hagrees hle

theorem subset (hrows : rows' ⊆ rows) : Tied ties g next rows' :=
  fun r hr => h r (hrows hr)

theorem deleteWhere (p : α → Bool) :
    Tied ties g next (Table.deleteWhere p rows) :=
  h.subset (deleteWhere_sublist p rows).subset

theorem updateWhere {p : α → Bool} {f : α → α}
    (hf : ∀ r ∈ rows, p r = true → ∀ tie ∈ ties (f r), tie ∈ ties r ∨ tie.Holds g next) :
    Tied ties g next (Table.updateWhere p f rows) := by
  intro r hr tie htie
  rcases mem_updateWhere.mp hr with ⟨hr, -⟩ | ⟨old, hold, hp, rfl⟩
  · exact h r hr tie htie
  · rcases hf old hold hp tie htie with htie | hholds
    · exact h old hold tie htie
    · exact hholds

theorem append {inserted : α} (hinserted : ∀ tie ∈ ties inserted, tie.Holds g next) :
    Tied ties g next (rows ++ [inserted]) := by
  intro r hr
  rcases mem_inserted.mp hr with hr | rfl
  · exact h r hr
  · exact hinserted

theorem insertAbsent {p : α → Bool} {inserted : α}
    (hinserted : ∀ tie ∈ ties inserted, tie.Holds g next) :
    Tied ties g next (Table.insertAbsent p inserted rows) := by
  intro r hr
  rcases mem_insertAbsent.mp hr with hr | ⟨rfl, -⟩
  · exact h r hr
  · exact hinserted

theorem upsert {p : α → Bool} {inserted : α} {merge : α → α}
    (hinserted : ∀ tie ∈ ties inserted, tie.Holds g next)
    (hmerge : ∀ r ∈ rows, p r = true → ∀ tie ∈ ties (merge r), tie ∈ ties r ∨ tie.Holds g next) :
    Tied ties g next (Table.upsert p inserted merge rows).2 := by
  intro r hr tie htie
  rcases mem_upsert hr with ⟨hr, -⟩ | ⟨old, hold, hp, rfl⟩ | ⟨rfl, -⟩
  · exact h r hr tie htie
  · rcases hmerge old hold hp tie htie with htie | hholds
    · exact h old hold tie htie
    · exact hholds
  · exact hinserted tie htie

end Tied

/-- The first two ties of a row are its identity's and stay; the rest is to be shown. -/
theorem Tie.mem_of_rest {a b tie : Tie} {rest rest' : List Tie} {P : Prop}
    (htie : tie ∈ a :: b :: rest) (hrest : tie ∈ rest → tie ∈ a :: b :: rest' ∨ P) :
    tie ∈ a :: b :: rest' ∨ P := by
  rcases mem_cons.mp htie with rfl | htie
  · exact .inl mem_cons_self
  · rcases mem_cons.mp htie with rfl | htie
    · exact .inl (mem_cons_of_mem _ mem_cons_self)
    · exact hrest htie

theorem sameAs_some {target : Uuid} (h : (Tie.same id target).Holds g next) {tie : Tie}
    (htie : tie ∈ sameAs id (some target)) : tie.Holds g next := by
  obtain rfl := mem_singleton.mp htie
  exact h

/-! ## The invariant -/

/-- The rows of the shared records, and the runs, are tied in the registry, and no two rows share an
identity. A run that is not stored yet has no export. -/
structure Owned (g : Registry) (db : Database) : Prop where
  exports : Tied ExportRow.ties g db.nextUuid db.exports
  importRuns : Tied ImportRunRow.ties g db.nextUuid db.importRuns
  projects : Tied ProjectRow.ties g db.nextUuid db.projects
  conversations : Tied ConversationRow.ties g db.nextUuid db.conversations
  messages : Tied MessageRow.ties g db.nextUuid db.messages
  contentParts : Tied ContentPartRow.ties g db.nextUuid db.contentParts
  revisions : Tied RevisionRow.ties g db.nextUuid db.revisions
  observations : Tied ObservationRow.ties g db.nextUuid db.observations
  entityVersions : Tied EntityVersionRow.ties g db.nextUuid db.entityVersions
  extractedArtifacts : Tied ExtractedArtifactRow.ties g db.nextUuid db.extractedArtifacts
  exportIds : (db.exports.map (·.id)).Nodup
  projectIds : (db.projects.map (·.id)).Nodup
  conversationIds : (db.conversations.map (·.id)).Nodup
  importRunIds : (db.importRuns.map (·.id)).Nodup
  received : ∀ r ∈ db.importRuns, r.state = .received ∨ r.state = .hashed → r.exportId = none
  noAssets : db.assets = []
  noInbox : db.inboxEvents = []

/-- The registry of a later state says what the earlier one said, and possibly more. -/
structure Extends (g : Registry) (next : Uuid) (g' : Registry) (next' : Uuid) : Prop where
  next_le : next ≤ next'
  agrees : g.Agrees g' next

theorem Extends.trans {next'' : Uuid} (h : Extends g next g' next')
    (h' : Extends g' next' g'' next'') : Extends g next g'' next'' :=
  ⟨h.next_le.trans h'.next_le, h.agrees.trans h'.agrees h.next_le⟩

theorem Extends.holds (h : Extends g next g' next') {tie : Tie} (htie : tie.Holds g next) :
    tie.Holds g' next' :=
  htie.mono h.agrees h.next_le

def OwnedAfter (g : Registry) (db db' : Database) : Prop :=
  ∃ g', Extends g db.nextUuid g' db'.nextUuid ∧ Owned g' db'

namespace OwnedAfter

variable {g : Registry} {db db' db'' : Database}

theorem same (h : Owned g db') (hnext : db'.nextUuid = db.nextUuid) : OwnedAfter g db db' :=
  ⟨g, ⟨hnext.ge, .refl g _⟩, h⟩

theorem trans (h : OwnedAfter g db db')
    (h' : ∀ g', Extends g db.nextUuid g' db'.nextUuid → Owned g' db' → OwnedAfter g' db' db'') :
    OwnedAfter g db db'' := by
  obtain ⟨g', hextends, howned⟩ := h
  obtain ⟨g'', hextends', howned'⟩ := h' g' hextends howned
  exact ⟨g'', hextends.trans hextends', howned'⟩

end OwnedAfter

def Registry.assign (g : Registry) (id tenantId : Uuid) (kind : EntityKind) : Registry where
  owner := update g.owner id tenantId
  kind := update g.kind id kind

theorem Registry.assign_agrees (g : Registry) (next tenantId : Uuid) (kind : EntityKind) :
    g.Agrees (g.assign next tenantId kind) next :=
  fun _ hid => ⟨update_of_ne hid.ne _ _, update_of_ne hid.ne _ _⟩

theorem Registry.assign_owned (g : Registry) (next tenantId : Uuid) (kind : EntityKind) :
    (Tie.owned next tenantId).Holds (g.assign next tenantId kind) (next + 1) :=
  ⟨Nat.lt_succ_self _, update_self ..⟩

theorem Registry.assign_kind (g : Registry) (next tenantId : Uuid) (kind : EntityKind) :
    (Tie.isKind next kind).Holds (g.assign next tenantId kind) (next + 1) :=
  ⟨Nat.lt_succ_self _, update_self ..⟩

theorem Tie.same_of_owned {id' tenantId : Uuid} (h : (Tie.owned id tenantId).Holds g next)
    (h' : (Tie.owned id' tenantId).Holds g next) : (Tie.same id id').Holds g next :=
  ⟨h.1, h'.1, h.2.trans h'.2.symm⟩

namespace Owned

variable {g g' : Registry} {db db' : Database}

theorem empty (g : Registry) : Owned g .empty := by
  constructor <;> first
    | exact nodup_nil
    | exact fun _ h => absurd h not_mem_nil
    | rfl

section

variable (h : Owned g db)
include h

theorem mono {next : Uuid} (hagrees : g.Agrees g' db.nextUuid)
    (hle : db.nextUuid ≤ next) : Owned g' { db with nextUuid := next } where
  exports := h.exports.mono hagrees hle
  importRuns := h.importRuns.mono hagrees hle
  projects := h.projects.mono hagrees hle
  conversations := h.conversations.mono hagrees hle
  messages := h.messages.mono hagrees hle
  contentParts := h.contentParts.mono hagrees hle
  revisions := h.revisions.mono hagrees hle
  observations := h.observations.mono hagrees hle
  entityVersions := h.entityVersions.mono hagrees hle
  extractedArtifacts := h.extractedArtifacts.mono hagrees hle
  exportIds := h.exportIds
  projectIds := h.projectIds
  conversationIds := h.conversationIds
  importRunIds := h.importRunIds
  received := h.received
  noAssets := h.noAssets
  noInbox := h.noInbox

theorem assign (tenantId : Uuid) (kind : EntityKind) :
    Extends g db.nextUuid (g.assign db.nextUuid tenantId kind) (db.nextUuid + 1) ∧
      Owned (g.assign db.nextUuid tenantId kind) db.freshUuid.2 :=
  ⟨⟨Nat.le_succ _, g.assign_agrees _ tenantId kind⟩,
    h.mono (g.assign_agrees _ tenantId kind) (Nat.le_succ _)⟩

theorem project {tenantId id : Uuid} (ho : db.OwnsProject tenantId id) :
    (Tie.owned id tenantId).Holds g db.nextUuid ∧ (Tie.isKind id .project).Holds g db.nextUuid := by
  obtain ⟨p, hp, heq⟩ := mem_map.mp ho
  cases heq
  have hties := h.projects p hp
  exact ⟨hties _ mem_cons_self, hties _ (mem_cons_of_mem _ mem_cons_self)⟩

theorem conversation {tenantId id : Uuid} (ho : db.OwnsConversation tenantId id) :
    (Tie.owned id tenantId).Holds g db.nextUuid ∧
      (Tie.isKind id .conversation).Holds g db.nextUuid := by
  obtain ⟨c, hc, heq⟩ := mem_map.mp ho
  cases heq
  have hties := h.conversations c hc
  exact ⟨hties _ mem_cons_self, hties _ (mem_cons_of_mem _ mem_cons_self)⟩

theorem message {tenantId id : Uuid} (ho : db.OwnsMessage tenantId id) :
    (Tie.owned id tenantId).Holds g db.nextUuid ∧ (Tie.isKind id .message).Holds g db.nextUuid := by
  obtain ⟨c, hm, hc⟩ := ho
  obtain ⟨m, hrow, heq⟩ := mem_map.mp hm
  cases heq
  have hties := h.messages m hrow
  have hsame := hties _ mem_cons_self
  exact ⟨⟨hsame.1, hsame.2.2.trans (h.conversation hc).1.2⟩,
    hties _ (mem_cons_of_mem _ mem_cons_self)⟩

/-! ## The statements of a projection -/

theorem setObservations {rows : List ObservationRow}
    (hrows : Tied ObservationRow.ties g db.nextUuid rows) :
    Owned g { db with observations := rows } :=
  { h with observations := hrows }

theorem setVersions {rows : List EntityVersionRow}
    (hrows : Tied EntityVersionRow.ties g db.nextUuid rows) :
    Owned g { db with entityVersions := rows } :=
  { h with entityVersions := hrows }

theorem updateConversations {p : ConversationRow → Bool}
    {f : ConversationRow → ConversationRow} (hid : ∀ c, (f c).id = c.id)
    (hf : ∀ c ∈ db.conversations, p c = true →
      ∀ tie ∈ (f c).ties, tie ∈ c.ties ∨ tie.Holds g db.nextUuid) :
    Owned g { db with conversations := Table.updateWhere p f db.conversations } :=
  { h with
    conversations := h.conversations.updateWhere hf
    conversationIds := by
      rw [map_updateWhere hid]
      exact h.conversationIds }

theorem updateProjects {p : ProjectRow → Bool} {f : ProjectRow → ProjectRow}
    (hid : ∀ p, (f p).id = p.id) (hf : ∀ q ∈ db.projects, p q = true →
      ∀ tie ∈ (f q).ties, tie ∈ q.ties ∨ tie.Holds g db.nextUuid) :
    Owned g { db with projects := Table.updateWhere p f db.projects } :=
  { h with
    projects := h.projects.updateWhere hf
    projectIds := by
      rw [map_updateWhere hid]
      exact h.projectIds }

end

variable {tenantId exportId id : Uuid}

theorem observation_ties {kind : EntityKind} {digest : Option ContentDigest}
    (hexport : (Tie.owned exportId tenantId).Holds g db.nextUuid)
    (hid : (Tie.owned id tenantId).Holds g db.nextUuid)
    (hkind : (Tie.isKind id kind).Holds g db.nextUuid) :
    ∀ tie ∈ (ObservationRow.mk exportId kind id digest).ties, tie.Holds g db.nextUuid := by
  intro tie htie
  rcases mem_cons.mp htie with rfl | htie
  · exact Tie.same_of_owned hid hexport
  · obtain rfl := mem_singleton.mp htie
    exact hkind

variable (h : Owned g db)
include h

theorem observe {kind : EntityKind} (hexport : (Tie.owned exportId tenantId).Holds g db.nextUuid)
    (hid : (Tie.owned id tenantId).Holds g db.nextUuid)
    (hkind : (Tie.isKind id kind).Holds g db.nextUuid) (digest : ContentDigest) :
    Owned g (db.observe exportId kind id digest) := by
  have hrecorded : Owned g (db.recordObservation exportId kind id digest) :=
    h.setObservations (h.observations.upsert (observation_ties hexport hid hkind)
      fun _ _ _ _ => .inl)
  exact hrecorded.setVersions (hrecorded.entityVersions.deleteWhere _)

theorem keepSnapshot {kind : EntityKind}
    (hkind : (Tie.isKind id kind).Holds g db.nextUuid) (digest : ContentDigest)
    (snapshot : Snapshot) : Owned g (db.keepSnapshot kind id digest snapshot) := by
  refine h.setVersions (h.entityVersions.insertAbsent fun tie htie => ?_)
  obtain rfl := mem_singleton.mp htie
  exact hkind

theorem setConversationDigest (digest : ContentDigest) :
    Owned g (db.setConversationDigest id digest) :=
  h.updateConversations (fun _ => rfl) fun _ _ _ _ => .inl

theorem upsertProject
    (hexport : (Tie.owned exportId tenantId).Holds g db.nextUuid) (externalId : String)
    (version : ProjectVersion) :
    OwnedAfter g db (db.upsertProject tenantId exportId externalId version).2 := by
  obtain ⟨hextends, howned⟩ := h.assign tenantId .project
  have hexport := hextends.holds hexport
  have hnew := g.assign_owned db.nextUuid tenantId .project
  refine ⟨_, hextends, { howned with projects := ?_, projectIds := ?_ }⟩
  · refine howned.projects.upsert (fun tie htie => ?_) fun p hp hmatch tie htie => ?_
    · rcases mem_cons.mp htie with rfl | htie
      · exact hnew
      rcases mem_cons.mp htie with rfl | htie
      · exact g.assign_kind ..
      rcases mem_append.mp htie with htie | htie
      all_goals exact sameAs_some (Tie.same_of_owned hnew hexport) htie
    -- a merged project keeps its identity, and was first seen in an export of the tenant
    · have htenant : p.accountId = tenantId := by
        simp only [Bool.and_eq_true, decide_eq_true_eq] at hmatch
        exact hmatch.1
      have hties := howned.projects p hp
      have hsame := Tie.same_of_owned (htenant ▸ hties _ mem_cons_self) hexport
      refine Tie.mem_of_rest htie fun htie => ?_
      rcases mem_append.mp htie with htie | htie
      · cases hfirst : p.firstSeenExport with
        | none =>
          simp only [mergeProject, hfirst, Option.none_or] at htie
          exact .inr (sameAs_some hsame htie)
        | some first =>
          refine .inl (mem_cons_of_mem _ (mem_cons_of_mem _ (mem_append_left _ ?_)))
          simpa only [mergeProject, hfirst, Option.some_or] using htie
      · exact .inr (sameAs_some hsame htie)
  · refine nodup_map_upsert (fun _ => rfl) howned.projectIds fun _ hmem => ?_
    obtain ⟨p, hp, heq⟩ := mem_map.mp hmem
    have hlt := (h.projects p hp _ mem_cons_self).1
    exact hlt.ne heq

theorem upsertConversation (tenantId : Uuid) (externalId : String) :
    OwnedAfter g db (db.upsertConversation tenantId externalId).2 := by
  obtain ⟨hextends, howned⟩ := h.assign tenantId .conversation
  refine ⟨_, hextends, { howned with conversations := ?_, conversationIds := ?_ }⟩
  · refine howned.conversations.upsert (fun tie htie => ?_) fun _ _ _ _ => .inl
    rcases mem_cons.mp htie with rfl | htie
    · exact g.assign_owned ..
    · obtain rfl := mem_singleton.mp htie
      exact g.assign_kind ..
  · refine nodup_map_upsert (fun _ => rfl) howned.conversationIds fun _ hmem => ?_
    obtain ⟨c, hc, heq⟩ := mem_map.mp hmem
    have hlt := (h.conversations c hc _ mem_cons_self).1
    exact hlt.ne heq

theorem appendRevision (hexport : (Tie.owned exportId tenantId).Holds g db.nextUuid)
    (hid : (Tie.owned id tenantId).Holds g db.nextUuid) (digest : ContentDigest)
    (parser : ParserId) : OwnedAfter g db (db.appendRevision id exportId digest parser) := by
  unfold Database.appendRevision
  split
  · exact .same h rfl
  · obtain ⟨hextends, howned⟩ := h.assign tenantId .conversation
    have hnew := g.assign_owned db.nextUuid tenantId .conversation
    refine ⟨_, hextends, { howned with revisions := ?_ }⟩
    refine howned.revisions.append fun tie htie => ?_
    rcases mem_cons.mp htie with rfl | htie
    · exact Tie.same_of_owned hnew (hextends.holds hid)
    · obtain rfl := mem_singleton.mp htie
      exact Tie.same_of_owned hnew (hextends.holds hexport)

omit h in
theorem seen_ties {c : ConversationRow} (hc : c ∈ db.conversations) (h : Owned g db)
    (hexport : (Tie.owned exportId c.accountId).Holds g db.nextUuid) {tie : Tie}
    (htie : tie ∈ sameAs c.id (c.firstSeenExport.or (some exportId)) ++
      sameAs c.id (some exportId)) : tie ∈ c.ties ∨ tie.Holds g db.nextUuid := by
  have hsame := Tie.same_of_owned (h.conversations c hc _ mem_cons_self) hexport
  rcases mem_append.mp htie with htie | htie
  · cases hfirst : c.firstSeenExport with
    | none =>
      rw [hfirst] at htie
      exact .inr (sameAs_some hsame htie)
    | some first =>
      left
      refine mem_cons_of_mem _ (mem_cons_of_mem _ (mem_append_right _ ?_))
      rw [hfirst] at htie ⊢
      exact mem_append_left _ htie
  · exact .inr (sameAs_some hsame htie)

theorem account_of_owns (ho : db.OwnsConversation tenantId id)
    {c : ConversationRow} (hc : c ∈ db.conversations) (hid : c.id = id) :
    c.accountId = tenantId := by
  have howner := (h.conversations c hc _ mem_cons_self).2
  rw [← howner, hid]
  exact (h.conversation ho).1.2

theorem markSeen (hexport : (Tie.owned exportId tenantId).Holds g db.nextUuid)
    (ho : db.OwnsConversation tenantId id) : Owned g (db.markConversationSeen id exportId) := by
  refine h.updateConversations (fun _ => rfl) fun c hc hmatch tie htie => ?_
  have htenant := h.account_of_owns ho hc (of_decide_eq_true hmatch)
  refine Tie.mem_of_rest htie fun htie => ?_
  rcases mem_append.mp htie with htie | htie
  · exact .inl (mem_cons_of_mem _ (mem_cons_of_mem _ (mem_append_left _ htie)))
  · exact h.seen_ties hc (htenant ▸ hexport) htie

theorem updateHeader (hexport : (Tie.owned exportId tenantId).Holds g db.nextUuid)
    (ho : db.OwnsConversation tenantId id) {projectId : Option Uuid}
    (hproject : ∀ p, projectId = some p → db.OwnsProject tenantId p)
    (conversation : ParsedConversation) (parser : ParserId) :
    Owned g (db.updateConversationHeader exportId id projectId conversation parser) := by
  refine h.updateConversations (fun _ => rfl) fun c hc hmatch tie htie => ?_
  have htenant := h.account_of_owns ho hc (of_decide_eq_true hmatch)
  refine Tie.mem_of_rest htie fun htie => ?_
  rcases mem_append.mp htie with htie | htie
  · cases projectId with
    | none =>
      exact .inl (mem_cons_of_mem _ (mem_cons_of_mem _ (mem_append_left _ htie)))
    | some p =>
      have hp := (h.project (hproject p rfl)).1
      have hown := h.conversations c hc _ mem_cons_self
      exact .inr (sameAs_some (Tie.same_of_owned hown (htenant.symm ▸ hp)) htie)
  · exact h.seen_ties hc (htenant ▸ hexport) htie

theorem upsertMessage (ho : db.OwnsConversation tenantId id) (ordinal : Nat)
    (message : ParsedMessage) : OwnedAfter g db (db.upsertMessage id ordinal message).2 := by
  obtain ⟨hextends, howned⟩ := h.assign tenantId .message
  refine ⟨_, hextends, { howned with messages := ?_ }⟩
  refine howned.messages.upsert (fun tie htie => ?_) fun _ _ _ _ => .inl
  rcases mem_cons.mp htie with rfl | htie
  · exact Tie.same_of_owned (g.assign_owned ..) (hextends.holds (h.conversation ho).1)
  · obtain rfl := mem_singleton.mp htie
    exact g.assign_kind ..

theorem insertPart (ho : db.OwnsMessage tenantId id) (revision : Nat)
    (part : ParsedContentPart) : OwnedAfter g db (Database.insertPart id revision db part) := by
  obtain ⟨hextends, howned⟩ := h.assign tenantId .message
  refine ⟨_, hextends, { howned with contentParts := ?_ }⟩
  refine howned.contentParts.append fun tie htie => ?_
  obtain rfl := mem_singleton.mp htie
  exact Tie.same_of_owned (g.assign_owned ..) (hextends.holds (h.message ho).1)

theorem write (hexport : (Tie.owned exportId tenantId).Holds g db.nextUuid)
    (hwrite : Database.Write tenantId exportId db db') : OwnedAfter g db db' := by
  cases hwrite with
  | upsertProject externalId version => exact h.upsertProject hexport externalId version
  | observeProject ho digest =>
    obtain ⟨hid, hkind⟩ := h.project ho
    exact .same (h.observe hexport hid hkind digest) rfl
  | keepProject ho version => exact .same (h.keepSnapshot (h.project ho).2 _ _) rfl
  | upsertConversation externalId => exact h.upsertConversation tenantId externalId
  | observeConversation ho digest =>
    obtain ⟨hid, hkind⟩ := h.conversation ho
    exact .same (h.observe hexport hid hkind digest) rfl
  | appendRevision ho digest parser =>
    exact h.appendRevision hexport (h.conversation ho).1 digest parser
  | keepConversation ho digest version =>
    exact .same ((h.keepSnapshot (h.conversation ho).2 _ _).setConversationDigest digest) rfl
  | markSeen ho => exact .same (h.markSeen hexport ho) rfl
  | updateHeader ho hproject conversation parser =>
    exact .same (h.updateHeader hexport ho hproject conversation parser) rfl
  | upsertMessage ho ordinal message => exact h.upsertMessage ho ordinal message
  | observeMessage ho =>
    obtain ⟨hid, hkind⟩ := h.message ho
    exact .same (h.setObservations (h.observations.insertAbsent
      (observation_ties hexport hid hkind))) rfl
  | insertPart ho revision part => exact h.insertPart ho revision part
  | setParent ho hparent =>
    have hsame := Tie.same_of_owned (h.message ho).1 (h.message hparent).1
    refine .same { h with messages := h.messages.updateWhere fun m _ hm tie htie => ?_ } rfl
    refine Tie.mem_of_rest htie fun htie => .inr (sameAs_some ?_ htie)
    rwa [of_decide_eq_true hm]

end Owned

end ChatgptArchive
