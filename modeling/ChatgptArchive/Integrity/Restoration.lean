import ChatgptArchive.Integrity.Deletion
import ChatgptArchive.Integrity.Ownership

/-!
# The statements of a restoration

A deletion restores the records it keeps by statements on records of its own tenant, with exports
that observe them. The versions it restores are found by identity alone: that they are the tenant's
rests on the registry.
-/

namespace ChatgptArchive

open List

namespace Database

variable {tenantId : Uuid} {db db' : Database} {id : Uuid} {g : Registry}

def OwnsRecord (db : Database) (tenantId : Uuid) : EntityKind → Uuid → Prop
  | .project, id => db.OwnsProject tenantId id
  | .conversation, id => db.OwnsConversation tenantId id
  | _, _ => False

inductive RestoreStep (tenantId : Uuid) : Database → Database → Prop
  | dropMissing (db : Database) : RestoreStep tenantId db db.dropVersionsOfMissing
  | project {db db' : Database} {id : Uuid} {held : Held} (h : db.OwnsProject tenantId id)
      (hok : db.restoreProject id held = .ok db') : RestoreStep tenantId db db'
  | clearLink {db : Database} {id : Uuid} (h : db.OwnsConversation tenantId id) :
      RestoreStep tenantId db (db.clearProjectLink id)
  | clearParts {db : Database} {id : Uuid} (h : db.OwnsConversation tenantId id) :
      RestoreStep tenantId db (db.clearParts id)
  | write {db db' : Database} {exportId id : Uuid} (h : db.OwnsConversation tenantId id)
      (hobserved : db.Observes exportId .conversation id)
      (hwrite : Write tenantId exportId db db') : RestoreStep tenantId db db'
  | setDigest {db : Database} {id : Uuid} (h : db.OwnsConversation tenantId id)
      (digest : ContentDigest) : RestoreStep tenantId db (db.setConversationDigest id digest)
  | dropUnnamed {db : Database} {kind : EntityKind} {id : Uuid}
      (h : db.OwnsRecord tenantId kind id) :
      RestoreStep tenantId db (db.dropUnnamedVersions kind id)

def Restores (tenantId : Uuid) : Database → Database → Prop :=
  Relation.ReflTransGen (RestoreStep tenantId)

theorem restoreProject_eq_ok {held : Held} (hok : db.restoreProject id held = .ok db') :
    ∃ f : ProjectRow → ProjectRow, (∀ p, (f p).id = p.id ∧ (f p).accountId = p.accountId ∧
        (f p).ties = p.ties) ∧
      db' = { db with projects := Table.updateWhere (fun p => p.id = id) f db.projects } := by
  unfold restoreProject at hok
  split at hok <;> cases hok
  refine ⟨_, ?_, rfl⟩
  exact fun _ => ⟨rfl, rfl, rfl⟩

namespace RestoreStep

variable (h : RestoreStep tenantId db db')
include h

theorem ownsProject {t id : Uuid} (ho : db.OwnsProject t id) :
    db'.OwnsProject t id := by
  cases h with
  | project _ hok =>
    obtain ⟨f, hf, rfl⟩ := restoreProject_eq_ok hok
    rw [OwnsProject, Table.map_updateWhere fun p => by rw [(hf p).1, (hf p).2.1]]
    exact ho
  | write _ _ hwrite => exact hwrite.ownsProject ho
  | _ => exact ho

theorem ownsConversation {t id : Uuid}
    (ho : db.OwnsConversation t id) : db'.OwnsConversation t id := by
  cases h with
  | project _ hok =>
    obtain ⟨f, -, rfl⟩ := restoreProject_eq_ok hok
    exact ho
  | clearLink _ => exact ho.update fun _ => rfl
  | write _ _ hwrite => exact hwrite.ownsConversation ho
  | setDigest _ digest => exact ho.update fun _ => rfl
  | _ => exact ho

theorem ownsRecord {kind : EntityKind} {id : Uuid}
    (ho : db.OwnsRecord tenantId kind id) : db'.OwnsRecord tenantId kind id := by
  cases kind with
  | project => exact h.ownsProject ho
  | conversation => exact h.ownsConversation ho
  | message => exact ho
  | asset => exact ho

theorem observes {e : Uuid} {kind : EntityKind} {id : Uuid}
    (ho : db.Observes e kind id) : db'.Observes e kind id := by
  cases h with
  | project _ hok =>
    obtain ⟨f, -, rfl⟩ := restoreProject_eq_ok hok
    exact ho
  | write _ _ hwrite => exact hwrite.grows.observes ho
  | _ => exact ho

theorem unwritten : db'.unwritten = db.unwritten := by
  cases h with
  | project _ hok =>
    obtain ⟨f, -, rfl⟩ := restoreProject_eq_ok hok
    rfl
  | write _ _ hwrite => exact hwrite.grows.unwritten
  | _ => rfl

end RestoreStep

namespace Restores

variable {db'' : Database} {id : Uuid}

theorem refl (db : Database) : Restores tenantId db db := Relation.ReflTransGen.refl

theorem single (h : RestoreStep tenantId db db') : Restores tenantId db db' :=
  Relation.ReflTransGen.single h

section

variable (h : Restores tenantId db db')
include h

theorem trans (h' : Restores tenantId db' db'') :
    Restores tenantId db db'' :=
  Relation.ReflTransGen.trans h h'

omit h in
theorem preserves {P : Database → Prop} (h : Restores tenantId db db') (hP : P db)
    (hstep : ∀ {db db' : Database}, RestoreStep tenantId db db' → P db → P db') : P db' := by
  induction h with
  | refl => exact hP
  | tail _ hwrite ih => exact hstep hwrite ih

theorem ownsRecord {kind : EntityKind} {id : Uuid}
    (ho : db.OwnsRecord tenantId kind id) : db'.OwnsRecord tenantId kind id :=
  h.preserves ho fun hstep ho => hstep.ownsRecord ho

theorem ownsConversation {id : Uuid}
    (ho : db.OwnsConversation tenantId id) : db'.OwnsConversation tenantId id :=
  h.preserves ho fun hstep ho => hstep.ownsConversation ho

theorem observes {e : Uuid} {kind : EntityKind} {id : Uuid}
    (ho : db.Observes e kind id) : db'.Observes e kind id :=
  h.preserves ho fun hstep ho => hstep.observes ho

end

/-- The statements of a projection with an export that observes a conversation of the tenant. -/
theorem of_writes {exportId : Uuid} (h : db.OwnsConversation tenantId id)
    (hobserved : db.Observes exportId .conversation id) (hwrites : Writes tenantId exportId db db') :
    Restores tenantId db db' := by
  have hall : Restores tenantId db db' ∧ db'.OwnsConversation tenantId id ∧
      db'.Observes exportId .conversation id :=
    hwrites.preserves (P := fun db' => Restores tenantId db db' ∧
        db'.OwnsConversation tenantId id ∧ db'.Observes exportId .conversation id)
      ⟨.refl db, h, hobserved⟩ fun hwrite ⟨hrestores, ho, hobs⟩ =>
        ⟨hrestores.trans (.single (.write ho hobs hwrite)), hwrite.ownsConversation ho,
          hwrite.grows.observes hobs⟩
  exact hall.1

theorem findProject_owns {externalId : String}
    (hfind : db.findProject tenantId externalId = some id) : db.OwnsProject tenantId id := by
  obtain ⟨p, hp, rfl⟩ := Option.map_eq_some_iff.mp hfind
  have hmatch := find?_some hp
  simp only [Bool.and_eq_true, decide_eq_true_eq] at hmatch
  exact mem_map.mpr ⟨p, mem_of_find?_eq_some hp, by rw [hmatch.1]⟩

theorem replayVersions (held : List Held) :
    ∀ {db db' : Database} {previous : Option ContentDigest}, db.OwnsConversation tenantId id →
      (∀ v ∈ held, db.Observes v.exportId .conversation id) →
      Database.replayVersions tenantId id db previous held = .ok db' →
      Restores tenantId db db' := by
  induction held with
  | nil =>
    intro db db' previous _ _ hok
    cases hok
    exact .refl db
  | cons v held ih =>
    intro db db' previous ho hobs hok
    have hrest := fun w hw => hobs w (mem_cons_of_mem _ hw)
    unfold Database.replayVersions at hok
    split at hok
    · exact ih ho hrest hok
    · split at hok
      · cases hok
      · rename_i version _
        have hproject : ∀ p, version.projectExternalId.bind (db.findProject tenantId) = some p →
            db.OwnsProject tenantId p := by
          intro p hp
          obtain ⟨externalId, -, hfind⟩ := Option.bind_eq_some_iff.mp hp
          exact findProject_owns hfind
        have hdetail := of_writes ho (hobs v mem_cons_self)
          (Writes.persistConversationDetail ho hproject version.conversation
            ⟨version.parserName, version.parserVersion⟩)
        refine hdetail.trans (ih (hdetail.ownsConversation ho) ?_ hok)
        exact fun w hw => hdetail.observes (hrest w hw)

theorem restoreConversation {held : List Held} (ho : db.OwnsConversation tenantId id)
    (hobs : ∀ v ∈ held, db.Observes v.exportId .conversation id)
    (hok : db.restoreConversation tenantId id held = .ok db') : Restores tenantId db db' := by
  obtain ⟨replayed, hreplay, hok⟩ := Outcome.bind_eq_ok.mp hok
  have hlink : RestoreStep tenantId db (db.clearProjectLink id) := .clearLink ho
  have hclear : RestoreStep tenantId (db.clearProjectLink id)
      ((db.clearProjectLink id).clearParts id) :=
    .clearParts (hlink.ownsConversation ho)
  have hcleared := (single hlink).trans (single hclear)
  have hreplay := hcleared.trans (replayVersions held
    (hcleared.ownsConversation ho) (fun v hv => hcleared.observes (hobs v hv))
    hreplay)
  split at hok
  · cases hok
    exact hreplay
  · rename_i last hlast
    split at hok
    · cases hok
    · rename_i version _
      cases hok
      have howns : replayed.OwnsConversation tenantId id :=
        hreplay.ownsConversation ho
      have hdigest : RestoreStep tenantId replayed (replayed.setConversationDigest id last.digest) :=
        .setDigest howns last.digest
      have hobserved := hdigest.observes
        (hreplay.observes (hobs last (mem_of_mem_getLast? hlast)))
      have howns := hdigest.ownsConversation howns
      exact (hreplay.trans (single hdigest)).trans (single (.write howns hobserved
        (.appendRevision howns last.digest ⟨version.parserName, version.parserVersion⟩)))

theorem rebuildRecord {kind : EntityKind} (ho : db.OwnsRecord tenantId kind id)
    (hok : db.rebuildRecord tenantId kind id = .ok db') : Restores tenantId db db' := by
  unfold Database.rebuildRecord at hok
  dsimp only at hok
  split at hok
  · cases hok
    exact .refl db
  · exact single (.project ho hok)
  · exact restoreConversation ho (fun _ hv => Sound.mem_retainedVersions hv) hok
  · cases hok

theorem restoreRecords (records : List (EntityKind × Uuid)) : ∀ {db db' : Database},
    (∀ record ∈ records, db.OwnsRecord tenantId record.1 record.2) →
    Database.restoreRecords tenantId db records = .ok db' → Restores tenantId db db' := by
  induction records with
  | nil =>
    intro db db' _ hok
    cases hok
    exact .refl db
  | cons record records ih =>
    intro db db' ho hok
    obtain ⟨restored, hrestored, hrest⟩ := Outcome.bind_eq_ok.mp hok
    obtain ⟨rebuilt, hrebuilt, hdrop⟩ := Outcome.bind_eq_ok.mp hrestored
    cases hdrop
    have hrecord := ho record mem_cons_self
    have hrebuilt := rebuildRecord hrecord hrebuilt
    have hrestored := hrebuilt.trans (single (.dropUnnamed (hrebuilt.ownsRecord hrecord)))
    refine hrestored.trans (ih (fun r hr => ?_) hrest)
    exact hrestored.ownsRecord (ho r (mem_cons_of_mem _ hr))

end Restores

theorem ownsRecord_cases (h : db.ownsRecord tenantId id = true) :
    db.OwnsProject tenantId id ∨ db.OwnsConversation tenantId id := by
  rcases Bool.or_eq_true_iff.mp h with h | h
  all_goals
    obtain ⟨row, hrow, hmatch⟩ := any_eq_true.mp h
    simp only [Bool.and_eq_true, decide_eq_true_eq] at hmatch
    obtain ⟨rfl, rfl⟩ := hmatch
  · exact .inl (mem_map_of_mem hrow)
  · exact .inr (mem_map_of_mem hrow)

/-- A stale record is of the kind its version names: an identity names records of one kind. -/
theorem staleRecords_owned (h : Owned g db) {record : EntityKind × Uuid}
    (hrecord : record ∈ db.staleRecords tenantId) : db.OwnsRecord tenantId record.1 record.2 := by
  rw [staleRecords, mem_insertionSort, mem_dedup] at hrecord
  obtain ⟨v, hv, rfl⟩ := mem_map.mp hrecord
  obtain ⟨hv, hmatch⟩ := mem_filter.mp hv
  have hkind : g.kind v.entityId = v.kind := (h.entityVersions v hv _ mem_cons_self).2
  show db.OwnsRecord tenantId v.kind v.entityId
  rcases ownsRecord_cases (Bool.and_eq_true_iff.mp hmatch).2 with ho | ho
  · rw [← hkind, (h.project ho).2.2]
    exact ho
  · rw [← hkind, (h.conversation ho).2.2]
    exact ho

theorem restoreRetainedVersions_restores (h : Owned g db)
    (hok : db.restoreRetainedVersions tenantId = .ok db') : Restores tenantId db db' := by
  have hdropped : Owned g db.dropVersionsOfMissing :=
    h.setVersions (h.entityVersions.deleteWhere _)
  exact (Restores.single (.dropMissing db)).trans
    (Restores.restoreRecords _ (fun _ => staleRecords_owned hdropped) hok)

end Database

namespace Owned

open Database

variable {g : Registry} {db db' : Database} {tenantId : Uuid}

theorem observed (h : Owned g db) {e : Uuid} {kind : EntityKind} {id : Uuid}
    (ho : db.Observes e kind id) :
    (Tie.same id e).Holds g db.nextUuid ∧ (Tie.isKind id kind).Holds g db.nextUuid := by
  obtain ⟨o, ho, rfl, rfl, rfl⟩ := ho
  have hties := h.observations o ho
  exact ⟨hties _ mem_cons_self, hties _ (mem_cons_of_mem _ mem_cons_self)⟩

theorem observer (h : Owned g db) {e : Uuid} {kind : EntityKind} {id : Uuid}
    (ho : db.Observes e kind id) (hid : (Tie.owned id tenantId).Holds g db.nextUuid) :
    (Tie.owned e tenantId).Holds g db.nextUuid := by
  obtain ⟨hsame, -⟩ := h.observed ho
  exact ⟨hsame.2.1, hsame.2.2.symm.trans hid.2⟩

theorem restoreStep (h : Owned g db) (hstep : RestoreStep tenantId db db') :
    OwnedAfter g db db' := by
  cases hstep with
  | dropMissing => exact .same (h.setVersions (h.entityVersions.deleteWhere _)) rfl
  | project _ hok =>
    obtain ⟨f, hf, rfl⟩ := restoreProject_eq_ok hok
    refine .same (h.updateProjects (fun p => (hf p).1) fun p _ _ tie htie => .inl ?_) rfl
    rwa [(hf p).2.2] at htie
  | clearLink _ =>
    refine .same (h.updateConversations (fun _ => rfl) fun c _ _ tie htie => .inl ?_) rfl
    rcases mem_cons.mp htie with rfl | htie
    · exact mem_cons_self
    rcases mem_cons.mp htie with rfl | htie
    · exact mem_cons_of_mem _ mem_cons_self
    exact mem_cons_of_mem _ (mem_cons_of_mem _ (mem_append_right _ htie))
  | clearParts _ => exact .same { h with contentParts := h.contentParts.deleteWhere _ } rfl
  | write ho hobserved hwrite => exact h.write (h.observer hobserved (h.conversation ho).1) hwrite
  | setDigest _ digest => exact .same (h.setConversationDigest digest) rfl
  | dropUnnamed _ => exact .same (h.setVersions (h.entityVersions.deleteWhere _)) rfl

theorem restores (h : Owned g db) (hrestores : Restores tenantId db db') : OwnedAfter g db db' :=
  hrestores.preserves (P := OwnedAfter g db) (.same h rfl) fun hstep hafter =>
    hafter.trans fun _ _ howned => howned.restoreStep hstep

end Owned

end ChatgptArchive
