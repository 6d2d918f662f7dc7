import ChatgptArchive.Content.Headers
import ChatgptArchive.Integrity.Projections
import ChatgptArchive.Reconciliation.AppendOnly

/-!
# Stored and reconciled revisions

The revisions table of a conversation is the chain of the contents its imports presented, each one
that differs from the latest; the reconciliation of the same parses keeps each content once.
-/

namespace ChatgptArchive

open Chain List Histories

namespace Database

def revisionDigests (db : Database) (conversationId : Uuid) : List ContentDigest :=
  ((db.revisionsOf conversationId).insertionSort fun a b =>
    a.revisionNumber ≤ b.revisionNumber).map (·.digest)

def storedRevisions (db : Database) (tenantId : Uuid) (externalId : String) : List ContentDigest :=
  (db.conversationAt tenantId externalId).elim [] fun row => db.revisionDigests row.id

/-- Every revision is one of a stored conversation, the numbers of a conversation's revisions
increase, and the latest is the content of its row. -/
structure Chained (db : Database) : Prop where
  owned : ∀ r ∈ db.revisions, r.entityId ∈ db.conversations.map (·.id)
  numbered : ∀ id, (db.revisionsOf id).Pairwise fun a b => a.revisionNumber < b.revisionNumber
  latest : ∀ c ∈ db.conversations, ((db.revisionsOf c.id).map (·.digest)).getLast? =
    c.contentDigest

variable {db db' : Database} {id : Uuid}

theorem Chained.empty : Database.empty.Chained :=
  ⟨fun _ hr => absurd hr not_mem_nil, fun _ => .nil, fun _ hc => absurd hc not_mem_nil⟩

theorem storedRevisions_congr (hconversations : db'.conversations = db.conversations)
    (hrevisions : db'.revisions = db.revisions) (t : Uuid) (x : String) :
    db'.storedRevisions t x = db.storedRevisions t x := by
  simp only [storedRevisions, conversationAt, revisionDigests, revisionsOf, hconversations,
    hrevisions]

theorem Chained.congr (h : db.Chained) (hconversations : db'.conversations = db.conversations)
    (hrevisions : db'.revisions = db.revisions) : db'.Chained := by
  refine ⟨?_, ?_, ?_⟩
  · rw [hrevisions, hconversations]
    exact h.owned
  · simp only [revisionsOf, hrevisions]
    exact h.numbered
  · simp only [revisionsOf, hrevisions, hconversations]
    exact h.latest

theorem Chained.of_normalized (h : db.Chained) (hnormalized : db'.normalized = db.normalized) :
    db'.Chained := by
  exact h.congr (normalized_frame hnormalized fun _ => rfl) (normalized_frame hnormalized fun _ => rfl)

theorem storedRevisions_of_normalized (h : db'.normalized = db.normalized) (t : Uuid) (x : String) :
    db'.storedRevisions t x = db.storedRevisions t x :=
  storedRevisions_congr (normalized_frame h fun _ => rfl) (normalized_frame h fun _ => rfl) t x

theorem revisionDigests_of_numbered
    (h : (db.revisionsOf id).Pairwise fun a b => a.revisionNumber < b.revisionNumber) :
    db.revisionDigests id = (db.revisionsOf id).map (·.digest) := by
  rw [revisionDigests, List.Pairwise.insertionSort_eq (h.imp Nat.le_of_lt)]

theorem latestRevisionDigest_of_numbered
    (h : (db.revisionsOf id).Pairwise fun a b => a.revisionNumber < b.revisionNumber) :
    db.latestRevisionDigest id = ((db.revisionsOf id).map (·.digest)).getLast? := by
  rw [latestRevisionDigest, getLast?_map]
  refine congrArg (Option.map _) ?_
  cases hsorted : (db.revisionsOf id).insertionSort
      fun a b => b.revisionNumber ≤ a.revisionNumber with
  | nil =>
    have hperm := hsorted ▸ (db.revisionsOf id).perm_insertionSort
      fun a b : RevisionRow => b.revisionNumber ≤ a.revisionNumber
    rw [nil_perm.mp hperm]
    rfl
  | cons first rest =>
    -- the first of the sorted rows has the largest number, and so has the last of the chain
    have hperm := hsorted ▸ (db.revisionsOf id).perm_insertionSort
      fun a b : RevisionRow => b.revisionNumber ≤ a.revisionNumber
    have hlargest : ∀ r ∈ db.revisionsOf id, r.revisionNumber ≤ first.revisionNumber := by
      intro r hr
      have hpairwise := hsorted ▸ (db.revisionsOf id).pairwise_insertionSort
        fun a b : RevisionRow => b.revisionNumber ≤ a.revisionNumber
      rcases mem_cons.mp (hperm.mem_iff.mpr hr) with rfl | hr
      · exact Nat.le_refl _
      · exact rel_of_pairwise_cons hpairwise hr
    have hfirst : first ∈ db.revisionsOf id := hperm.mem_iff.mp mem_cons_self
    obtain ⟨earlier, last, heq⟩ : ∃ earlier last, db.revisionsOf id = earlier ++ [last] :=
      ⟨_, _, (dropLast_append_getLast (ne_nil_of_mem hfirst)).symm⟩
    rw [heq] at h hlargest hfirst ⊢
    rw [getLast?_concat, List.head?_cons]
    rcases mem_append.mp hfirst with hfirst | hfirst
    · have hless := (pairwise_append.mp h).2.2 first hfirst last (mem_singleton_self _)
      have hmore := hlargest last (mem_append_right _ (mem_singleton_self _))
      omega
    · rw [mem_singleton.mp hfirst]

/-! ## One conversation -/

theorem appendRevision_revisionsOf (id exportId : Uuid) (digest : ContentDigest)
    (parser : ParserId) {other : Uuid} (hne : other ≠ id) :
    (db.appendRevision id exportId digest parser).revisionsOf other = db.revisionsOf other := by
  unfold appendRevision
  split
  · rfl
  · rw [revisionsOf, revisionsOf]
    exact Table.filter_append_beside (decide_eq_false (Ne.symm hne))

theorem appendRevision_chain {id : Uuid} (exportId : Uuid) (digest : ContentDigest)
    (parser : ParserId) (h : (db.revisionsOf id).Pairwise
      fun a b => a.revisionNumber < b.revisionNumber) :
    let after := db.appendRevision id exportId digest parser
    (after.revisionsOf id).map (·.digest) =
        appendChanged ((db.revisionsOf id).map (·.digest)) digest ∧
      (after.revisionsOf id).Pairwise fun a b => a.revisionNumber < b.revisionNumber := by
  have hlatest := latestRevisionDigest_of_numbered h
  intro after
  by_cases hsame : db.latestRevisionDigest id = some digest
  · have hafter : after = db := if_pos hsame
    rw [hafter, appendChanged, if_pos (hlatest ▸ hsame)]
    exact ⟨rfl, h⟩
  · obtain ⟨row, hdigest, hnumber, hrows⟩ : ∃ row : RevisionRow, row.digest = digest ∧
        row.revisionNumber =
          ((db.revisionsOf id).map (·.revisionNumber)).max?.getD 0 + 1 ∧
        after.revisionsOf id = db.revisionsOf id ++ [row] := by
      refine ⟨{ id := db.nextUuid, entityId := id
                revisionNumber :=
                  ((db.revisionsOf id).map (·.revisionNumber)).max?.getD 0 + 1
                observedIn := exportId, digest, parserName := parser.name
                parserVersion := parser.version }, rfl, rfl, ?_⟩
      · rw [show after = _ from if_neg hsame, revisionsOf, filter_append]
        refine congrArg (db.revisionsOf id ++ ·) ?_
        exact filter_eq_self.mpr fun r hr => by rw [mem_singleton.mp hr]; simp
    rw [hrows, appendChanged, if_neg (hlatest ▸ hsame), map_append, map_singleton, hdigest]
    refine ⟨rfl, pairwise_append.mpr ⟨h, pairwise_singleton _ _, fun r hr s hs => ?_⟩⟩
    rw [mem_singleton.mp hs, hnumber]
    -- the new number is above the largest one
    cases hmax : ((db.revisionsOf id).map (·.revisionNumber)).max? with
    | none =>
      rw [List.max?_eq_none_iff, map_eq_nil_iff] at hmax
      exact absurd (hmax ▸ hr) not_mem_nil
    | some largest =>
      have hle := (List.max?_eq_some_iff.mp hmax).2 _ (mem_map_of_mem hr)
      exact Nat.lt_succ_of_le hle

theorem undetailed_revisions : Undetailed (·.revisions) where
  messages _ _ _ := rfl
  parts _ _ _ := rfl
  observe _ _ _ := rfl
  header _ _ _ _ _ _ := rfl

/-- Only the chain of the written conversation grows, and only by another digest. -/
theorem persistConversation_chain (h : db.Chained) (plan : ReparsePlan) (projects : IdMap)
    (conversation : ParsedConversation) :
    let row := (db.upsertConversation plan.tenantId conversation.externalId).1
    let after := db.persistConversation plan projects conversation
    (∀ id, (after.revisionsOf id).Pairwise fun a b => a.revisionNumber < b.revisionNumber) ∧
      (after.revisionsOf row.id).map (·.digest) = appendChanged
        ((db.revisionsOf row.id).map (·.digest)) (conversationDigest conversation) ∧
      ∀ id, id ≠ row.id → after.revisionsOf id = db.revisionsOf id := by
  intro row after
  rcases db.persistConversation_cases plan projects conversation with
    ⟨hdigest, heq⟩ | ⟨-, heq⟩
  · -- an unchanged conversation has the presented content as its latest revision
    have hrevisions : after.revisions = db.revisions := by
      rw [show after = _ from heq, observePresented,
        observeMessages_unmessaged undetailed_revisions.toUnmessaged]
      rfl
    have hof : ∀ id, after.revisionsOf id = db.revisionsOf id := fun id => by
      rw [revisionsOf, hrevisions, revisionsOf]
    refine ⟨fun id => hof id ▸ h.numbered id, ?_, fun id _ => hof id⟩
    obtain ⟨stored, hstored⟩ : ∃ stored, db.conversationAt plan.tenantId
        conversation.externalId = some stored := by
      rw [upsertConversation_fst] at hdigest
      cases hat : db.conversationAt plan.tenantId conversation.externalId with
      | none =>
        rw [hat] at hdigest
        cases hdigest
      | some stored => exact ⟨stored, rfl⟩
    have hrow : row = stored := by
      rw [show row = _ from db.upsertConversation_fst .., hstored, Option.getD_some]
    rw [hof, appendChanged, if_pos]
    rw [hrow, h.latest stored (conversationAt_spec hstored).1, ← hrow]
    exact hdigest
  · have hrevisions : after.revisions = ((db.conversationNamed plan conversation).appendRevision
        row.id plan.exportId (conversationDigest conversation) plan.targetParser).revisions := by
      rw [show after = _ from heq, persistConversationDetail_undetailed undetailed_revisions]
      rfl
    have hof : ∀ id, after.revisionsOf id =
        ((db.conversationNamed plan conversation).appendRevision row.id plan.exportId
          (conversationDigest conversation) plan.targetParser).revisionsOf id := fun id => by
      rw [revisionsOf, hrevisions, revisionsOf]
    have hchain := @appendRevision_chain (db.conversationNamed plan conversation) row.id
      plan.exportId (conversationDigest conversation) plan.targetParser (h.numbered row.id)
    have hother : ∀ id, id ≠ row.id → after.revisionsOf id = db.revisionsOf id := fun id hid =>
      (hof id).trans (appendRevision_revisionsOf _ _ _ _ hid)
    refine ⟨fun id => ?_, by rw [hof]; exact hchain.1, hother⟩
    by_cases hid : id = row.id
    · rw [hid, hof]
      exact hchain.2
    · rw [hother id hid]
      exact h.numbered id

theorem Chained.persistConversation (h : db.Chained) (hsound : Sound db) {plan : ReparsePlan}
    (hexport : db.HasExport plan.exportId plan.tenantId) {projects : IdMap}
    (hprojects : Sound.ResolvesProjects projects db) (conversation : ParsedConversation) :
    (db.persistConversation plan projects conversation).Chained := by
  obtain ⟨hnumbered, hchain, hothers⟩ := persistConversation_chain h plan projects conversation
  obtain ⟨hafter, hgrows⟩ := hsound.persistConversation conversation hexport hprojects
  have hat := persistConversation_conversationAt hsound hexport projects conversation
  obtain ⟨hmem, -, -⟩ := conversationAt_spec ((hat plan.tenantId conversation.externalId).trans
    (if_pos ⟨rfl, rfl⟩))
  have hid := (presentedRow_id plan projects conversation
    (db.upsertConversation plan.tenantId conversation.externalId).1).1
  refine ⟨fun r hr => ?_, hnumbered, fun c hc => ?_⟩
  · by_cases hrow : r.entityId = (db.upsertConversation plan.tenantId conversation.externalId).1.id
    · rw [hrow, ← hid]
      exact mem_map_of_mem hmem
    · have hr : r ∈ db.revisionsOf r.entityId := by
        rw [← hothers _ hrow]
        exact mem_filter.mpr ⟨hr, decide_eq_true rfl⟩
      exact hgrows.conversations _ (h.owned r (mem_filter.mp hr).1)
  · have hfound := (conversationAt_eq_some hafter).mpr ⟨hc, rfl, rfl⟩
    rw [hat] at hfound
    split at hfound
    · rw [← Option.some.inj hfound, hid, hchain, getLast?_appendChanged, presentedRow_digest]
    · rename_i hne
      rw [hothers c.id (upsertConversation_id_ne hsound hfound hne),
        h.latest c (conversationAt_spec hfound).1]

theorem Chained.revisionsOf_next (h : db.Chained) (hsound : Sound db) :
    db.revisionsOf db.nextUuid = [] := by
  refine filter_eq_nil_iff.mpr fun r hr heq => ?_
  obtain ⟨c, hc, hid⟩ := mem_map.mp (h.owned r hr)
  have hfresh := hsound.conversationFresh c hc
  rw [hid, of_decide_eq_true heq] at hfresh
  exact Nat.lt_irrefl _ hfresh

theorem storedRevisions_persistConversation (h : db.Chained) (hsound : Sound db)
    {plan : ReparsePlan} (hexport : db.HasExport plan.exportId plan.tenantId) {projects : IdMap}
    (hprojects : Sound.ResolvesProjects projects db) (conversation : ParsedConversation)
    (t : Uuid) (x : String) :
    (db.persistConversation plan projects conversation).storedRevisions t x =
      if t = plan.tenantId ∧ x = conversation.externalId then
        appendChanged (db.storedRevisions t x) (conversationDigest conversation)
      else db.storedRevisions t x := by
  obtain ⟨hnumbered, hchain, hothers⟩ := persistConversation_chain h plan projects conversation
  have hafter := h.persistConversation hsound hexport hprojects conversation
  rw [storedRevisions, persistConversation_conversationAt hsound hexport]
  split
  · rename_i heq
    obtain ⟨rfl, rfl⟩ := heq
    rw [Option.elim_some, (presentedRow_id ..).1, revisionDigests_of_numbered (hnumbered _),
      hchain, storedRevisions, upsertConversation_fst]
    cases hat : db.conversationAt plan.tenantId conversation.externalId with
    | none =>
      rw [Option.getD_none, Option.elim_none]
      exact congrArg (appendChanged · _) (congrArg (List.map _) (h.revisionsOf_next hsound))
    | some stored =>
      rw [Option.getD_some, Option.elim_some, revisionDigests_of_numbered (h.numbered _)]
  · rename_i hne
    rw [storedRevisions]
    cases hat : db.conversationAt t x with
    | none => rfl
    | some c =>
      rw [Option.elim_some, Option.elim_some, revisionDigests_of_numbered (hnumbered _),
        revisionDigests_of_numbered (h.numbered _),
        hothers c.id (upsertConversation_id_ne hsound hat hne)]

/-! ## One import -/

def presentedDigests (conversations : List ParsedConversation) (x : String) : List ContentDigest :=
  (conversations.filter (·.externalId = x)).map conversationDigest

theorem persistConversations_chained {plan : ReparsePlan} {projects : IdMap}
    (conversations : List ParsedConversation) (t : Uuid) (x : String) :
    ∀ {db : Database}, db.Chained → Sound db → db.HasExport plan.exportId plan.tenantId →
      Sound.ResolvesProjects projects db →
      (persistConversations plan projects db conversations).Chained ∧
      (persistConversations plan projects db conversations).storedRevisions t x =
        if t = plan.tenantId then
          (presentedDigests conversations x).foldl appendChanged (db.storedRevisions t x)
        else db.storedRevisions t x := by
  induction conversations with
  | nil => exact fun h _ _ _ => ⟨h, (ite_self _).symm⟩
  | cons conversation conversations ih =>
    intro db h hsound hexport hprojects
    obtain ⟨hafter, hgrows⟩ := hsound.persistConversation conversation hexport hprojects
    have hstep := storedRevisions_persistConversation h hsound hexport hprojects conversation t x
    obtain ⟨hchained, hrest⟩ := ih (h.persistConversation hsound hexport hprojects conversation)
      hafter (hgrows.hasExport.mpr hexport) (hprojects.grows hgrows)
    refine ⟨hchained, hrest.trans ?_⟩
    rw [hstep]
    by_cases ht : t = plan.tenantId
    · rw [if_pos ht, if_pos ht]
      by_cases hx : x = conversation.externalId
      · rw [if_pos ⟨ht, hx⟩, presentedDigests, presentedDigests, filter_cons,
          if_pos (decide_eq_true hx.symm), map_cons, foldl_cons]
      · rw [if_neg fun heq => hx heq.2, presentedDigests, presentedDigests, filter_cons,
          if_neg (by simpa using Ne.symm hx)]
    · rw [if_neg ht, if_neg ht, if_neg fun heq => ht heq.1]

theorem persistProjects_revisions (tenantId exportId : Uuid) (parser : ParserId)
    (projects : List ParsedProject) : ∀ (db : Database) (ids : IdMap),
    (persistProjects tenantId exportId parser db ids projects).1.revisions = db.revisions := by
  induction projects with
  | nil => exact fun _ _ => rfl
  | cons project projects ih => exact fun _ _ => ih _ _

theorem persistProjection_chained (h : db.Chained) (hsound : Sound db) (plan : ReparsePlan)
    (hexport : db.HasExport plan.exportId plan.tenantId) (t : Uuid) (x : String) :
    (db.persistProjection plan).Chained ∧
      (db.persistProjection plan).storedRevisions t x =
        if t = plan.tenantId then
          (presentedDigests plan.parsed.conversations x).foldl appendChanged
            (db.storedRevisions t x)
        else db.storedRevisions t x := by
  obtain ⟨hprojects, hgrows, hids⟩ := Sound.persistProjects plan.tenantId plan.exportId
    plan.targetParser plan.parsed.projects hsound hexport .nil
  have hconversations := persistProjects_conversations plan.tenantId plan.exportId
    plan.targetParser plan.parsed.projects db []
  have hrevisions := persistProjects_revisions plan.tenantId plan.exportId
    plan.targetParser plan.parsed.projects db []
  obtain ⟨hchained, hstored⟩ := persistConversations_chained plan.parsed.conversations t x
    (h.congr hconversations hrevisions) hprojects (hgrows.hasExport.mpr hexport) hids
  rw [storedRevisions_congr hconversations hrevisions] at hstored
  exact ⟨hchained, hstored⟩

end Database

/-! ## Histories of imports -/

def Event.imports : Event → Bool
  | .reparse _ _ _ _ _ _ _ | .delete _ _ _ _ _ => false
  | _ => true

namespace Database

variable (contracts : Contracts) (config : ImportConfig)

def imported (db : Database) : Event → Option (Uuid × ArchiveSnapshot)
  | .importRun now runId parsed artifacts =>
    match db.runInState ImportState.attempted runId,
      db.importPending contracts config now runId parsed artifacts with
    | some (_, row), .ok _ =>
      if (db.importRuns.find? fun r => r.id = runId).any (·.state.imported) then none
      else some (row.accountId, ⟨toString row.aiArchiveId, parsed⟩)
    | _, _ => none
  | _ => none

def importedSnapshots (tenantId : Uuid) :
    Database → List (ImportConfig × Event) → List ArchiveSnapshot
  | _, [] => []
  | db, (config, event) :: events =>
    (((db.imported contracts config event).filter (·.1 = tenantId)).map (·.2)).toList ++
      importedSnapshots tenantId (db.step contracts config event) events

variable {contracts config} {db : Database}

theorem imported_cases (h : Sound db) {event : Event} (hevent : event.imports = true) :
    (db.imported contracts config event = none ∧
      (db.step contracts config event).normalized = db.normalized) ∨
    ∃ plan archiveId, db.imported contracts config event =
        some (plan.tenantId, ⟨archiveId, plan.parsed⟩) ∧
      event.written db = some plan.exportId ∧
      Projects plan db (db.step contracts config event) := by
  cases event with
  | importRun now runId parsed artifacts =>
    simp only [imported, step]
    cases hok : db.importPending contracts config now runId parsed artifacts with
    | error e =>
      refine .inl ⟨?_, rfl⟩
      cases db.runInState ImportState.attempted runId <;> rfl
    | ok db' =>
      rcases importPending_eq_ok hok with
        ⟨⟨found, hfind, himported⟩, rfl⟩ |
        ⟨run, row, found, gaps, plan, -, hrun, hfind, himported, hplan, hrest⟩
      · refine .inl ⟨?_, rfl⟩
        cases db'.runInState ImportState.attempted runId with
        | none => rfl
        | some attempt => simp only [hfind, Option.any_some, himported, if_true]
      · have hexport : db.HasExport plan.exportId plan.tenantId := by
          rw [hplan]
          exact ⟨row, runInState_export hrun, rfl, rfl⟩
        refine .inr ⟨plan, toString row.aiArchiveId, ?_, ?_,
          projectAndReport_projects h hexport hrest⟩
        · simp only [hrun, hfind, Option.any_some, himported, Bool.false_eq_true, if_false, hplan]
          rfl
        · rw [Event.written, hrun, hplan]
          rfl
  | reparse | delete => cases hevent
  | _ => exact .inl ⟨rfl, step_normalized db contracts config rfl rfl⟩

def snapshotDigests (snapshots : List ArchiveSnapshot) (x : String) : List ContentDigest :=
  presentedDigests (snapshots.flatMap (·.parsed.conversations)) x

theorem snapshotDigests_cons (snapshot : ArchiveSnapshot) (snapshots : List ArchiveSnapshot)
    (x : String) :
    snapshotDigests (snapshot :: snapshots) x =
      presentedDigests snapshot.parsed.conversations x ++ snapshotDigests snapshots x := by
  simp only [snapshotDigests, presentedDigests, flatMap_cons, filter_append, map_append]

/-- Each import appends its digest unless it is the latest. -/
theorem storedRevisions_run (t : Uuid) (x : String) (events : List (ImportConfig × Event)) :
    ∀ {db : Database}, Sound db → db.Chained → (∀ e ∈ events, e.2.imports = true) →
      (Run.run (fun db event => db.step contracts event.1 event.2) db events).storedRevisions t x =
        (snapshotDigests (importedSnapshots contracts t db events) x).foldl appendChanged
          (db.storedRevisions t x) := by
  induction events with
  | nil => exact fun _ _ _ => rfl
  | cons configured events ih =>
    obtain ⟨config, event⟩ := configured
    intro db h hchained hevents
    have hrest := fun hchained' => ih (h.step contracts config event) hchained'
      fun e he => hevents e (mem_cons_of_mem _ he)
    rcases @imported_cases contracts config db h event
      (hevents (config, event) mem_cons_self) with ⟨hnone, hsame⟩ | ⟨plan, archiveId, hsome, -, hprojects⟩
    · refine (hrest (hchained.of_normalized hsame)).trans ?_
      rw [importedSnapshots, hnone, storedRevisions_of_normalized hsame]
      rfl
    · obtain ⟨start, hstart, hexport, hbefore, hafter⟩ := hprojects
      obtain ⟨hpersisted, hstored⟩ := persistProjection_chained
        (hchained.of_normalized hbefore) hstart plan hexport t x
      refine (hrest (hpersisted.of_normalized hafter)).trans ?_
      rw [storedRevisions_of_normalized hafter, hstored, storedRevisions_of_normalized hbefore,
        importedSnapshots, hsome]
      by_cases ht : t = plan.tenantId
      · rw [if_pos ht, Option.filter_some, if_pos (decide_eq_true ht.symm)]
        refine Eq.trans ?_ (congrArg (List.foldl appendChanged _)
          (snapshotDigests_cons ⟨archiveId, plan.parsed⟩ _ x)).symm
        rw [foldl_append]
        rfl
      · rw [if_neg ht, Option.filter_some, if_neg (by simpa using Ne.symm ht)]
        rfl

end Database

def ReconciliationResult.revisionsOf (result : ReconciliationResult) (x : String) :
    List EvidenceDigest :=
  ((result.conversations.find? (·.externalId = x)).elim [] (·.revisions)).map (·.digest)

theorem reconcile_revisionsOf (snapshots : List ArchiveSnapshot) (x : String) :
    (reconcile snapshots).revisionsOf x =
      (Database.snapshotDigests snapshots x).eraseDups.map .conversation := by
  obtain ⟨htells, -⟩ := tells_empty.reconcileSnapshots snapshots
  have hconversations := htells.conversations
  rw [← Chain.eraseDups_map fun _ _ h => EvidenceDigest.conversation.inj h, Database.snapshotDigests,
    Database.presentedDigests, map_map]
  rw [ReconciliationResult.revisionsOf, reconcile]
  cases hfind : (KeyedMap.values
      (snapshots.foldl reconcileSnapshot .empty).conversations).find?
      (·.externalId = x) with
  | none =>
    -- a conversation without a history has been presented by no archive
    have habsent : (snapshots.foldl reconcileSnapshot .empty).conversations[x]? =
        none := by
      cases hlookup : (snapshots.foldl reconcileSnapshot .empty).conversations[x]? with
      | none => rfl
      | some history =>
        have hnot := find?_eq_none.mp hfind history (KeyedMap.mem_values.mpr ⟨x, hlookup⟩)
        exact absurd (decide_eq_true (hconversations.keyed x history hlookup)) hnot
    have hfresh := (hconversations x).2
    rw [Std.TreeMap.getD_eq_getD_getElem?, habsent] at hfresh
    rw [result, hfind]
    exact hfresh.header.revisions
  | some history =>
    have hx : history.externalId = x := by simpa using find?_some hfind
    have hhistory := hconversations.of_mem_values (mem_of_find?_eq_some hfind)
    rw [hx] at hhistory
    rw [result, hfind]
    exact hhistory.header.revisions

/-- After a history of imports the table and the reconciliation of the imported archives have the
same revisions of a conversation exactly when no content of it returns after another. -/
theorem storedRevisions_reconciled_iff (contracts : Contracts)
    {events : List (ImportConfig × Event)} (hevents : ∀ e ∈ events, e.2.imports = true) (t : Uuid)
    (x : String) :
    ((Database.history contracts events).storedRevisions t x).map .conversation =
        (reconcile (Database.importedSnapshots contracts t .empty events)).revisionsOf x ↔
      NeverReturns (Database.snapshotDigests
        (Database.importedSnapshots contracts t .empty events) x) := by
  rw [Database.history, Database.storedRevisions_run t x events Sound.empty .empty hevents,
    reconcile_revisionsOf, ← changes_eq_eraseDups_iff]
  exact (List.map_injective_iff.mpr fun _ _ h => EvidenceDigest.conversation.inj h).eq_iff

def versionImported (runId : Uuid) (sha256Hex version : String) : List (ImportConfig × Event) :=
  Event.under ⟨[], 100⟩ (Event.receipt 0 runId "account" sha256Hex ++
    [.importRun 0 runId (.ofRecords [] [.ofMessages "c" [.ofText "m" none version]]) []])

/-- Two archives in which the content changes. -/
theorem versionImported_changed :
    ((Database.history .permissive (versionImported 0 "a" "first" ++
        versionImported 9 "b" "second")).storedRevisions 1 "c").map .conversation =
      (reconcile (Database.importedSnapshots .permissive 1 .empty
        (versionImported 0 "a" "first" ++ versionImported 9 "b" "second"))).revisionsOf "c" := by
  refine (storedRevisions_reconciled_iff .permissive (by decide) 1 "c").mpr ?_
  have hdigests : Database.snapshotDigests (Database.importedSnapshots .permissive 1
      .empty (versionImported 0 "a" "first" ++ versionImported 9 "b" "second")) "c" =
      ["first", "second"].map fun version =>
        conversationDigest (.ofMessages "c" [.ofText "m" none version]) := by
    decide +kernel
  rw [hdigests]
  intro a b hsub
  exact absurd hsub.length_le (by simp)

/-- A third archive with the content of the first adds a revision to the table and none to the
reconciliation. -/
theorem versionImported_returned :
    ((Database.history .permissive (versionImported 0 "a" "first" ++
        versionImported 9 "b" "second" ++ versionImported 18 "c" "first")).storedRevisions 1
          "c").map .conversation ≠
      (reconcile (Database.importedSnapshots .permissive 1 .empty
        (versionImported 0 "a" "first" ++ versionImported 9 "b" "second" ++
          versionImported 18 "c" "first"))).revisionsOf "c" := by
  rw [reconcile_revisionsOf]
  decide +kernel

end ChatgptArchive
