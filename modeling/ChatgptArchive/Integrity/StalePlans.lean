import ChatgptArchive.ReparseApplies
import ChatgptArchive.Integrity.Isolation

/-!
# Stale plans

What the projection of an export depends on, which transactions leave it alone, and from that what
an apply that nothing disturbs finds when it commits.
-/

namespace ChatgptArchive

open List Table

namespace Database

variable {db db' : Database} {exportId : Uuid} {g : Registry}

/-! ## The projection of an export -/

def namedVersions (keys : List (Uuid × String)) (observations : List ObservationRow) :
    List (String × Option ContentDigest) :=
  keys.flatMap fun key =>
    (observations.filter fun o => o.kind = .conversation && o.entityId = key.1).map
      fun o => (key.2, o.contentDigest)

def conversationKeys (db : Database) : List (Uuid × String) :=
  db.conversations.map fun c => (c.id, c.externalId)

def observationsOf (db : Database) (exportId : Uuid) : List ObservationRow :=
  db.observations.filter fun o => o.exportId = exportId

theorem currentProjection_eq (db : Database) (exportId : Uuid) :
    db.currentProjection exportId =
      (namedVersions db.conversationKeys (db.observationsOf exportId)).insertionSort
        fun a b => a.1 ≤ b.1 := by
  have hfilter : ∀ id : Uuid, (db.observations.filter fun o =>
      decide (o.exportId = exportId) && decide (o.kind = .conversation) && decide (o.entityId = id)) =
      (db.observationsOf exportId).filter fun o => o.kind = .conversation && o.entityId = id := by
    intro id
    rw [observationsOf, filter_filter]
    refine filter_congr fun o _ => ?_
    rw [Bool.and_assoc, Bool.and_comm]
  simp only [currentProjection, namedVersions, conversationKeys, flatMap_map, hfilter]

theorem namedVersions_append {keys : List (Uuid × String)} {key : Uuid × String}
    {observations : List ObservationRow} (h : ∀ o ∈ observations, o.entityId ≠ key.1) :
    namedVersions (keys ++ [key]) observations = namedVersions keys observations := by
  have hnone : (observations.filter fun o => o.kind = .conversation && o.entityId = key.1) = [] :=
    filter_eq_nil_iff.mpr fun o ho => by simp [h o ho]
  simp [namedVersions, hnone]

/-- The projection is what it was when the export's observations are and no conversation came in
that they name. -/
theorem currentProjection_congr (hobservations : db'.observationsOf exportId =
      db.observationsOf exportId)
    (hkeys : db'.conversationKeys = db.conversationKeys ∨
      ∃ key, db'.conversationKeys = db.conversationKeys ++ [key] ∧
        ∀ o ∈ db.observations, o.entityId ≠ key.1) :
    db'.currentProjection exportId = db.currentProjection exportId := by
  rw [currentProjection_eq, currentProjection_eq, hobservations]
  rcases hkeys with hkeys | ⟨key, hkeys, hnew⟩
  · rw [hkeys]
  · have hnew : ∀ o ∈ db.observationsOf exportId, o.entityId ≠ key.1 :=
      fun o ho => hnew o (mem_filter.mp ho).1
    rw [hkeys, namedVersions_append hnew]

theorem observationsOf_recordObservation {other : Uuid} (hne : other ≠ exportId) (kind : EntityKind)
    (id : Uuid) (digest : ContentDigest) :
    (db.observe other kind id digest).observationsOf exportId = db.observationsOf exportId := by
  refine filter_upsert_beside (fun o _ hmatch => ?_) fun _ => decide_eq_false hne
  simp only [Bool.and_eq_true, decide_eq_true_eq] at hmatch
  rw [hmatch.1.1]
  exact ⟨decide_eq_false hne, decide_eq_false hne⟩

theorem conversationKeys_updateWhere {p : ConversationRow → Bool}
    {f : ConversationRow → ConversationRow}
    (hf : ∀ c, ((f c).id, (f c).externalId) = (c.id, c.externalId)) :
    ({ db with conversations := Table.updateWhere p f db.conversations }).conversationKeys =
      db.conversationKeys :=
  map_updateWhere hf db.conversations

theorem conversationKeys_upsertConversation (db : Database) (tenantId : Uuid) (externalId : String) :
    (db.upsertConversation tenantId externalId).2.conversationKeys = db.conversationKeys ∨
      (db.upsertConversation tenantId externalId).2.conversationKeys =
        db.conversationKeys ++ [(db.nextUuid, externalId)] := by
  unfold upsertConversation
  dsimp only
  rcases upsert_cases (fun c : ConversationRow => c.accountId = tenantId &&
    c.externalId = externalId) (newConversation db.nextUuid tenantId externalId) (fun c => c)
    db.conversations with ⟨_, _, _, heq⟩ | ⟨_, heq⟩
  · refine .inl ?_
    simp only [freshUuid, conversationKeys, heq]
    exact map_updateWhere (fun _ => rfl) _
  · refine .inr ?_
    simp only [freshUuid, conversationKeys, heq, map_append]
    rfl

theorem Write.currentProjection (h : Owned g db) {tenantId other : Uuid} (hne : other ≠ exportId)
    (hwrite : Write tenantId other db db') :
    db'.currentProjection exportId = db.currentProjection exportId := by
  cases hwrite with
  | upsertProject externalId version => rfl
  | observeProject ho digest =>
    exact currentProjection_congr (observationsOf_recordObservation hne ..) (.inl rfl)
  | keepProject ho version => rfl
  | upsertConversation externalId =>
    refine currentProjection_congr rfl ?_
    refine (db.conversationKeys_upsertConversation tenantId externalId).imp id fun hkeys =>
      ⟨_, hkeys, fun o ho => ?_⟩
    exact Nat.ne_of_lt (h.observations o ho _ mem_cons_self).1
  | observeConversation ho digest =>
    exact currentProjection_congr (observationsOf_recordObservation hne ..) (.inl rfl)
  | appendRevision ho digest parser =>
    unfold Database.appendRevision
    split <;> rfl
  | keepConversation ho digest version =>
    exact currentProjection_congr rfl (.inl (conversationKeys_updateWhere fun _ => rfl))
  | markSeen ho =>
    exact currentProjection_congr rfl (.inl (conversationKeys_updateWhere fun _ => rfl))
  | updateHeader ho hproject conversation parser =>
    exact currentProjection_congr rfl (.inl (conversationKeys_updateWhere fun _ => rfl))
  | upsertMessage ho ordinal message => rfl
  | observeMessage ho =>
    exact currentProjection_congr (filter_insertAbsent_beside (decide_eq_false hne))
      (.inl rfl)
  | insertPart ho revision part => rfl
  | setParent ho hparent => rfl

/-- An event that persists another export's projection, or none, leaves this one's as it is. -/
theorem Records.currentProjection (h : Owned g db) {w : Option Uuid} (hne : w ≠ some exportId)
    (hrecords : Records w db db') :
    db'.currentProjection exportId = db.currentProjection exportId := by
  refine (hrecords.preserves (P := fun db' => (∃ g, Owned g db') ∧
    db'.currentProjection exportId = db.currentProjection exportId) ⟨⟨g, h⟩, rfl⟩ ?_).2
  intro start next hstep ⟨⟨g', howned⟩, heq⟩
  obtain ⟨g'', -, howned'⟩ := howned.recordStep hstep
  refine ⟨⟨g'', howned'⟩, Eq.trans ?_ heq⟩
  cases hstep with
  | same hheld | skip hheld =>
    exact held_frame (f := fun db => db.currentProjection exportId) hheld fun _ => rfl
  | createRun | insertExport | updateRuns | insertArtifact => rfl
  | write hrow hwritten hwrite =>
    refine hwrite.currentProjection howned fun hid => hne ?_
    rw [hwritten, hid]

theorem flatMap_filter_of_nil {α β : Type} {p : α → Bool} {f : α → List β} {rows : List α}
    (h : ∀ a ∈ rows, p a = false → f a = []) : (rows.filter p).flatMap f = rows.flatMap f := by
  induction rows with
  | nil => rfl
  | cons a rows ih =>
    have ih := ih fun b hb => h b (mem_cons_of_mem a hb)
    cases hp : p a with
    | true => rw [filter_cons_of_pos hp, flatMap_cons, flatMap_cons, ih]
    | false =>
      rw [filter_cons_of_neg (Bool.not_eq_true _ ▸ hp), flatMap_cons, ih,
        h a mem_cons_self hp, nil_append]

theorem currentProjection_tenantRows (h : Owned g db) {row : ExportRow} (hrow : row ∈ db.exports) :
    (db.tenantRows row.accountId).currentProjection row.id = db.currentProjection row.id := by
  have hheld : row.id ∈ (db.holdings row.accountId).exports :=
    mem_map_of_mem (mem_filter.mpr ⟨hrow, decide_eq_true rfl⟩)
  have hobservations : (db.tenantRows row.accountId).observationsOf row.id =
      db.observationsOf row.id := by
    show (db.observations.filter fun o => (db.holdings row.accountId).exports.contains
      o.exportId).filter (fun o => decide (o.exportId = row.id)) = _
    rw [filter_filter, observationsOf]
    refine filter_congr fun o _ => ?_
    by_cases hid : o.exportId = row.id
    · simp [hid, hheld]
    · simp [hid]
  rw [currentProjection_eq, currentProjection_eq, hobservations]
  refine congrArg _ ?_
  show ((db.conversations.filter fun c => decide (c.accountId = row.accountId)).map _).flatMap _ = _
  rw [namedVersions, conversationKeys, flatMap_map, flatMap_map]
  refine flatMap_filter_of_nil fun c hc haccount => ?_
  -- an observation belongs to the tenant of its export, so it names none of another's conversations
  refine map_eq_nil_iff.mpr (filter_eq_nil_iff.mpr fun o ho hmatch => ?_)
  simp only [Bool.and_eq_true, decide_eq_true_eq] at hmatch
  obtain ⟨ho, hexport⟩ := mem_filter.mp ho
  have hsame := (h.observations o ho _ mem_cons_self).2.2
  have hrowOwner := (h.exports row hrow _ mem_cons_self).2
  have hcOwner := (h.conversations c hc _ mem_cons_self).2
  rw [of_decide_eq_true hexport, hrowOwner, hmatch.2, hcOwner] at hsame
  exact of_decide_eq_false haccount hsame

/-! ## What leaves an apply undisturbed -/

structure KnownPlan (g : Registry) (db : Database) (plan : ReparsePlan) : Prop where
  owned : (Tie.owned plan.exportId plan.tenantId).Holds g db.nextUuid
  archive : ∀ row ∈ db.exports, row.id = plan.exportId → row.aiArchiveId = plan.archiveId

/-- The transaction unfinishes no deletion of the tenant and leaves the projection of the export,
when it is kept, as it was. -/
structure Quiet (db db' : Database) (plan : ReparsePlan) (stage : ApplyStage) : Prop where
  blocked : db'.privacyBlocked plan.tenantId = true → db.privacyBlocked plan.tenantId = true
  projection : stage.compared = true → (∃ row ∈ db'.exports, row.id = plan.exportId) →
    db'.currentProjection plan.exportId = db.currentProjection plan.exportId

theorem privacyBlocked_congr (h : db'.deletions = db.deletions) (tenantId : Uuid) :
    db'.privacyBlocked tenantId = db.privacyBlocked tenantId := by
  rw [privacyBlocked, requests_of_deletions h, privacyBlocked]

theorem privacyBlocked_iff {tenantId : Uuid} :
    db.privacyBlocked tenantId = true ↔
      ∃ r ∈ db.privacyDeletionRequests, r.tenantId = tenantId ∧ r.status ≠ .completed := by
  simp [privacyBlocked]

section Quiet

variable {g : Registry} {plan : ReparsePlan} {stage : ApplyStage} {contracts : Contracts}

theorem Quiet.refl (db : Database) (plan : ReparsePlan) (stage : ApplyStage) :
    Quiet db db plan stage := ⟨id, fun _ _ => rfl⟩

theorem Quiet.of_records {w : Option Uuid} (h : Owned g db) (hdeletions : db'.deletions =
      db.deletions) (hrecords : Records w db db')
    (hne : stage.compared = true → w ≠ some plan.exportId) : Quiet db db' plan stage where
  blocked hblocked := privacyBlocked_congr hdeletions _ ▸ hblocked
  projection hcompared _ := Records.currentProjection h (hne hcompared) hrecords

theorem Quiet.of_plan {tenantId requestId : Uuid} {scope : PrivacyDeletionScope}
    (hne : tenantId ≠ plan.tenantId) :
    Quiet db (db.commit contracts (.plan tenantId requestId scope)) plan stage := by
  rcases plan_cases contracts tenantId requestId scope with heq | ⟨exports, -, -, heq⟩
  · rw [heq]
    exact .refl ..
  · rw [heq]
    refine ⟨fun hblocked => ?_, fun _ _ => rfl⟩
    obtain ⟨r, hr, htenant, hstatus⟩ := privacyBlocked_iff.mp hblocked
    rcases mem_inserted.mp hr with hr | rfl
    · exact privacyBlocked_iff.mpr ⟨r, hr, htenant, hstatus⟩
    · exact absurd htenant hne

theorem Quiet.of_rowPhase (h : Governed g db) {now : Instant} {evidenceRef : BlobRef}
    {request : PrivacyDeletionRequestRow} (hphase : db.RowPhase now evidenceRef request db')
    (hknown : KnownPlan g db plan) (hblocked : db.privacyBlocked plan.tenantId = false) :
    Quiet db db' plan stage := by
  have hmem := mem_of_find?_eq_some hphase.planned.1
  have hne : plan.tenantId ≠ request.tenantId := by
    intro heq
    have hunfinished : db.privacyBlocked plan.tenantId = true :=
      privacyBlocked_iff.mpr ⟨request, hmem, heq.symm, by rw [hphase.planned.2]; exact nofun⟩
    rw [hblocked] at hunfinished
    cases hunfinished
  refine ⟨fun hunfinished => ?_, fun _ ⟨row, hrow, hid⟩ => ?_⟩
  · obtain ⟨r, hr, htenant, hstatus⟩ := privacyBlocked_iff.mp hunfinished
    rw [hphase.requests] at hr
    rcases mem_updateWhere.mp hr with ⟨hr, -⟩ | ⟨old, hold, hid, rfl⟩
    · exact privacyBlocked_iff.mpr ⟨r, hr, htenant, hstatus⟩
    · have hsame : old = request :=
        inj_on_of_nodup_map h.requestIds hold hmem (of_decide_eq_true hid)
      exact absurd (hsame ▸ htenant).symm hne
  · obtain ⟨g', -, hgoverned⟩ := h.commits (.removeRows hphase)
    have hrow' := ((h.owned.rowPhase_evolves hphase).exports row hrow).resolve_right
      fun hle => absurd hknown.owned.1 (Nat.not_lt.mpr (hid ▸ hle))
    have haccount : row.accountId = plan.tenantId := by
      rw [← hknown.owned.2, ← hid]
      exact (h.owned.exports row hrow' _ mem_cons_self).2.symm
    have hrows := h.rowPhase_apart hphase hne
    rw [← hid, ← currentProjection_tenantRows hgoverned.owned hrow,
      ← currentProjection_tenantRows h.owned hrow', haccount, hrows]

theorem Quiet.of_complete (requestId : Uuid) : Quiet db (db.complete requestId) plan stage := by
  unfold complete
  split
  · exact .refl ..
  · split
    · exact .refl ..
    · refine ⟨fun hblocked => ?_, fun _ _ => rfl⟩
      obtain ⟨r, hr, htenant, hstatus⟩ := privacyBlocked_iff.mp hblocked
      rcases mem_updateWhere.mp hr with ⟨hr, -⟩ | ⟨old, hold, hid, rfl⟩
      · exact privacyBlocked_iff.mpr ⟨r, hr, htenant, hstatus⟩
      · exact absurd rfl hstatus

theorem Quiet.of_transaction (h : Governed g db) (hknown : KnownPlan g db plan)
    (hblocked : db.privacyBlocked plan.tenantId = false) {transaction : ServiceTransaction}
    (hquiet : transaction.disturbs db plan stage = false) :
    Quiet db (db.commit contracts transaction) plan stage := by
  cases transaction with
  | work config event =>
    simp only [commit]
    split
    · exact .refl ..
    · rename_i hevent
      have hevent : event.isDeletion = false := by simpa using hevent
      refine .of_records h.owned (step_registers config hevent).deletions
        (step_records _ _ config hevent) fun hcompared hwritten => ?_
      simp [ServiceTransaction.disturbs, hcompared, hwritten] at hquiet
  | plan tenantId requestId scope => exact .of_plan (of_decide_eq_false hquiet)
  | removeRows now evidenceRef requestId =>
    simp only [commit]
    rcases committed_cases db (db.removeRows contracts now evidenceRef requestId) with heq | hok
    · rw [heq]
      exact .refl ..
    · rcases removeRows_cases hok with heq | ⟨request, -, hphase⟩
      · rw [heq]
        exact .refl ..
      · exact .of_rowPhase h hphase hknown hblocked
  | complete requestId =>
    simp only [commit]
    split
    · exact .of_complete requestId
    · exact .refl ..

theorem commitReparse_commits (hknown : KnownPlan g db plan) {config : ImportConfig} {now : Instant}
    (hok : db.commitReparse contracts config.owners config.maxEventBytes now plan = .ok db') :
    db.Commits db' := by
  refine .work (commitReparse_delivers ?_ hok) (commitReparse_registers hok).deletions
    (Records.commitReparse hok)
  exact fun ⟨row, hrow, hid, haccount⟩ => ⟨row, hrow, hid, haccount, hknown.archive row hrow hid⟩

theorem commitReparse_export {owners : OwnerResolver} {maxEventBytes : Nat} {now : Instant}
    (hprior : db.hasPriorReport plan = false)
    (hok : (db.commitReparse contracts owners maxEventBytes now plan).isOk = true) :
    ∃ row ∈ db.exports, row.id = plan.exportId := by
  unfold commitReparse writeReparse at hok
  rw [if_neg (Bool.eq_false_iff.mp hprior)] at hok
  split at hok
  · cases hok
  · rename_i row hfind
    have hrow := find?_some hfind
    simp only [Bool.and_eq_true, decide_eq_true_eq] at hrow
    exact ⟨row, mem_of_find?_eq_some hfind, hrow.1⟩

theorem KnownPlan.commits (hknown : KnownPlan g db plan) (h : Governed g db)
    (hcommits : db.Commits db') {g' : Registry}
    (hextends : Extends g db.nextUuid g' db'.nextUuid) : KnownPlan g' db' plan where
  owned := hextends.holds hknown.owned
  archive row hrow hid := by
    refine hknown.archive row ?_ hid
    exact ((h.owned.commits_evolves hcommits).exports row hrow).resolve_right
      fun hle => absurd hknown.owned.1 (Nat.not_lt.mpr (hid ▸ hle))

end Quiet

end Database

/-! ## The applies -/

namespace ReparseApplies

open Database

variable {contracts : Contracts} {g : Registry} {s : ReparseApplies} {db : Database}
  {plan : ReparsePlan} {stage : ApplyStage}

/-- What an apply has found out holds still, as long as its export is kept. -/
structure Standing (g : Registry) (db : Database) (plan : ReparsePlan) (stage : ApplyStage) : Prop
    extends KnownPlan g db plan where
  unblocked : db.privacyBlocked plan.tenantId = false
  current : stage.compared = true → (∃ row ∈ db.exports, row.id = plan.exportId) →
    db.currentProjection plan.exportId = plan.inputProjection

theorem Standing.quiet {db' : Database} (hstanding : Standing g db plan stage) (h : Governed g db)
    (hcommits : db.Commits db') (hquiet : Database.Quiet db db' plan stage) {g' : Registry}
    (hextends : Extends g db.nextUuid g' db'.nextUuid) : Standing g' db' plan stage where
  toKnownPlan := hstanding.toKnownPlan.commits h hcommits hextends
  unblocked := by
    refine Bool.eq_false_iff.mpr fun hblocked => ?_
    exact Bool.eq_false_iff.mp hstanding.unblocked (hquiet.blocked hblocked)
  current hcompared hexport := by
    rw [hquiet.projection hcompared hexport]
    obtain ⟨row, hrow, hid⟩ := hexport
    have hrow := ((h.owned.commits_evolves hcommits).exports row hrow).resolve_right
      fun hle => absurd hstanding.owned.1 (Nat.not_lt.mpr (hid ▸ hle))
    exact hstanding.current hcompared ⟨row, hrow, hid⟩

theorem Standing.check {next : ApplyStage} (hstanding : Standing g db plan stage)
    (hcheck : stage.check db plan = some next) : Standing g db plan next := by
  refine ⟨hstanding.toKnownPlan, hstanding.unblocked, fun hcompared hexport => ?_⟩
  cases stage with
  | unblocked =>
    simp only [ApplyStage.check] at hcheck
    split at hcheck <;> cases hcheck
    cases hcompared
  | unreported =>
    simp only [ApplyStage.check] at hcheck
    split at hcheck <;> cases hcheck
    assumption
  | current => exact hstanding.current rfl hexport
  | verified => exact hstanding.current rfl hexport

structure Upheld (g : Registry) (s : ReparseApplies) : Prop where
  governed : Governed g s.db
  plans : ∀ plan ∈ s.plans, KnownPlan g s.db plan
  applies : ∀ id plan stage, (id, plan, stage) ∈ s.applies → Standing g s.db plan stage

namespace Upheld

theorem commits (h : Upheld g s) {db' : Database} (hcommits : s.db.Commits db')
    {applies : List (Nat × ReparsePlan × ApplyStage)} (hsubset : applies ⊆ s.applies)
    (hquiet : ∀ id plan stage, (id, plan, stage) ∈ applies → Database.Quiet s.db db' plan stage) :
    ∃ g', Upheld g' { s with db := db', applies } := by
  obtain ⟨g', hextends, hgoverned⟩ := h.governed.commits hcommits
  refine ⟨g', hgoverned, fun plan hplan => ?_, fun id plan stage hmem => ?_⟩
  · exact (h.plans plan hplan).commits h.governed hcommits hextends
  · exact (h.applies id plan stage (hsubset hmem)).quiet h.governed hcommits
      (hquiet id plan stage hmem) hextends

theorem without (h : Upheld g s) (id : Nat) : Upheld g { s with applies := s.without id } :=
  ⟨h.governed, h.plans, fun other plan stage hmem =>
    h.applies other plan stage (mem_filter.mp hmem).1⟩

theorem enter (h : Upheld g s) {id : Nat} {plan : ReparsePlan} {stage : ApplyStage}
    (hstanding : Standing g s.db plan stage) :
    Upheld g { s with applies := (id, plan, stage) :: s.without id } := by
  refine ⟨h.governed, h.plans, fun other plan' stage' hmem => ?_⟩
  rcases mem_cons.mp hmem with heq | hmem
  · cases heq
    exact hstanding
  · exact h.applies other plan' stage' (mem_filter.mp hmem).1

theorem lookup (h : Upheld g s) {id : Nat} {plan : ReparsePlan} {stage : ApplyStage}
    (hlookup : s.applies.lookup id = some (plan, stage)) : Standing g s.db plan stage := by
  obtain ⟨before, after, heq, -⟩ := List.lookup_eq_some_iff.mp hlookup
  refine h.applies id plan stage ?_
  rw [heq]
  exact mem_append_right _ mem_cons_self

/-- An action that does not disturb the plans keeps what each of them has checked. -/
theorem step (h : Upheld g s) {action : ApplyAction} (hundisturbed : s.undisturbed action = true) :
    ∃ g', Upheld g' (s.step contracts action) := by
  cases action with
  | transact transaction =>
    simp only [ReparseApplies.step]
    split
    · exact ⟨g, h⟩
    · refine h.commits (commit_commits _ _ transaction) (List.Subset.refl _)
        fun id plan stage hmem => ?_
      have hstanding := h.applies id plan stage hmem
      have hquiet := all_eq_true.mp hundisturbed _ hmem
      exact .of_transaction h.governed hstanding.toKnownPlan hstanding.unblocked
        (by simpa using hquiet)
  | plan tenantId archiveId inputProjection registryFingerprint parsed artifacts =>
    simp only [ReparseApplies.step]
    split
    · rename_i plan hplan
      obtain ⟨row, hrow, rfl, rfl, rfl⟩ := reparsePlan_cases hplan
      refine ⟨g, h.governed, fun other hother => ?_, h.applies⟩
      rcases mem_cons.mp hother with rfl | hother
      · refine ⟨h.governed.owned.exports row hrow _ mem_cons_self, fun other hother hid => ?_⟩
        exact congrArg ExportRow.aiArchiveId
          (inj_on_of_nodup_map h.governed.owned.exportIds hother hrow hid)
      · exact h.plans other hother
    · exact ⟨g, h⟩
  | start id plan =>
    simp only [ReparseApplies.step]
    split
    · rename_i hstart
      simp only [Bool.and_eq_true, contains_iff_mem, Bool.not_eq_true'] at hstart
      exact ⟨g, h.enter ⟨h.plans plan hstart.1, hstart.2, fun hcompared => nomatch hcompared⟩⟩
    · exact ⟨g, h⟩
  | check id =>
    simp only [ReparseApplies.step]
    split
    · exact ⟨g, h⟩
    · rename_i plan stage hlookup
      split
      · rename_i next hcheck
        exact ⟨g, h.enter ((h.lookup hlookup).check hcheck)⟩
      · exact ⟨g, h.without id⟩
  | commit id config now =>
    simp only [ReparseApplies.step]
    split
    · rename_i plan hlookup
      have hstanding := h.lookup hlookup
      rcases committed_cases s.db (s.db.commitReparse contracts config.owners config.maxEventBytes
        now plan) with heq | hok
      · rw [heq]
        exact ⟨g, h.without id⟩
      · have hcommits := commitReparse_commits hstanding.toKnownPlan hok
        refine h.commits hcommits (filter_subset_self _) fun other plan' stage hmem => ?_
        obtain ⟨hmem, hother⟩ := mem_filter.mp hmem
        refine .of_records h.governed.owned (commitReparse_registers hok).deletions
          (Records.commitReparse hok) fun hcompared heq => ?_
        simp only [undisturbed, hlookup, Option.all_some] at hundisturbed
        have hentry := all_eq_true.mp hundisturbed _ hmem
        simp only [ne_eq, decide_not, Bool.not_eq_true', decide_eq_false_iff_not] at hother
        simp [hother, hcompared, Option.some.inj heq] at hentry
    · exact ⟨g, h⟩

theorem run {actions : List ApplyAction} (hmeets : Run.Meets (ReparseApplies.step contracts)
      (fun s action => s.undisturbed action = true) .initial actions) :
    ∃ g, Upheld g (ReparseApplies.run contracts actions) := by
  refine Run.run_invariant (P := fun s => ∃ g, Upheld g s) (fun s action ⟨g, h⟩ hundisturbed =>
    h.step hundisturbed) ?_ hmeets
  exact ⟨_, .empty ⟨fun _ => 0, fun _ => .asset⟩, fun _ h => absurd h not_mem_nil,
    fun _ _ _ h => absurd h not_mem_nil⟩

end Upheld

end ReparseApplies

/-- When nothing disturbs an apply between its checks and its commit, it commits over the projection
its plan was computed from, and no deletion of the tenant is unfinished. -/
theorem stale_plan_never_commits (contracts : Contracts) (actions : List ApplyAction)
    (hmeets : Run.Meets (ReparseApplies.step contracts)
      (fun s action => s.undisturbed action = true) .initial actions)
    (id : Nat) (config : ImportConfig) (now : Instant) (plan : ReparsePlan)
    (hcommits : (ReparseApplies.run contracts actions).commits contracts id config now plan) :
    let db := (ReparseApplies.run contracts actions).db
    db.currentProjection plan.exportId = plan.inputProjection ∧
      db.privacyBlocked plan.tenantId = false := by
  obtain ⟨g, h⟩ := ReparseApplies.Upheld.run hmeets
  obtain ⟨hlookup, hprior, hok⟩ := hcommits
  have hstanding := h.lookup hlookup
  exact ⟨hstanding.current rfl (Database.commitReparse_export hprior hok), hstanding.unblocked⟩

def laterParse (version : String) : ParsedConversations :=
  { ParsedConversations.ofRecords [] [.ofMessages "c" [.ofText "p" none version]] with
    parser := ⟨"export", version⟩ }

def importedOnce : List ApplyAction :=
  (Event.receipt 0 0 "account" "digest" ++ [Event.importRun 0 0 (laterParse "1") []]).map
    (.transact ∘ .work default)

def laterPlan (version : String) : ReparsePlan :=
  { tenantId := 1, exportId := 2, archiveId := 3, targetParser := ⟨"export", version⟩
    rawDigest := "digest", registryFingerprint := [⟨"export", version⟩], artifacts := []
    parsed := laterParse version
    inputProjection := (ReparseApplies.run .permissive importedOnce).db.currentProjection 2 }

def appliedUpToCommit (id : Nat) (version : String) : List ApplyAction :=
  let plan := laterPlan version
  [.plan 1 3 plan.inputProjection plan.registryFingerprint plan.parsed [], .start id plan,
    .check id, .check id, .check id]

/-- Two applies pass their checks; the first one commits and a deletion of the tenant is planned. The
second one commits as well. -/
theorem staleApply_commits :
    let s := ReparseApplies.run .permissive (importedOnce ++ appliedUpToCommit 1 "2" ++
      appliedUpToCommit 2 "3" ++ [.commit 1 default 1, .transact (.plan 1 999 .tenant)])
    s.commits .permissive 2 default 2 (laterPlan "3") ∧
      s.db.currentProjection (laterPlan "3").exportId ≠ (laterPlan "3").inputProjection ∧
      s.db.privacyBlocked (laterPlan "3").tenantId = true := by
  decide +kernel

/-- An apply on its own commits over the projection of its plan. -/
theorem loneApply_commits_current :
    let db := (ReparseApplies.run .permissive (importedOnce ++ appliedUpToCommit 1 "2")).db
    db.currentProjection (laterPlan "2").exportId = (laterPlan "2").inputProjection ∧
      db.privacyBlocked (laterPlan "2").tenantId = false := by
  have hmeets : Run.Meets (ReparseApplies.step .permissive)
      (fun s action => s.undisturbed action = true) .initial
      (importedOnce ++ appliedUpToCommit 1 "2") := by decide +kernel
  have hcommits : (ReparseApplies.run .permissive (importedOnce ++ appliedUpToCommit 1 "2")).commits
      .permissive 1 default 1 (laterPlan "2") := by decide +kernel
  exact stale_plan_never_commits .permissive _ hmeets 1 default 1 _ hcommits

end ChatgptArchive
