import ChatgptArchive.Content.Presentation

/-!
# The rows of presented records

An account has one row per provider id of a project and of a conversation. Persisting a plan finds
or makes the rows of what it presents and leaves the other rows alone; this module says what it
leaves in each of them.
-/

namespace ChatgptArchive

open List Table

namespace Database

def conversationAt (db : Database) (tenantId : Uuid) (externalId : String) :
    Option ConversationRow :=
  db.conversations.find? fun c => c.accountId = tenantId && c.externalId = externalId

def projectAt (db : Database) (tenantId : Uuid) (externalId : String) : Option ProjectRow :=
  db.projects.find? fun p => p.accountId = tenantId && p.externalId = externalId

variable {db : Database} {tenantId : Uuid} {x : String} {p : ProjectRow}

theorem conversationAt_spec {c : ConversationRow} (h : db.conversationAt tenantId x = some c) :
    c ∈ db.conversations ∧ c.accountId = tenantId ∧ c.externalId = x := by
  have hrow := find?_some h
  simp only [Bool.and_eq_true, decide_eq_true_eq] at hrow
  exact ⟨mem_of_find?_eq_some h, hrow⟩

theorem projectAt_spec (h : db.projectAt tenantId x = some p) :
    p ∈ db.projects ∧ p.accountId = tenantId ∧ p.externalId = x := by
  have hrow := find?_some h
  simp only [Bool.and_eq_true, decide_eq_true_eq] at hrow
  exact ⟨mem_of_find?_eq_some h, hrow⟩

theorem conversationAt_eq_some (h : Sound db) {c : ConversationRow} :
    db.conversationAt tenantId x = some c ↔
      c ∈ db.conversations ∧ c.accountId = tenantId ∧ c.externalId = x := by
  refine ⟨conversationAt_spec, ?_⟩
  rintro ⟨hc, haccount, hx⟩
  refine find?_of_key h.conversationKeys hc (by simp [haccount, hx]) fun r hr => ?_
  obtain ⟨hra, hrx⟩ : r.accountId = tenantId ∧ r.externalId = x := by simpa using hr
  exact Prod.ext (hra.trans haccount.symm) (hrx.trans hx.symm)

theorem projectAt_eq_some (h : Sound db) {p : ProjectRow} :
    db.projectAt tenantId x = some p ↔
      p ∈ db.projects ∧ p.accountId = tenantId ∧ p.externalId = x := by
  refine ⟨projectAt_spec, ?_⟩
  rintro ⟨hp, haccount, hx⟩
  refine find?_of_key h.projectKeys hp (by simp [haccount, hx]) fun r hr => ?_
  obtain ⟨hra, hrx⟩ : r.accountId = tenantId ∧ r.externalId = x := by simpa using hr
  exact Prod.ext (hra.trans haccount.symm) (hrx.trans hx.symm)

/-! ## Conversations -/

variable (plan : ReparsePlan)

def presentedRow (projects : IdMap) (conversation : ParsedConversation)
    (row : ConversationRow) : ConversationRow :=
  if row.contentDigest = some (conversationDigest conversation) then
    { row with
      firstSeenExport := row.firstSeenExport.or (some plan.exportId)
      lastSeenExport := some plan.exportId }
  else
    writeHeader plan.exportId
      (projectOfConversation plan.parsed projects conversation.externalId) conversation
      plan.targetParser { row with contentDigest := some (conversationDigest conversation) }

theorem upsertConversation_fst (tenantId : Uuid) (externalId : String) :
    (db.upsertConversation tenantId externalId).1 =
      (db.conversationAt tenantId externalId).getD
        (newConversation db.nextUuid tenantId externalId) := by
  simp only [upsertConversation, upsert, conversationAt, freshUuid]
  cases db.conversations.find? _ <;> rfl

theorem upsertConversation_id_ne (h : Sound db) {tenantId t : Uuid} {externalId x : String}
    {c : ConversationRow} (hc : db.conversationAt t x = some c)
    (hne : ¬(t = tenantId ∧ x = externalId)) :
    c.id ≠ (db.upsertConversation tenantId externalId).1.id := by
  obtain ⟨hmem, hct, hcx⟩ := conversationAt_spec hc
  rw [upsertConversation_fst]
  cases hstored : db.conversationAt tenantId externalId with
  | none => exact Nat.ne_of_lt (h.conversationFresh c hmem)
  | some stored =>
    intro hid
    obtain ⟨hmem', hst, hsx⟩ := conversationAt_spec hstored
    have heq := inj_on_of_nodup_map h.conversationIds hmem hmem' hid
    exact hne ⟨by rw [← hct, heq, hst], by rw [← hcx, heq, hsx]⟩

theorem upsertConversation_conversationAt (tenantId t : Uuid) (externalId x : String) :
    (db.upsertConversation tenantId externalId).2.conversationAt t x =
      if t = tenantId ∧ x = externalId then some (db.upsertConversation tenantId externalId).1
      else db.conversationAt t x := by
  split
  · rename_i heq
    obtain ⟨rfl, rfl⟩ := heq
    refine find?_upsert_self ?_ ?_
    · exact fun _ => rfl
    · simp [newConversation]
  · rename_i hne
    refine find?_upsert_of_disjoint ?_ ?_ ?_
    · exact fun _ => rfl
    · intro c hc
      simp only [Bool.and_eq_true, decide_eq_true_eq] at hc
      rw [hc.1, hc.2]
      simpa using hne
    · have hapart : ¬(tenantId = t ∧ externalId = x) :=
        fun heq => hne ⟨heq.1.symm, heq.2.symm⟩
      simp only [newConversation, Bool.and_eq_false_iff]
      exact (not_and_or.mp hapart).imp decide_eq_false decide_eq_false

def digestAt (db : Database) (tenantId : Uuid) (x : String) : Option ContentDigest :=
  (db.conversationAt tenantId x).bind (·.contentDigest)

def linkAt (db : Database) (tenantId : Uuid) (x : String) : Option Uuid :=
  (db.conversationAt tenantId x).bind (·.projectId)

theorem upsertConversation_digest (tenantId : Uuid) (x : String) :
    (db.upsertConversation tenantId x).1.contentDigest = db.digestAt tenantId x := by
  rw [upsertConversation_fst, digestAt]
  cases db.conversationAt tenantId x <;> rfl

theorem upsertConversation_link (tenantId : Uuid) (x : String) :
    (db.upsertConversation tenantId x).1.projectId = db.linkAt tenantId x := by
  rw [upsertConversation_fst, linkAt]
  cases db.conversationAt tenantId x <;> rfl

theorem presentedRow_id (projects : IdMap) (conversation : ParsedConversation)
    (row : ConversationRow) : (presentedRow plan projects conversation row).id = row.id ∧
      (presentedRow plan projects conversation row).key = row.key := by
  unfold presentedRow
  split <;> exact ⟨rfl, rfl⟩

theorem presentedRow_digest (projects : IdMap)
    (conversation : ParsedConversation) (row : ConversationRow) :
    (presentedRow plan projects conversation row).contentDigest =
      some (conversationDigest conversation) := by
  unfold presentedRow
  split
  · assumption
  · rfl

theorem presentedRow_link (projects : IdMap)
    (conversation : ParsedConversation) (row : ConversationRow) :
    (presentedRow plan projects conversation row).projectId =
      if row.contentDigest = some (conversationDigest conversation) then row.projectId
      else (projectOfConversation plan.parsed projects conversation.externalId).or
        row.projectId := by
  unfold presentedRow
  split <;> rfl

theorem unmessaged_conversations : Unmessaged (·.conversations) :=
  ⟨fun _ _ _ => rfl, fun _ _ _ => rfl, fun _ _ _ => rfl⟩

theorem conversationAt_congr {db' : Database} (h : db'.conversations = db.conversations)
    (tenantId : Uuid) (x : String) :
    db'.conversationAt tenantId x = db.conversationAt tenantId x := by
  rw [conversationAt, conversationAt, h]

theorem updateConversation_conversationAt (id : Uuid) {f : ConversationRow → ConversationRow}
    (hf : ∀ c, (f c).key = c.key) (t : Uuid) (x : String) :
    { db with conversations := updateWhere (fun c => c.id = id) f db.conversations
      }.conversationAt t x =
      (db.conversationAt t x).map fun c => if c.id = id then f c else c := by
  refine (find?_updateWhere (fun c => ?_) _).trans ?_
  · rw [show (f c).accountId = c.accountId from congrArg Prod.fst (hf c),
      show (f c).externalId = c.externalId from congrArg Prod.snd (hf c)]
  · simp only [decide_eq_true_eq]
    rfl

theorem persistConversation_conversationAt (h : Sound db) {plan : ReparsePlan}
    (hexport : db.HasExport plan.exportId plan.tenantId) (projects : IdMap)
    (conversation : ParsedConversation) (t : Uuid) (x : String) :
    (db.persistConversation plan projects conversation).conversationAt t x =
      if t = plan.tenantId ∧ x = conversation.externalId then
        some (presentedRow plan projects conversation
          (db.upsertConversation plan.tenantId conversation.externalId).1)
      else db.conversationAt t x := by
  have hupsert := h.upsertConversation conversation.externalId (h.hasExport_account hexport)
  have hat := db.upsertConversation_conversationAt plan.tenantId t conversation.externalId x
  have hmem : (db.upsertConversation plan.tenantId conversation.externalId).1 ∈
      (db.upsertConversation plan.tenantId conversation.externalId).2.conversations :=
    upsert_fst_mem
  -- both ways of persisting update the row found or created
  suffices hupdate : (db.persistConversation plan projects conversation).conversationAt t x =
      ((db.upsertConversation plan.tenantId conversation.externalId).2.conversationAt t x).map
        fun c => if c.id = (db.upsertConversation plan.tenantId conversation.externalId).1.id then
          presentedRow plan projects conversation
            (db.upsertConversation plan.tenantId conversation.externalId).1 else c by
    rw [hupdate, hat]
    split
    · rw [Option.map_some, if_pos rfl]
    · rename_i hne
      cases hfind : db.conversationAt t x with
      | none => rfl
      | some c => rw [Option.map_some, if_neg (upsertConversation_id_ne h hfind hne)]
  have hsame : ∀ c, (db.upsertConversation plan.tenantId conversation.externalId).2.conversationAt
      t x = some c → c.id = (db.upsertConversation plan.tenantId conversation.externalId).1.id →
      c = (db.upsertConversation plan.tenantId conversation.externalId).1 :=
    fun c hc hid => inj_on_of_nodup_map hupsert.conversationIds (conversationAt_spec hc).1
      hmem hid
  rcases db.persistConversation_cases plan projects conversation with
    ⟨hdigest, heq⟩ | ⟨hdigest, heq⟩
  · rw [heq, observePresented,
      conversationAt_congr (observeMessages_unmessaged unmessaged_conversations ..)]
    refine (updateConversation_conversationAt _ ?_ t x).trans ?_
    · exact fun _ => rfl
    · refine Option.map_congr fun c hc => ?_
      split
      · rename_i hid
        rw [hsame c hc hid, presentedRow, if_pos hdigest]
      · rfl
  · rw [heq, conversationAt_congr
      (persistConversationDetail_unmessaged unmessaged_conversations ..)]
    refine (updateConversation_conversationAt _ ?_ t x).trans ?_
    · exact fun _ => rfl
    · have hkept : (db.conversationKept plan conversation).conversationAt t x =
          ((db.upsertConversation plan.tenantId conversation.externalId).2.conversationAt t x).map
            fun c => if c.id = (db.upsertConversation plan.tenantId conversation.externalId).1.id
              then { c with contentDigest := some (conversationDigest conversation) } else c := by
        refine (updateConversation_conversationAt _ ?_ t x).trans ?_
        · exact fun _ => rfl
        · refine congrArg (Option.map _) ?_
          exact conversationAt_congr (appendRevision_conversations ..) t x
      rw [hkept, Option.map_map]
      refine Option.map_congr fun c hc => ?_
      rw [Function.comp_apply]
      split
      · rename_i hid
        rw [hsame c hc hid, presentedRow, if_neg hdigest]
      · rfl

/-! ## Projects -/

theorem upsertProject_projectAt (tenantId exportId : Uuid) (externalId : String)
    (version : ProjectVersion) (t : Uuid) (x : String) :
    (db.upsertProject tenantId exportId externalId version).2.projectAt t x =
      if t = tenantId ∧ x = externalId then
        some (db.upsertProject tenantId exportId externalId version).1
      else db.projectAt t x := by
  split
  · rename_i heq
    obtain ⟨rfl, rfl⟩ := heq
    refine find?_upsert_self ?_ ?_
    · exact fun _ => rfl
    · simp [newProject]
  · rename_i hne
    refine find?_upsert_of_disjoint ?_ ?_ ?_
    · exact fun _ => rfl
    · intro p hp
      simp only [Bool.and_eq_true, decide_eq_true_eq] at hp
      rw [hp.1, hp.2]
      simpa using hne
    · have hapart : ¬(tenantId = t ∧ externalId = x) :=
        fun heq => hne ⟨heq.1.symm, heq.2.symm⟩
      simp only [newProject, Bool.and_eq_false_iff]
      exact (not_and_or.mp hapart).imp decide_eq_false decide_eq_false

theorem upsertProject_of_found {externalId : String} (h : db.projectAt tenantId externalId = some p)
    (exportId : Uuid) (version : ProjectVersion) :
    (db.upsertProject tenantId exportId externalId version).1 = mergeProject exportId version p := by
  rw [projectAt] at h
  simp only [upsertProject, upsert, freshUuid, h]

theorem persistProject_projectAt (tenantId exportId : Uuid) (parser : ParserId)
    (project : ParsedProject) (t : Uuid) (x : String) :
    (db.persistProject tenantId exportId parser project).2.projectAt t x =
      if t = tenantId ∧ x = project.externalId then
        some (db.upsertProject tenantId exportId project.externalId
          (presentedProject parser project)).1
      else db.projectAt t x :=
  upsertProject_projectAt ..

/-- The map that persisting projects returns holds the rows of the projects it was given, and rows
that were there keep their ids. -/
theorem persistProjects_projectAt (tenantId exportId : Uuid) (parser : ParserId)
    (projects : List ParsedProject) : ∀ (db : Database) (ids : IdMap),
    let after := persistProjects tenantId exportId parser db ids projects
    (∀ x ∈ projects.map (·.externalId), ∃ p, after.1.projectAt tenantId x = some p ∧
      after.2.get? x = some p.id) ∧
    (∀ x, x ∉ projects.map (·.externalId) → after.2.get? x = ids.get? x) ∧
    ∀ t x p, db.projectAt t x = some p → ∃ p', after.1.projectAt t x = some p' ∧ p'.id = p.id := by
  induction projects with
  | nil =>
    intro db ids after
    exact ⟨fun _ hx => absurd hx not_mem_nil, fun _ _ => rfl, fun _ _ p hp => ⟨p, hp, rfl⟩⟩
  | cons project projects ih =>
    intro db ids after
    have hat := db.persistProject_projectAt tenantId exportId parser project
    obtain ⟨hlisted, hothers, hkept⟩ := ih (db.persistProject tenantId exportId parser project).2
      ((project.externalId, (db.persistProject tenantId exportId parser project).1) :: ids)
    refine ⟨fun x hx => ?_, fun x hx => ?_, fun t x p hp => ?_⟩
    · by_cases hlater : x ∈ projects.map (·.externalId)
      · exact hlisted x hlater
      · have hx : x = project.externalId := (mem_cons.mp hx).resolve_right hlater
        obtain ⟨p, hp, hid⟩ := hkept tenantId x _ ((hat tenantId x).trans (if_pos ⟨rfl, hx⟩))
        refine ⟨p, hp, (hothers x hlater).trans ?_⟩
        rw [IdMap.get?_cons, if_pos hx, hid]
        rfl
    · obtain ⟨hne, hlater⟩ := not_or.mp (mt mem_cons.mpr hx)
      refine (hothers x hlater).trans ?_
      rw [IdMap.get?_cons, if_neg hne]
    · by_cases heq : t = tenantId ∧ x = project.externalId
      · obtain ⟨p', hp', hid⟩ := hkept t x _ ((hat t x).trans (if_pos heq))
        obtain ⟨rfl, rfl⟩ := heq
        exact ⟨p', hp', by rw [hid, upsertProject_of_found hp]; rfl⟩
      · exact hkept t x p (((hat t x).trans (if_neg heq)).trans hp)

theorem persistProjects_conversations (tenantId exportId : Uuid) (parser : ParserId)
    (projects : List ParsedProject) : ∀ (db : Database) (ids : IdMap),
    (persistProjects tenantId exportId parser db ids projects).1.conversations =
      db.conversations := by
  induction projects with
  | nil => exact fun _ _ => rfl
  | cons project projects ih => exact fun _ _ => ih _ _

theorem undetailed_projects : Undetailed (·.projects) where
  messages _ _ _ := rfl
  parts _ _ _ := rfl
  observe _ _ _ := rfl
  header _ _ _ _ _ _ := rfl

theorem persistConversation_projects (projects : IdMap) (conversation : ParsedConversation) :
    (db.persistConversation plan projects conversation).projects = db.projects := by
  rcases db.persistConversation_cases plan projects conversation with ⟨-, heq⟩ | ⟨-, heq⟩
  · rw [heq, observePresented, observeMessages_unmessaged undetailed_projects.toUnmessaged]
    rfl
  · rw [heq, persistConversationDetail_undetailed undetailed_projects]
    exact appendRevision_projects ..

theorem persistConversations_projects (projects : IdMap)
    (conversations : List ParsedConversation) : ∀ db : Database,
    (persistConversations plan projects db conversations).projects = db.projects := by
  induction conversations with
  | nil => exact fun _ => rfl
  | cons conversation conversations ih =>
    exact fun db => (ih _).trans (persistConversation_projects ..)

end Database

end ChatgptArchive
