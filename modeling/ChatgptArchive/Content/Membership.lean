import ChatgptArchive.Content.Headers
import ChatgptArchive.Integrity.PhaseA

/-!
# Project membership

A plan places each conversation in the first project that lists it. The link is written with the
rest of the header, so an unchanged conversation keeps the link of an earlier export.
-/

namespace ChatgptArchive

open List Option

namespace Database

def Links (db : Database) (tenantId : Uuid) (link : Option Uuid) : Option String → Prop
  | none => link = none
  | some x => ∃ p, db.projectAt tenantId x = some p ∧ link = some p.id

/-- Every conversation of the plan is in the project that the plan's project list gives it. -/
def FollowsMembership (plan : ReparsePlan) (db : Database) : Prop :=
  ∀ c ∈ plan.parsed.conversations, ∃ row,
    db.conversationAt plan.tenantId c.externalId = some row ∧
      db.Links plan.tenantId row.projectId (projectExternalIdOf plan.parsed c.externalId)

/-- Every stored conversation of the plan is already in its project, or the plan lists it in a
project and presents changed content. -/
def MembershipWritten (plan : ReparsePlan) (db : Database) : Prop :=
  ∀ c ∈ plan.parsed.conversations, ∀ row,
    db.conversationAt plan.tenantId c.externalId = some row →
      db.Links plan.tenantId row.projectId (projectExternalIdOf plan.parsed c.externalId) ∨
      ((projectExternalIdOf plan.parsed c.externalId).isSome = true ∧
        ∃ d ∈ plan.parsed.conversations, d.externalId = c.externalId ∧
          row.contentDigest ≠ some (conversationDigest d))

variable {db : Database} {x : String}

def Keeps (conversations : List ParsedConversation) (x : String) (digest : Option ContentDigest) :
    Prop :=
  ∀ c ∈ conversations, c.externalId = x → digest = some (conversationDigest c)

/-- The row of a presented conversation and its link: the one before while every presented content
is the stored one, and otherwise the plan's project or else the one before. -/
theorem persistConversations_linkAt {plan : ReparsePlan} {projects : IdMap}
    (conversations : List ParsedConversation) :
    ∀ {db : Database}, Sound db → db.HasExport plan.exportId plan.tenantId →
      Sound.ResolvesProjects projects db →
      let after := persistConversations plan projects db conversations
      ((db.conversationAt plan.tenantId x).isSome = true ∨
          (∃ c ∈ conversations, c.externalId = x) →
        (after.conversationAt plan.tenantId x).isSome = true) ∧
      (Keeps conversations x (db.digestAt plan.tenantId x) →
        after.linkAt plan.tenantId x = db.linkAt plan.tenantId x) ∧
      (¬Keeps conversations x (db.digestAt plan.tenantId x) →
        after.linkAt plan.tenantId x = (projectOfConversation plan.parsed projects x).or
          (db.linkAt plan.tenantId x)) := by
  induction conversations with
  | nil =>
    intro db _ _ _ after
    refine ⟨fun hrow => hrow.resolve_right ?_, fun _ => rfl, fun hnot => absurd ?_ hnot⟩
    · rintro ⟨c, hc, -⟩
      exact absurd hc not_mem_nil
    · exact fun c hc => absurd hc not_mem_nil
  | cons conversation conversations ih =>
    intro db h hexport hprojects after
    obtain ⟨hsound, hgrows⟩ := h.persistConversation conversation hexport hprojects
    obtain ⟨hrow, hkept, hmoved⟩ :=
      ih hsound (hgrows.hasExport.mpr hexport) (hprojects.grows hgrows)
    have hat := persistConversation_conversationAt h hexport projects conversation plan.tenantId x
    by_cases hx : x = conversation.externalId
    · subst hx
      rw [if_pos ⟨rfl, rfl⟩] at hat
      have hdigest : (db.persistConversation plan projects conversation).digestAt plan.tenantId
          conversation.externalId = some (conversationDigest conversation) := by
        rw [digestAt, hat, bind_some, presentedRow_digest]
      have hlink : (db.persistConversation plan projects conversation).linkAt plan.tenantId
          conversation.externalId =
          if db.digestAt plan.tenantId conversation.externalId =
            some (conversationDigest conversation)
          then db.linkAt plan.tenantId conversation.externalId
          else (projectOfConversation plan.parsed projects conversation.externalId).or
            (db.linkAt plan.tenantId conversation.externalId) := by
        rw [linkAt, hat, bind_some, presentedRow_link, upsertConversation_digest,
          upsertConversation_link]
      refine ⟨fun _ => hrow (.inl (by rw [hat]; rfl)), fun hkeeps => ?_, fun hnot => ?_⟩
      · have hfirst := hkeeps conversation mem_cons_self rfl
        rw [if_pos hfirst] at hlink
        refine (hkept ?_).trans hlink
        rw [hdigest, ← hfirst]
        exact fun c hc => hkeeps c (mem_cons_of_mem _ hc)
      · by_cases hfirst : db.digestAt plan.tenantId conversation.externalId =
            some (conversationDigest conversation)
        · rw [if_pos hfirst] at hlink
          rw [← hlink]
          refine hmoved fun hkeeps => hnot fun c hc hcx => ?_
          rcases mem_cons.mp hc with rfl | hc
          · exact hfirst
          · rw [hfirst, ← hdigest]
            exact hkeeps c hc hcx
        · -- the link has been written, and a second write changes nothing
          rw [if_neg hfirst] at hlink
          by_cases hkeeps : Keeps conversations conversation.externalId
              ((db.persistConversation plan projects conversation).digestAt plan.tenantId
                conversation.externalId)
          · exact (hkept hkeeps).trans hlink
          · refine (hmoved hkeeps).trans ?_
            rw [hlink]
            cases projectOfConversation plan.parsed projects conversation.externalId <;> rfl
    · rw [if_neg fun heq => hx heq.2] at hat
      have hdigest : (db.persistConversation plan projects conversation).digestAt plan.tenantId x =
          db.digestAt plan.tenantId x := by
        rw [digestAt, hat, digestAt]
      have hlink : (db.persistConversation plan projects conversation).linkAt plan.tenantId x =
          db.linkAt plan.tenantId x := by
        rw [linkAt, hat, linkAt]
      have hkeeps : Keeps (conversation :: conversations) x (db.digestAt plan.tenantId x) ↔
          Keeps conversations x
            ((db.persistConversation plan projects conversation).digestAt plan.tenantId x) := by
        rw [hdigest]
        refine ⟨fun hkeeps c hc => hkeeps c (mem_cons_of_mem _ hc), fun hkeeps c hc hcx => ?_⟩
        exact hkeeps c ((mem_cons.mp hc).resolve_left fun heq => hx (heq ▸ hcx.symm)) hcx
      rw [hkeeps, ← hlink]
      refine ⟨fun hstored => hrow ?_, hkept, hmoved⟩
      rw [hat]
      refine hstored.imp_right ?_
      rintro ⟨c, hc, hcx⟩
      exact ⟨c, (mem_cons.mp hc).resolve_left fun heq => hx (heq ▸ hcx.symm), hcx⟩

theorem not_keeps_iff {conversations : List ParsedConversation} {digest : Option ContentDigest} :
    ¬Keeps conversations x digest ↔
      ∃ c ∈ conversations, c.externalId = x ∧ digest ≠ some (conversationDigest c) := by
  simp only [Keeps, not_forall, exists_prop]

/-- A stored link that names the row a plan finds or makes for a project named it before. -/
theorem persistProjects_links (h : Sound db) {tenantId exportId : Uuid}
    (hexport : db.HasExport exportId tenantId) (parser : ParserId) (projects : List ParsedProject)
    {y : String} {p : ProjectRow}
    (hp : (persistProjects tenantId exportId parser db [] projects).1.projectAt tenantId y =
      some p) {c : ConversationRow} (hc : c ∈ db.conversations) :
    c.projectId = some p.id ↔ db.Links tenantId c.projectId (some y) := by
  obtain ⟨hafter, -, -⟩ := Sound.persistProjects tenantId exportId parser projects h hexport .nil
  have hkept := (persistProjects_projectAt tenantId exportId parser projects db []).2.2
  constructor
  · intro hlink
    obtain ⟨q, hq, hid⟩ := mem_map.mp (h.consistent.conversation_project hc hlink)
    obtain ⟨p', hp', hid'⟩ := hkept q.accountId q.externalId q
      ((projectAt_eq_some h).mpr ⟨hq, rfl, rfl⟩)
    obtain ⟨hmem, haccount, hy⟩ := projectAt_spec hp
    obtain ⟨hmem', haccount', hy'⟩ := projectAt_spec hp'
    have heq := inj_on_of_nodup_map hafter.projectIds hmem' hmem (hid'.trans hid)
    refine ⟨q, (projectAt_eq_some h).mpr ⟨hq, ?_, ?_⟩, by rw [hlink, hid]⟩
    · rw [← haccount', heq, haccount]
    · rw [← hy', heq, hy]
  · rintro ⟨q, hq, hlink⟩
    obtain ⟨p', hp', hid⟩ := hkept tenantId y q hq
    rw [hlink, ← hid, Option.some.inj (hp'.symm.trans hp)]

theorem persistProjection_link (h : Sound db) (plan : ReparsePlan)
    (hexport : db.HasExport plan.exportId plan.tenantId) {c : ParsedConversation}
    (hc : c ∈ plan.parsed.conversations) :
    ∃ row, (db.persistProjection plan).conversationAt plan.tenantId c.externalId = some row ∧
      (Keeps plan.parsed.conversations c.externalId (db.digestAt plan.tenantId c.externalId) →
        row.projectId = db.linkAt plan.tenantId c.externalId) ∧
      (¬Keeps plan.parsed.conversations c.externalId (db.digestAt plan.tenantId c.externalId) →
        row.projectId = (projectOfConversation plan.parsed (persistProjects plan.tenantId
          plan.exportId plan.targetParser db [] plan.parsed.projects).2 c.externalId).or
          (db.linkAt plan.tenantId c.externalId)) := by
  obtain ⟨hsound, hgrows, hids⟩ := Sound.persistProjects plan.tenantId plan.exportId
    plan.targetParser plan.parsed.projects h hexport .nil
  have hstored := conversationAt_congr (persistProjects_conversations plan.tenantId plan.exportId
    plan.targetParser plan.parsed.projects db []) plan.tenantId c.externalId
  obtain ⟨hrow, hkept, hmoved⟩ := persistConversations_linkAt (x := c.externalId)
    plan.parsed.conversations hsound (hgrows.hasExport.mpr hexport) hids
  obtain ⟨row, hrow⟩ := isSome_iff_exists.mp (hrow (.inr ⟨c, hc, rfl⟩))
  refine ⟨row, hrow, fun hkeeps => ?_, fun hnot => ?_⟩
  · rw [digestAt, hstored, linkAt, hrow, bind_some, linkAt, hstored] at hkept
    exact hkept hkeeps
  · rw [digestAt, hstored, linkAt, hrow, bind_some, linkAt, hstored] at hmoved
    exact hmoved hnot

theorem projectOfConversation_listed (plan : ReparsePlan) {x y : String}
    (hproject : projectExternalIdOf plan.parsed x = some y) :
    ∃ p, (persistProjects plan.tenantId plan.exportId plan.targetParser db []
        plan.parsed.projects).1.projectAt plan.tenantId y = some p ∧
      projectOfConversation plan.parsed (persistProjects plan.tenantId plan.exportId
        plan.targetParser db [] plan.parsed.projects).2 x = some p.id := by
  obtain ⟨project, hfind, hy⟩ := map_eq_some_iff.mp hproject
  obtain ⟨p, hp, hget⟩ := (persistProjects_projectAt plan.tenantId plan.exportId
    plan.targetParser plan.parsed.projects db []).1 y
    (mem_map.mpr ⟨project, mem_of_find?_eq_some hfind, hy⟩)
  exact ⟨p, hp, by rw [projectOfConversation, hproject, bind_some, hget]⟩

/-- Membership follows a plan exactly when what it has to move is rewritten. -/
theorem persistProjection_membership_iff (h : Sound db) (plan : ReparsePlan)
    (hexport : db.HasExport plan.exportId plan.tenantId) :
    FollowsMembership plan (db.persistProjection plan) ↔ MembershipWritten plan db := by
  refine forall₂_congr fun c hc => ?_
  obtain ⟨row, hrow, hkept, hmoved⟩ := persistProjection_link h plan hexport hc
  simp only [hrow, Option.some.injEq, exists_eq_left']
  cases hproject : projectExternalIdOf plan.parsed c.externalId with
  | none =>
    -- no project lists it, so nothing but a link that was empty ends up empty
    have hlink : row.projectId = db.linkAt plan.tenantId c.externalId := by
      by_cases hkeeps : Keeps plan.parsed.conversations c.externalId
          (db.digestAt plan.tenantId c.externalId)
      · exact hkept hkeeps
      · rw [hmoved hkeeps, projectOfConversation, hproject, Option.bind_none, Option.none_or]
    simp only [Links, hlink, linkAt, Option.isSome_none, Bool.false_eq_true, false_and, or_false]
    exact Option.bind_eq_none_iff
  | some y =>
    obtain ⟨p, hp, htarget⟩ := @projectOfConversation_listed db plan _ _ hproject
    have hafter : (db.persistProjection plan).projectAt plan.tenantId y = some p := by
      rw [projectAt, persistProjection, persistConversations_projects]
      exact hp
    simp only [Links, hafter, Option.some.injEq, exists_eq_left', Option.isSome_some, true_and]
    by_cases hkeeps : Keeps plan.parsed.conversations c.externalId
        (db.digestAt plan.tenantId c.externalId)
    · -- the stored row keeps its link, and a row there is, since its content is the presented one
      obtain ⟨stored, hstored, hdigest⟩ := Option.bind_eq_some_iff.mp (hkeeps c hc rfl)
      have hlinks := persistProjects_links h hexport plan.targetParser plan.parsed.projects hp
        (conversationAt_spec hstored).1
      rw [hkept hkeeps, linkAt, hstored, Option.bind_some, hlinks]
      constructor
      · rintro hlink _ ⟨⟩
        exact .inl hlink
      · intro hwritten
        refine (hwritten stored rfl).resolve_right fun hchanged => ?_
        refine not_keeps_iff.mpr ?_ hkeeps
        rwa [digestAt, hstored, Option.bind_some]
    · rw [hmoved hkeeps, htarget, Option.some_or]
      refine iff_of_true rfl fun stored hstored => .inr ?_
      have hchanged := not_keeps_iff.mp hkeeps
      rwa [digestAt, hstored, Option.bind_some] at hchanged

/-- An account whose first export lists the conversation "c" in the project "p", and whose second
export has been received. -/
def listedOnce : Database :=
  history .permissive <| Event.under ⟨[], 100⟩
    (Event.receipt 0 0 "account" "a" ++
      [.importRun 0 0 (.ofRecords [.ofTitle "p" none ["c"]]
        [.ofMessages "c" [.ofText "m" none "text"]]) []] ++
      Event.receipt 1 10 "account" "b")

def secondListing (listed : List String) (text : String) : ReparsePlan :=
  { tenantId := 1, exportId := 12, archiveId := 13, targetParser := ⟨"export", "1"⟩
    rawDigest := "b", registryFingerprint := [], inputProjection := [], artifacts := []
    parsed := .ofRecords [.ofTitle "q" none listed] [.ofMessages "c" [.ofText "m" none text]] }

theorem secondListing_moved :
    FollowsMembership (secondListing ["c"] "edited")
      (listedOnce.persistProjection (secondListing ["c"] "edited")) := by
  refine (persistProjection_membership_iff (Sound.history _ _) (secondListing ["c"] "edited")
    ?_).mpr fun c hc row hrow => .inr ⟨?_, c, hc, rfl, fun hdigest => ?_⟩
  · have hexport : (12, 1) ∈ listedOnce.exports.map fun e => (e.id, e.accountId) := by
      decide +kernel
    obtain ⟨e, he, heq⟩ := List.mem_map.mp hexport
    exact ⟨e, he, congrArg Prod.fst heq, congrArg Prod.snd heq⟩
  · rw [List.mem_singleton.mp hc]
    rfl
  · rw [List.mem_singleton.mp hc] at hrow hdigest
    have hstored : (listedOnce.digestAt 1 "c") ≠ some (conversationDigest
        (.ofMessages "c" [.ofText "m" none "edited"])) := by decide +kernel
    refine hstored ?_
    rw [digestAt]
    exact (congrArg (Option.bind · _) hrow).trans hdigest

/-- A conversation that moves with its content unchanged, and one that leaves its project, stay
linked to the project of the first export. -/
theorem secondListing_unmoved :
    ¬FollowsMembership (secondListing ["c"] "text")
      (listedOnce.persistProjection (secondListing ["c"] "text")) ∧
    ¬FollowsMembership (secondListing [] "edited")
      (listedOnce.persistProjection (secondListing [] "edited")) := by
  constructor
  · intro hfollows
    obtain ⟨row, hrow, p, hp, hlink⟩ := hfollows _ List.mem_cons_self
    have hkept : (listedOnce.persistProjection (secondListing ["c"] "text")).linkAt 1 "c" ≠
        ((listedOnce.persistProjection (secondListing ["c"] "text")).projectAt 1 "q").map
          (·.id) := by decide +kernel
    refine hkept ?_
    rw [linkAt]
    refine (congrArg (Option.bind · _) hrow).trans (hlink.trans ?_)
    exact (congrArg (Option.map _) hp).symm
  · intro hfollows
    obtain ⟨row, hrow, hlink⟩ := hfollows _ List.mem_cons_self
    have hkept : (listedOnce.persistProjection (secondListing [] "edited")).linkAt 1 "c" ≠
        none := by decide +kernel
    refine hkept ?_
    rw [linkAt]
    exact (congrArg (Option.bind · _) hrow).trans hlink

end Database

end ChatgptArchive
