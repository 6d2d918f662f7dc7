import ChatgptArchive.Integrity.TombstoneCoverage

/-!
# A deletion leaves every other tenant alone

The rows of a tenant are those its account, its exports and its records lead to. Planning and
executing a deletion of another tenant leaves all of them as they are, in every reachable state.
-/

namespace ChatgptArchive

open Database List Table

structure Holdings where
  references : List String
  exports : List Uuid
  projects : List Uuid
  conversations : List Uuid
  messages : List Uuid
  deriving DecidableEq, Repr

namespace Database

def conversationsOf (db : Database) (tenantId : Uuid) : List Uuid :=
  (db.conversations.filter fun c => c.accountId = tenantId).map (·.id)

def holdings (db : Database) (tenantId : Uuid) : Holdings where
  references := (db.accounts.filter fun a => a.id = tenantId).map (·.externalRef)
  exports := (db.exports.filter fun e => e.accountId = tenantId).map (·.id)
  projects := (db.projects.filter fun p => p.accountId = tenantId).map (·.id)
  conversations := db.conversationsOf tenantId
  messages := (db.messages.filter fun m =>
    (db.conversationsOf tenantId).contains m.conversationId).map (·.id)

def runOf (holdings : Holdings) (r : ImportRunRow) : Bool :=
  match r.exportId with
  | some e => holdings.exports.contains e
  | none => holdings.references.contains r.accountRef

def versionOf (holdings : Holdings) (v : EntityVersionRow) : Bool :=
  (v.kind = .project && holdings.projects.contains v.entityId) ||
    (v.kind = .conversation && holdings.conversations.contains v.entityId)

def rowsOf (db : Database) (tenantId : Uuid) (holdings : Holdings) : Database :=
  { empty with
    accounts := db.accounts.filter fun a => a.id = tenantId
    exports := db.exports.filter fun e => e.accountId = tenantId
    importRuns := db.importRuns.filter (runOf holdings)
    projects := db.projects.filter fun p => p.accountId = tenantId
    conversations := db.conversations.filter fun c => c.accountId = tenantId
    messages := db.messages.filter fun m => holdings.conversations.contains m.conversationId
    contentParts := db.contentParts.filter fun p => holdings.messages.contains p.messageId
    revisions := db.revisions.filter fun r =>
      holdings.exports.contains r.observedIn || holdings.conversations.contains r.entityId
    observations := db.observations.filter fun o => holdings.exports.contains o.exportId
    entityVersions := db.entityVersions.filter (versionOf holdings)
    extractedArtifacts := db.extractedArtifacts.filter fun a =>
      holdings.exports.contains a.exportId
    announcedSubjects := db.announcedSubjects.filter fun a => a.accountId = tenantId
    inboxEvents := db.inboxEvents.filter fun e => e.tenantId = some tenantId
    outboxEvents := db.outboxEvents.filter fun e => e.tenantId = some tenantId }

def tenantRows (db : Database) (tenantId : Uuid) : Database :=
  db.rowsOf tenantId (db.holdings tenantId)

variable {db db' : Database} {u : Uuid}

/-- The rows of a tenant are read table by table. -/
theorem rowsOf_ext {holdings : Holdings}
    (accounts : (db'.rowsOf u holdings).accounts = (db.rowsOf u holdings).accounts)
    (exports : (db'.rowsOf u holdings).exports = (db.rowsOf u holdings).exports)
    (importRuns : (db'.rowsOf u holdings).importRuns = (db.rowsOf u holdings).importRuns)
    (projects : (db'.rowsOf u holdings).projects = (db.rowsOf u holdings).projects)
    (conversations : (db'.rowsOf u holdings).conversations = (db.rowsOf u holdings).conversations)
    (messages : (db'.rowsOf u holdings).messages = (db.rowsOf u holdings).messages)
    (contentParts : (db'.rowsOf u holdings).contentParts = (db.rowsOf u holdings).contentParts)
    (revisions : (db'.rowsOf u holdings).revisions = (db.rowsOf u holdings).revisions)
    (observations : (db'.rowsOf u holdings).observations = (db.rowsOf u holdings).observations)
    (entityVersions : (db'.rowsOf u holdings).entityVersions = (db.rowsOf u holdings).entityVersions)
    (extractedArtifacts : (db'.rowsOf u holdings).extractedArtifacts = (db.rowsOf u holdings).extractedArtifacts)
    (announcedSubjects : (db'.rowsOf u holdings).announcedSubjects = (db.rowsOf u holdings).announcedSubjects)
    (inboxEvents : (db'.rowsOf u holdings).inboxEvents = (db.rowsOf u holdings).inboxEvents)
    (outboxEvents : (db'.rowsOf u holdings).outboxEvents = (db.rowsOf u holdings).outboxEvents) :
    db'.rowsOf u holdings = db.rowsOf u holdings := by
  dsimp only [rowsOf] at *
  simp only [accounts, exports, importRuns, projects, conversations, messages, contentParts,
    revisions, observations, entityVersions, extractedArtifacts, announcedSubjects, inboxEvents,
    outboxEvents]

theorem tenantRows_eq (h : db'.rowsOf u (db.holdings u) = db.rowsOf u (db.holdings u)) :
    db'.tenantRows u = db.tenantRows u := by
  have haccounts : (db'.accounts.filter fun a => decide (a.id = u)) =
    db.accounts.filter fun a => decide (a.id = u) := congrArg Database.accounts h
  have hexports : (db'.exports.filter fun e => decide (e.accountId = u)) =
    db.exports.filter fun e => decide (e.accountId = u) := congrArg Database.exports h
  have hprojects : (db'.projects.filter fun p => decide (p.accountId = u)) =
    db.projects.filter fun p => decide (p.accountId = u) := congrArg Database.projects h
  have hconversations : (db'.conversations.filter fun c => decide (c.accountId = u)) =
    db.conversations.filter fun c => decide (c.accountId = u) := congrArg Database.conversations h
  have hof : db'.conversationsOf u = db.conversationsOf u := by
    rw [conversationsOf, hconversations, conversationsOf]
  have hmessages : (db'.messages.filter fun m =>
      (db.conversationsOf u).contains m.conversationId) =
    db.messages.filter fun m => (db.conversationsOf u).contains m.conversationId :=
    congrArg Database.messages h
  have hholdings : db'.holdings u = db.holdings u := by
    simp only [holdings, haccounts, hexports, hprojects, hof, hmessages]
  rw [tenantRows, hholdings, h, tenantRows]

end Database

namespace Owned

variable {g : Registry} {db db' : Database} {tenantId exportId u id : Uuid}

theorem not_held (h : Owned g db) (hne : u ≠ tenantId) (hid : g.owner id = tenantId) :
    (db.holdings u).exports.contains id = false ∧ (db.holdings u).projects.contains id = false ∧
      (db.holdings u).conversations.contains id = false ∧
      (db.holdings u).messages.contains id = false := by
  have hconversation : ∀ c ∈ db.conversationsOf u, g.owner c = u := by
    intro c hc
    obtain ⟨row, hrow, rfl⟩ := mem_map.mp hc
    obtain ⟨hrow, haccount⟩ := mem_filter.mp hrow
    exact of_decide_eq_true haccount ▸ (h.conversations row hrow _ mem_cons_self).2
  have hnot : ∀ ids : List Uuid, (∀ i ∈ ids, g.owner i = u) → ids.contains id = false := by
    intro ids hids
    refine Bool.eq_false_iff.mpr fun hmem => hne ?_
    rw [← hids id (contains_iff_mem.mp hmem), hid]
  refine ⟨hnot _ fun i hi => ?_, hnot _ fun i hi => ?_, hnot _ hconversation, hnot _ fun i hi => ?_⟩
  · obtain ⟨e, he, rfl⟩ := mem_map.mp hi
    obtain ⟨he, haccount⟩ := mem_filter.mp he
    exact of_decide_eq_true haccount ▸ (h.ofExport he).2
  · obtain ⟨p, hp, rfl⟩ := mem_map.mp hi
    obtain ⟨hp, haccount⟩ := mem_filter.mp hp
    exact of_decide_eq_true haccount ▸ (h.projects p hp _ mem_cons_self).2
  · obtain ⟨m, hm, rfl⟩ := mem_map.mp hi
    obtain ⟨hm, hcontains⟩ := mem_filter.mp hm
    have hsame := h.messages m hm _ mem_cons_self
    exact hsame.2.2.trans (hconversation _ (contains_iff_mem.mp hcontains))

theorem not_versionOf (h : Owned g db) (hne : u ≠ tenantId) {v : EntityVersionRow}
    (hid : g.owner v.entityId = tenantId) : versionOf (db.holdings u) v = false := by
  obtain ⟨-, hprojects, hconversations, -⟩ := h.not_held hne hid
  rw [versionOf, hprojects, hconversations, Bool.and_false, Bool.and_false, Bool.or_false]

/-! ## The statements of a projection -/

theorem upsertProject_apart (hne : u ≠ tenantId) (externalId : String) (version : ProjectVersion) :
    (db.upsertProject tenantId exportId externalId version).2.rowsOf u (db.holdings u) =
      db.rowsOf u (db.holdings u) := by
  refine rowsOf_ext rfl rfl rfl ?_ rfl rfl rfl rfl rfl rfl rfl rfl rfl rfl
  refine filter_upsert_beside (fun p _ hmatch => ?_) fun _ => decide_eq_false hne.symm
  simp only [Bool.and_eq_true, decide_eq_true_eq] at hmatch
  have haccount : ¬p.accountId = u := fun heq => hne (heq.symm.trans hmatch.1)
  exact ⟨decide_eq_false haccount, decide_eq_false haccount⟩

theorem upsertConversation_apart (hne : u ≠ tenantId) (externalId : String) :
    (db.upsertConversation tenantId externalId).2.rowsOf u (db.holdings u) =
      db.rowsOf u (db.holdings u) := by
  refine rowsOf_ext rfl rfl rfl rfl ?_ rfl rfl rfl rfl rfl rfl rfl rfl rfl
  refine filter_upsert_beside (fun c _ hmatch => ?_) fun _ => decide_eq_false hne.symm
  simp only [Bool.and_eq_true, decide_eq_true_eq] at hmatch
  have haccount : ¬c.accountId = u := fun heq => hne (heq.symm.trans hmatch.1)
  exact ⟨decide_eq_false haccount, decide_eq_false haccount⟩

section Statements

variable (h : Owned g db) (hne : u ≠ tenantId) {kind : EntityKind}

include h hne

theorem observe_apart (hexport : g.owner exportId = tenantId) (hid : g.owner id = tenantId)
    (digest : ContentDigest) : (db.observe exportId kind id digest).rowsOf u (db.holdings u) =
      db.rowsOf u (db.holdings u) := by
  refine rowsOf_ext rfl rfl rfl rfl rfl rfl rfl rfl ?_ ?_ rfl rfl rfl rfl
  · refine filter_upsert_beside (fun o _ hmatch => ?_) fun _ => (h.not_held hne hexport).1
    simp only [Bool.and_eq_true, decide_eq_true_eq] at hmatch
    rw [hmatch.1.1]
    exact ⟨(h.not_held hne hexport).1, (h.not_held hne hexport).1⟩
  · refine filter_deleteWhere_beside fun v _ hmatch => ?_
    simp only [Bool.and_eq_true, decide_eq_true_eq] at hmatch
    exact h.not_versionOf hne (hmatch.1.1.2 ▸ hid)

theorem keepSnapshot_apart (kind : EntityKind) (hid : g.owner id = tenantId)
    (digest : ContentDigest) (snapshot : Snapshot) :
    (db.keepSnapshot kind id digest snapshot).rowsOf u (db.holdings u) =
      db.rowsOf u (db.holdings u) := by
  refine rowsOf_ext rfl rfl rfl rfl rfl rfl rfl rfl rfl ?_ rfl rfl rfl rfl
  exact filter_insertAbsent_beside (h.not_versionOf hne hid)

theorem conversations_apart (ho : db.OwnsConversation tenantId id)
    {f : ConversationRow → ConversationRow} (hf : ∀ c, (f c).accountId = c.accountId) : { db with
      conversations := Table.updateWhere (fun c => c.id = id) f db.conversations }.rowsOf u
        (db.holdings u) = db.rowsOf u (db.holdings u) := by
  refine rowsOf_ext rfl rfl rfl rfl ?_ rfl rfl rfl rfl rfl rfl rfl rfl rfl
  refine filter_updateWhere_beside fun c hc hid => ?_
  have haccount := h.account_of_owns ho hc (of_decide_eq_true hid)
  rw [hf, haccount]
  exact ⟨decide_eq_false hne.symm, decide_eq_false hne.symm⟩

theorem appendRevision_apart (hexport : g.owner exportId = tenantId) (hid : g.owner id = tenantId)
    (digest : ContentDigest) (parser : ParserId) :
    (db.appendRevision id exportId digest parser).rowsOf u (db.holdings u) =
      db.rowsOf u (db.holdings u) := by
  obtain ⟨hexports, -⟩ := h.not_held hne hexport
  obtain ⟨-, -, hconversations, -⟩ := h.not_held hne hid
  unfold Database.appendRevision
  split
  · rfl
  · simp only [rowsOf, freshUuid, filter_append, filter_cons, filter_nil, hexports,
      hconversations, Bool.or_self, Bool.false_eq_true, if_false, append_nil]

theorem upsertMessage_apart (hid : g.owner id = tenantId) (ordinal : Nat)
    (message : ParsedMessage) : (db.upsertMessage id ordinal message).2.rowsOf u (db.holdings u) =
      db.rowsOf u (db.holdings u) := by
  obtain ⟨-, -, hconversations, -⟩ := h.not_held hne hid
  refine rowsOf_ext rfl rfl rfl rfl rfl ?_ rfl rfl rfl rfl rfl rfl rfl rfl
  refine filter_upsert_beside (fun m _ hmatch => ?_) fun _ => hconversations
  simp only [Bool.and_eq_true, decide_eq_true_eq] at hmatch
  have hconversation : (db.holdings u).conversations.contains m.conversationId = false :=
    hmatch.1 ▸ hconversations
  exact ⟨hconversation, hconversation⟩

theorem setParent_apart (hid : g.owner id = tenantId) (parent : Uuid) :
    (db.setParent id parent).rowsOf u (db.holdings u) = db.rowsOf u (db.holdings u) := by
  refine rowsOf_ext rfl rfl rfl rfl rfl ?_ rfl rfl rfl rfl rfl rfl rfl rfl
  refine filter_updateWhere_beside fun m hm hmatch => ?_
  have hsame := (h.messages m hm _ mem_cons_self).2.2
  rw [of_decide_eq_true hmatch, hid] at hsame
  obtain ⟨-, -, hconversation, -⟩ := h.not_held hne hsame.symm
  exact ⟨hconversation, hconversation⟩

/-- A statement of a projection touches rows of its own tenant. -/
theorem write_apart (hexport : (Tie.owned exportId tenantId).Holds g db.nextUuid)
    (hwrite : Database.Write tenantId exportId db db') :
    db'.rowsOf u (db.holdings u) = db.rowsOf u (db.holdings u) := by
  have hexport := hexport.2
  cases hwrite with
  | upsertProject externalId version => exact upsertProject_apart hne externalId version
  | observeProject ho digest => exact h.observe_apart hne hexport (h.project ho).1.2 digest
  | keepProject ho version => exact h.keepSnapshot_apart hne _ (h.project ho).1.2 _ _
  | upsertConversation externalId => exact upsertConversation_apart hne externalId
  | observeConversation ho digest =>
    exact h.observe_apart hne hexport (h.conversation ho).1.2 digest
  | appendRevision ho digest parser =>
    exact h.appendRevision_apart hne hexport (h.conversation ho).1.2 digest parser
  | keepConversation ho digest version =>
    have hkept := h.keepSnapshot_apart hne .conversation (h.conversation ho).1.2 digest
      (.conversation version)
    refine Eq.trans ?_ hkept
    have howned := h.keepSnapshot (h.conversation ho).2 digest (.conversation version)
    refine howned.conversations_apart hne ho ?_
    exact fun _ => rfl
  | markSeen ho =>
    refine h.conversations_apart hne ho ?_
    exact fun _ => rfl
  | updateHeader ho hproject conversation parser =>
    refine h.conversations_apart hne ho ?_
    exact fun _ => rfl
  | upsertMessage ho ordinal message =>
    exact h.upsertMessage_apart hne (h.conversation ho).1.2 ordinal message
  | @observeMessage id ho =>
    refine rowsOf_ext rfl rfl rfl rfl rfl rfl rfl rfl ?_ rfl rfl rfl rfl rfl
    exact filter_insertAbsent_beside (h.not_held hne hexport).1
  | insertPart ho revision part =>
    obtain ⟨-, -, -, hmessages⟩ := h.not_held hne (h.message ho).1.2
    simp only [rowsOf, Database.insertPart, freshUuid, filter_append, filter_cons,
      filter_nil, hmessages, Bool.false_eq_true, if_false, append_nil]
  | setParent ho hparent => exact h.setParent_apart hne (h.message ho).1.2 _

/-! ## The restoration -/

theorem project_apart (ho : db.OwnsProject tenantId id) {held : Held}
    (hok : db.restoreProject id held = .ok db') :
    db'.rowsOf u (db.holdings u) = db.rowsOf u (db.holdings u) := by
  obtain ⟨f, hf, rfl⟩ := restoreProject_eq_ok hok
  refine rowsOf_ext rfl rfl rfl ?_ rfl rfl rfl rfl rfl rfl rfl rfl rfl rfl
  refine filter_updateWhere_beside fun p hp hid => ?_
  have hown := (h.projects p hp _ mem_cons_self).2
  have haccount : p.accountId = tenantId := by
    rw [← hown, of_decide_eq_true hid]
    exact (h.project ho).1.2
  rw [(hf p).2.1, haccount]
  exact ⟨decide_eq_false hne.symm, decide_eq_false hne.symm⟩

theorem clearParts_apart (ho : db.OwnsConversation tenantId id) :
    (db.clearParts id).rowsOf u (db.holdings u) = db.rowsOf u (db.holdings u) := by
  refine rowsOf_ext rfl rfl rfl rfl rfl rfl ?_ rfl rfl rfl rfl rfl rfl rfl
  refine filter_deleteWhere_beside fun p _ hany => ?_
  obtain ⟨m, hm, hmatch⟩ := any_eq_true.mp hany
  simp only [Bool.and_eq_true, decide_eq_true_eq] at hmatch
  have hsame := (h.messages m hm _ mem_cons_self).2.2
  rw [hmatch.1, hmatch.2, (h.conversation ho).1.2] at hsame
  exact (h.not_held hne hsame).2.2.2

theorem dropUnnamed_apart (ho : db.OwnsRecord tenantId kind id) :
    (db.dropUnnamedVersions kind id).rowsOf u (db.holdings u) = db.rowsOf u (db.holdings u) := by
  have hid : g.owner id = tenantId := by
    cases kind with
    | project => exact (h.project ho).1.2
    | conversation => exact (h.conversation ho).1.2
    | message => exact ho.elim
    | asset => exact ho.elim
  refine rowsOf_ext rfl rfl rfl rfl rfl rfl rfl rfl rfl ?_ rfl rfl rfl rfl
  refine filter_deleteWhere_beside fun v _ hmatch => ?_
  simp only [Bool.and_eq_true, decide_eq_true_eq] at hmatch
  exact h.not_versionOf hne (hmatch.1.2 ▸ hid)

omit h hne in
theorem dropMissing_apart :
    db.dropVersionsOfMissing.rowsOf u (db.holdings u) = db.rowsOf u (db.holdings u) := by
  refine rowsOf_ext rfl rfl rfl rfl rfl rfl rfl rfl rfl ?_ rfl rfl rfl rfl
  refine filter_deleteWhere_beside fun v _ hmissing => Bool.eq_false_iff.mpr fun hof => ?_
  rw [Bool.not_eq_true', Bool.eq_false_iff] at hmissing
  refine hmissing ?_
  simp only [versionOf, Bool.or_eq_true, Bool.and_eq_true, decide_eq_true_eq,
    contains_iff_mem] at hof
  rcases hof with ⟨hkind, hmem⟩ | ⟨hkind, hmem⟩
  · obtain ⟨p, hp, hid⟩ := mem_map.mp hmem
    have hany : (db.projects.any fun p => decide (p.id = v.entityId)) = true :=
      any_eq_true.mpr ⟨p, mem_of_mem_filter hp, decide_eq_true hid⟩
    simp [hasRecord, hkind, hany]
  · obtain ⟨c, hc, hid⟩ := mem_map.mp hmem
    have hany : (db.conversations.any fun c => decide (c.id = v.entityId)) = true :=
      any_eq_true.mpr ⟨c, mem_of_mem_filter hc, decide_eq_true hid⟩
    simp [hasRecord, hkind, hany]

theorem restoreStep_apart (hstep : RestoreStep tenantId db db') :
    db'.tenantRows u = db.tenantRows u := by
  refine tenantRows_eq ?_
  cases hstep with
  | dropMissing => exact dropMissing_apart
  | project ho hok => exact h.project_apart hne ho hok
  | clearLink ho =>
    refine h.conversations_apart hne ho ?_
    exact fun _ => rfl
  | clearParts ho => exact h.clearParts_apart hne ho
  | write ho hobserved hwrite =>
    exact h.write_apart hne (h.observer hobserved (h.conversation ho).1) hwrite
  | setDigest ho digest =>
    refine h.conversations_apart hne ho ?_
    exact fun _ => rfl
  | dropUnnamed ho => exact h.dropUnnamed_apart hne ho

theorem restores_apart (hrestores : Restores tenantId db db') :
    db'.tenantRows u = db.tenantRows u := by
  have hall : OwnedAfter g db db' ∧ db'.tenantRows u = db.tenantRows u :=
    hrestores.preserves (P := fun db' => OwnedAfter g db db' ∧ db'.tenantRows u = db.tenantRows u)
      ⟨.same h rfl, rfl⟩ fun hstep ⟨hafter, heq⟩ => by
        refine ⟨hafter.trans fun _ _ howned => howned.restoreStep hstep, ?_⟩
        obtain ⟨g', -, howned⟩ := hafter
        exact (howned.restoreStep_apart hne hstep).trans heq
  exact hall.2

end Statements

/-! ## The removal of rows -/

theorem owner_of_sameAs {next : Uuid} {target : Option Uuid} {ids : List Uuid}
    (hties : ∀ tie ∈ sameAs id target, tie.Holds g next)
    (hmem : target.any ids.contains = true) (hids : ∀ i ∈ ids, g.owner i = tenantId) :
    g.owner id = tenantId := by
  obtain ⟨i, hi, rfl⟩ := any_contains.mp hmem
  have hsame := hties _ (mem_singleton_self _)
  exact hsame.2.2.trans (hids i hi)

theorem owner_of_seen {next : Uuid} {first last : Option Uuid} {exports : List Uuid}
    (hexports : ∀ e ∈ exports, g.owner e = tenantId)
    (hseen : (first.any exports.contains || last.any exports.contains) = true)
    (hties : ∀ tie ∈ sameAs id first ++ sameAs id last, tie.Holds g next) :
    g.owner id = tenantId := by
  rcases Bool.or_eq_true_iff.mp hseen with hseen | hseen
  · exact owner_of_sameAs (fun tie htie => hties tie (mem_append_left _ htie)) hseen hexports
  · exact owner_of_sameAs (fun tie htie => hties tie (mem_append_right _ htie)) hseen hexports

section Removal

variable (h : Owned g db) (hne : u ≠ tenantId)

include hne in
omit h in
theorem other_account {account : Uuid} (heq : account = tenantId) :
    decide (account = u) = false := decide_eq_false (heq ▸ hne.symm)

include h hne

/-- Every row that is deleted or released here belongs to the deleted tenant. -/
theorem afterDependents_apart {removed : Category → List Uuid}
    (hremoved : ∀ category, category.isRecord = true → ∀ id ∈ removed category,
      g.owner id = tenantId) (inbox : List Nat)
    (hruns : ∀ r ∈ db.importRuns, r.id ∈ removed .importRun →
      ∃ e, r.exportId = some e ∧ g.owner e = tenantId) :
    (Database.afterDependents removed inbox db).tenantRows u = db.tenantRows u := by
  have hof : ∀ {category : Category} {id : Uuid}, category.isRecord = true →
      (removed category).contains id = true → g.owner id = tenantId :=
    fun hrecord hmem => hremoved _ hrecord _ (contains_iff_mem.mp hmem)
  -- the service keeps no inbox rows
  have hinbox : (Database.afterDependents removed inbox db).inboxEvents = db.inboxEvents := by
    rw [h.noInbox]
    simp [Database.afterDependents, h.noInbox, Table.deleteWhere]
  refine tenantRows_eq (rowsOf_ext rfl rfl ?_ ?_ ?_ ?_ ?_ ?_ rfl rfl ?_ rfl ?_ rfl)
  · refine filter_deleteWhere_beside fun r hr hmem => ?_
    obtain ⟨e, hexport, howner⟩ := hruns r hr (contains_iff_mem.mp hmem)
    rw [runOf, hexport]
    exact (h.not_held hne howner).1
  · refine filter_deleteWhere_beside fun p hp hmem => other_account hne ?_
    exact (h.projects p hp _ mem_cons_self).2.symm.trans (hof rfl hmem)
  · refine (filter_updateWhere_beside fun c hc hmem => ?_).trans
      (filter_deleteWhere_beside fun c hc hmem => other_account hne ?_)
    · have hties := h.conversations c (mem_deleteWhere.mp hc).1
      have howner := owner_of_sameAs (fun tie htie => hties tie (mem_cons_of_mem _
        (mem_cons_of_mem _ (mem_append_left _ htie)))) hmem (hremoved .project rfl)
      have haccount := (hties _ mem_cons_self).2.symm.trans howner
      exact ⟨other_account hne haccount, other_account hne haccount⟩
    · exact (h.conversations c hc _ mem_cons_self).2.symm.trans (hof rfl hmem)
  · refine filter_deleteWhere_beside fun m hm hmem => ?_
    have hsame := (h.messages m hm _ mem_cons_self).2.2
    exact (h.not_held hne (hsame.symm.trans (hof rfl hmem))).2.2.1
  · refine filter_deleteWhere_beside fun p hp hmem => ?_
    have hsame := (h.contentParts p hp _ mem_cons_self).2.2
    exact (h.not_held hne (hsame.symm.trans (hof rfl hmem))).2.2.2
  · refine filter_deleteWhere_beside fun r hr hmem => ?_
    have hentity := (h.revisions r hr _ mem_cons_self).2.2
    have hexport := (h.revisions r hr _ (mem_cons_of_mem _ mem_cons_self)).2.2
    rw [(h.not_held hne (hexport.symm.trans (hof rfl hmem))).1,
      (h.not_held hne (hentity.symm.trans (hof rfl hmem))).2.2.1, Bool.or_false]
  · refine filter_deleteWhere_beside fun a ha hmem => ?_
    have hsame := (h.extractedArtifacts a ha _ mem_cons_self).2.2
    exact (h.not_held hne (hsame.symm.trans (hof rfl hmem))).1
  · rw [rowsOf, hinbox, rowsOf]

variable {exports : List Uuid} (hexports : ∀ e ∈ exports, g.owner e = tenantId)

include hexports

theorem beforeExports_apart (outbox : List Nat)
    (houtbox : ∀ row ∈ db.outboxEvents, droppedFact outbox exports row = true →
      row.tenantId ≠ some u) :
    (Database.beforeExports exports outbox db).tenantRows u = db.tenantRows u := by
  refine tenantRows_eq (rowsOf_ext rfl rfl rfl ?_ ?_ rfl rfl rfl ?_ rfl rfl rfl rfl ?_)
  · refine filter_updateWhere_beside fun p hp hseen => ?_
    have hties := h.projects p hp
    have howner := owner_of_seen hexports hseen fun tie htie =>
      hties tie (mem_cons_of_mem _ (mem_cons_of_mem _ htie))
    have haccount := (hties _ mem_cons_self).2.symm.trans howner
    exact ⟨other_account hne haccount, other_account hne haccount⟩
  · refine filter_updateWhere_beside fun c hc hseen => ?_
    have hties := h.conversations c hc
    have howner := owner_of_seen hexports hseen fun tie htie =>
      hties tie (mem_cons_of_mem _ (mem_cons_of_mem _ (mem_append_right _ htie)))
    have haccount := (hties _ mem_cons_self).2.symm.trans howner
    exact ⟨other_account hne haccount, other_account hne haccount⟩
  · exact filter_deleteWhere_beside fun o _ hmem =>
      (h.not_held hne (hexports _ (contains_iff_mem.mp hmem))).1
  · exact filter_deleteWhere_beside fun row hrow hdropped =>
      decide_eq_false (houtbox row hrow hdropped)

theorem deleteExports_apart
    (houtbox : ∀ row ∈ db.outboxEvents, row.exportId.any exports.contains = true →
      row.tenantId ≠ some u) :
    (Database.deleteExports exports db).tenantRows u = db.tenantRows u := by
  have hnot : ∀ {e : Uuid}, exports.contains e = true →
      (db.holdings u).exports.contains e = false := fun hmem =>
    (h.not_held hne (hexports _ (contains_iff_mem.mp hmem))).1
  have hinbox : (Database.deleteExports exports db).inboxEvents = db.inboxEvents := by
    rw [h.noInbox]
    simp [Database.deleteExports, h.noInbox, Table.deleteWhere]
  refine tenantRows_eq (rowsOf_ext rfl ?_ rfl rfl rfl rfl rfl rfl ?_ rfl ?_ rfl ?_ ?_)
  · refine filter_deleteWhere_beside fun e he hmem => other_account hne ?_
    exact (h.ofExport he).2.symm.trans (hexports _ (contains_iff_mem.mp hmem))
  · exact filter_deleteWhere_beside fun o _ hmem => hnot hmem
  · exact filter_deleteWhere_beside fun a _ hmem => hnot hmem
  · rw [rowsOf, hinbox, rowsOf]
  · exact filter_deleteWhere_beside fun row hrow hdropped =>
      decide_eq_false (houtbox row hrow hdropped)

end Removal

theorem deleteAccount_apart (hne : u ≠ tenantId) (db : Database) :
    (deleteAccount tenantId db).tenantRows u = db.tenantRows u := by
  refine tenantRows_eq (rowsOf_ext ?_ rfl rfl rfl rfl rfl rfl rfl rfl rfl rfl ?_ rfl rfl)
  · exact filter_deleteWhere_beside fun a _ hid => other_account hne (of_decide_eq_true hid)
  · exact filter_deleteWhere_beside fun a _ hid => other_account hne (of_decide_eq_true hid)

theorem cleared_apart (h : Owned g db) {request : PrivacyDeletionRequestRow}
    (hne : u ≠ request.tenantId) (hscoped : Scoped g db request)
    (haddressed : Addressed g db.nextUuid db) :
    (db.cleared request).tenantRows u = db.tenantRows u := by
  have hremoved : ∀ category, category.isRecord = true →
      ∀ id ∈ db.removedIds request.id category, g.owner id = request.tenantId :=
    fun category hrecord id hid => (hscoped.removed category hrecord id hid).2
  have hbound : ∀ row ∈ db.outboxEvents,
      row.exportId.any (db.removedIds request.id .export).contains = true →
        row.tenantId ≠ some u := by
    intro row hrow hmem htenant
    obtain ⟨e, he, hexport⟩ := any_contains.mp hmem
    have howner := haddressed.outbox row hrow _ (mem_boundTies.mpr ⟨e, u, hexport, htenant, rfl⟩)
    exact hne (howner.2.symm.trans (hremoved .export rfl e he))
  have hdropped : ∀ row ∈ db.outboxEvents,
      droppedFact (db.serialItemIds request.id .outboxEvent) (db.removedIds request.id .export)
        row = true → row.tenantId ≠ some u := by
    intro row hrow hdropped
    rcases Bool.or_eq_true_iff.mp hdropped with hlisted | hmem
    · rw [(hscoped.outbox row.id (contains_iff_mem.mp hlisted)).2 row hrow rfl]
      exact fun heq => hne (Option.some.inj heq).symm
    · exact hbound row hrow hmem
  have hstart : Owned g (db.deleteRawRecords (db.removedIds request.id .rawRecord)) := h.congr rfl
  have hdependents := hstart.afterDependents (db.removedIds request.id)
    (db.serialItemIds request.id .inboxEvent)
  have hbefore := hdependents.beforeExports (db.removedIds request.id .export)
    (db.serialItemIds request.id .outboxEvent)
  -- the statements run one group after the other, each in a state that is still owned
  have hrows : (Database.deleteExports (db.removedIds request.id .export)
      (Database.beforeExports (db.removedIds request.id .export)
        (db.serialItemIds request.id .outboxEvent)
        (Database.afterDependents (db.removedIds request.id)
          (db.serialItemIds request.id .inboxEvent)
          (db.deleteRawRecords (db.removedIds request.id .rawRecord))))).tenantRows u =
      db.tenantRows u := by
    refine (hbefore.deleteExports_apart hne (hremoved .export rfl) fun row hrow => ?_).trans <|
      (hdependents.beforeExports_apart hne (hremoved .export rfl) _ hdropped).trans <|
      (hstart.afterDependents_apart hne hremoved _ fun r hr hid => ?_).trans rfl
    · exact hbound row (mem_deleteWhere.mp hrow).1
    · obtain ⟨e, hexport, howner⟩ := (hscoped.runs r.id hid).2 r hr rfl
      exact ⟨e, hexport, howner.2⟩
  unfold Database.cleared rowsRemoved
  dsimp only
  split
  · exact hrows
  · exact (deleteAccount_apart hne _).trans hrows

end Owned

/-! ## Deliveries -/

namespace Database

variable {db db' : Database} {tenantId u : Uuid}

def addressedTo (db : Database) (tenantId : Uuid) :
    List OutboxEventRow × List AnnouncedSubjectRow :=
  (db.outboxEvents.filter fun e => e.tenantId = some tenantId,
    db.announcedSubjects.filter fun a => a.accountId = tenantId)

theorem deliver_apart (hne : u ≠ tenantId) {step : DeliveryStep} (hstep : step.For tenantId) :
    (db.deliver step).addressedTo u = db.addressedTo u := by
  cases step with
  | forget accountId kind subjectId =>
    obtain rfl : accountId = tenantId := hstep
    refine Prod.ext rfl (filter_deleteWhere_beside fun a _ hmatch => ?_)
    simp only [Bool.and_eq_true, decide_eq_true_eq] at hmatch
    exact decide_eq_false (hmatch.1.1 ▸ hne.symm)
  | emit e =>
    obtain ⟨hwell, htenant⟩ := hstep
    have hrow : decide (e.tenantId = some u) = false := by
      refine decide_eq_false fun heq => hne ?_
      exact Option.some.inj (heq.symm.trans htenant)
    have hannounce : ∀ db' : Database,
        (db'.announce e.now e.announced).addressedTo u = db'.addressedTo u := by
      intro db'
      cases hannounced : e.announced with
      | none => rfl
      | some announced =>
        obtain ⟨subject, accountId⟩ := announced
        have haccount := (hwell.account subject accountId hannounced).symm.trans htenant
        refine Prod.ext rfl (filter_insertAbsent_beside ?_)
        exact decide_eq_false (Option.some.inj haccount ▸ hne.symm)
    simp only [deliver, insertOutboxEvent]
    split
    · rfl
    · refine (hannounce _).trans (Prod.ext ?_ rfl)
      exact filter_append_beside hrow

theorem deliverAll_apart (hne : u ≠ tenantId) (steps : List DeliveryStep) :
    ∀ {db : Database}, (∀ step ∈ steps, step.For tenantId) →
      (db.deliverAll steps).addressedTo u = db.addressedTo u := by
  induction steps with
  | nil => exact fun _ => rfl
  | cons step steps ih =>
    intro db hsteps
    refine (ih fun step hstep => hsteps step (mem_cons_of_mem _ hstep)).trans ?_
    exact deliver_apart hne (hsteps step mem_cons_self)

theorem addressedTo_congr (h : db'.deliveries = db.deliveries) :
    db'.addressedTo u = db.addressedTo u := by
  have houtbox : db'.outboxEvents = db.outboxEvents := deliveries_frame h fun _ => rfl
  have hledger : db'.announcedSubjects = db.announcedSubjects := deliveries_frame h fun _ => rfl
  rw [addressedTo, houtbox, hledger, addressedTo]

theorem tenantRows_congr (hcore : db'.core = db.core)
    (haddressed : db'.addressedTo u = db.addressedTo u) : db'.tenantRows u = db.tenantRows u := by
  have houtbox : (db'.outboxEvents.filter fun e => decide (e.tenantId = some u)) =
    db.outboxEvents.filter fun e => decide (e.tenantId = some u) := congrArg Prod.fst haddressed
  have hledger : (db'.announcedSubjects.filter fun a => decide (a.accountId = u)) =
    db.announcedSubjects.filter fun a => decide (a.accountId = u) := congrArg Prod.snd haddressed
  have hrecords : db'.core.tenantRows u = db.core.tenantRows u := by rw [hcore]
  have hrows : ∀ db : Database, db.tenantRows u = { db.core.tenantRows u with
      announcedSubjects := db.announcedSubjects.filter fun a => a.accountId = u
      outboxEvents := db.outboxEvents.filter fun e => e.tenantId = some u } := fun _ => rfl
  rw [hrows db', hrows db, hrecords, houtbox, hledger]

end Database

/-! ## Transactions -/

namespace Governed

variable {g : Registry} {db db' : Database} {u : Uuid}

theorem rowPhase_apart (h : Governed g db) {now : Instant} {evidenceRef : BlobRef}
    {request : PrivacyDeletionRequestRow} (hphase : db.RowPhase now evidenceRef request db')
    (hne : u ≠ request.tenantId) : db'.tenantRows u = db.tenantRows u := by
  have hscoped := h.scopes request (mem_of_find?_eq_some hphase.planned.1) hphase.planned.2
  obtain ⟨restored, -, hrestored, -, hcore⟩ := hphase.rows
  obtain ⟨repairs, hrepairs, heq⟩ := hphase.delivers
  have hcleared := h.owned.cleared request
  have hrestores := restoreRetainedVersions_restores hcleared hrestored
  have hdelivered : db'.addressedTo u = restored.addressedTo u :=
    calc db'.addressedTo u
      _ = ((db.remaining request).deliverAll
            (db.retractions now evidenceRef request ++ repairs)).addressedTo u :=
          addressedTo_congr heq
      _ = (db.remaining request).addressedTo u := by
          refine deliverAll_apart hne _ fun step hstep => ?_
          rcases mem_append.mp hstep with hstep | hstep
          · exact retractions_for step hstep
          · exact (hrepairs step hstep).for
      _ = (db.cleared request).addressedTo u :=
          (addressedTo_congr (cleared_deliveries db request)).symm
      _ = restored.addressedTo u :=
          (addressedTo_congr (unwritten_frame (restoreRetainedVersions_unwritten hrestored)
            fun _ => rfl)).symm
  calc db'.tenantRows u
    _ = restored.tenantRows u := tenantRows_congr hcore hdelivered
    _ = (db.cleared request).tenantRows u := hcleared.restores_apart hne hrestores
    _ = db.tenantRows u := h.owned.cleared_apart hne hscoped h.addressed

end Governed

namespace Database

def requestOf (db : Database) (tenantId requestId : Uuid) : Bool :=
  (db.privacyDeletionRequests.find? fun r => r.id = requestId).any fun r => r.tenantId = tenantId

end Database

def ServiceTransaction.deletesFor (db : Database) (tenantId : Uuid) : ServiceTransaction → Bool
  | .work _ _ => false
  | .plan planned _ _ => planned = tenantId
  | .removeRows _ _ requestId | .complete requestId => db.requestOf tenantId requestId

theorem complete_apart (db : Database) (requestId u : Uuid) :
    (db.complete requestId).tenantRows u = db.tenantRows u := by
  unfold Database.complete
  split
  · rfl
  · split <;> rfl

/-- In every reachable state, whatever a tenant's deletion commits leaves the rows of every other
tenant as they are. -/
theorem deletion_leaves_other_tenants (contracts : Contracts) (resendPolicy : TombstoneResend)
    (actions : List PumpAction) (tenantId u : Uuid) (hne : u ≠ tenantId)
    (transaction : ServiceTransaction) :
    let db := (Pump.run contracts resendPolicy actions).db
    transaction.deletesFor db tenantId = true →
      (db.commit contracts transaction).tenantRows u = db.tenantRows u := by
  intro db hdeletes
  obtain ⟨g, h⟩ : ∃ g, Governed g db := run_governed contracts resendPolicy actions
  cases transaction with
  | work config event => cases hdeletes
  | plan planned requestId scope =>
    rcases plan_cases contracts planned requestId scope with heq | ⟨exports, -, -, heq⟩
    · rw [heq]
    · rw [heq]
      rfl
  | removeRows now evidenceRef requestId =>
    simp only [commit]
    rcases committed_cases db (db.removeRows contracts now evidenceRef requestId) with heq | hok
    · rw [heq]
    · rcases removeRows_cases hok with heq | ⟨request, rfl, hphase⟩
      · rw [heq]
      · refine h.rowPhase_apart hphase fun heq => hne ?_
        have htenant : request.tenantId = tenantId := by
          simpa [ServiceTransaction.deletesFor, requestOf, hphase.planned.1] using hdeletes
        exact heq.trans htenant
  | complete requestId =>
    simp only [commit]
    split
    · exact complete_apart db requestId u
    · rfl

def twoTenants : List PumpAction :=
  (Event.receipt 1 0 "account" "first" ++ [Event.importRun 1 0
      (.ofRecords [] [.ofMessages "c" [.ofText "p" none "question"]]) []] ++
    Event.receipt 2 9 "other" "second" ++ [Event.importRun 2 9
      (.ofRecords [] [.ofMessages "c" [.ofText "p" none "answer"]]) []]).map
    (fun event => .transact (.work ⟨[(7, "account"), (8, "other")], 1000000⟩ event)) ++
    [.transact (.plan 1 99 .tenant)]

set_option maxRecDepth 100000 in
theorem twoTenants_other_kept :
    let db := (Pump.run .permissive ⟨60, 600⟩ twoTenants).db
    let db' := db.commit .permissive (.removeRows 9 ⟨"evidence", 1, "text/plain"⟩ 99)
    (db.tenantRows 1).conversations ≠ [] ∧ (db'.tenantRows 1).conversations = [] ∧
      (db.tenantRows 10).conversations ≠ [] ∧ db'.tenantRows 10 = db.tenantRows 10 :=
  ⟨by decide +kernel, by decide +kernel, by decide +kernel,
    deletion_leaves_other_tenants .permissive ⟨60, 600⟩ twoTenants 1 10 (by decide) _
      (by decide +kernel)⟩

end ChatgptArchive
