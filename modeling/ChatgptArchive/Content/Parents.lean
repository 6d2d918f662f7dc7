import ChatgptArchive.Content.Presentation

/-!
# Stored parents

`persist_conversation_detail` links a message to the row of the parent its parse names among the
messages it presents. A message whose parse names no such parent is not touched by the second pass,
and an upsert leaves the parent of a stored row alone.
-/

namespace ChatgptArchive

open List Table Option

namespace Database

structure MessageKeys (db : Database) : Prop where
  fresh : ∀ m ∈ db.messages, m.id < db.nextUuid
  ids : (db.messages.map (·.id)).Nodup
  keys : (db.messages.map MessageRow.key).Nodup

theorem MessageKeys.empty : Database.empty.MessageKeys :=
  ⟨fun _ hm => absurd hm not_mem_nil, nodup_nil, nodup_nil⟩

def messageAt (db : Database) (c : Uuid) (externalId : String) : Option MessageRow :=
  db.messages.find? fun m => m.conversationId = c && m.externalId = externalId

def messageIdAt (db : Database) (c : Uuid) (externalId : String) : Option Uuid :=
  (db.messageAt c externalId).map (·.id)

def parentAt (db : Database) (c : Uuid) (externalId : String) : Option Uuid :=
  (db.messageAt c externalId).bind (·.parentMessageId)

variable {db : Database} {c : Uuid} {x : String} {messageId : Uuid} {db' : Database}

theorem messageAt_spec {m : MessageRow} (h : db.messageAt c x = some m) :
    m ∈ db.messages ∧ m.conversationId = c ∧ m.externalId = x := by
  have hrow := List.find?_some h
  simp only [Bool.and_eq_true, decide_eq_true_eq] at hrow
  exact ⟨mem_of_find?_eq_some h, hrow⟩

theorem messageIdAt_inj (h : db.MessageKeys) {x y : String} {id : Uuid}
    (hx : db.messageIdAt c x = some id) (hy : db.messageIdAt c y = some id) : x = y := by
  obtain ⟨m, hm, hid⟩ := map_eq_some_iff.mp hx
  obtain ⟨n, hn, hid'⟩ := map_eq_some_iff.mp hy
  obtain ⟨hm, -, hmx⟩ := messageAt_spec hm
  obtain ⟨hn, -, hny⟩ := messageAt_spec hn
  rw [← hmx, ← hny, inj_on_of_nodup_map h.ids hm hn (hid.trans hid'.symm)]

/-! ## The first pass -/

theorem MessageKeys.upsertMessage (h : db.MessageKeys) (c : Uuid) (ordinal : Nat)
    (message : ParsedMessage) : (db.upsertMessage c ordinal message).2.MessageKeys where
  fresh m hm := by
    rcases mem_upsert hm with ⟨hm, -⟩ | ⟨r, hr, -, rfl⟩ | ⟨rfl, -⟩
    · exact Nat.lt_succ_of_lt (h.fresh m hm)
    · exact Nat.lt_succ_of_lt (h.fresh r hr)
    · exact Nat.lt_succ_self _
  ids := by
    refine nodup_map_upsert (fun _ => rfl) h.ids fun _ hmem => ?_
    obtain ⟨m, hm, hid⟩ := mem_map.mp hmem
    exact absurd hid (Nat.ne_of_lt (h.fresh m hm))
  keys := by
    refine nodup_map_upsert (fun _ => rfl) h.keys fun hnone hmem => ?_
    obtain ⟨m, hm, hkey⟩ := mem_map.mp hmem
    have hnot := hnone m hm
    simp [show m.conversationId = c from congrArg Prod.fst hkey,
      show m.externalId = message.externalId from congrArg Prod.snd hkey] at hnot

theorem upsertMessage_messageAt (c : Uuid) (ordinal : Nat) (message : ParsedMessage) (x : String) :
    (db.upsertMessage c ordinal message).2.messageAt c x =
      if x = message.externalId then some (db.upsertMessage c ordinal message).1
      else db.messageAt c x := by
  split
  · rename_i hx
    subst hx
    refine Table.find?_upsert_self ?_ ?_
    · exact fun _ => rfl
    · simp [newMessage]
  · rename_i hne
    refine Table.find?_upsert_of_disjoint ?_ ?_ ?_
    · exact fun _ => rfl
    · intro m hm
      simp only [Bool.and_eq_true, decide_eq_true_eq] at hm
      simp [hm.2, hne]
    · simp [newMessage, Ne.symm hne]

theorem upsertMessage_parent (c : Uuid) (ordinal : Nat) (message : ParsedMessage) :
    (db.upsertMessage c ordinal message).1.parentMessageId =
      db.parentAt c message.externalId := by
  simp only [upsertMessage, Table.upsert, parentAt, messageAt, freshUuid]
  cases db.messages.find? _ <;> rfl

theorem upsertMessage_id {ordinal : Nat} {message : ParsedMessage} {id : Uuid}
    (h : db.messageIdAt c message.externalId = some id) :
    (db.upsertMessage c ordinal message).1.id = id := by
  obtain ⟨m, hm, rfl⟩ := map_eq_some_iff.mp h
  rw [messageAt] at hm
  simp only [upsertMessage, Table.upsert, freshUuid, hm]
  rfl

theorem insertParts_messages (messageId : Uuid) (revision : Nat) (parts : List ParsedContentPart) :
    ∀ db : Database, (insertParts messageId revision db parts).messages = db.messages ∧
      db.nextUuid ≤ (insertParts messageId revision db parts).nextUuid := by
  induction parts with
  | nil => exact fun db => ⟨rfl, Nat.le_refl _⟩
  | cons part parts ih =>
    intro db
    obtain ⟨hmessages, hnext⟩ := ih (insertPart messageId revision db part)
    exact ⟨hmessages, Nat.le_of_succ_le hnext⟩

theorem persistParts_messages (db : Database) (messageId : Uuid) (parts : List ParsedContentPart) :
    (db.persistParts messageId parts).messages = db.messages ∧
      db.nextUuid ≤ (db.persistParts messageId parts).nextUuid := by
  unfold persistParts
  split
  · split
    · exact ⟨rfl, Nat.le_refl _⟩
    · exact insertParts_messages ..
  · exact insertParts_messages ..

theorem MessageKeys.congr (h : db.MessageKeys) (hmessages : db'.messages = db.messages)
    (hnext : db.nextUuid ≤ db'.nextUuid) : db'.MessageKeys where
  fresh m hm := Nat.lt_of_lt_of_le (h.fresh m (hmessages ▸ hm)) hnext
  ids := hmessages ▸ h.ids
  keys := hmessages ▸ h.keys

theorem messageAt_congr (hmessages : db'.messages = db.messages) (x : String) :
    db'.messageAt c x = db.messageAt c x := by
  rw [messageAt, messageAt, hmessages]

/-- What the first pass leaves: no parent is written, and the map holds the rows of the messages. -/
structure FirstPass (c : Uuid) (messages : List ParsedMessage) (ids ids' : IdMap)
    (db db' : Database) : Prop where
  keys : db'.MessageKeys
  parents : ∀ x, db'.parentAt c x = db.parentAt c x
  kept : ∀ x id, db.messageIdAt c x = some id → db'.messageIdAt c x = some id
  located : ∀ x ∈ externalIds messages, ∃ id, ids'.get? x = some id ∧ db'.messageIdAt c x = some id
  others : ∀ x, x ∉ externalIds messages → ids'.get? x = ids.get? x

theorem persistMessages_firstPass (exportId c : Uuid) (messages : List (ParsedMessage × Nat)) :
    ∀ {db : Database} {ids : IdMap}, db.MessageKeys →
      FirstPass c (messages.map (·.1)) ids (persistMessages exportId c db ids messages).2 db
        (persistMessages exportId c db ids messages).1 := by
  induction messages with
  | nil =>
    intro db ids h
    exact ⟨h, fun _ => rfl, fun _ _ hid => hid, fun _ hx => absurd hx not_mem_nil, fun _ _ => rfl⟩
  | cons head messages ih =>
    obtain ⟨message, ordinal⟩ := head
    intro db ids h
    -- the database after the message and its parts
    have hparts := persistParts_messages (db.persistMessage exportId c ordinal message).2
      (db.persistMessage exportId c ordinal message).1 message.parts
    have hwritten := (h.upsertMessage c ordinal message).congr hparts.1 hparts.2
    have hat : ∀ x, ((db.persistMessage exportId c ordinal message).2.persistParts
        (db.persistMessage exportId c ordinal message).1 message.parts).messageAt c x =
        if x = message.externalId then some (db.upsertMessage c ordinal message).1
        else db.messageAt c x :=
      fun x => (messageAt_congr hparts.1 x).trans (upsertMessage_messageAt c ordinal message x)
    have hrest := @ih _ ((message.externalId, (db.upsertMessage c ordinal message).1.id) :: ids)
      hwritten
    refine ⟨hrest.keys, fun x => (hrest.parents x).trans ?_, fun x id hid => hrest.kept x id ?_,
      fun x hx => ?_, fun x hx => ?_⟩
    · rw [parentAt, hat]
      split
      · rename_i hx
        rw [hx, bind_some, upsertMessage_parent]
      · rfl
    · rw [messageIdAt, hat]
      split
      · rename_i hx
        subst hx
        rw [map_some, upsertMessage_id hid]
      · exact hid
    · by_cases hlater : x ∈ externalIds (messages.map (·.1))
      · exact hrest.located x hlater
      · have hx : x = message.externalId := (mem_cons.mp hx).resolve_right hlater
        refine ⟨(db.upsertMessage c ordinal message).1.id, ?_, hrest.kept x _ ?_⟩
        · refine (hrest.others x hlater).trans ?_
          rw [IdMap.get?_cons, if_pos hx]
        · rw [messageIdAt, hat, if_pos hx, map_some]
    · obtain ⟨hne, hlater⟩ := not_or.mp (mt mem_cons.mpr hx)
      refine (hrest.others x hlater).trans ?_
      rw [IdMap.get?_cons, if_neg hne]

/-! ## The second pass -/

theorem setParent_messageAt (messageId parentId : Uuid) (x : String) :
    (db.setParent messageId parentId).messageAt c x =
      (db.messageAt c x).map fun m =>
        if m.id = messageId then { m with parentMessageId := some parentId } else m := by
  refine (Table.find?_updateWhere ?_ _).trans ?_
  · exact fun _ => rfl
  · simp [messageAt]

theorem setParent_messageIdAt (messageId parentId : Uuid) (x : String) :
    (db.setParent messageId parentId).messageIdAt c x = db.messageIdAt c x := by
  rw [messageIdAt, setParent_messageAt, Option.map_map, messageIdAt]
  refine congrArg (Option.map · _) (funext fun m => ?_)
  simp only [Function.comp_apply]
  split <;> rfl

theorem setParent_parentAt_self (hid : db.messageIdAt c x = some messageId) (parentId : Uuid) :
    (db.setParent messageId parentId).parentAt c x = some parentId := by
  obtain ⟨m, hm, rfl⟩ := map_eq_some_iff.mp hid
  rw [parentAt, setParent_messageAt, hm, map_some, if_pos rfl]
  rfl

theorem setParent_parentAt_of_ne (hid : db.messageIdAt c x ≠ some messageId) (parentId : Uuid) :
    (db.setParent messageId parentId).parentAt c x = db.parentAt c x := by
  rw [parentAt, setParent_messageAt, parentAt]
  cases hm : db.messageAt c x with
  | none => rfl
  | some m =>
    rw [map_some, if_neg]
    rintro rfl
    exact hid (by rw [messageIdAt, hm, map_some])

theorem MessageKeys.setParent (h : db.MessageKeys) (messageId parentId : Uuid) :
    (db.setParent messageId parentId).MessageKeys where
  fresh m hm := by
    rcases mem_updateWhere.mp hm with ⟨hm, -⟩ | ⟨r, hr, -, rfl⟩
    · exact h.fresh m hm
    · exact h.fresh r hr
  ids := nodup_map_updateWhere h.ids fun _ => rfl
  keys := nodup_map_updateWhere h.keys fun _ => rfl

/-- Each message sets its own link; one whose parent is not found leaves it. -/
theorem linkParents_parentAt {ids : IdMap} (messages : List ParsedMessage) :
    ∀ {db : Database}, db.MessageKeys → (externalIds messages).Nodup →
      (∀ n ∈ messages, ∃ id, ids.get? n.externalId = some id ∧
        db.messageIdAt c n.externalId = some id) →
      (∀ x, (linkParents ids db messages).messageIdAt c x = db.messageIdAt c x) ∧
      (∀ x, x ∉ externalIds messages →
        (linkParents ids db messages).parentAt c x = db.parentAt c x) ∧
      ∀ n ∈ messages, (linkParents ids db messages).parentAt c n.externalId =
        (n.parentExternalId.bind ids.get?).or (db.parentAt c n.externalId) := by
  induction messages with
  | nil => exact fun _ _ _ => ⟨fun _ => rfl, fun _ _ => rfl, fun _ hn => absurd hn not_mem_nil⟩
  | cons message messages ih =>
    intro db h hdistinct hlocated
    obtain ⟨hfirst, hdistinct⟩ := nodup_cons.mp hdistinct
    obtain ⟨messageId, hget, hid⟩ := hlocated message mem_cons_self
    have hlater := fun n hn => hlocated n (mem_cons_of_mem _ hn)
    cases hparent : message.parentExternalId.bind ids.get? with
    | none =>
      have hskip : linkParents ids db (message :: messages) = linkParents ids db messages := by
        rw [linkParents, hget, hparent]
      rw [hskip]
      obtain ⟨hids, hothers, hlinked⟩ := ih h hdistinct hlater
      refine ⟨hids, fun x hx => hothers x (mt (mem_cons_of_mem _) hx), fun n hn => ?_⟩
      rcases mem_cons.mp hn with rfl | hn
      · rw [hparent, none_or]
        exact hothers _ hfirst
      · exact hlinked n hn
    | some parentId =>
      have hlink : linkParents ids db (message :: messages) =
          linkParents ids (db.setParent messageId parentId) messages := by
        rw [linkParents, hget, hparent]
      have hapart : ∀ x, x ≠ message.externalId →
          (db.setParent messageId parentId).parentAt c x = db.parentAt c x :=
        fun x hx => setParent_parentAt_of_ne (fun hid' => hx (messageIdAt_inj h hid' hid)) parentId
      rw [hlink]
      obtain ⟨hids, hothers, hlinked⟩ := ih (h.setParent messageId parentId) hdistinct
        fun n hn => by
          obtain ⟨id, hget, hid⟩ := hlater n hn
          exact ⟨id, hget, (setParent_messageIdAt ..).trans hid⟩
      refine ⟨fun x => (hids x).trans (setParent_messageIdAt ..), fun x hx => ?_, fun n hn => ?_⟩
      · obtain ⟨hne, hx⟩ := not_or.mp (mt mem_cons.mpr hx)
        exact (hothers x hx).trans (hapart x hne)
      · rcases mem_cons.mp hn with rfl | hn
        · rw [hparent, some_or]
          exact (hothers _ hfirst).trans (setParent_parentAt_self hid parentId)
        · have hne : n.externalId ≠ message.externalId := fun heq =>
            hfirst (mem_map.mpr ⟨n, hn, heq⟩)
          rw [hlinked n hn, hapart _ hne]

/-! ## The stored graph -/

def presentedParent (db : Database) (c : Uuid) (messages : List ParsedMessage)
    (message : ParsedMessage) : Option Uuid :=
  message.parentExternalId.bind fun x =>
    if x ∈ externalIds messages then db.messageIdAt c x else none

/-- What the writer makes of the parents: those the parse resolves, and for the others what the
row had before. -/
theorem persistConversationDetail_parentAt (h : db.MessageKeys) (exportId c : Uuid)
    (projectId : Option Uuid) (conversation : ParsedConversation) (parser : ParserId)
    (hdistinct : (externalIds conversation.messages).Nodup) {n : ParsedMessage}
    (hn : n ∈ conversation.messages) :
    let after := db.persistConversationDetail exportId c projectId conversation parser
    (∃ id, after.messageIdAt c n.externalId = some id) ∧
      after.parentAt c n.externalId = (after.presentedParent c conversation.messages n).or
        (db.parentAt c n.externalId) ∧
      ((after.presentedParent c conversation.messages n).isSome = true ↔
        ∃ x, GivesParent conversation.messages n x) := by
  intro after
  have hheader : (db.updateConversationHeader exportId c projectId conversation parser).MessageKeys :=
    ⟨h.fresh, h.ids, h.keys⟩
  have hfirst := @persistMessages_firstPass exportId c conversation.messages.zipIdx _ [] hheader
  rw [zipIdx_map_fst] at hfirst
  have hlocated : ∀ n ∈ conversation.messages, ∃ id, _ := fun n hn =>
    hfirst.located n.externalId (mem_map_of_mem hn)
  obtain ⟨hids, -, hlinked⟩ := linkParents_parentAt conversation.messages hfirst.keys hdistinct
    hlocated
  -- the map resolves exactly the messages of the parse, to their rows
  have hget : ∀ x, (persistMessages exportId c
      (db.updateConversationHeader exportId c projectId conversation parser) []
      conversation.messages.zipIdx).2.get? x =
      if x ∈ externalIds conversation.messages then after.messageIdAt c x else none := by
    intro x
    split
    · rename_i hx
      obtain ⟨id, hget, hid⟩ := hfirst.located x hx
      rw [hget]
      exact ((hids x).trans hid).symm
    · rename_i hx
      exact hfirst.others x hx
  have hbind : n.parentExternalId.bind (persistMessages exportId c
      (db.updateConversationHeader exportId c projectId conversation parser) []
      conversation.messages.zipIdx).2.get? =
      after.presentedParent c conversation.messages n := by
    rw [presentedParent]
    exact congrArg _ (funext hget)
  refine ⟨?_, ?_, ?_⟩
  · obtain ⟨id, -, hid⟩ := hlocated n hn
    exact ⟨id, (hids _).trans hid⟩
  · rw [← hbind]
    exact (hlinked n hn).trans (congrArg _ (hfirst.parents _))
  · rw [presentedParent]
    constructor
    · intro hsome
      obtain ⟨id, hid⟩ := isSome_iff_exists.mp hsome
      obtain ⟨x, hx, hid⟩ := bind_eq_some_iff.mp hid
      split at hid
      · exact ⟨x, hx, ‹_›⟩
      · cases hid
    · rintro ⟨x, hx, hmem⟩
      obtain ⟨id, -, hid⟩ := hfirst.located x hmem
      rw [hx, bind_some, if_pos hmem, show after.messageIdAt c x = some id from (hids x).trans hid]
      rfl

/-- The stored parents are those of the parse exactly when no message that the parse leaves
without a parent has one stored already. -/
theorem persistConversationDetail_parents_iff (h : db.MessageKeys) (exportId c : Uuid)
    (projectId : Option Uuid) (conversation : ParsedConversation) (parser : ParserId)
    (hdistinct : (externalIds conversation.messages).Nodup) :
    let after := db.persistConversationDetail exportId c projectId conversation parser
    (∀ n ∈ conversation.messages, ∃ m, after.messageAt c n.externalId = some m ∧
        m.parentMessageId = after.presentedParent c conversation.messages n) ↔
      ∀ n ∈ conversation.messages, (∀ x, ¬GivesParent conversation.messages n x) →
        db.parentAt c n.externalId = none := by
  intro after
  refine forall₂_congr fun n hn => ?_
  obtain ⟨⟨id, hid⟩, hparent, hresolved⟩ :=
    persistConversationDetail_parentAt h exportId c projectId conversation parser hdistinct hn
  obtain ⟨m, hm, -⟩ := Option.map_eq_some_iff.mp hid
  have hrow : after.parentAt c n.externalId = m.parentMessageId := by
    rw [parentAt, hm, Option.bind_some]
  rw [hrow] at hparent
  cases hpresented : after.presentedParent c conversation.messages n with
  | some p =>
    rw [hpresented] at hparent hresolved
    constructor
    · intro _ hnone
      obtain ⟨x, hx⟩ := hresolved.mp rfl
      exact absurd hx (hnone x)
    · exact fun _ => ⟨m, hm, hparent⟩
  | none =>
    rw [hpresented, Option.none_or] at hparent
    have hunresolved : ∀ x, ¬GivesParent conversation.messages n x := by
      intro x hx
      have hsome := hresolved.mpr ⟨x, hx⟩
      rw [hpresented] at hsome
      cases hsome
    constructor
    · rintro ⟨m', hm', hnone⟩ -
      rw [hm', Option.some.injEq] at hm
      rw [← hparent, ← hm, hnone]
    · exact fun hnone => ⟨m, hm, hparent.trans (hnone hunresolved)⟩

def twoMessages (parent : Option String) : ParsedConversation :=
  let message (externalId : String) (parent : Option String) : ParsedMessage :=
    ⟨externalId, parent, .user, none, none, none, .null, []⟩
  ⟨"c", none, none, none, .null, [message "p" none, message "m" parent]⟩

theorem twoMessages_parents_linked :
    let after := empty.persistConversationDetail 1 2 none (twoMessages (some "p")) ⟨"parser", "1"⟩
    (∀ n ∈ (twoMessages (some "p")).messages, ∃ m, after.messageAt 2 n.externalId = some m ∧
        m.parentMessageId = after.presentedParent 2 (twoMessages (some "p")).messages n) ↔
      ∀ n ∈ (twoMessages (some "p")).messages,
        (∀ x, ¬GivesParent (twoMessages (some "p")).messages n x) →
          empty.parentAt 2 n.externalId = none :=
  persistConversationDetail_parents_iff MessageKeys.empty 1 2 none (twoMessages (some "p"))
    ⟨"parser", "1"⟩ (by decide)

/-- A second parse that presents the message as a root leaves it under its former parent. -/
theorem twoMessages_parent_kept :
    let first := empty.persistConversationDetail 1 2 none (twoMessages (some "p")) ⟨"parser", "1"⟩
    let after := first.persistConversationDetail 3 2 none (twoMessages none) ⟨"parser", "1"⟩
    (after.messageAt 2 "m").map (·.parentMessageId) = some (after.messageIdAt 2 "p") ∧
      after.messageIdAt 2 "p" = some 0 ∧
      ∀ n ∈ (twoMessages none).messages,
        after.presentedParent 2 (twoMessages none).messages n = none := by
  decide +kernel

end Database

end ChatgptArchive
