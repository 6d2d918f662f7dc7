import ChatgptArchive.Content.Parents
import ChatgptArchive.Reconciliation.Core
import ChatgptArchive.SyntheticParser.Decode

/-!
# The parsed tree

A node of a conversation names its parent by the parent's mapping key, and the parser takes the name
over as the provider id of the parent message.
-/

namespace ChatgptArchive

open List

variable {input : ConversationInput}

/-- A node of the conversation with a message, and the node with a message that it names as its
parent. -/
structure Hangs (input : ConversationInput) (child parent : MessageInput) (parentKey : String) :
    Prop where
  node : ∃ key id extra, (key, ⟨id, some parentKey, some child, extra⟩) ∈ input.mapping
  parent : ∃ item, (parentKey, item) ∈ input.mapping ∧ item.message = some parent

theorem mem_messages_of_node (index : Nat) {key : String} {item : MappingInput}
    {message : MessageInput} (hitem : (key, item) ∈ input.mapping)
    (hmessage : item.message = some message) :
    ∃ m ∈ (parseConversation input index).1.messages,
      m.externalId = message.id ∧ m.parentExternalId = item.parent := by
  refine ⟨(parseMessage message item.parent
    (childPath (childPath ("/" ++ toString index) "mapping") key)).1, ?_, rfl, rfl⟩
  refine mem_filterMap.mpr ⟨_, mem_map.mpr ⟨(key, item), hitem, rfl⟩, ?_⟩
  simp only [parseMapping, hmessage]

/-- A parent that the graph check finds in the conversation, whatever other conversations the archive
lists. A warning names its conversation by the provider id, which no other one may have. -/
def ParentFound (conversation : ParsedConversation) (message : ParsedMessage) : Prop :=
  ∀ (archiveId : String) (parsed : ParsedConversations),
    (∀ other ∈ parsed.conversations, other.externalId = conversation.externalId →
      other = conversation) →
    ∀ w ∈ (graphEvidence ⟨archiveId, parsed⟩).warnings,
      w.conversationExternalId = conversation.externalId →
      w.messageExternalId = some message.externalId → w.code = .selfParent

/-- A parent that the writer links to the row of the message with the provider id. -/
def ParentLinked (conversation : ParsedConversation) (message : ParsedMessage) (parent : String) :
    Prop :=
  ∀ (db : Database), db.MessageKeys → ∀ (exportId c : Uuid) (projectId : Option Uuid)
    (parser : ParserId),
    let after := db.persistConversationDetail exportId c projectId conversation parser
    ∃ id, after.messageIdAt c parent = some id ∧ after.parentAt c message.externalId = some id

variable {conversation : ParsedConversation} {message : ParsedMessage} {parent : String}

theorem parentLinked_of_named (hdistinct : (externalIds conversation.messages).Nodup)
    (hmessage : message ∈ conversation.messages) (hnamed : message.parentExternalId = some parent)
    (hparent : parent ∈ externalIds conversation.messages) :
    ParentLinked conversation message parent := by
  intro db h exportId c projectId parser after
  obtain ⟨-, hlinked, -⟩ := Database.persistConversationDetail_parentAt h exportId c projectId
    conversation parser hdistinct hmessage
  obtain ⟨p, hp, rfl⟩ := mem_map.mp hparent
  obtain ⟨⟨id, hid⟩, -, -⟩ := Database.persistConversationDetail_parentAt h exportId c projectId
    conversation parser hdistinct hp
  refine ⟨id, hid, ?_⟩
  rw [hlinked, Database.presentedParent, hnamed, Option.bind_some, if_pos hparent, hid]
  rfl

theorem parentFound_of_named (hdistinct : (externalIds conversation.messages).Nodup)
    (hmessage : message ∈ conversation.messages) (hnamed : message.parentExternalId = some parent)
    (hparent : parent ∈ externalIds conversation.messages) :
    ParentFound conversation message := by
  intro archiveId parsed hunique w hw hconversation hid
  simp only [graphEvidence, mem_insertionSort] at hw
  obtain ⟨found, hfound, rfl⟩ := mem_map.mp hw
  obtain ⟨other, hother, hfound⟩ := mem_flatMap.mp hfound
  obtain ⟨m, hm, hcode⟩ := mem_filterMap.mp hfound
  obtain ⟨p, hp, hcode⟩ := Option.bind_eq_some_iff.mp hcode
  obtain ⟨code, hwarning, heq⟩ := Option.bind_eq_some_iff.mp hcode
  cases heq
  obtain rfl := hunique other hother hconversation
  obtain rfl : m = message :=
    inj_on_of_nodup_map hdistinct hm hmessage (Option.some.inj hid)
  rw [hp, Option.some.injEq] at hnamed
  subst hnamed
  unfold parentWarning at hwarning
  split at hwarning
  · exact (Option.some.inj hwarning).symm
  · rw [externalIds] at hparent
    rw [if_pos (contains_iff_mem.mpr hparent)] at hwarning
    cases hwarning

/-- The tree of the mapping is kept at a node exactly when the key that names its parent is the id
of the parent's message. -/
theorem parsed_tree_iff (input : ConversationInput) (index : Nat)
    (hdistinct : (externalIds (parseConversation input index).1.messages).Nodup)
    {child parent : MessageInput} {parentKey : String} (hangs : Hangs input child parent parentKey) :
    (∃ message ∈ (parseConversation input index).1.messages, message.externalId = child.id ∧
        message.parentExternalId = some parent.id ∧
        ParentLinked (parseConversation input index).1 message parent.id ∧
        ParentFound (parseConversation input index).1 message) ↔
      parentKey = parent.id := by
  obtain ⟨key, id, extra, hnode⟩ := hangs.node
  obtain ⟨item, hitem, hitemMessage⟩ := hangs.parent
  obtain ⟨m, hm, hmid, hmparent⟩ := mem_messages_of_node index hnode rfl
  obtain ⟨p, hp, hpid, -⟩ := mem_messages_of_node index hitem hitemMessage
  constructor
  · rintro ⟨message, hmessage, hid, hnamed, -, -⟩
    have heq := List.inj_on_of_nodup_map hdistinct hmessage hm (hid.trans hmid.symm)
    rw [heq, hmparent] at hnamed
    exact Option.some.inj hnamed
  · rintro rfl
    have hparent : parent.id ∈ externalIds (parseConversation input index).1.messages :=
      List.mem_map.mpr ⟨p, hp, hpid⟩
    exact ⟨m, hm, hmid, hmparent, parentLinked_of_named hdistinct hm hmparent hparent,
      parentFound_of_named hdistinct hm hmparent hparent⟩

def twoNodes (first second : String) : Value :=
  let message (id : String) : Value := .object [("id", .string id),
    ("author", .object [("role", .string "user")]), ("content", .object [("parts", .array [])])]
  .object [("id", .string "conv-a"), ("mapping", .object [
    ("node-1", .object [("id", .string "node-1"), ("parent", .null), ("message", message first)]),
    ("node-2", .object [("id", .string "node-2"), ("parent", .string "node-1"),
      ("message", message second)])])]

def emptyMessage (id : String) : MessageInput :=
  ⟨id, ⟨"user", []⟩, none, none, ⟨none, []⟩, ⟨[], []⟩, []⟩

def twoNodesInput (first second : String) : ConversationInput :=
  ⟨"conv-a", none, none, none,
    [("node-1", ⟨some "node-1", none, some (emptyMessage first), []⟩),
      ("node-2", ⟨some "node-2", some "node-1", some (emptyMessage second), []⟩)], []⟩

theorem twoNodesInput_hangs (first second : String) :
    Hangs (twoNodesInput first second) (emptyMessage second) (emptyMessage first) "node-1" :=
  ⟨⟨"node-2", some "node-2", [], mem_cons_of_mem _ mem_cons_self⟩,
    ⟨_, mem_cons_self, rfl⟩⟩

/-- Where the keys are the ids of the messages, the second message is under the first. -/
theorem twoNodes_resolved :
    conversationInput (fun _ => 0) (twoNodes "node-1" "node-2") =
        some (twoNodesInput "node-1" "node-2") ∧
      ∃ message ∈ (parseConversation (twoNodesInput "node-1" "node-2") 0).1.messages,
        message.externalId = "node-2" ∧ message.parentExternalId = some "node-1" ∧
        ParentLinked (parseConversation (twoNodesInput "node-1" "node-2") 0).1 message "node-1" ∧
        ParentFound (parseConversation (twoNodesInput "node-1" "node-2") 0).1 message :=
  ⟨by decide +kernel, (parsed_tree_iff (twoNodesInput "node-1" "node-2") 0 (by decide)
    (twoNodesInput_hangs "node-1" "node-2")).mpr rfl⟩

/-- Where they are not, the second message names none of the messages as its parent, and the graph
check reports that its parent is missing. -/
theorem twoNodes_unresolved :
    let parsed := parseConversation (twoNodesInput "message-1" "message-2") 0
    conversationInput (fun _ => 0) (twoNodes "message-1" "message-2") =
        some (twoNodesInput "message-1" "message-2") ∧
      parsed.1.messages.map (fun m => (m.externalId, m.parentExternalId)) =
        [("message-1", none), ("message-2", some "node-1")] ∧
      (graphEvidence ⟨"archive", .ofRecords [] [parsed.1]⟩).warnings =
        [⟨.missingParent, "conv-a", some "message-2"⟩] := by
  decide +kernel

end ChatgptArchive
