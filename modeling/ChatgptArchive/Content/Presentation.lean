import ChatgptArchive.Integrity.Import

/-!
# Presenting a conversation

What persisting one conversation of a plan does: the export of the plan names the version it
presents, and the conversation is read unchanged or rewritten.
-/

namespace ChatgptArchive

def externalIds (messages : List ParsedMessage) : List String := messages.map (·.externalId)

def GivesParent (messages : List ParsedMessage) (message : ParsedMessage) (parent : String) :
    Prop :=
  message.parentExternalId = some parent ∧ parent ∈ externalIds messages

namespace Database

def conversationNamed (db : Database) (plan : ReparsePlan) (conversation : ParsedConversation) :
    Database :=
  let (row, db) := db.upsertConversation plan.tenantId conversation.externalId
  db.observe plan.exportId .conversation row.id (conversationDigest conversation)

def conversationKept (db : Database) (plan : ReparsePlan) (conversation : ParsedConversation) :
    Database :=
  let row := (db.upsertConversation plan.tenantId conversation.externalId).1
  ((db.conversationNamed plan conversation).appendRevision row.id plan.exportId
    (conversationDigest conversation) plan.targetParser).keepConversationVersion row.id
    (conversationDigest conversation) (presentedConversation plan conversation)

theorem persistConversation_cases (db : Database) (plan : ReparsePlan) (projects : IdMap)
    (conversation : ParsedConversation) :
    ((db.upsertConversation plan.tenantId conversation.externalId).1.contentDigest =
        some (conversationDigest conversation) ∧
      db.persistConversation plan projects conversation =
        ((db.conversationNamed plan conversation).markConversationSeen
          (db.upsertConversation plan.tenantId conversation.externalId).1.id
          plan.exportId).observePresented plan.exportId
          (db.upsertConversation plan.tenantId conversation.externalId).1.id
          (externalIds conversation.messages)) ∨
    ((db.upsertConversation plan.tenantId conversation.externalId).1.contentDigest ≠
        some (conversationDigest conversation) ∧
      db.persistConversation plan projects conversation =
        (db.conversationKept plan conversation).persistConversationDetail plan.exportId
          (db.upsertConversation plan.tenantId conversation.externalId).1.id
          (projectOfConversation plan.parsed projects conversation.externalId) conversation
          plan.targetParser) := by
  by_cases hdigest : (db.upsertConversation plan.tenantId conversation.externalId).1.contentDigest =
      some (conversationDigest conversation)
  · exact .inl ⟨hdigest, if_pos hdigest⟩
  · exact .inr ⟨hdigest, if_neg hdigest⟩

end Database

end ChatgptArchive
