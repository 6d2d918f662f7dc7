import ChatgptArchive.Pointer
import ChatgptArchive.SyntheticParser.Input

/-!
# The synthetic parser

Normalized records of the typed input. What no record holds is recorded raw with its path in the
document; each function returns the raw records it adds.
-/

namespace ChatgptArchive

def syntheticSchemaId : String := "chatgpt.synthetic.conversations-json"

def childPath (path segment : String) : String := Pointer.child path segment

def recordExtra (path : String) (values : List (String × Value)) : List RawRecord :=
  values.map fun (key, payload) => ⟨childPath path key, payload⟩

def recordUnknownParts (contentPath : String) (parts : List ParsedContentPart) : List RawRecord :=
  -- the parts of a kind the parser does not know are recorded as well
  (parts.filter (·.kind = .unknown)).map fun part =>
    ⟨childPath (childPath contentPath "parts") (toString part.ordinal), part.payload⟩

def parseMessage (input : MessageInput) (parentExternalId : Option String) (mappingPath : String) :
    ParsedMessage × List RawRecord :=
  let path := childPath mappingPath "message"
  let role := normalizeRole input.author.role
  ({ externalId := input.id, parentExternalId, role
     createdAtEpochSeconds := input.createTime, updatedAtEpochSeconds := input.updateTime
     modelSlug := input.metadata.modelSlug, providerMetadata := .object input.extra
     parts := parseParts input.content.parts },
    recordExtra path input.extra ++
    recordExtra (childPath path "author") input.author.extra ++
    recordExtra (childPath path "metadata") input.metadata.extra ++
    recordExtra (childPath path "content") input.content.extra ++
    (if role = .unknown then
      [⟨childPath (childPath path "author") "role", .string input.author.role⟩] else []) ++
    recordUnknownParts (childPath path "content") (parseParts input.content.parts))

def parseMapping (input : MappingInput) (mappingPath key : String) :
    Option ParsedMessage × List RawRecord :=
  -- a node repeats its mapping key; only an id that disagrees with the key is recorded
  let path := childPath mappingPath key
  let records := recordExtra path input.extra ++
    ((input.id.filter (· ≠ key)).map fun id =>
      (⟨childPath path "id", .string id⟩ : RawRecord)).toList
  match input.message with
  | none => (none, records)
  | some message =>
    let (message, added) := parseMessage message input.parent path
    (some message, records ++ added)

def parseConversation (input : ConversationInput) (index : Nat) :
    ParsedConversation × List RawRecord :=
  let path := "/" ++ toString index
  let nodes := input.mapping.map fun (key, item) =>
    parseMapping item (childPath path "mapping") key
  ({ externalId := input.id, title := input.title
     createdAtEpochSeconds := input.createTime, updatedAtEpochSeconds := input.updateTime
     providerMetadata := .object input.extra, messages := nodes.filterMap (·.1) },
    recordExtra path input.extra ++ nodes.flatMap (·.2))

def instructionKind (kind : String) : InstructionKind :=
  if kind = "instruction" then .instruction
  else if kind = "system_prompt" then .systemPrompt
  else .unknown

def parseInstruction (input : InstructionInput) (ordinal : Nat) (projectPath : String) :
    ParsedInstruction × List RawRecord :=
  let path := childPath (childPath projectPath "instructions") (toString ordinal)
  let kind := instructionKind input.kind
  ({ externalId := input.id, ordinal, kind, content := input.content
     providerMetadata := .object input.extra },
    recordExtra path input.extra ++
    (if kind = .unknown then [⟨childPath path "kind", .string input.kind⟩] else []))

def parseProject (input : ProjectInput) (index : Nat) : ParsedProject × List RawRecord :=
  let path := "/projects/" ++ toString index
  let instructions := input.instructions.zipIdx.map fun (instruction, ordinal) =>
    parseInstruction instruction ordinal path
  ({ externalId := input.id, title := input.title, description := input.description
     instructions := instructions.map (·.1), conversationExternalIds := input.conversationIds
     assetExternalIds := input.assetIds, providerMetadata := .object input.extra },
    recordExtra path input.extra ++ instructions.flatMap (·.2))

def parseCanvasDocument (input : CanvasInput) (index : Nat) :
    ParsedCanvasDocument × List RawRecord :=
  ({ externalId := input.id, projectExternalId := input.projectId
     conversationExternalId := input.conversationId, content := input.content
     providerMetadata := .object input.extra },
    recordExtra ("/canvas/" ++ toString index) input.extra)

def parseEach {α β : Type} (parse : α → Nat → β × List RawRecord) (inputs : List α) :
    List β × List RawRecord :=
  -- the records of a list and what is recorded raw of them, in the order of the list
  let parsed := inputs.zipIdx.map fun (input, index) => parse input index
  (parsed.map (·.1), parsed.flatMap (·.2))

/-- The records of an archive without its assets; an archive need not have a project list and
Canvas documents. A document the parser cannot read is refused. -/
def parseArchive (number : String → Epoch) (conversations : Value) (projects canvas : Option Value)
    (parser : ParserId) : Option ParsedConversations := do
  let conversations ← listOf (conversationInput number) conversations
  let projects ← (projects.elim (some []) (listOf projectInput))
  let canvas ← (canvas.elim (some []) (listOf canvasInput))
  let (conversations, conversationRecords) := parseEach parseConversation conversations
  let (projects, projectRecords) := parseEach parseProject projects
  let (canvasDocuments, canvasRecords) := parseEach parseCanvasDocument canvas
  return { schemaId := syntheticSchemaId, parser, conversations, projects, canvasDocuments
           assets := [], rawRecords := conversationRecords ++ projectRecords ++ canvasRecords }

end ChatgptArchive
