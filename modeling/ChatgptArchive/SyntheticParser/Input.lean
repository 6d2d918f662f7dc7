import ChatgptArchive.Members
import ChatgptArchive.Parsed

/-!
# The input of the synthetic parser

What the parser reads of the documents of an archive: typed fields, and the members that no field
reads as `extra`. A document is given as a tree whose objects list their members in the order of the
document; the parser's maps list them by key.

`number` is the value that the parser gives to a number where it reads a time.
-/

namespace ChatgptArchive

open Value

namespace Value

variable {fields : List (String × Value)}

mutual

def ordered : Value → Value
  | array values => array (orderedValues values)
  | object fields => object (Members.sorted (orderedFields fields))
  | null => null
  | bool value => bool value
  | number text => number text
  | string text => string text

def orderedValues : List Value → List Value
  | [] => []
  | value :: values => ordered value :: orderedValues values

def orderedFields : List (String × Value) → List (String × Value)
  | [] => []
  | (key, value) :: fields => (key, ordered value) :: orderedFields fields

end

mutual

def Distinct : Value → Prop
  | array values => DistinctValues values
  | object fields => (fields.map (·.1)).Nodup ∧ DistinctFields fields
  | _ => True

def DistinctValues : List Value → Prop
  | [] => True
  | value :: values => value.Distinct ∧ DistinctValues values

def DistinctFields : List (String × Value) → Prop
  | [] => True
  | (_, value) :: fields => value.Distinct ∧ DistinctFields fields

end

theorem orderedFields_eq_map (fields : List (String × Value)) :
    orderedFields fields = fields.map fun field => (field.1, field.2.ordered) := by
  induction fields with
  | nil => rw [orderedFields, List.map_nil]
  | cons field fields ih => rw [orderedFields, ih, List.map_cons]

theorem orderedValues_eq_map (values : List Value) :
    orderedValues values = values.map ordered := by
  induction values with
  | nil => rw [orderedValues, List.map_nil]
  | cons value values ih => rw [orderedValues, ih, List.map_cons]

theorem distinct_of_lookup (h : DistinctFields fields) {key : String} {value : Value}
    (hlookup : fields.lookup key = some value) : value.Distinct := by
  induction fields with
  | nil => cases hlookup
  | cons field fields ih =>
    rw [DistinctFields] at h
    rw [List.lookup_cons] at hlookup
    split at hlookup
    · exact Option.some.inj hlookup ▸ h.1
    · exact ih h.2 hlookup

theorem distinct_of_mem {values : List Value} (h : DistinctValues values) {value : Value}
    (hmem : value ∈ values) : value.Distinct := by
  induction values with
  | nil => exact absurd hmem List.not_mem_nil
  | cons first values ih =>
    rw [DistinctValues] at h
    rcases List.mem_cons.mp hmem with rfl | hmem
    · exact h.1
    · exact ih h.2 hmem

theorem distinct_object :
    (object fields).Distinct ↔ (fields.map (·.1)).Nodup ∧ DistinctFields fields := by
  rw [Distinct]

def asObject : Value → Option (List (String × Value))
  | object fields => some fields
  | _ => none

def asArray : Value → Option (List Value)
  | array values => some values
  | _ => none

end Value

/-! ## Typed fields -/

structure AuthorInput where
  role : String
  extra : List (String × Value)
  deriving DecidableEq, Repr

structure MetadataInput where
  modelSlug : Option String
  extra : List (String × Value)
  deriving DecidableEq, Repr

structure ContentInput where
  parts : List Value
  extra : List (String × Value)
  deriving DecidableEq, Repr

structure MessageInput where
  id : String
  author : AuthorInput
  createTime : Option Epoch
  updateTime : Option Epoch
  metadata : MetadataInput
  content : ContentInput
  extra : List (String × Value)
  deriving DecidableEq, Repr

structure MappingInput where
  id : Option String
  parent : Option String
  message : Option MessageInput
  extra : List (String × Value)
  deriving DecidableEq, Repr

structure ConversationInput where
  id : String
  title : Option String
  createTime : Option Epoch
  updateTime : Option Epoch
  /-- The nodes by key. -/
  mapping : List (String × MappingInput)
  extra : List (String × Value)
  deriving DecidableEq, Repr

structure InstructionInput where
  id : Option String
  kind : String
  content : Value
  extra : List (String × Value)
  deriving DecidableEq, Repr

structure ProjectInput where
  id : String
  title : Option String
  description : Option String
  instructions : List InstructionInput
  conversationIds : List String
  assetIds : List String
  extra : List (String × Value)
  deriving DecidableEq, Repr

structure CanvasInput where
  id : String
  projectId : Option String
  conversationId : Option String
  content : List Value
  extra : List (String × Value)
  deriving DecidableEq, Repr

/-! ## Reading -/

section Read

variable {α : Type}

def required (read : Value → Option α) (member : Option Value) : Option α := member.bind read

def optional (read : Value → Option α) : Option Value → Option (Option α)
  | none | some .null => some none
  | some value => (read value).map some

def defaulted (read : Value → Option α) (default : α) : Option Value → Option α
  -- a field with a default is read when it is there; `null` is no default
  | none => some default
  | some value => read value

def each (read : Value → Option α) : List Value → Option (List α)
  | [] => some []
  | value :: values => do
    let first ← read value
    let rest ← each read values
    return first :: rest

def eachMember (read : Value → Option α) : List (String × Value) → Option (List (String × α))
  | [] => some []
  | (key, value) :: fields => do
    let first ← read value
    let rest ← eachMember read fields
    return (key, first) :: rest

def listOf (read : Value → Option α) (value : Value) : Option (List α) :=
  value.asArray.bind (each read)

def extraOf (known : List String) (fields : List (String × Value)) : List (String × Value) :=
  Members.sorted (orderedFields (fields.filter fun field => !known.contains field.1))

end Read

def authorInput (value : Value) : Option AuthorInput := do
  let fields ← value.asObject
  let role ← required asStr (fields.lookup "role")
  return { role, extra := extraOf ["role"] fields }

def metadataInput (value : Value) : Option MetadataInput := do
  let fields ← value.asObject
  let modelSlug ← optional asStr (fields.lookup "model_slug")
  return { modelSlug, extra := extraOf ["model_slug"] fields }

def contentInput (value : Value) : Option ContentInput := do
  let fields ← value.asObject
  let parts ← required asArray (fields.lookup "parts")
  return { parts := orderedValues parts, extra := extraOf ["parts"] fields }

section Times

variable (number : String → Epoch)

def timeOf : Value → Option Epoch
  | .number text => some (number text)
  | _ => none

def messageInput (value : Value) : Option MessageInput := do
  let fields ← value.asObject
  let id ← required asStr (fields.lookup "id")
  let author ← required authorInput (fields.lookup "author")
  let createTime ← optional (timeOf number) (fields.lookup "create_time")
  let updateTime ← optional (timeOf number) (fields.lookup "update_time")
  let metadata ← defaulted metadataInput ⟨none, []⟩ (fields.lookup "metadata")
  let content ← required contentInput (fields.lookup "content")
  return { id, author, createTime, updateTime, metadata, content
           extra := extraOf ["id", "author", "create_time", "update_time", "metadata", "content"]
             fields }

def mappingInput (value : Value) : Option MappingInput := do
  let fields ← value.asObject
  let id ← optional asStr (fields.lookup "id")
  let parent ← optional asStr (fields.lookup "parent")
  let message ← optional (messageInput number) (fields.lookup "message")
  return { id, parent, message, extra := extraOf ["id", "parent", "message"] fields }

def mappingOf (value : Value) : Option (List (String × MappingInput)) := do
  let fields ← value.asObject
  let nodes ← eachMember (mappingInput number) fields
  return Members.sorted nodes

def conversationInput (value : Value) : Option ConversationInput := do
  let fields ← value.asObject
  let id ← required asStr (fields.lookup "id")
  let title ← optional asStr (fields.lookup "title")
  let createTime ← optional (timeOf number) (fields.lookup "create_time")
  let updateTime ← optional (timeOf number) (fields.lookup "update_time")
  let mapping ← required (mappingOf number) (fields.lookup "mapping")
  return { id, title, createTime, updateTime, mapping
           extra := extraOf ["id", "title", "create_time", "update_time", "mapping"] fields }

end Times

def instructionInput (value : Value) : Option InstructionInput := do
  let fields ← value.asObject
  let id ← optional asStr (fields.lookup "id")
  let kind ← required asStr (fields.lookup "kind")
  let content ← required some (fields.lookup "content")
  return { id, kind, content := content.ordered, extra := extraOf ["id", "kind", "content"] fields }

def projectInput (value : Value) : Option ProjectInput := do
  let fields ← value.asObject
  let id ← required asStr (fields.lookup "id")
  let title ← optional asStr (fields.lookup "title")
  let description ← optional asStr (fields.lookup "description")
  let instructions ← defaulted (listOf instructionInput) [] (fields.lookup "instructions")
  let conversationIds ← defaulted (listOf asStr) [] (fields.lookup "conversation_ids")
  let assetIds ← defaulted (listOf asStr) [] (fields.lookup "asset_ids")
  return { id, title, description, instructions, conversationIds, assetIds
           extra := extraOf ["id", "title", "description", "instructions", "conversation_ids",
             "asset_ids"] fields }

def canvasInput (value : Value) : Option CanvasInput := do
  let fields ← value.asObject
  let id ← required asStr (fields.lookup "id")
  let projectId ← optional asStr (fields.lookup "project_id")
  let conversationId ← optional asStr (fields.lookup "conversation_id")
  let content ← required asArray (fields.lookup "content")
  return { id, projectId, conversationId, content := orderedValues content
           extra := extraOf ["id", "project_id", "conversation_id", "content"] fields }

end ChatgptArchive
