import Mathlib.Data.Rat.Defs
import Mathlib.Data.List.Sort
import ChatgptArchive.Json

/-!
# Normalized parser output

The records an archive parser emits and the digests that name their versions. A digest is
represented by the canonical content it is computed from: SHA-256 is taken as collision-free, so
two digests are equal exactly when the contents are.
-/

namespace ChatgptArchive

/-- A blob reference as it is stored: the object is found by its digest alone. -/
structure BlobRef where
  digest : String
  lengthBytes : Nat
  mediaType : String
  deriving DecidableEq, Repr, Inhabited

structure ParserId where
  name : String
  version : String
  deriving DecidableEq, Repr, Inhabited

inductive MessageRole where
  | system | user | assistant | tool | internal | unknown
  deriving DecidableEq, Repr

inductive ContentPartKind where
  | text | toolCall | toolResult | image | file | unknown
  deriving DecidableEq, Repr, Inhabited

structure ParsedContentPart where
  ordinal : Nat
  kind : ContentPartKind
  payload : Value
  deriving DecidableEq, Repr

def normalizeRole (role : String) : MessageRole :=
  if role = "system" then .system
  else if role = "user" then .user
  else if role = "assistant" then .assistant
  else if role = "tool" then .tool
  else if role = "internal" then .internal
  else .unknown

def mediaKind (object : Value) : ContentPartKind :=
  match (object.get? "mime_type").bind Value.asStr with
  | some mediaType => if "image/".toList.isPrefixOf mediaType.toList then .image else .file
  | none => .file

def partKind : Value → ContentPartKind
  | .string _ => .text
  | .object fields =>
    match ((Value.object fields).get? "kind").bind Value.asStr with
    | some kind =>
      if kind = "tool_call" then .toolCall
      else if kind = "tool_result" then .toolResult
      else if kind = "media_reference" then mediaKind (.object fields)
      else .unknown
    | none => .unknown
  | _ => .unknown

def parseParts (values : List Value) : List ParsedContentPart :=
  values.zipIdx.map fun (payload, ordinal) => ⟨ordinal, partKind payload, payload⟩

/-- A finite `f64` by its bits, so that the two zeros are two values. -/
structure Epoch where
  bits : BitVec 64
  finite : bits.extractLsb' 52 11 ≠ 0x7FF#11
  deriving DecidableEq, Repr

instance : Zero Epoch := ⟨⟨0, by decide⟩⟩

def Epoch.seconds (epoch : Epoch) : ℚ :=
  let exponent := (epoch.bits.extractLsb' 52 11).toNat
  let fraction := (epoch.bits.extractLsb' 0 52).toNat
  -- a subnormal number has the scale of the smallest exponent and no leading one
  let significand : ℚ := if exponent = 0 then fraction else 2 ^ 52 + fraction
  let scale := max exponent 1
  let magnitude :=
    if scale < 1075 then significand / 2 ^ (1075 - scale) else significand * 2 ^ (scale - 1075)
  if epoch.bits.msb then -magnitude else magnitude

structure ParsedMessage where
  externalId : String
  parentExternalId : Option String
  role : MessageRole
  createdAtEpochSeconds : Option Epoch
  updatedAtEpochSeconds : Option Epoch
  modelSlug : Option String
  providerMetadata : Value
  parts : List ParsedContentPart
  deriving DecidableEq, Repr

structure ParsedConversation where
  externalId : String
  title : Option String
  createdAtEpochSeconds : Option Epoch
  updatedAtEpochSeconds : Option Epoch
  providerMetadata : Value
  messages : List ParsedMessage
  deriving DecidableEq, Repr

inductive InstructionKind where
  | instruction | systemPrompt | unknown
  deriving DecidableEq, Repr

structure ParsedInstruction where
  externalId : Option String
  ordinal : Nat
  kind : InstructionKind
  content : Value
  providerMetadata : Value
  deriving DecidableEq, Repr

structure ParsedProject where
  externalId : String
  title : Option String
  description : Option String
  instructions : List ParsedInstruction
  conversationExternalIds : List String
  assetExternalIds : List String
  providerMetadata : Value
  deriving DecidableEq, Repr

structure ParsedCanvasDocument where
  externalId : String
  projectExternalId : Option String
  conversationExternalId : Option String
  content : List Value
  providerMetadata : Value
  deriving DecidableEq, Repr

inductive AssetKind where
  | uploaded | generated | unknown
  deriving DecidableEq, Repr

inductive AssetAvailability where
  | missing | quarantined | verified
  deriving DecidableEq, Repr

inductive AssetAnomaly where
  | missingArtifact | extractedArtifactQuarantined | blobVerificationFailed | digestMismatch
  | lengthMismatch | mediaTypeMismatch | invalidDeclaration | ambiguousArtifact
  deriving DecidableEq, Repr

structure ParsedAsset where
  externalId : String
  kind : AssetKind
  projectExternalId : Option String
  conversationExternalId : Option String
  displayName : Option String
  mediaType : Option String
  availability : AssetAvailability
  blob : Option BlobRef
  anomaly : Option AssetAnomaly
  providerMetadata : Value
  deriving DecidableEq, Repr

structure RawRecord where
  path : String
  payload : Value
  deriving DecidableEq, Repr

structure ParsedConversations where
  schemaId : String
  parser : ParserId
  conversations : List ParsedConversation
  projects : List ParsedProject
  canvasDocuments : List ParsedCanvasDocument
  assets : List ParsedAsset
  rawRecords : List RawRecord
  deriving DecidableEq, Repr

def ParsedConversations.assetsStored (parsed : ParsedConversations) : Nat :=
  parsed.assets.countP (·.blob.isSome)

def ParsedConversations.assetsUnavailable (parsed : ParsedConversations) : Nat :=
  parsed.assets.countP (·.blob.isNone)

/-! ## The smallest records -/

def ParsedMessage.ofText (externalId : String) (parent : Option String) (text : String) :
    ParsedMessage :=
  { externalId, parentExternalId := parent, role := .user, createdAtEpochSeconds := none
    updatedAtEpochSeconds := none, modelSlug := none, providerMetadata := .object []
    parts := [⟨0, .text, .string text⟩] }

def ParsedConversation.ofMessages (externalId : String) (messages : List ParsedMessage) :
    ParsedConversation :=
  { externalId, title := none, createdAtEpochSeconds := none, updatedAtEpochSeconds := none
    providerMetadata := .object [], messages }

def ParsedProject.ofTitle (externalId : String) (title : Option String)
    (conversationExternalIds : List String) : ParsedProject :=
  { externalId, title, description := none, instructions := [], conversationExternalIds
    assetExternalIds := [], providerMetadata := .object [] }

def ParsedConversations.ofRecords (projects : List ParsedProject)
    (conversations : List ParsedConversation) : ParsedConversations :=
  { schemaId := "export-v1", parser := ⟨"export", "1"⟩, conversations, projects
    canvasDocuments := [], assets := [], rawRecords := [] }

/-! ## Versions and digests -/

structure ProjectVersion where
  title : Option String
  description : Option String
  instructions : Option String
  parserName : String
  parserVersion : String
  deriving DecidableEq, Repr

structure ConversationVersion where
  conversation : ParsedConversation
  projectExternalId : Option String
  parserName : String
  parserVersion : String
  deriving DecidableEq, Repr

inductive ContentDigest where
  | project (title description instructions : Option String)
  | conversation (canonical : ParsedConversation)
  deriving DecidableEq, Repr, Inhabited

inductive Snapshot where
  | project (version : ProjectVersion)
  | conversation (version : ConversationVersion)
  deriving DecidableEq, Repr

def ProjectVersion.digest (version : ProjectVersion) : ContentDigest :=
  .project version.title version.description version.instructions

def messageOrder (a b : ParsedMessage) : Prop := a.externalId ≤ b.externalId

instance : DecidableRel messageOrder := fun _ _ => inferInstanceAs (Decidable (_ ≤ _))

/-- The digest of a conversation covers every field; its messages are taken in the stable order
of their provider ids. -/
def conversationDigest (conversation : ParsedConversation) : ContentDigest :=
  .conversation { conversation with
    messages := conversation.messages.insertionSort messageOrder }

/-! ## Texts derived from a parse -/

def instructionOrder (a b : ParsedInstruction) : Prop := a.ordinal ≤ b.ordinal

instance : DecidableRel instructionOrder := fun _ _ => inferInstanceAs (Decidable (_ ≤ _))

def instructionText (project : ParsedProject) : Option String :=
  let texts := (project.instructions.insertionSort instructionOrder).map fun instruction =>
    match instruction.content with
    | .string text => text
    | other => other.toText
  if texts.isEmpty then none else some ("\n\n".intercalate texts)

def projectExternalIdOf (parsed : ParsedConversations) (conversationExternalId : String) :
    Option String :=
  (parsed.projects.find? fun project =>
    project.conversationExternalIds.contains conversationExternalId).map (·.externalId)

abbrev Timestamp := Int

def maxEpochSeconds : ℚ := 253402300799

def storableEpoch (epoch : Option Epoch) : Option Epoch :=
  epoch.filter fun value => 0 ≤ value.seconds && value.seconds ≤ maxEpochSeconds

def toTimestamp (seconds : ℚ) : Timestamp :=
  -- `to_timestamp`: the instant in microseconds, halves rounded to even
  let micros := seconds * 1000000
  let floor := micros.floor
  if micros - floor < 1 / 2 then floor
  else if 1 / 2 < micros - floor then floor + 1
  else if floor % 2 = 0 then floor else floor + 1

def providerInstant (epoch : Option Epoch) : Option Timestamp :=
  (storableEpoch epoch).map fun value => toTimestamp value.seconds

end ChatgptArchive
