import ChatgptArchive.KeyOrder
import Mathlib.Data.List.Forall2

/-!
# The digest of a conversation

`reconciliation/digest.rs`: a conversation is written as one JSON value, its messages in the stable
order of their provider ids, the keys of every object are put in order, and the compact text is
hashed.

`sha256Hex` is the hash of a text in hexadecimal and `floatText` the text that `serde_json` prints
for an epoch. `Value.ordered` is `canonicalize`.
-/

namespace ChatgptArchive.DigestText

open List Value

def roleName : MessageRole → String
  | .system => "system"
  | .user => "user"
  | .assistant => "assistant"
  | .tool => "tool"
  | .internal => "internal"
  | .unknown => "unknown"

def partKindName : ContentPartKind → String
  | .text => "text"
  | .toolCall => "tool_call"
  | .toolResult => "tool_result"
  | .image => "image"
  | .file => "file"
  | .unknown => "unknown"

variable (sha256Hex : String → String) (floatText : Epoch → String) {part : ParsedContentPart}

def epochValue (epoch : Option Epoch) : Value := .ofOption (fun e => .number (floatText e)) epoch

def partValue (part : ParsedContentPart) : Value :=
  .object [("ordinal", .number (toString part.ordinal)),
    ("kind", .string (partKindName part.kind)),
    ("payload", part.payload.ordered)]

def messageValue (message : ParsedMessage) : Value :=
  .object [("external_id", .string message.externalId),
    ("parent_external_id", .ofOption .string message.parentExternalId),
    ("role", .string (roleName message.role)),
    ("created_at_epoch_seconds", epochValue floatText message.createdAtEpochSeconds),
    ("updated_at_epoch_seconds", epochValue floatText message.updatedAtEpochSeconds),
    ("model_slug", .ofOption .string message.modelSlug),
    ("provider_metadata", message.providerMetadata.ordered),
    ("parts", .array (message.parts.map partValue))]

def digest (value : Value) : String := sha256Hex value.ordered.toText

def conversationValue (conversation : ParsedConversation) : Value :=
  .object [("external_id", .string conversation.externalId),
    ("title", .ofOption .string conversation.title),
    ("created_at_epoch_seconds", epochValue floatText conversation.createdAtEpochSeconds),
    ("updated_at_epoch_seconds", epochValue floatText conversation.updatedAtEpochSeconds),
    ("provider_metadata", conversation.providerMetadata.ordered),
    ("messages", .array ((conversation.messages.insertionSort messageOrder).map
      (messageValue floatText)))]

def conversationDigest (conversation : ParsedConversation) : String :=
  digest sha256Hex (conversationValue floatText conversation)

/-! ## Agreement -/

structure PartsAgree (a b : ParsedContentPart) : Prop where
  ordinal : a.ordinal = b.ordinal
  kind : a.kind = b.kind
  payload : a.payload.Agrees b.payload

structure MessagesAgree (a b : ParsedMessage) : Prop where
  externalId : a.externalId = b.externalId
  parentExternalId : a.parentExternalId = b.parentExternalId
  role : a.role = b.role
  createdAtEpochSeconds : a.createdAtEpochSeconds = b.createdAtEpochSeconds
  updatedAtEpochSeconds : a.updatedAtEpochSeconds = b.updatedAtEpochSeconds
  modelSlug : a.modelSlug = b.modelSlug
  providerMetadata : a.providerMetadata.Agrees b.providerMetadata
  parts : Forall₂ PartsAgree a.parts b.parts

/-- The same conversation up to the order of keys and the order of messages with different ids. -/
structure ConversationsAgree (a b : ParsedConversation) : Prop where
  externalId : a.externalId = b.externalId
  title : a.title = b.title
  createdAtEpochSeconds : a.createdAtEpochSeconds = b.createdAtEpochSeconds
  updatedAtEpochSeconds : a.updatedAtEpochSeconds = b.updatedAtEpochSeconds
  providerMetadata : a.providerMetadata.Agrees b.providerMetadata
  messages : Forall₂ MessagesAgree (a.messages.insertionSort messageOrder)
    (b.messages.insertionSort messageOrder)

/-- What every `serde_json` value satisfies: an object has a key once, and a number is written with
the characters of a number. -/
def IsJson (value : Value) : Prop := value.Distinct ∧ value.Numeric

structure MessageIsJson (message : ParsedMessage) : Prop where
  providerMetadata : IsJson message.providerMetadata
  parts : ∀ part ∈ message.parts, IsJson part.payload

structure ConversationIsJson (conversation : ParsedConversation) : Prop where
  providerMetadata : IsJson conversation.providerMetadata
  messages : ∀ message ∈ conversation.messages, MessageIsJson message

/-! ## One ordered form -/

theorem roleName_injective : Function.Injective roleName := by
  intro a b h
  cases a <;> cases b <;> first | rfl | exact absurd h (by decide)

theorem partKindName_injective : Function.Injective partKindName := by
  intro a b h
  cases a <;> cases b <;> first | rfl | exact absurd h (by decide)

theorem ordered_metadata {a b : Value} (ha : IsJson a) (hb : IsJson b) :
    a.ordered.ordered = b.ordered.ordered ↔ a.Agrees b := by
  rw [ordered_ordered, ordered_ordered]
  exact ordered_eq_iff a ha.1 b hb.1

/-- Lists whose elements are written as values have one ordered form when their elements do. -/
theorem ordered_array_map {α : Type} {render : α → Value} {R : α → α → Prop} {as bs : List α}
    (h : ∀ a ∈ as, ∀ b ∈ bs, (render a).ordered = (render b).ordered ↔ R a b) :
    (Value.array (as.map render)).ordered = (Value.array (bs.map render)).ordered ↔
      Forall₂ R as bs := by
  rw [Value.ordered, Value.ordered, Value.array.injEq, orderedValues_eq_map,
    orderedValues_eq_map, map_map, map_map]
  induction as generalizing bs with
  | nil => cases bs <;> simp
  | cons a as ih =>
    cases bs with
    | nil => simp
    | cons b bs =>
      rw [map_cons, map_cons, List.cons.injEq, List.forall₂_cons,
        ih fun a ha b hb => h a (.tail _ ha) b (.tail _ hb)]
      exact and_congr_left fun _ => h a mem_cons_self b mem_cons_self

theorem ordered_partValue {a b : ParsedContentPart} (ha : IsJson a.payload)
    (hb : IsJson b.payload) : (partValue a).ordered = (partValue b).ordered ↔ PartsAgree a b := by
  rw [partValue, partValue, ordered_object_inj]
  · simp only [Value.orderedFields, List.cons.injEq, Prod.mk.injEq, true_and, and_true,
      ordered_metadata ha hb, Value.ordered, Value.number.injEq, Value.string.injEq,
      toString_injective.eq_iff, partKindName_injective.eq_iff]
    exact ⟨fun ⟨hordinal, hkind, hpayload⟩ => ⟨hordinal, hkind, hpayload⟩,
      fun h => ⟨h.ordinal, h.kind, h.payload⟩⟩
  · simp
  · rfl

variable {floatText}

theorem ordered_epochValue (hfloat : Function.Injective floatText) {a b : Option Epoch} :
    (epochValue floatText a).ordered = (epochValue floatText b).ordered ↔ a = b := by
  cases a <;> cases b <;> simp [epochValue, Value.ofOption, Value.ordered, hfloat.eq_iff]

theorem ordered_messageValue (hfloat : Function.Injective floatText) {a b : ParsedMessage}
    (ha : MessageIsJson a) (hb : MessageIsJson b) :
    (messageValue floatText a).ordered = (messageValue floatText b).ordered ↔
      MessagesAgree a b := by
  have hparts : (Value.array (a.parts.map partValue)).ordered =
      (Value.array (b.parts.map partValue)).ordered ↔ Forall₂ PartsAgree a.parts b.parts :=
    ordered_array_map fun p hp q hq => ordered_partValue (ha.parts p hp) (hb.parts q hq)
  rw [messageValue, messageValue, ordered_object_inj]
  · simp only [Value.orderedFields, List.cons.injEq, Prod.mk.injEq, true_and, and_true, hparts,
      ordered_metadata ha.providerMetadata hb.providerMetadata, ordered_ofOption_string,
      ordered_epochValue hfloat]
    simp only [Value.ordered, Value.string.injEq, roleName_injective.eq_iff]
    exact ⟨fun ⟨hid, hparent, hrole, hcreated, hupdated, hslug, hmetadata, hparts⟩ =>
        ⟨hid, hparent, hrole, hcreated, hupdated, hslug, hmetadata, hparts⟩,
      fun h => ⟨h.externalId, h.parentExternalId, h.role, h.createdAtEpochSeconds,
        h.updatedAtEpochSeconds, h.modelSlug, h.providerMetadata, h.parts⟩⟩
  · simp
  · rfl

theorem ordered_conversationValue (hfloat : Function.Injective floatText)
    {a b : ParsedConversation} (ha : ConversationIsJson a) (hb : ConversationIsJson b) :
    (conversationValue floatText a).ordered = (conversationValue floatText b).ordered ↔
      ConversationsAgree a b := by
  have hmessages : (Value.array ((a.messages.insertionSort messageOrder).map
        (messageValue floatText))).ordered =
      (Value.array ((b.messages.insertionSort messageOrder).map (messageValue floatText))).ordered ↔
      Forall₂ MessagesAgree (a.messages.insertionSort messageOrder)
        (b.messages.insertionSort messageOrder) :=
    ordered_array_map fun m hm n hn => ordered_messageValue hfloat
      (ha.messages m ((mem_insertionSort messageOrder).mp hm))
      (hb.messages n ((mem_insertionSort messageOrder).mp hn))
  rw [conversationValue, conversationValue, ordered_object_inj]
  · simp only [Value.orderedFields, List.cons.injEq, Prod.mk.injEq, true_and, and_true, hmessages,
      ordered_metadata ha.providerMetadata hb.providerMetadata, ordered_ofOption_string,
      ordered_epochValue hfloat]
    simp only [Value.ordered, Value.string.injEq]
    exact ⟨fun ⟨hid, htitle, hcreated, hupdated, hmetadata, hmessages⟩ =>
        ⟨hid, htitle, hcreated, hupdated, hmetadata, hmessages⟩,
      fun h => ⟨h.externalId, h.title, h.createdAtEpochSeconds, h.updatedAtEpochSeconds,
        h.providerMetadata, h.messages⟩⟩
  · simp
  · rfl

/-! ## The text -/

theorem numeric_epochValue (hnumber : ∀ q, Value.IsNumber (floatText q)) (epoch : Option Epoch) :
    (epochValue floatText epoch).Numeric := by
  cases epoch with
  | none => exact trivial
  | some q => exact hnumber q

theorem numeric_partValue (h : IsJson part.payload) : (partValue part).Numeric := by
  simp only [partValue, Value.Numeric, Value.NumericFields, and_true, true_and]
  exact ⟨isNumber_toString _, numeric_ordered _ h.2⟩

theorem numeric_messageValue (hnumber : ∀ q, Value.IsNumber (floatText q))
    {message : ParsedMessage} (h : MessageIsJson message) :
    (messageValue floatText message).Numeric := by
  have hparts : Value.NumericValues (message.parts.map partValue) := by
    rw [numericValues_iff, forall_mem_map]
    exact fun part hpart => numeric_partValue (h.parts part hpart)
  simp only [messageValue, Value.Numeric, Value.NumericFields, numeric_ofOption_string,
    numeric_epochValue hnumber, and_true, true_and]
  exact ⟨numeric_ordered _ h.providerMetadata.2, hparts⟩

theorem numeric_conversationValue (hnumber : ∀ q, Value.IsNumber (floatText q))
    {conversation : ParsedConversation} (h : ConversationIsJson conversation) :
    (conversationValue floatText conversation).Numeric := by
  have hmessages : Value.NumericValues ((conversation.messages.insertionSort messageOrder).map
      (messageValue floatText)) := by
    rw [numericValues_iff, forall_mem_map]
    exact fun message hmessage => numeric_messageValue hnumber
      (h.messages message ((mem_insertionSort messageOrder).mp hmessage))
  simp only [conversationValue, Value.Numeric, Value.NumericFields, numeric_ofOption_string,
    numeric_epochValue hnumber, and_true, true_and]
  exact ⟨numeric_ordered _ h.providerMetadata.2, hmessages⟩

variable {sha256Hex}

/-- Two conversations have one digest exactly when they agree. -/
theorem conversationDigest_eq_iff (hsha : Function.Injective sha256Hex)
    (hfloat : Function.Injective floatText) (hnumber : ∀ q, Value.IsNumber (floatText q))
    {a b : ParsedConversation} (ha : ConversationIsJson a) (hb : ConversationIsJson b) :
    conversationDigest sha256Hex floatText a = conversationDigest sha256Hex floatText b ↔
      ConversationsAgree a b := by
  rw [conversationDigest, conversationDigest, digest, digest, hsha.eq_iff,
    Value.toText_inj (Value.numeric_ordered _ (numeric_conversationValue hnumber ha))
      (Value.numeric_ordered _ (numeric_conversationValue hnumber hb))]
  exact ordered_conversationValue hfloat ha hb

def noted (messages : List ParsedMessage) (metadata : List (String × Value)) :
    ParsedConversation :=
  { ParsedConversation.ofMessages "conversation" messages with providerMetadata := .object metadata }

def greeting : ParsedMessage := .ofText "message-1" none "Hello"

def answer : ParsedMessage := .ofText "message-2" (some "message-1") "Hi"

def relabelled : ParsedMessage := { greeting with parts := [⟨0, .unknown, .string "Hello"⟩] }

def negativeZero : Epoch := ⟨0x8000000000000000, by decide⟩

/-- The order of the messages and of the keys does not show; the kind of a part and the sign of a
zero do. -/
theorem conversationDigest_reordered :
    let floatText := fun e : Epoch => toString e.bits.toNat
    let digestOf := conversationDigest id floatText
    digestOf (noted [greeting, answer] [("model", .string "a"), ("tokens", .number "1")]) =
        digestOf (noted [answer, greeting] [("tokens", .number "1"), ("model", .string "a")]) ∧
      digestOf (noted [greeting] []) ≠ digestOf (noted [relabelled] []) ∧
      digestOf { noted [] [] with createdAtEpochSeconds := some 0 } ≠
        digestOf { noted [] [] with createdAtEpochSeconds := some negativeZero } := by
  intro floatText digestOf
  have hfloat : Function.Injective floatText := by
    rintro ⟨a, _⟩ ⟨b, _⟩ h
    obtain rfl : a = b := BitVec.eq_of_toNat_eq (toString_injective h)
    rfl
  have hnumber : ∀ e, Value.IsNumber (floatText e) := fun e => Value.isNumber_toString _
  have hempty : IsJson (.object []) :=
    ⟨by simp [Value.Distinct, Value.DistinctFields], trivial⟩
  have hmessage : ∀ message ∈ [greeting, answer, relabelled], MessageIsJson message := by
    simp only [List.forall_mem_cons, List.not_mem_nil, false_imp_iff, implies_true, and_true]
    refine ⟨?_, ?_, ?_⟩ <;> constructor <;>
      simp [relabelled, greeting, answer, ParsedMessage.ofText, IsJson, Value.Distinct,
        Value.DistinctFields, Value.Numeric, Value.NumericFields]
  have hmetadata : ∀ metadata ∈ [[("model", Value.string "a"), ("tokens", .number "1")],
      [("tokens", .number "1"), ("model", .string "a")]], IsJson (.object metadata) := by
    have hnumber : Value.IsNumber "1" := by decide
    simp [IsJson, Value.Distinct, Value.DistinctFields, Value.Numeric, Value.NumericFields, hnumber]
  have hnoted : ∀ messages metadata, IsJson (.object metadata) →
      (∀ m ∈ messages, m ∈ [greeting, answer, relabelled]) →
        ConversationIsJson (noted messages metadata) :=
    fun messages metadata hjson hmem => ⟨hjson, fun m hm => hmessage m (hmem m hm)⟩
  refine ⟨?_, fun h => ?_, fun h => ?_⟩
  · refine (conversationDigest_eq_iff Function.injective_id hfloat hnumber
      (hnoted _ _ (hmetadata _ (by simp)) (by simp))
      (hnoted _ _ (hmetadata _ (by simp)) (by simp))).mpr ?_
    have hsame : ∀ m ∈ [greeting, answer, relabelled], MessagesAgree m m := fun m hm =>
      (ordered_messageValue hfloat (hmessage m hm) (hmessage m hm)).mp rfl
    have hagree := Value.ordered_eq_iff _ (hmetadata _ (List.mem_cons_self ..)).1 _
      (hmetadata _ (List.mem_cons_of_mem _ List.mem_cons_self)).1
    refine ⟨rfl, rfl, rfl, rfl, hagree.mp ?_, ?_⟩
    · decide +kernel
    · exact .cons (hsame _ (by simp)) (.cons (hsame _ (by simp)) .nil)
  · have hagree := (conversationDigest_eq_iff Function.injective_id hfloat hnumber
      (hnoted _ _ hempty (by simp)) (hnoted _ _ hempty (by simp))).mp h
    have hparts := (List.forall₂_cons.mp hagree.messages).1.parts
    cases (List.forall₂_cons.mp hparts).1.kind
  · have hagree := (conversationDigest_eq_iff Function.injective_id hfloat hnumber
      ⟨hempty, fun m hm => by cases hm⟩ ⟨hempty, fun m hm => by cases hm⟩).mp h
    exact absurd hagree.createdAtEpochSeconds (by decide)

end ChatgptArchive.DigestText
