import ChatgptArchive.SyntheticParser.Decode
import ChatgptArchive.SyntheticParser.Sameness

/-!
# What a parse keeps

Each value of a conversation document reaches a field of a record or a raw record, and the path of a
raw record says where it came from.
-/

namespace ChatgptArchive

open List Pointer ConversationInput Members Function Value

variable {α : Type} {input : ConversationInput} {key role role' : String} {m : MessageInput}
  {n n' : MappingInput} {number : String → Epoch} {document : Value}

/-! ## Raw records by place -/

variable (base : List String)

def rawAt (records : List (List String × Value)) : List RawRecord :=
  records.map fun record => ⟨text (base ++ record.1), record.2⟩

theorem rawAt_append (l r : List (List String × Value)) :
    rawAt base (l ++ r) = rawAt base l ++ rawAt base r :=
  map_append

theorem rawAt_flatMap (l : List α) (records : α → List (List String × Value)) :
    rawAt base (l.flatMap records) = l.flatMap fun a => rawAt base (records a) :=
  map_flatMap

theorem rawAt_under (segment : String) (records : List (List String × Value)) :
    rawAt base (under segment records) = rawAt (base ++ [segment]) records := by
  rw [rawAt, rawAt, under, map_map]
  refine map_congr_left fun record _ => ?_
  rw [comp_apply, append_assoc, singleton_append]

theorem rawAt_injective {base : List String} {l r : List (List String × Value)}
    (h : rawAt base l = rawAt base r) : l = r := by
  refine map_injective_iff.mpr (fun a b hab => ?_) h
  rw [RawRecord.mk.injEq] at hab
  exact Prod.ext (append_cancel_left (text_injective hab.1)) hab.2

theorem childPath_text (segment : String) :
    childPath (text base) segment = text (base ++ [segment]) :=
  (text_concat base segment).symm

theorem recordExtra_eq (values : List (String × Value)) :
    recordExtra (text base) values = rawAt base (members values) := by
  rw [recordExtra, rawAt, members, map_map]
  refine map_congr_left fun value _ => ?_
  rw [comp_apply, ← childPath_text]

def unknownRole (role : String) : List (String × Value) :=
  if normalizeRole role = .unknown then [("role", .string role)] else []

def unknownParts (parts : List ParsedContentPart) : List (String × Value) :=
  (parts.filter (·.kind = .unknown)).map fun part => (toString part.ordinal, part.payload)

def messageRecords (input : MessageInput) : List (List String × Value) :=
  members input.extra ++ under "author" (members input.author.extra) ++
  under "metadata" (members input.metadata.extra) ++
  under "content" (members input.content.extra) ++
  under "author" (members (unknownRole input.author.role)) ++
  under "content" (under "parts"
    (members (unknownParts (parseParts input.content.parts))))

def ownId (key : String) (input : MappingInput) : List (String × Value) :=
  ((input.id.filter (· ≠ key)).map fun id => ("id", string id)).toList

def nodeRecords (key : String) (input : MappingInput) : List (List String × Value) :=
  members input.extra ++ members (ownId key input) ++
  input.message.elim [] fun message => under "message" (messageRecords message)

def conversationRecords (input : ConversationInput) : List (List String × Value) :=
  members input.extra ++ under "mapping"
    (input.mapping.flatMap fun node => under node.1 (nodeRecords node.1 node.2))

def indexedRecords {α : Type} (records : α → List (List String × Value)) (inputs : List α) :
    List (List String × Value) :=
  (inputs.zipIdx.map fun (input, index) => (toString index, input)).flatMap fun part =>
    under part.1 (records part.2)

def documentRecords (inputs : List ConversationInput) : List (List String × Value) :=
  indexedRecords conversationRecords inputs

theorem parseMessage_records (input : MessageInput) (parent : Option String) (base : List String) :
    (parseMessage input parent (text base)).2 =
      rawAt (base ++ ["message"]) (messageRecords input) := by
  simp only [parseMessage, messageRecords, rawAt_append, rawAt_under, childPath_text,
    recordExtra_eq]
  congr 1
  · congr 1
    unfold unknownRole
    split
    · rfl
    · rfl
  · rw [recordUnknownParts, unknownParts, rawAt, members, map_map, map_map]
    refine map_congr_left fun part _ => ?_
    simp only [comp_apply, childPath_text]

theorem parseMapping_records (input : MappingInput) (base : List String) (key : String) :
    (parseMapping input (text base) key).2 =
      rawAt (base ++ [key]) (nodeRecords key input) := by
  have hid : ((input.id.filter (· ≠ key)).map fun id =>
      (⟨childPath (text (base ++ [key])) "id", .string id⟩ : RawRecord)).toList =
        rawAt (base ++ [key]) (members (ownId key input)) := by
    unfold ownId
    cases input.id.filter (· ≠ key) with
    | none => rfl
    | some id =>
      rw [childPath_text]
      rfl
  unfold parseMapping nodeRecords
  rw [childPath_text]
  cases input.message with
  | none =>
    simp only [rawAt_append, recordExtra_eq, hid, Option.elim]
    exact (append_nil _).symm
  | some message =>
    simp only [rawAt_append, recordExtra_eq, hid, Option.elim, rawAt_under, parseMessage_records]

theorem text_indexed (index : Nat) :
    text (base ++ [toString index]) = text base ++ "/" ++ toString index := by
  have hplain : escape (toString index) = toString index := by
    refine escape_of_plain fun c hc => ?_
    rw [Nat.toString_eq_ofList_toDigits, String.toList_ofList] at hc
    have hdigit := Nat.isDigit_of_mem_toDigits (by decide) (by decide) hc
    constructor
    · rintro rfl
      exact absurd hdigit (by decide)
    · rintro rfl
      exact absurd hdigit (by decide)
  rw [text_concat, child, hplain]

theorem text_index (index : Nat) : text [toString index] = "/" ++ toString index :=
  text_indexed [] index

theorem parseConversation_records (input : ConversationInput) (index : Nat) :
    (parseConversation input index).2 = rawAt [toString index] (conversationRecords input) := by
  simp only [parseConversation, conversationRecords, ← text_index, childPath_text, rawAt_append,
    recordExtra_eq, rawAt_under, rawAt_flatMap]
  congr 1
  rw [flatMap_map]
  refine flatMap_congr fun node _ => ?_
  exact parseMapping_records node.2 _ node.1

theorem rawAt_indexed (records : α → List (List String × Value))
    (inputs : List α) : rawAt base (indexedRecords records inputs) =
      inputs.zipIdx.flatMap fun (input, index) =>
        rawAt (base ++ [toString index]) (records input) := by
  rw [indexedRecords, rawAt_flatMap, flatMap_map]
  exact flatMap_congr fun part _ => rawAt_under base _ _

theorem parseEach_records {β : Type} {parse : α → Nat → β × List RawRecord} {base : List String}
    {records : α → List (List String × Value)}
    (h : ∀ input index, (parse input index).2 = rawAt (base ++ [toString index]) (records input))
    (inputs : List α) :
    (parseEach parse inputs).2 = rawAt base (indexedRecords records inputs) := by
  rw [parseEach, rawAt_indexed, flatMap_map]
  exact flatMap_congr fun part _ => h part.1 part.2

theorem parseEach_conversationRecords (inputs : List ConversationInput) :
    (parseEach parseConversation inputs).2 = rawAt [] (documentRecords inputs) :=
  parseEach_records parseConversation_records inputs

/-! ## Inputs whose extras name no typed field -/

structure MessageInput.Clean (input : MessageInput) : Prop where
  author : "author" ∉ input.extra.map (·.1)
  metadata : "metadata" ∉ input.extra.map (·.1)
  content : "content" ∉ input.extra.map (·.1)
  role : "role" ∉ input.author.extra.map (·.1)

structure MappingInput.Clean (input : MappingInput) : Prop where
  id : "id" ∉ input.extra.map (·.1)
  message : "message" ∉ input.extra.map (·.1)
  inner : ∀ message, input.message = some message → message.Clean

structure ConversationInput.Clean (input : ConversationInput) : Prop where
  mapping : "mapping" ∉ input.extra.map (·.1)
  keys : (input.mapping.map (·.1)).Nodup
  inner : ∀ node ∈ input.mapping, node.2.Clean

theorem extraOf_absent {known : List String} (h : key ∈ known) (fields : List (String × Value)) :
    key ∉ (extraOf known fields).map (·.1) := by
  intro hmem
  rw [extraOf, ((sorted_perm _).map _).mem_iff, orderedFields_eq_map, map_map] at hmem
  obtain ⟨field, hfield, rfl⟩ := mem_map.mp hmem
  have hother := (mem_filter.mp hfield).2
  rw [comp_apply, ← contains_iff_mem] at h
  rw [h] at hother
  cases hother

section Clean

variable {number : String → Epoch} {v : Value}

theorem messageInput_clean {a : MessageInput} (h : messageInput number v = some a) : a.Clean := by
  obtain ⟨fields, rfl, -, hauthor, -, -, -, -, hextra⟩ := messageInput_spec h
  obtain ⟨author, -, hauthor⟩ := Option.bind_eq_some_iff.mp hauthor
  obtain ⟨_, -, -, hrole⟩ := authorInput_spec hauthor
  refine ⟨?_, ?_, ?_, ?_⟩
  · exact hextra ▸ extraOf_absent (by decide) fields
  · exact hextra ▸ extraOf_absent (by decide) fields
  · exact hextra ▸ extraOf_absent (by decide) fields
  · exact hrole ▸ extraOf_absent (by decide) _

theorem mappingInput_clean {a : MappingInput} (h : mappingInput number v = some a) : a.Clean := by
  obtain ⟨fields, rfl, -, -, hmessage, hextra⟩ := mappingInput_spec h
  refine ⟨?_, ?_, fun message heq => ?_⟩
  · exact hextra ▸ extraOf_absent (by decide) fields
  · exact hextra ▸ extraOf_absent (by decide) fields
  · rcases optional_cases hmessage with ⟨-, hnone⟩ | ⟨v, b, -, hv, hsome⟩
    · rw [hnone] at heq
      cases heq
    · cases hsome.symm.trans heq
      exact messageInput_clean hv

theorem eachMember_mem {α : Type} {read : Value → Option α} {fields : List (String × Value)}
    {entries : List (String × α)} (h : eachMember read fields = some entries) :
    ∀ entry ∈ entries, ∃ v, (entry.1, v) ∈ fields ∧ read v = some entry.2 := by
  induction fields generalizing entries with
  | nil =>
    cases h
    exact fun _ hmem => absurd hmem not_mem_nil
  | cons field fields ih =>
    obtain ⟨first, hfirst, h⟩ := Option.bind_eq_some_iff.mp h
    obtain ⟨rest, hrest, h⟩ := Option.bind_eq_some_iff.mp h
    cases h
    intro entry hmem
    rcases mem_cons.mp hmem with rfl | hmem
    · exact ⟨_, mem_cons_self, hfirst⟩
    · obtain ⟨v, hv, hread⟩ := ih hrest entry hmem
      exact ⟨v, mem_cons_of_mem _ hv, hread⟩

theorem conversationInput_clean (hv : v.Distinct) {a : ConversationInput}
    (h : conversationInput number v = some a) : a.Clean := by
  obtain ⟨fields, rfl, -, -, -, -, hmapping, hextra⟩ := conversationInput_spec h
  obtain ⟨m, hm, hmapping⟩ := Option.bind_eq_some_iff.mp hmapping
  have hdistinct := distinct_of_lookup (distinct_object.mp hv).2 hm
  refine ⟨hextra ▸ extraOf_absent (by decide) fields, mappingOf_keys_nodup hdistinct hmapping,
    fun node hnode => ?_⟩
  obtain ⟨_, entries, -, hentries, hsorted⟩ := mappingOf_spec hmapping
  rw [hsorted, (sorted_perm _).mem_iff] at hnode
  obtain ⟨v, -, hv⟩ := eachMember_mem hentries node hnode
  exact mappingInput_clean hv

theorem each_clean {values : List Value} (h : ∀ v ∈ values, v.Distinct)
    {inputs : List ConversationInput} (hinputs : each (conversationInput number) values =
      some inputs) : ∀ input ∈ inputs, input.Clean := by
  induction values generalizing inputs with
  | nil =>
    cases hinputs
    exact fun _ hmem => absurd hmem not_mem_nil
  | cons v values ih =>
    obtain ⟨first, hfirst, hinputs⟩ := Option.bind_eq_some_iff.mp hinputs
    obtain ⟨rest, hrest, hinputs⟩ := Option.bind_eq_some_iff.mp hinputs
    cases hinputs
    intro input hmem
    rcases mem_cons.mp hmem with rfl | hmem
    · exact conversationInput_clean (h v mem_cons_self) hfirst
    · exact ih (fun v hv => h v (mem_cons_of_mem _ hv)) hrest input hmem

end Clean

/-! ## Reading back -/

theorem normalizeRole_injective (h : normalizeRole role = normalizeRole role')
    (hknown : normalizeRole role ≠ .unknown) : role = role' := by
  unfold normalizeRole at h hknown
  grind

theorem unknownRole_role (role : String) : ∀ member ∈ unknownRole role, member.1 = "role" := by
  intro member hmem
  unfold unknownRole at hmem
  split at hmem
  · rw [mem_singleton.mp hmem]
  · exact absurd hmem not_mem_nil

theorem role_recovered (h : normalizeRole role = normalizeRole role')
    (hrecords : unknownRole role = unknownRole role') : role = role' := by
  by_cases hknown : normalizeRole role = .unknown
  · rw [unknownRole, unknownRole, if_pos hknown, if_pos (h ▸ hknown)] at hrecords
    simpa using hrecords
  · exact normalizeRole_injective h hknown

theorem MessageInput.Clean.below_author (h : m.Clean) :
    here (below "author" (messageRecords m)) =
      m.author.extra ++ unknownRole m.author.role := by
  simp only [messageRecords, below_append, below_members_of_absent h.author,
    below_under_self, here_append, here_members,
    below_under_of_ne (show "metadata" ≠ "author" by decide),
    below_under_of_ne (show "content" ≠ "author" by decide)]
  simp [here]

theorem MessageInput.Clean.below_metadata (h : m.Clean) :
    here (below "metadata" (messageRecords m)) = m.metadata.extra := by
  simp only [messageRecords, below_append, below_members_of_absent h.metadata,
    below_under_self, here_append, here_members,
    below_under_of_ne (show "author" ≠ "metadata" by decide),
    below_under_of_ne (show "content" ≠ "metadata" by decide)]
  simp [here]

theorem MessageInput.Clean.below_content (h : m.Clean) :
    here (below "content" (messageRecords m)) = m.content.extra := by
  simp only [messageRecords, below_append, below_members_of_absent h.content,
    below_under_self, here_append, here_members,
    here_under (members_ne_nil _),
    below_under_of_ne (show "author" ≠ "content" by decide),
    below_under_of_ne (show "metadata" ≠ "content" by decide)]
  simp [here]

theorem parseParts_injective : Injective parseParts := by
  intro as bs h
  have hpayloads : ∀ values, (parseParts values).map (·.payload) = values := fun values => by
    rw [parseParts, map_map]
    exact zipIdx_map_fst 0 values
  rw [← hpayloads as, h, hpayloads]

theorem message_recovered {m' : MessageInput} (h : m.Clean) (h' : m'.Clean)
    {parent parent' : Option String} {path path' : String}
    (hparsed : (parseMessage m parent path).1 = (parseMessage m' parent' path').1)
    (hrecords : messageRecords m = messageRecords m') : m = m' ∧ parent = parent' := by
  simp only [parseMessage, ParsedMessage.mk.injEq, object.injEq] at hparsed
  obtain ⟨hid, hparent, hrole, hcreated, hupdated, hslug, hextra, hparts⟩ := hparsed
  have hparts := parseParts_injective hparts
  have hauthor : m.author.extra ++ unknownRole m.author.role =
      m'.author.extra ++ unknownRole m'.author.role := by
    rw [← h.below_author, ← h'.below_author, hrecords]
  obtain ⟨hauthorExtra, hroles⟩ := append_inj_of_key h.role h'.role
    (unknownRole_role _) (unknownRole_role _) hauthor
  have hmetadata : m.metadata.extra = m'.metadata.extra := by
    rw [← h.below_metadata, ← h'.below_metadata, hrecords]
  have hcontent : m.content.extra = m'.content.extra := by
    rw [← h.below_content, ← h'.below_content, hrecords]
  refine ⟨?_, hparent⟩
  obtain ⟨id, ⟨role, _⟩, _, _, ⟨_, _⟩, ⟨_, _⟩, _⟩ := m
  obtain ⟨id', ⟨role', _⟩, _, _, ⟨_, _⟩, ⟨_, _⟩, _⟩ := m'
  have hroleEq : role = role' := role_recovered hrole hroles
  simp_all

theorem ownId_id (key : String) (input : MappingInput) :
    ∀ member ∈ ownId key input, member.1 = "id" := by
  intro member hmem
  obtain ⟨id, -, rfl⟩ := Option.map_eq_some_iff.mp (Option.mem_toList.mp hmem)
  rfl

theorem ownId_injective (h : ownId key n = ownId key n') :
    n.id.filter (· ≠ key) = n'.id.filter (· ≠ key) := by
  unfold ownId at h
  generalize n.id.filter (· ≠ key) = x at h ⊢
  generalize n'.id.filter (· ≠ key) = y at h ⊢
  cases x <;> cases y <;> simp_all

theorem nodeRecords_here (key : String) (n : MappingInput) :
    here (nodeRecords key n) = n.extra ++ ownId key n := by
  have hmessage : ∀ message : MessageInput,
      ∀ record ∈ messageRecords message, record.1 ≠ [] := by
    intro message record hrecord
    simp only [messageRecords, mem_append] at hrecord
    rcases hrecord with ((((hrecord | hrecord) | hrecord) | hrecord) | hrecord) | hrecord
    · exact members_ne_nil _ record hrecord
    all_goals exact under_ne_nil _ _ record hrecord
  rw [nodeRecords, here_append, here_append, here_members, here_members]
  cases n.message with
  | none => exact append_nil _
  | some message =>
    rw [Option.elim, here_under (hmessage message), append_nil]

theorem MappingInput.Clean.below_message (h : n.Clean) {key : String} {message : MessageInput}
    (hmessage : n.message = some message) :
    below "message" (nodeRecords key n) = messageRecords message := by
  have hid : "message" ∉ (ownId key n).map (·.1) := by
    intro hmem
    obtain ⟨member, hmember, heq⟩ := mem_map.mp hmem
    rw [ownId_id key n member hmember] at heq
    exact absurd heq (by decide)
  rw [nodeRecords, hmessage, below_append, below_append,
    below_members_of_absent h.message, below_members_of_absent hid, Option.elim,
    below_under_self]
  rfl

def MappingInput.parsedMessage (node : MappingInput) : Option ParsedMessage :=
  node.message.map fun message => (parseMessage message node.parent "").1

theorem parseMapping_fst (node : MappingInput) (path key : String) :
    (parseMapping node path key).1 = node.parsedMessage := by
  unfold parseMapping MappingInput.parsedMessage
  cases node.message <;> rfl

/-- A node from the raw records under its key, its message if it has one and otherwise the name
of its parent. -/
theorem node_recovered (h : n.Clean) (h' : n'.Clean) (hslot : n.slot = n'.slot)
    (hparsed : n.parsedMessage = n'.parsedMessage)
    (hrecords : nodeRecords key n = nodeRecords key n') : n.keyed key = n'.keyed key := by
  have hhere : n.extra ++ ownId key n = n'.extra ++ ownId key n' := by
    rw [← nodeRecords_here, ← nodeRecords_here, hrecords]
  obtain ⟨hextra, hids⟩ := append_inj_of_key h.id h'.id (ownId_id key n) (ownId_id key n')
    hhere
  have hid := ownId_injective hids
  have hmessage : n.message = n'.message ∧ n.parent = n'.parent := by
    unfold MappingInput.parsedMessage at hparsed
    unfold MappingInput.slot at hslot
    cases hm : n.message with
    | none =>
      cases hm' : n'.message with
      | none =>
        rw [hm, hm'] at hslot
        exact ⟨rfl, Option.some.inj hslot⟩
      | some m' =>
        rw [hm, hm'] at hparsed
        cases hparsed
    | some m =>
      cases hm' : n'.message with
      | none =>
        rw [hm, hm'] at hparsed
        cases hparsed
      | some m' =>
        rw [hm, hm'] at hparsed
        have hinner : messageRecords m = messageRecords m' := by
          rw [← h.below_message hm, ← h'.below_message hm', hrecords]
        obtain ⟨rfl, hparent⟩ := message_recovered (h.inner m hm) (h'.inner m' hm')
          (Option.some.inj hparsed) hinner
        exact ⟨rfl, hparent⟩
  unfold MappingInput.keyed
  rw [hid, hmessage.1, hmessage.2, hextra]

/-- The nodes of a conversation, in the order of their keys. The messages are aligned by the
places that have one. -/
theorem nodes_recovered {nodes nodes' : List (String × MappingInput)}
    (h : ∀ node ∈ nodes, node.2.Clean) (h' : ∀ node ∈ nodes', node.2.Clean)
    (hslots : (nodes.map fun node => (node.1, node.2.slot)) =
      nodes'.map fun node => (node.1, node.2.slot))
    (hparsed : (nodes.filterMap fun node => node.2.parsedMessage) =
      nodes'.filterMap fun node => node.2.parsedMessage)
    (hrecords : ∀ node ∈ nodes, ∀ node' ∈ nodes', node.1 = node'.1 →
      nodeRecords node.1 node.2 = nodeRecords node'.1 node'.2) :
    keyedNodes nodes = keyedNodes nodes' := by
  induction nodes generalizing nodes' with
  | nil =>
    cases nodes' with
    | nil => rfl
    | cons node' nodes' => cases hslots
  | cons node nodes ih =>
    cases nodes' with
    | nil => cases hslots
    | cons node' nodes' =>
      obtain ⟨key, n⟩ := node
      obtain ⟨key', n'⟩ := node'
      simp only [map_cons, List.cons.injEq, Prod.mk.injEq] at hslots
      obtain ⟨⟨rfl, hslot⟩, hslots⟩ := hslots
      have hmessages : n.parsedMessage = n'.parsedMessage ∧
          (nodes.filterMap fun node => node.2.parsedMessage) =
            nodes'.filterMap fun node => node.2.parsedMessage := by
        rw [filterMap_cons, filterMap_cons] at hparsed
        unfold MappingInput.slot at hslot
        cases hm : n.message <;> cases hm' : n'.message <;>
        simp only [hm, hm', MappingInput.parsedMessage, Option.map_none, Option.map_some,
          Option.isNone_none, Option.isNone_some, if_true, Bool.false_eq_true, if_false,
          reduceCtorEq] at hparsed hslot ⊢
        · exact ⟨trivial, hparsed⟩
        · rw [List.cons.injEq] at hparsed
          exact ⟨congrArg some hparsed.1, hparsed.2⟩
      have hhead := node_recovered (h _ mem_cons_self) (h' _ mem_cons_self) hslot
        hmessages.1 (hrecords _ mem_cons_self _ mem_cons_self rfl)
      have htail := ih (fun node hmem => h node (mem_cons_of_mem _ hmem))
        (fun node hmem => h' node (mem_cons_of_mem _ hmem)) hslots hmessages.2
        fun node hmem node' hmem' => hrecords node (mem_cons_of_mem _ hmem) node'
          (mem_cons_of_mem _ hmem')
      rw [keyedNodes, keyedNodes, map_cons, map_cons]
      exact congrArg₂ List.cons (Prod.ext rfl hhead) htail

theorem ConversationInput.Clean.below_node (h : input.Clean) {node : String × MappingInput}
    (hnode : node ∈ input.mapping) :
    below node.1 (below "mapping" (conversationRecords input)) =
      nodeRecords node.1 node.2 := by
  rw [conversationRecords, below_append, below_members_of_absent h.mapping,
    below_under_self, nil_append, below_flatMap_under h.keys nodeRecords,
    (lookup_eq_some_iff h.keys).mpr hnode, Option.elim]

theorem parseConversation_messages (input : ConversationInput) (index : Nat) :
    (parseConversation input index).1.messages =
      input.mapping.filterMap fun node => node.2.parsedMessage := by
  simp only [parseConversation, filterMap_map]
  exact filterMap_congr fun node _ => parseMapping_fst node.2 _ node.1

theorem conversation_recovered {a b : ConversationInput} (ha : a.Clean) (hb : b.Clean)
    (hslots : a.slots = b.slots) {index index' : Nat}
    (hparsed : (parseConversation a index).1 = (parseConversation b index').1)
    (hrecords : conversationRecords a = conversationRecords b) : a.keyed = b.keyed := by
  have hmessages := congrArg ParsedConversation.messages hparsed
  rw [parseConversation_messages, parseConversation_messages] at hmessages
  have hmapping : keyedNodes a.mapping = keyedNodes b.mapping := by
    refine nodes_recovered ha.inner hb.inner hslots hmessages fun node hnode node' hnode' heq => ?_
    rw [← ha.below_node hnode, ← hb.below_node hnode', hrecords, heq]
  simp only [parseConversation, ParsedConversation.mk.injEq, object.injEq] at hparsed
  obtain ⟨hid, htitle, hcreated, hupdated, hextra, -⟩ := hparsed
  unfold keyed
  rw [hid, htitle, hcreated, hupdated, hextra, hmapping]

/-! ## Documents -/

theorem indexed_keys_nodup (inputs : List α) :
    ((inputs.zipIdx.map fun (input, index) => (toString index, input)).map (·.1)).Nodup := by
  have hkeys : ((inputs.zipIdx.map fun (input, index) => (toString index, input)).map (·.1)) =
      (List.range' 0 inputs.length).map toString := by
    rw [map_map, ← zipIdx_map_snd, map_map]
    rfl
  rw [hkeys]
  exact List.Nodup.map toString_injective nodup_range'

theorem below_index {inputs : List ConversationInput} {index : Nat}
    (h : inputs[index]? = some input) :
    below (toString index) (documentRecords inputs) = conversationRecords input := by
  have hlookup : (inputs.zipIdx.map fun (input, index) => (toString index, input)).lookup
      (toString index) = some input :=
    (lookup_eq_some_iff (indexed_keys_nodup inputs)).mpr
      (mem_map.mpr ⟨(input, index), mem_zipIdx_iff_getElem?.mpr h, rfl⟩)
  rw [documentRecords, indexedRecords, below_flatMap_under (indexed_keys_nodup inputs)
    (fun _ => conversationRecords), hlookup, Option.elim]

theorem document_recovered {a b : List ConversationInput} (ha : ∀ input ∈ a, input.Clean)
    (hb : ∀ input ∈ b, input.Clean) (hslots : a.map slots = b.map slots)
    (hparsed : (parseEach parseConversation a).1 = (parseEach parseConversation b).1)
    (hrecords : documentRecords a = documentRecords b) :
    a.map keyed = b.map keyed := by
  have hlength : a.length = b.length := by
    rw [← length_map slots, hslots, length_map]
  refine ext_getElem? fun index => ?_
  rw [getElem?_map, getElem?_map]
  cases hx : a[index]? with
  | none =>
    rw [List.getElem?_eq_none_iff] at hx
    rw [List.getElem?_eq_none_iff.mpr (hlength ▸ hx), Option.map_none]
  | some x =>
    have hbound := (List.getElem?_eq_some_iff.mp hx).1
    obtain ⟨y, hy⟩ : ∃ y, b[index]? = some y :=
      ⟨_, getElem?_eq_getElem (hlength ▸ hbound)⟩
    have hslot := congrArg (·[index]?) hslots
    have hrecord := congrArg (·[index]?) hparsed
    simp only [parseEach, map_map, getElem?_map, getElem?_zipIdx, hx, hy,
      Option.map_some, Option.some.injEq, comp_apply] at hslot hrecord
    rw [hy, Option.map_some, Option.map_some, conversation_recovered
      (ha x (mem_of_getElem? hx)) (hb y (mem_of_getElem? hy)) hslot hrecord]
    rw [← below_index hx, ← below_index hy, hrecords]

theorem parseArchive_conversations {projects canvas : Option Value} {parser : ParserId}
    {parsed : ParsedConversations}
    (h : parseArchive number document projects canvas parser = some parsed) :
    ∃ inputs rest, listOf (conversationInput number) document = some inputs ∧
      (parseEach parseConversation inputs).1 = parsed.conversations ∧
      (parseEach parseConversation inputs).2 ++ rest = parsed.rawRecords ∧
      ∀ other parsed', parseArchive number other projects canvas parser = some parsed' →
        ∃ inputs', listOf (conversationInput number) other = some inputs' ∧
          (parseEach parseConversation inputs').1 = parsed'.conversations ∧
          (parseEach parseConversation inputs').2 ++ rest = parsed'.rawRecords := by
  obtain ⟨inputs, hinputs, h⟩ := Option.bind_eq_some_iff.mp h
  obtain ⟨projectInputs, hprojects, h⟩ := Option.bind_eq_some_iff.mp h
  obtain ⟨canvasInputs, hcanvas, h⟩ := Option.bind_eq_some_iff.mp h
  cases h
  refine ⟨inputs, _, hinputs, rfl, (append_assoc ..).symm, fun other parsed' h' => ?_⟩
  obtain ⟨inputs', hinputs', h'⟩ := Option.bind_eq_some_iff.mp h'
  obtain ⟨_, hprojects', h'⟩ := Option.bind_eq_some_iff.mp h'
  obtain ⟨_, hcanvas', h'⟩ := Option.bind_eq_some_iff.mp h'
  cases hprojects.symm.trans hprojects'
  cases hcanvas.symm.trans hcanvas'
  cases h'
  exact ⟨inputs', hinputs', rfl, (append_assoc ..).symm⟩

theorem listOf_clean (h : document.Distinct) {inputs : List ConversationInput}
    (hinputs : listOf (conversationInput number) document = some inputs) :
    ∀ input ∈ inputs, input.Clean := by
  obtain ⟨values, rfl, hinputs⟩ := listOf_eq_some hinputs
  rw [Distinct] at h
  exact each_clean (fun _ => distinct_of_mem h) hinputs

theorem slots_keyed (input : ConversationInput) : input.keyed.slots = input.slots := by
  rw [slots, slots, keyed, keyedNodes, map_map]
  rfl

/-- Documents with the same parse say the same exactly when they have the same skeleton. -/
theorem parseArchive_recovered_iff {number : String → Epoch} {a b : Value} (ha : a.Distinct)
    (hb : b.Distinct) {projects canvas : Option Value} {parser : ParserId}
    {parsed : ParsedConversations}
    (hparsed : parseArchive number a projects canvas parser = some parsed)
    (hparsed' : parseArchive number b projects canvas parser = some parsed) :
    SameDocument number a b ↔ SameSkeleton a b := by
  obtain ⟨inputs, rest, hinputs, hconversations, hraw, hother⟩ :=
    parseArchive_conversations hparsed
  obtain ⟨inputs', hinputs', hconversations', hraw'⟩ := hother b parsed hparsed'
  rw [sameDocument_iff ha hb hinputs hinputs', sameSkeleton_iff ha hb hinputs hinputs']
  constructor
  · intro hkeyed
    have hslots := congrArg (List.map ConversationInput.slots) hkeyed
    rw [List.map_map, List.map_map] at hslots
    have hsame : ConversationInput.slots ∘ ConversationInput.keyed = ConversationInput.slots :=
      funext fun input => slots_keyed input
    rwa [hsame] at hslots
  · intro hslots
    have hrecords : documentRecords inputs = documentRecords inputs' := by
      refine @rawAt_injective [] _ _ ?_
      rw [← parseEach_conversationRecords, ← parseEach_conversationRecords]
      exact List.append_cancel_right (hraw.trans hraw'.symm)
    exact document_recovered (listOf_clean ha hinputs) (listOf_clean hb hinputs') hslots
      (hconversations.trans hconversations'.symm) hrecords

def oneNode (key : String) (members : List (String × Value)) : Value :=
  .array [.object [("id", .string "conversation-1"),
    ("mapping", .object [(key, .object (members ++ [("message", .object [
      ("id", .string "message-1"), ("author", .object [("role", .string "user")]),
      ("content", .object [("parts", .array [.string "text"])])])]))])]]

theorem oneNode_distinct (key : String) {members : List (String × Value)}
    (h : members = [] ∨ members = [("id", .string key)]) : (oneNode key members).Distinct := by
  rcases h with rfl | rfl <;>
  simp [oneNode, Distinct, DistinctValues, DistinctFields]

def oneNodeParsed : ParsedConversations where
  schemaId := syntheticSchemaId
  parser := default
  conversations := [⟨"conversation-1", none, none, none, .object [],
    [⟨"message-1", none, .user, none, none, none, .object [],
      [⟨0, .text, .string "text"⟩]⟩]⟩]
  projects := []
  canvasDocuments := []
  assets := []
  rawRecords := []

/-- A node id that repeats its key is not kept, and the documents say the same. -/
theorem oneNode_recovered : SameDocument (fun _ => 0) (oneNode "node-1" [])
    (oneNode "node-1" [("id", .string "node-1")]) := by
  have hparsed : ∀ members ∈ [[], [("id", Value.string "node-1")]],
      parseArchive (fun _ => 0) (oneNode "node-1" members) none none default =
        some oneNodeParsed := by
    decide +kernel
  refine (parseArchive_recovered_iff (oneNode_distinct _ (.inl rfl)) (oneNode_distinct _ (.inr rfl))
    (hparsed _ (by decide)) (hparsed _ (by decide))).mpr ?_
  refine ⟨_, _, rfl, rfl, .cons ⟨_, _, rfl, rfl, _, _, rfl, rfl, fun key => ?_⟩ .nil⟩
  rw [List.lookup_cons, List.lookup_cons]
  cases key == "node-1" with
  | true => exact ⟨_, _, rfl, rfl, by decide, fun h => by cases h⟩
  | false => trivial

/-- The key of a node does not reach the result. -/
theorem oneNode_forgotten :
    (oneNode "node-1" []).Distinct ∧ (oneNode "node-2" []).Distinct ∧
      parseArchive (fun _ => 0) (oneNode "node-1" []) none none default = some oneNodeParsed ∧
      parseArchive (fun _ => 0) (oneNode "node-2" []) none none default = some oneNodeParsed ∧
      ¬ SameDocument (fun _ => 0) (oneNode "node-1" []) (oneNode "node-2" []) := by
  refine ⟨oneNode_distinct _ (.inl rfl), oneNode_distinct _ (.inl rfl), by decide +kernel,
    by decide +kernel, ?_⟩
  rintro ⟨_, _, hleft, hright, hconversations⟩
  cases hleft
  cases hright
  obtain ⟨_, _, hleft, hright, hmembers⟩ := (List.forall₂_cons.mp hconversations).1
  cases hleft
  cases hright
  obtain ⟨_, _, hleft, hright, hnodes⟩ := hmembers "mapping"
  cases hleft
  cases hright
  exact hnodes "node-1"

end ChatgptArchive
