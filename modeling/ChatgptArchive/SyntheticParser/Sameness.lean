import ChatgptArchive.SyntheticParser.Input

/-!
# Documents that say the same

Two documents say the same when they differ in the order of object keys, in an optional field that
is `null` or absent, in an empty metadata object that is absent, in a node id that repeats its key
and in how a time is written.
-/

namespace ChatgptArchive

open List Value Members ConversationInput

variable {fields fields' : List (String × Value)} {α : Type} {read : Value → Option α}
  {R : Value → Value → Prop} {x y : Option Value} {a : MetadataInput} {v w : Value} {s : String}

/-! ## The relation -/

def Same (a b : Option Value) : Prop := a.map ordered = b.map ordered

def present (member : Option Value) : Option Value := member.filter (· ≠ .null)

def SameOptional (a b : Option Value) : Prop := Same (present a) (present b)

def SameMembers (R : String → Option Value → Option Value → Prop) (a b : Value) : Prop :=
  ∃ fields fields', a = .object fields ∧ b = .object fields' ∧
    ∀ key, R key (fields.lookup key) (fields'.lookup key)

def SameWhere (R : Value → Value → Prop) : Option Value → Option Value → Prop
  | none, none => True
  | some a, some b => R a b
  | _, _ => False

def metadataMember (key : String) : Option Value → Option Value → Prop :=
  if key = "model_slug" then SameOptional else Same

section Times

variable (number : String → Epoch)

def SameTime (a b : Option Value) : Prop :=
  (present a).map (timeOf number) = (present b).map (timeOf number)

def messageMember (key : String) : Option Value → Option Value → Prop :=
  if key = "create_time" ∨ key = "update_time" then SameTime number
  else if key = "metadata" then
    fun a b => SameMembers metadataMember (a.getD (.object [])) (b.getD (.object []))
  else Same

def nodeMember (nodeKey key : String) : Option Value → Option Value → Prop :=
  if key = "id" then
    fun a b => SameOptional (a.filter (· ≠ .string nodeKey)) (b.filter (· ≠ .string nodeKey))
  else if key = "parent" then SameOptional
  else if key = "message" then
    fun a b => SameWhere (SameMembers (messageMember number)) (present a) (present b)
  else Same

def SameMapping : Option Value → Option Value → Prop :=
  SameWhere (SameMembers fun key => SameWhere (SameMembers (nodeMember number key)))

def conversationMember (key : String) : Option Value → Option Value → Prop :=
  if key = "title" then SameOptional
  else if key = "create_time" ∨ key = "update_time" then SameTime number
  else if key = "mapping" then SameMapping number
  else Same

def SameDocument (a b : Value) : Prop :=
  ∃ values values', a = .array values ∧ b = .array values' ∧
    Forall₂ (SameMembers (conversationMember number)) values values'

end Times

/-! ## The skeleton -/

def SameSlot (a b : Value) : Prop :=
  ∃ fields fields', a = .object fields ∧ b = .object fields' ∧
    ((present (fields.lookup "message")).isSome ↔ (present (fields'.lookup "message")).isSome) ∧
    (present (fields.lookup "message") = none →
      SameOptional (fields.lookup "parent") (fields'.lookup "parent"))

/-- The conversations of the documents have nodes under the same keys, messages at the same ones
and the same parents at the others. -/
def SameSkeleton (a b : Value) : Prop :=
  ∃ values values', a = .array values ∧ b = .array values' ∧
    Forall₂ (fun v w => ∃ fields fields', v = .object fields ∧ w = .object fields' ∧
      SameWhere (SameMembers fun _ => SameWhere SameSlot) (fields.lookup "mapping")
        (fields'.lookup "mapping")) values values'

/-! ## Members and typed fields -/

theorem extraOf_eq_iff (h : (fields.map (·.1)).Nodup) (h' : (fields'.map (·.1)).Nodup)
    (known : List String) :
    extraOf known fields = extraOf known fields' ↔
      ∀ key, key ∉ known → Same (fields.lookup key) (fields'.lookup key) := by
  have hkeys : ∀ {fields : List (String × Value)}, (fields.map (·.1)).Nodup →
      ((orderedFields (fields.filter fun field => !known.contains field.1)).map
        (·.1)).Nodup := by
    intro fields h
    rw [orderedFields_eq_map, map_map]
    exact h.sublist (filter_sublist.map _)
  have hlookup : ∀ (fields : List (String × Value)) key,
      (orderedFields (fields.filter fun field => !known.contains field.1)).lookup key =
        if key ∈ known then none else (fields.lookup key).map ordered := by
    intro fields key
    rw [orderedFields_eq_map, lookup_map (fun _ => ordered),
      lookup_filter (fun key => !known.contains key)]
    by_cases hknown : key ∈ known
    · simp [hknown]
    · simp [hknown]
  rw [extraOf, extraOf, sorted_eq_iff (hkeys h) (hkeys h')]
  refine forall_congr' fun key => ?_
  rw [hlookup, hlookup]
  by_cases hknown : key ∈ known
  · simp [hknown]
  · simp [hknown, Same]

theorem required_same_iff {a b : α} (hx : required read x = some a) (hy : required read y = some b)
    (hread : ∀ v w, read v = some a → read w = some b → x = some v → y = some w → (R v w ↔ a = b)) :
    SameWhere R x y ↔ a = b := by
  obtain ⟨v, rfl, hv⟩ := Option.bind_eq_some_iff.mp hx
  obtain ⟨w, rfl, hw⟩ := Option.bind_eq_some_iff.mp hy
  exact hread v w hv hw rfl rfl

theorem asStr_eq_some : v.asStr = some s ↔ v = .string s := by
  cases v <;> simp [asStr]

theorem same_iff_sameWhere : Same x y ↔ SameWhere (fun v w => v.ordered = w.ordered) x y := by
  cases x <;> cases y <;> simp [Same, SameWhere]

theorem required_string_iff {t : String} (hx : required asStr x = some s)
    (hy : required asStr y = some t) : Same x y ↔ s = t := by
  rw [same_iff_sameWhere]
  refine required_same_iff hx hy fun v w hv hw _ _ => ?_
  rw [asStr_eq_some.mp hv, asStr_eq_some.mp hw, ordered, ordered, string.injEq]

theorem optional_cases {a : Option α} (h : optional read x = some a) :
    (present x = none ∧ a = none) ∨ ∃ v b, present x = some v ∧ read v = some b ∧ a = some b := by
  cases x with
  | none => exact .inl ⟨rfl, (Option.some.inj h).symm⟩
  | some v =>
    by_cases hnull : v = .null
    · subst hnull
      exact .inl ⟨rfl, (Option.some.inj h).symm⟩
    · have hpresent : present (some v) = some v := by simp [present, hnull]
      obtain ⟨b, hb, rfl⟩ : ∃ b, read v = some b ∧ some b = a := by
        cases v <;> first | exact absurd rfl hnull | exact Option.map_eq_some_iff.mp h
      exact .inr ⟨v, b, hpresent, hb, rfl⟩

theorem optional_same_iff {a b : Option α} (hx : optional read x = some a)
    (hy : optional read y = some b)
    (hread : ∀ v w c d, present x = some v → present y = some w → read v = some c →
      read w = some d → (R v w ↔ c = d)) : SameWhere R (present x) (present y) ↔ a = b := by
  rcases optional_cases hx with ⟨hpx, rfl⟩ | ⟨v, c, hpx, hv, rfl⟩ <;>
  rcases optional_cases hy with ⟨hpy, rfl⟩ | ⟨w, d, hpy, hw, rfl⟩ <;>
  rw [hpx, hpy]
  · simp [SameWhere]
  · simp [SameWhere]
  · simp [SameWhere]
  · rw [Option.some.injEq]
    exact hread v w c d hpx hpy hv hw

theorem optional_string_iff {s t : Option String} (hx : optional asStr x = some s)
    (hy : optional asStr y = some t) : SameOptional x y ↔ s = t := by
  rw [SameOptional, same_iff_sameWhere]
  refine optional_same_iff hx hy fun v w c d _ _ hv hw => ?_
  rw [asStr_eq_some.mp hv, asStr_eq_some.mp hw, ordered, ordered, string.injEq]

theorem optional_time_iff {number : String → Epoch} {s t : Option Epoch}
    (hx : optional (timeOf number) x = some s) (hy : optional (timeOf number) y = some t) :
    SameTime number x y ↔ s = t := by
  have hwhere : SameTime number x y ↔
      SameWhere (fun v w => timeOf number v = timeOf number w) (present x) (present y) := by
    rw [SameTime]
    cases present x <;> cases present y <;> simp [SameWhere]
  rw [hwhere]
  refine optional_same_iff hx hy fun v w c d _ _ hv hw => ?_
  rw [hv, hw, Option.some.injEq]

theorem sameMembers_iff {R : String → Option Value → Option Value → Prop} (known : List String)
    (hR : ∀ key, key ∉ known → R key = Same) {fields fields' : List (String × Value)}
    (h : (fields.map (·.1)).Nodup) (h' : (fields'.map (·.1)).Nodup) :
    SameMembers R (.object fields) (.object fields') ↔
      (∀ key ∈ known, R key (fields.lookup key) (fields'.lookup key)) ∧
        extraOf known fields = extraOf known fields' := by
  rw [extraOf_eq_iff h h']
  constructor
  · rintro ⟨_, _, heq, heq', hsame⟩
    cases heq
    cases heq'
    exact ⟨fun key _ => hsame key, fun key hkey => hR key hkey ▸ hsame key⟩
  · rintro ⟨hknown, hrest⟩
    refine ⟨fields, fields', rfl, rfl, fun key => ?_⟩
    by_cases hkey : key ∈ known
    · exact hknown key hkey
    · rw [hR key hkey]
      exact hrest key hkey

theorem ordered_object_iff (h : (fields.map (·.1)).Nodup) (h' : (fields'.map (·.1)).Nodup) :
    (object fields).ordered = (object fields').ordered ↔
      SameMembers (fun _ => Same) (.object fields) (.object fields') := by
  rw [sameMembers_iff [] (fun _ _ => rfl) h h', ordered, ordered, object.injEq, extraOf, extraOf]
  simp

/-! ## Levels of a document -/

theorem asObject_eq_some : v.asObject = some fields ↔ v = .object fields := by
  cases v <;> simp [asObject]

theorem authorInput_spec {a : AuthorInput} (h : authorInput v = some a) :
    ∃ fields, v = .object fields ∧ required asStr (fields.lookup "role") = some a.role ∧
      a.extra = extraOf ["role"] fields := by
  obtain ⟨fields, hfields, h⟩ := Option.bind_eq_some_iff.mp h
  obtain ⟨role, hrole, h⟩ := Option.bind_eq_some_iff.mp h
  cases h
  exact ⟨fields, asObject_eq_some.mp hfields, hrole, rfl⟩

theorem authorInput_same_iff (hv : v.Distinct) (hw : w.Distinct) {a b : AuthorInput}
    (ha : authorInput v = some a) (hb : authorInput w = some b) :
    v.ordered = w.ordered ↔ a = b := by
  obtain ⟨fields, rfl, hrole, hextra⟩ := authorInput_spec ha
  obtain ⟨fields', rfl, hrole', hextra'⟩ := authorInput_spec hb
  obtain ⟨hdistinct, -⟩ := distinct_object.mp hv
  obtain ⟨hdistinct', -⟩ := distinct_object.mp hw
  rw [ordered_object_iff hdistinct hdistinct',
    sameMembers_iff ["role"] (fun _ _ => rfl) hdistinct hdistinct',
    forall_mem_singleton, required_string_iff hrole hrole', ← hextra, ← hextra']
  cases a
  cases b
  simp

theorem metadataInput_spec (h : metadataInput v = some a) :
    ∃ fields, v = .object fields ∧
      optional asStr (fields.lookup "model_slug") = some a.modelSlug ∧
      a.extra = extraOf ["model_slug"] fields := by
  obtain ⟨fields, hfields, h⟩ := Option.bind_eq_some_iff.mp h
  obtain ⟨modelSlug, hslug, h⟩ := Option.bind_eq_some_iff.mp h
  cases h
  exact ⟨fields, asObject_eq_some.mp hfields, hslug, rfl⟩

theorem metadataInput_same_iff (hv : v.Distinct) (hw : w.Distinct) {a b : MetadataInput}
    (ha : metadataInput v = some a) (hb : metadataInput w = some b) :
    SameMembers metadataMember v w ↔ a = b := by
  obtain ⟨fields, rfl, hslug, hextra⟩ := metadataInput_spec ha
  obtain ⟨fields', rfl, hslug', hextra'⟩ := metadataInput_spec hb
  obtain ⟨hdistinct, -⟩ := distinct_object.mp hv
  obtain ⟨hdistinct', -⟩ := distinct_object.mp hw
  have hother : ∀ key, key ∉ ["model_slug"] → metadataMember key = Same := fun key hkey =>
    if_neg fun heq => hkey (mem_singleton.mpr heq)
  rw [sameMembers_iff _ hother hdistinct hdistinct', forall_mem_singleton,
    show metadataMember "model_slug" = SameOptional from rfl, optional_string_iff hslug hslug',
    ← hextra, ← hextra']
  cases a
  cases b
  simp

theorem contentInput_spec {a : ContentInput} (h : contentInput v = some a) :
    ∃ fields parts, v = .object fields ∧ fields.lookup "parts" = some (.array parts) ∧
      a.parts = orderedValues parts ∧ a.extra = extraOf ["parts"] fields := by
  obtain ⟨fields, hfields, h⟩ := Option.bind_eq_some_iff.mp h
  obtain ⟨parts, hparts, h⟩ := Option.bind_eq_some_iff.mp h
  cases h
  obtain ⟨v', hlookup, hv'⟩ := Option.bind_eq_some_iff.mp hparts
  refine ⟨fields, parts, asObject_eq_some.mp hfields, ?_, rfl, rfl⟩
  cases v' with
  | array values => exact Option.some.inj hv' ▸ hlookup
  | _ => cases hv'

theorem contentInput_same_iff (hv : v.Distinct) (hw : w.Distinct) {a b : ContentInput}
    (ha : contentInput v = some a) (hb : contentInput w = some b) :
    v.ordered = w.ordered ↔ a = b := by
  obtain ⟨fields, parts, rfl, hlookup, hparts, hextra⟩ := contentInput_spec ha
  obtain ⟨fields', parts', rfl, hlookup', hparts', hextra'⟩ := contentInput_spec hb
  obtain ⟨hdistinct, -⟩ := distinct_object.mp hv
  obtain ⟨hdistinct', -⟩ := distinct_object.mp hw
  rw [ordered_object_iff hdistinct hdistinct',
    sameMembers_iff ["parts"] (fun _ _ => rfl) hdistinct hdistinct',
    forall_mem_singleton, hlookup, hlookup', Same, Option.map_some, Option.map_some,
    ordered, ordered, ← hparts, ← hparts', ← hextra, ← hextra']
  cases a
  cases b
  simp

theorem defaulted_metadata (h : defaulted metadataInput ⟨none, []⟩ x = some a) :
    metadataInput (x.getD (.object [])) = some a := by
  cases x with
  | none => exact h ▸ rfl
  | some v => exact h

theorem getD_distinct (h : DistinctFields fields) (key : String) :
    ((fields.lookup key).getD (.object [])).Distinct := by
  cases hlookup : fields.lookup key with
  | none =>
    rw [Option.getD_none, distinct_object]
    exact ⟨nodup_nil, by rw [DistinctFields]; trivial⟩
  | some v => exact distinct_of_lookup h hlookup

section Times

variable {number : String → Epoch} {v w : Value} {a : MappingInput} {key : String} {x : Option Value}
  {α β : Type} {read : Value → Option α} {inputs : List α}

theorem messageInput_spec {a : MessageInput} (h : messageInput number v = some a) :
    ∃ fields, v = .object fields ∧ required asStr (fields.lookup "id") = some a.id ∧
      required authorInput (fields.lookup "author") = some a.author ∧
      optional (timeOf number) (fields.lookup "create_time") = some a.createTime ∧
      optional (timeOf number) (fields.lookup "update_time") = some a.updateTime ∧
      defaulted metadataInput ⟨none, []⟩ (fields.lookup "metadata") = some a.metadata ∧
      required contentInput (fields.lookup "content") = some a.content ∧
      a.extra = extraOf ["id", "author", "create_time", "update_time", "metadata", "content"]
        fields := by
  obtain ⟨fields, hfields, h⟩ := Option.bind_eq_some_iff.mp h
  obtain ⟨id, hid, h⟩ := Option.bind_eq_some_iff.mp h
  obtain ⟨author, hauthor, h⟩ := Option.bind_eq_some_iff.mp h
  obtain ⟨createTime, hcreate, h⟩ := Option.bind_eq_some_iff.mp h
  obtain ⟨updateTime, hupdate, h⟩ := Option.bind_eq_some_iff.mp h
  obtain ⟨metadata, hmetadata, h⟩ := Option.bind_eq_some_iff.mp h
  obtain ⟨content, hcontent, h⟩ := Option.bind_eq_some_iff.mp h
  cases h
  exact ⟨fields, asObject_eq_some.mp hfields, hid, hauthor, hcreate, hupdate, hmetadata, hcontent,
    rfl⟩

theorem messageMember_other
    (h : key ∉ ["id", "author", "create_time", "update_time", "metadata", "content"]) :
    messageMember number key = Same := by
  simp only [mem_cons, not_mem_nil, or_false, not_or] at h
  rw [messageMember, if_neg (by tauto), if_neg (by tauto)]

theorem messageInput_same_iff (hv : v.Distinct) (hw : w.Distinct) {a b : MessageInput}
    (ha : messageInput number v = some a) (hb : messageInput number w = some b) :
    SameMembers (messageMember number) v w ↔ a = b := by
  obtain ⟨fields, rfl, hid, hauthor, hcreate, hupdate, hmetadata, hcontent, hextra⟩ :=
    messageInput_spec ha
  obtain ⟨fields', rfl, hid', hauthor', hcreate', hupdate', hmetadata', hcontent', hextra'⟩ :=
    messageInput_spec hb
  obtain ⟨hdistinct, hall⟩ := distinct_object.mp hv
  obtain ⟨hdistinct', hall'⟩ := distinct_object.mp hw
  have hauthors : Same (fields.lookup "author") (fields'.lookup "author") ↔
      a.author = b.author := by
    rw [same_iff_sameWhere]
    exact required_same_iff hauthor hauthor' fun v w hv hw hx hy =>
      authorInput_same_iff (distinct_of_lookup hall hx) (distinct_of_lookup hall' hy)
        hv hw
  have hcontents : Same (fields.lookup "content") (fields'.lookup "content") ↔
      a.content = b.content := by
    rw [same_iff_sameWhere]
    exact required_same_iff hcontent hcontent' fun v w hv hw hx hy =>
      contentInput_same_iff (distinct_of_lookup hall hx) (distinct_of_lookup hall' hy)
        hv hw
  have hmetadatas : messageMember number "metadata" (fields.lookup "metadata")
      (fields'.lookup "metadata") ↔ a.metadata = b.metadata :=
    metadataInput_same_iff (getD_distinct hall "metadata") (getD_distinct hall' "metadata")
      (defaulted_metadata hmetadata) (defaulted_metadata hmetadata')
  rw [sameMembers_iff _ (fun _ => messageMember_other) hdistinct hdistinct']
  simp only [forall_mem_cons, not_mem_nil, false_imp_iff, implies_true, and_true]
  rw [show messageMember number "id" = Same from rfl,
    show messageMember number "author" = Same from rfl,
    show messageMember number "create_time" = SameTime number from rfl,
    show messageMember number "update_time" = SameTime number from rfl,
    show messageMember number "content" = Same from rfl,
    required_string_iff hid hid', hauthors, optional_time_iff hcreate hcreate',
    optional_time_iff hupdate hupdate', hmetadatas, hcontents, ← hextra, ← hextra']
  cases a
  cases b
  simp only [MessageInput.mk.injEq]
  tauto

theorem mappingInput_spec (h : mappingInput number v = some a) :
    ∃ fields, v = .object fields ∧ optional asStr (fields.lookup "id") = some a.id ∧
      optional asStr (fields.lookup "parent") = some a.parent ∧
      optional (messageInput number) (fields.lookup "message") = some a.message ∧
      a.extra = extraOf ["id", "parent", "message"] fields := by
  obtain ⟨fields, hfields, h⟩ := Option.bind_eq_some_iff.mp h
  obtain ⟨id, hid, h⟩ := Option.bind_eq_some_iff.mp h
  obtain ⟨parent, hparent, h⟩ := Option.bind_eq_some_iff.mp h
  obtain ⟨message, hmessage, h⟩ := Option.bind_eq_some_iff.mp h
  cases h
  exact ⟨fields, asObject_eq_some.mp hfields, hid, hparent, hmessage, rfl⟩

theorem nodeMember_other {nodeKey : String} (h : key ∉ ["id", "parent", "message"]) :
    nodeMember number nodeKey key = Same := by
  simp only [mem_cons, not_mem_nil, or_false, not_or] at h
  rw [nodeMember, if_neg h.1, if_neg h.2.1, if_neg h.2.2]

def MappingInput.keyed (key : String) (node : MappingInput) : MappingInput :=
  { node with id := node.id.filter (· ≠ key) }

theorem optional_filter {s : Option String} (h : optional asStr x = some s) (key : String) :
    optional asStr (x.filter (· ≠ .string key)) = some (s.filter (· ≠ key)) := by
  cases x with
  | none =>
    cases h
    rfl
  | some v =>
    cases v with
    | null =>
      cases h
      rfl
    | string text =>
      cases h
      by_cases heq : text = key
      · simp [Option.filter, heq, optional]
      · simp [Option.filter, heq, optional, asStr]
    | _ => cases h

theorem present_eq_some (h : present x = some v) : x = some v :=
  (Option.filter_eq_some_iff.mp h).1

theorem mappingInput_same_iff (key : String) {v w : Value} (hv : v.Distinct) (hw : w.Distinct)
    {a b : MappingInput} (ha : mappingInput number v = some a)
    (hb : mappingInput number w = some b) :
    SameMembers (nodeMember number key) v w ↔ a.keyed key = b.keyed key := by
  obtain ⟨fields, rfl, hid, hparent, hmessage, hextra⟩ := mappingInput_spec ha
  obtain ⟨fields', rfl, hid', hparent', hmessage', hextra'⟩ := mappingInput_spec hb
  obtain ⟨hdistinct, hall⟩ := distinct_object.mp hv
  obtain ⟨hdistinct', hall'⟩ := distinct_object.mp hw
  have hids : nodeMember number key "id" (fields.lookup "id") (fields'.lookup "id") ↔
      a.id.filter (· ≠ key) = b.id.filter (· ≠ key) :=
    optional_string_iff (optional_filter hid key) (optional_filter hid' key)
  have hmessages : nodeMember number key "message" (fields.lookup "message")
      (fields'.lookup "message") ↔ a.message = b.message :=
    optional_same_iff hmessage hmessage' fun v w c d hpv hpw hc hd =>
      messageInput_same_iff (distinct_of_lookup hall (present_eq_some hpv))
        (distinct_of_lookup hall' (present_eq_some hpw)) hc hd
  rw [sameMembers_iff _ (fun _ => nodeMember_other) hdistinct hdistinct']
  simp only [forall_mem_cons, not_mem_nil, false_imp_iff, implies_true, and_true]
  rw [hids, show nodeMember number key "parent" = SameOptional from rfl,
    optional_string_iff hparent hparent', hmessages, ← hextra, ← hextra']
  cases a
  cases b
  simp only [MappingInput.keyed, MappingInput.mk.injEq]
  tauto

/-! ## Nodes by key -/

theorem eachMember_lookup {fields : List (String × Value)} {entries : List (String × α)}
    (h : eachMember read fields = some entries) :
    entries.map (·.1) = fields.map (·.1) ∧
      ∀ key, (entries.lookup key).map some = (fields.lookup key).map read := by
  induction fields generalizing entries with
  | nil =>
    cases h
    exact ⟨rfl, fun _ => rfl⟩
  | cons field fields ih =>
    obtain ⟨first, hfirst, h⟩ := Option.bind_eq_some_iff.mp h
    obtain ⟨rest, hrest, h⟩ := Option.bind_eq_some_iff.mp h
    cases h
    obtain ⟨hkeys, hlookup⟩ := ih hrest
    refine ⟨by rw [map_cons, map_cons, hkeys], fun key => ?_⟩
    rw [lookup_cons, lookup_cons]
    cases key == field.1 with
    | true => rw [Option.map_some, Option.map_some, hfirst]
    | false => exact hlookup key

def keyedNodes (nodes : List (String × MappingInput)) : List (String × MappingInput) :=
  nodes.map fun node => (node.1, node.2.keyed node.1)

theorem mappingOf_spec {nodes : List (String × MappingInput)} (h : mappingOf number v = some nodes) :
    ∃ fields entries, v = .object fields ∧ eachMember (mappingInput number) fields = some entries ∧
      nodes = sorted entries := by
  obtain ⟨fields, hfields, h⟩ := Option.bind_eq_some_iff.mp h
  obtain ⟨entries, hentries, h⟩ := Option.bind_eq_some_iff.mp h
  cases h
  exact ⟨fields, entries, asObject_eq_some.mp hfields, hentries, rfl⟩

theorem mappingOf_keys_nodup (hv : v.Distinct) {nodes : List (String × MappingInput)}
    (h : mappingOf number v = some nodes) : (nodes.map (·.1)).Nodup := by
  obtain ⟨fields, entries, rfl, hentries, rfl⟩ := mappingOf_spec h
  refine sorted_keys_nodup ?_
  rw [(eachMember_lookup hentries).1]
  exact (distinct_object.mp hv).1

/-- Nodes that are related key by key have the same image, when related nodes are those with the
same image. -/
theorem mappingOf_related_iff {R : String → Value → Value → Prop} {f : String → MappingInput → β}
    (hR : ∀ key v w, v.Distinct → w.Distinct → ∀ a b, mappingInput number v = some a →
      mappingInput number w = some b → (R key v w ↔ f key a = f key b)) {v w : Value}
    (hv : v.Distinct) (hw : w.Distinct) {nodes nodes' : List (String × MappingInput)}
    (h : mappingOf number v = some nodes) (h' : mappingOf number w = some nodes') :
    SameMembers (fun key => SameWhere (R key)) v w ↔
      (nodes.map fun node => (node.1, f node.1 node.2)) =
        nodes'.map fun node => (node.1, f node.1 node.2) := by
  have hkeys := mappingOf_keys_nodup hv h
  have hkeys' := mappingOf_keys_nodup hw h'
  obtain ⟨fields, entries, rfl, hentries, rfl⟩ := mappingOf_spec h
  obtain ⟨fields', entries', rfl, hentries', rfl⟩ := mappingOf_spec h'
  obtain ⟨-, hall⟩ := distinct_object.mp hv
  obtain ⟨-, hall'⟩ := distinct_object.mp hw
  have hread := (eachMember_lookup hentries).2
  have hread' := (eachMember_lookup hentries').2
  -- What one key looks up in the two maps.
  have hone : ∀ key, SameWhere (R key) (fields.lookup key) (fields'.lookup key) ↔
      ((sorted entries).map fun node => (node.1, f node.1 node.2)).lookup key =
        ((sorted entries').map fun node => (node.1, f node.1 node.2)).lookup key := by
    intro key
    rw [lookup_map f, lookup_map f,
      lookup_sorted ((sorted_perm entries).map _ |>.nodup_iff.mp hkeys),
      lookup_sorted ((sorted_perm entries').map _ |>.nodup_iff.mp hkeys')]
    have hv := hread key
    have hw := hread' key
    cases hx : fields.lookup key <;> cases hy : fields'.lookup key <;>
    cases ha : entries.lookup key <;> cases hb : entries'.lookup key <;>
    simp only [hx, hy, ha, hb, Option.map_none, Option.map_some, Option.some.injEq,
      reduceCtorEq] at hv hw
    · simp [SameWhere]
    · simp [SameWhere]
    · simp [SameWhere]
    · rw [Option.map_some, Option.map_some, Option.some.injEq]
      exact hR key _ _ (distinct_of_lookup hall hx) (distinct_of_lookup hall' hy) _ _
        hv.symm hw.symm
  have hpairwise : ∀ entries : List (String × MappingInput),
      ((sorted entries).map fun node => (node.1, f node.1 node.2)).Pairwise
        fun a b => a.1 ≤ b.1 := fun entries =>
    pairwise_map.mpr (sorted_pairwise entries)
  have hnodup : ∀ {nodes : List (String × MappingInput)}, (nodes.map (·.1)).Nodup →
      ((nodes.map fun node => (node.1, f node.1 node.2)).map (·.1)).Nodup := fun h => by
    rw [map_map]
    exact h
  constructor
  · rintro ⟨_, _, heq, heq', hsame⟩
    cases heq
    cases heq'
    exact eq_of_lookup (hpairwise entries) (hpairwise entries') (hnodup hkeys)
      (hnodup hkeys') fun key => (hone key).mp (hsame key)
  · intro heq
    exact ⟨fields, fields', rfl, rfl, fun key => (hone key).mpr (by rw [heq])⟩

/-! ## Conversations -/

theorem conversationInput_spec {a : ConversationInput} (h : conversationInput number v = some a) :
    ∃ fields, v = .object fields ∧ required asStr (fields.lookup "id") = some a.id ∧
      optional asStr (fields.lookup "title") = some a.title ∧
      optional (timeOf number) (fields.lookup "create_time") = some a.createTime ∧
      optional (timeOf number) (fields.lookup "update_time") = some a.updateTime ∧
      required (mappingOf number) (fields.lookup "mapping") = some a.mapping ∧
      a.extra = extraOf ["id", "title", "create_time", "update_time", "mapping"] fields := by
  obtain ⟨fields, hfields, h⟩ := Option.bind_eq_some_iff.mp h
  obtain ⟨id, hid, h⟩ := Option.bind_eq_some_iff.mp h
  obtain ⟨title, htitle, h⟩ := Option.bind_eq_some_iff.mp h
  obtain ⟨createTime, hcreate, h⟩ := Option.bind_eq_some_iff.mp h
  obtain ⟨updateTime, hupdate, h⟩ := Option.bind_eq_some_iff.mp h
  obtain ⟨mapping, hmapping, h⟩ := Option.bind_eq_some_iff.mp h
  cases h
  exact ⟨fields, asObject_eq_some.mp hfields, hid, htitle, hcreate, hupdate, hmapping, rfl⟩

theorem conversationMember_other
    (h : key ∉ ["id", "title", "create_time", "update_time", "mapping"]) :
    conversationMember number key = Same := by
  simp only [mem_cons, not_mem_nil, or_false, not_or] at h
  rw [conversationMember, if_neg h.2.1, if_neg (by tauto), if_neg h.2.2.2.2]

def ConversationInput.keyed (input : ConversationInput) : ConversationInput :=
  { input with mapping := keyedNodes input.mapping }

theorem conversationInput_same_iff (hv : v.Distinct) (hw : w.Distinct) {a b : ConversationInput}
    (ha : conversationInput number v = some a) (hb : conversationInput number w = some b) :
    SameMembers (conversationMember number) v w ↔ a.keyed = b.keyed := by
  obtain ⟨fields, rfl, hid, htitle, hcreate, hupdate, hmapping, hextra⟩ :=
    conversationInput_spec ha
  obtain ⟨fields', rfl, hid', htitle', hcreate', hupdate', hmapping', hextra'⟩ :=
    conversationInput_spec hb
  obtain ⟨hdistinct, hall⟩ := distinct_object.mp hv
  obtain ⟨hdistinct', hall'⟩ := distinct_object.mp hw
  obtain ⟨m, hm, hmapping⟩ := Option.bind_eq_some_iff.mp hmapping
  obtain ⟨m', hm', hmapping'⟩ := Option.bind_eq_some_iff.mp hmapping'
  have hmappings : conversationMember number "mapping" (fields.lookup "mapping")
      (fields'.lookup "mapping") ↔ keyedNodes a.mapping = keyedNodes b.mapping := by
    rw [hm, hm']
    exact mappingOf_related_iff (fun key v w hv hw a b => mappingInput_same_iff key hv hw)
      (distinct_of_lookup hall hm) (distinct_of_lookup hall' hm') hmapping hmapping'
  rw [sameMembers_iff _ (fun _ => conversationMember_other) hdistinct hdistinct']
  simp only [forall_mem_cons, not_mem_nil, false_imp_iff, implies_true, and_true]
  rw [hmappings, show conversationMember number "id" = Same from rfl,
    show conversationMember number "title" = SameOptional from rfl,
    show conversationMember number "create_time" = SameTime number from rfl,
    show conversationMember number "update_time" = SameTime number from rfl,
    required_string_iff hid hid', optional_string_iff htitle htitle',
    optional_time_iff hcreate hcreate', optional_time_iff hupdate hupdate', ← hextra, ← hextra']
  cases a
  cases b
  simp only [keyed, mk.injEq]
  tauto

theorem each_same_iff {f : α → β} {R : Value → Value → Prop} {values values' : List Value}
    {inputs' : List α} (h : each read values = some inputs) (h' : each read values' = some inputs')
    (hread : ∀ v ∈ values, ∀ w ∈ values', ∀ a b, read v = some a → read w = some b →
      (R v w ↔ f a = f b)) : Forall₂ R values values' ↔ inputs.map f = inputs'.map f := by
  induction values generalizing values' inputs inputs' with
  | nil =>
    cases h
    cases values' with
    | nil =>
      cases h'
      simp
    | cons w values' =>
      obtain ⟨b, -, h'⟩ := Option.bind_eq_some_iff.mp h'
      obtain ⟨rest, -, h'⟩ := Option.bind_eq_some_iff.mp h'
      cases h'
      simp
  | cons v values ih =>
    obtain ⟨a, ha, h⟩ := Option.bind_eq_some_iff.mp h
    obtain ⟨rest, hrest, h⟩ := Option.bind_eq_some_iff.mp h
    cases h
    cases values' with
    | nil =>
      cases h'
      simp
    | cons w values' =>
      obtain ⟨b, hb, h'⟩ := Option.bind_eq_some_iff.mp h'
      obtain ⟨rest', hrest', h'⟩ := Option.bind_eq_some_iff.mp h'
      cases h'
      rw [List.forall₂_cons, map_cons, map_cons, List.cons.injEq,
        hread v mem_cons_self w mem_cons_self a b ha hb,
        ih hrest hrest' fun v hv w hw => hread v (mem_cons_of_mem _ hv) w
          (mem_cons_of_mem _ hw)]

theorem listOf_eq_some (h : listOf read v = some inputs) :
    ∃ values, v = .array values ∧ each read values = some inputs := by
  obtain ⟨values, hvalues, h⟩ := Option.bind_eq_some_iff.mp h
  cases v with
  | array _ =>
    cases hvalues
    exact ⟨_, rfl, h⟩
  | _ => cases hvalues

/-- Documents say the same exactly when their typed inputs agree, the node ids that repeat their
keys aside. -/
theorem sameDocument_iff (hv : v.Distinct) (hw : w.Distinct) {a b : List ConversationInput}
    (ha : listOf (conversationInput number) v = some a)
    (hb : listOf (conversationInput number) w = some b) :
    SameDocument number v w ↔ a.map keyed = b.map keyed := by
  obtain ⟨values, rfl, ha⟩ := listOf_eq_some ha
  obtain ⟨values', rfl, hb⟩ := listOf_eq_some hb
  rw [Distinct] at hv hw
  rw [← each_same_iff ha hb fun v hmem w hmem' a b =>
    conversationInput_same_iff (distinct_of_mem hv hmem) (distinct_of_mem hw hmem')]
  constructor
  · rintro ⟨_, _, heq, heq', hsame⟩
    cases heq
    cases heq'
    exact hsame
  · exact fun hsame => ⟨values, values', rfl, rfl, hsame⟩

/-! ## Skeletons of typed inputs -/

def MappingInput.slot (node : MappingInput) : Option (Option String) :=
  if node.message.isNone then some node.parent else none

theorem sameSlot_iff {b : MappingInput} (ha : mappingInput number v = some a)
    (hb : mappingInput number w = some b) : SameSlot v w ↔ a.slot = b.slot := by
  obtain ⟨fields, rfl, -, hparent, hmessage, -⟩ := mappingInput_spec ha
  obtain ⟨fields', rfl, -, hparent', hmessage', -⟩ := mappingInput_spec hb
  have hslot : SameSlot (.object fields) (.object fields') ↔
      ((present (fields.lookup "message")).isSome ↔
        (present (fields'.lookup "message")).isSome) ∧
      (present (fields.lookup "message") = none →
        SameOptional (fields.lookup "parent") (fields'.lookup "parent")) := by
    constructor
    · rintro ⟨_, _, heq, heq', h⟩
      cases heq
      cases heq'
      exact h
    · exact fun h => ⟨fields, fields', rfl, rfl, h⟩
  rw [hslot, optional_string_iff hparent hparent', MappingInput.slot, MappingInput.slot]
  rcases optional_cases hmessage with ⟨hpx, hx⟩ | ⟨_, _, hpx, _, hx⟩ <;>
  rcases optional_cases hmessage' with ⟨hpy, hy⟩ | ⟨_, _, hpy, _, hy⟩ <;>
  simp [hpx, hpy, hx, hy]

def ConversationInput.slots (input : ConversationInput) :
    List (String × Option (Option String)) :=
  input.mapping.map fun node => (node.1, node.2.slot)

/-- Parsed inputs keep of a skeleton its slots, and lose none of it. -/
theorem sameSkeleton_iff (hv : v.Distinct) (hw : w.Distinct) {a b : List ConversationInput}
    (ha : listOf (conversationInput number) v = some a)
    (hb : listOf (conversationInput number) w = some b) :
    SameSkeleton v w ↔ a.map slots = b.map slots := by
  obtain ⟨values, rfl, ha⟩ := listOf_eq_some ha
  obtain ⟨values', rfl, hb⟩ := listOf_eq_some hb
  rw [Distinct] at hv hw
  have hone : ∀ v ∈ values, ∀ w ∈ values', ∀ a b, conversationInput number v = some a →
      conversationInput number w = some b → ((∃ fields fields', v = .object fields ∧
        w = .object fields' ∧ SameWhere (SameMembers fun _ => SameWhere SameSlot)
          (fields.lookup "mapping") (fields'.lookup "mapping")) ↔ a.slots = b.slots) := by
    intro v hmem w hmem' a b ha hb
    obtain ⟨fields, rfl, -, -, -, -, hmapping, -⟩ := conversationInput_spec ha
    obtain ⟨fields', rfl, -, -, -, -, hmapping', -⟩ := conversationInput_spec hb
    obtain ⟨-, hall⟩ := distinct_object.mp (distinct_of_mem hv hmem)
    obtain ⟨-, hall'⟩ := distinct_object.mp (distinct_of_mem hw hmem')
    obtain ⟨m, hm, hmapping⟩ := Option.bind_eq_some_iff.mp hmapping
    obtain ⟨m', hm', hmapping'⟩ := Option.bind_eq_some_iff.mp hmapping'
    have hiff : SameMembers (fun _ => SameWhere SameSlot) m m' ↔ a.slots = b.slots :=
      mappingOf_related_iff (fun _ _ _ _ _ _ _ => sameSlot_iff)
        (distinct_of_lookup hall hm) (distinct_of_lookup hall' hm') hmapping hmapping'
    rw [← hiff]
    constructor
    · rintro ⟨_, _, heq, heq', hsame⟩
      cases heq
      cases heq'
      rw [hm, hm'] at hsame
      exact hsame
    · intro hsame
      refine ⟨fields, fields', rfl, rfl, ?_⟩
      rw [hm, hm']
      exact hsame
  rw [← each_same_iff ha hb hone]
  constructor
  · rintro ⟨_, _, heq, heq', hsame⟩
    cases heq
    cases heq'
    exact hsame
  · exact fun hsame => ⟨values, values', rfl, rfl, hsame⟩

end Times

end ChatgptArchive
