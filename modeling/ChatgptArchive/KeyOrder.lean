import ChatgptArchive.JsonText
import ChatgptArchive.SyntheticParser.Input

/-!
# Values up to the order of keys

Two values agree when they differ in the order of the members of their objects alone, at any depth.
Values without a repeated key agree exactly when they have the same ordered form.
-/

namespace ChatgptArchive.Value

open List Members

variable {as bs : List (String × Value)}

mutual

/-- The same value up to the order of the members of objects. -/
def Agrees : Value → Value → Prop
  | array as, array bs => AgreesValues as bs
  | object as, object bs => (∀ key, key ∈ as.map (·.1) ↔ key ∈ bs.map (·.1)) ∧ AgreesFields as bs
  | a, b => a = b

def AgreesValues : List Value → List Value → Prop
  | [], [] => True
  | a :: as, b :: bs => a.Agrees b ∧ AgreesValues as bs
  | _, _ => False

def AgreesFields : List (String × Value) → List (String × Value) → Prop
  | [], _ => True
  | (key, a) :: as, bs => (∃ b, (key, b) ∈ bs ∧ a.Agrees b) ∧ AgreesFields as bs

end

/-! ## The ordered form -/

theorem keys_orderedFields (fields : List (String × Value)) :
    (orderedFields fields).map (·.1) = fields.map (·.1) := by
  rw [orderedFields_eq_map, map_map]
  rfl

theorem ordered_object_eq_iff (ha : (as.map (·.1)).Nodup) (hb : (bs.map (·.1)).Nodup) :
    (object as).ordered = (object bs).ordered ↔
      ∀ key, (as.lookup key).map ordered = (bs.lookup key).map ordered := by
  rw [ordered, ordered, object.injEq, sorted_eq_iff (by rwa [keys_orderedFields])
    (by rwa [keys_orderedFields])]
  simp only [orderedFields_eq_map, lookup_map fun _ => ordered]

/-- Two objects look up the same ordered forms exactly when they have the same keys and each member
of the one has its counterpart in the other. -/
theorem lookup_ordered_iff (ha : (as.map (·.1)).Nodup) (hb : (bs.map (·.1)).Nodup) :
    (∀ key, (as.lookup key).map ordered = (bs.lookup key).map ordered) ↔
      (∀ key, key ∈ as.map (·.1) ↔ key ∈ bs.map (·.1)) ∧
        ∀ field ∈ as, ∃ b, (field.1, b) ∈ bs ∧ field.2.ordered = b.ordered := by
  simp only [← isSome_lookup]
  constructor
  · intro hlookup
    refine ⟨fun key => ?_, fun field hfield => ?_⟩
    · have hsome := congrArg Option.isSome (hlookup key)
      rwa [Option.isSome_map, Option.isSome_map, Bool.eq_iff_iff] at hsome
    · have hsome := hlookup field.1
      rw [(lookup_eq_some_iff ha).mpr hfield, Option.map_some, eq_comm,
        Option.map_eq_some_iff] at hsome
      obtain ⟨b, hb', heq⟩ := hsome
      exact ⟨b, (lookup_eq_some_iff hb).mp hb', heq.symm⟩
  · rintro ⟨hkeys, hmembers⟩ key
    cases hleft : as.lookup key with
    | none =>
      have hnone : ¬(bs.lookup key).isSome := by simp [← hkeys key, hleft]
      rw [Option.not_isSome_iff_eq_none.mp hnone, Option.map_none]
    | some a =>
      obtain ⟨b, hmem, heq⟩ := hmembers _ ((lookup_eq_some_iff ha).mp hleft)
      rw [(lookup_eq_some_iff hb).mpr hmem, Option.map_some, Option.map_some, heq]

theorem ordered_object_inj (ha : (as.map (·.1)).Nodup) (hkeys : as.map (·.1) = bs.map (·.1)) :
    (object as).ordered = (object bs).ordered ↔ orderedFields as = orderedFields bs := by
  rw [ordered, ordered, object.injEq]
  exact sorted_inj_of_keys (by rwa [keys_orderedFields])
    (by rw [keys_orderedFields, keys_orderedFields, hkeys])

mutual

theorem ordered_ordered : (value : Value) → value.ordered.ordered = value.ordered
  | array values => by
    rw [ordered, ordered, orderedValues_eq_map (orderedValues values)]
    exact congrArg array ((map_congr_left (orderedValues_fixed values)).trans (map_id _))
  | object fields => by
    have hfixed : orderedFields (sorted (orderedFields fields)) =
        sorted (orderedFields fields) := by
      rw [orderedFields_eq_map]
      refine (map_congr_left fun field hfield => ?_).trans (map_id _)
      exact Prod.ext rfl
        (orderedFields_fixed fields field ((sorted_perm _).mem_iff.mp hfield))
    rw [ordered, ordered, hfixed, sorted_sorted]
  | null | bool _ | number _ | string _ => by simp [ordered]

theorem orderedValues_fixed : (values : List Value) → ∀ value ∈ orderedValues values,
    value.ordered = value
  | [], _, h => by simp [orderedValues] at h
  | first :: values, value, h => by
    rw [orderedValues] at h
    rcases mem_cons.mp h with rfl | h
    · exact ordered_ordered first
    · exact orderedValues_fixed values value h

theorem orderedFields_fixed : (fields : List (String × Value)) → ∀ field ∈ orderedFields fields,
    field.2.ordered = field.2
  | [], _, h => by simp [orderedFields] at h
  | (key, first) :: fields, field, h => by
    rw [orderedFields] at h
    rcases mem_cons.mp h with rfl | h
    · exact ordered_ordered first
    · exact orderedFields_fixed fields field h

end

theorem numericFields_iff (fields : List (String × Value)) :
    NumericFields fields ↔ ∀ field ∈ fields, field.2.Numeric := by
  induction fields with
  | nil => simp [NumericFields]
  | cons field fields ih => simp [NumericFields, ih]

theorem numericValues_iff (values : List Value) :
    NumericValues values ↔ ∀ value ∈ values, value.Numeric := by
  induction values with
  | nil => simp [NumericValues]
  | cons value values ih => simp [NumericValues, ih]

mutual

theorem numeric_ordered : (value : Value) → value.Numeric → value.ordered.Numeric
  | array values, h => numericValues_ordered values h
  | object fields, h => by
    have hfields := (numericFields_iff _).mp (numericFields_ordered fields h)
    rw [ordered, Numeric, numericFields_iff]
    exact fun field hfield => hfields field ((sorted_perm _).mem_iff.mp hfield)
  | number _, h => by rwa [ordered]
  | null, _ | bool _, _ | string _, _ => by simp [ordered, Numeric]

theorem numericValues_ordered : (values : List Value) → NumericValues values →
    NumericValues (orderedValues values)
  | [], h => h
  | value :: values, h => ⟨numeric_ordered value h.1, numericValues_ordered values h.2⟩

theorem numericFields_ordered : (fields : List (String × Value)) → NumericFields fields →
    NumericFields (orderedFields fields)
  | [], h => h
  | (_, value) :: fields, h => ⟨numeric_ordered value h.1, numericFields_ordered fields h.2⟩

end

/-! ## Agreement -/

theorem distinct_of_mem_fields {fields : List (String × Value)} (h : DistinctFields fields)
    {field : String × Value} (hmem : field ∈ fields) : field.2.Distinct := by
  induction fields with
  | nil => exact absurd hmem not_mem_nil
  | cons first fields ih =>
    rw [DistinctFields] at h
    rcases mem_cons.mp hmem with rfl | hmem
    · exact h.1
    · exact ih h.2 hmem

mutual

theorem ordered_eq_iff : (a : Value) → a.Distinct → ∀ b : Value, b.Distinct →
    (a.ordered = b.ordered ↔ a.Agrees b)
  | array as, ha, b, hb => by
    cases b with
    | array bs =>
      rw [Distinct] at ha hb
      rw [ordered, ordered, Agrees, array.injEq]
      exact orderedValues_eq_iff as ha bs hb
    | _ => simp [ordered, Agrees]
  | object as, ha, b, hb => by
    cases b with
    | object bs =>
      rw [Distinct] at ha hb
      rw [ordered_object_eq_iff ha.1 hb.1, Agrees, agreesFields_iff as ha.2 bs hb.2]
      exact lookup_ordered_iff ha.1 hb.1
    | _ => simp [ordered, Agrees]
  | null, _, b, _ => by cases b <;> simp [ordered, Agrees]
  | bool _, _, b, _ => by cases b <;> simp [ordered, Agrees]
  | number _, _, b, _ => by cases b <;> simp [ordered, Agrees]
  | string _, _, b, _ => by cases b <;> simp [ordered, Agrees]

theorem orderedValues_eq_iff : (as : List Value) → DistinctValues as → ∀ bs : List Value,
    DistinctValues bs → (orderedValues as = orderedValues bs ↔ AgreesValues as bs)
  | [], _, [], _ => by simp [AgreesValues]
  | [], _, _ :: _, _ => by simp [orderedValues, AgreesValues]
  | _ :: _, _, [], _ => by simp [orderedValues, AgreesValues]
  | a :: as, ha, b :: bs, hb => by
    rw [orderedValues, orderedValues, AgreesValues, List.cons.injEq,
      ordered_eq_iff a ha.1 b hb.1, orderedValues_eq_iff as ha.2 bs hb.2]

/-- Each member has a counterpart with the same ordered form exactly when each has one that
agrees. -/
theorem agreesFields_iff : (as : List (String × Value)) → DistinctFields as →
    ∀ bs : List (String × Value), DistinctFields bs →
    (AgreesFields as bs ↔ ∀ field ∈ as, ∃ b, (field.1, b) ∈ bs ∧ field.2.ordered = b.ordered)
  | [], _, bs, _ => by simp [AgreesFields]
  | (key, a) :: as, ha, bs, hb => by
    have hfirst : (∃ b, (key, b) ∈ bs ∧ a.Agrees b) ↔
        ∃ b, (key, b) ∈ bs ∧ a.ordered = b.ordered :=
      exists_congr fun b => and_congr_right fun hmem =>
        (ordered_eq_iff a ha.1 b (distinct_of_mem_fields hb hmem)).symm
    rw [AgreesFields, agreesFields_iff as ha.2 bs hb, hfirst]
    simp

end

/-! ## Optional members -/

def ofOption {α : Type} (render : α → Value) : Option α → Value
  | none => null
  | some value => render value

theorem ordered_ofOption_string {a b : Option String} :
    (ofOption string a).ordered = (ofOption string b).ordered ↔ a = b := by
  cases a <;> cases b <;> simp [ofOption, ordered]

theorem numeric_ofOption_string (text : Option String) : (ofOption string text).Numeric := by
  cases text <;> exact trivial

end ChatgptArchive.Value
