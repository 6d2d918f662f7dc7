import Mathlib.Data.List.Nodup

/-!
# Maps of values that name their own key

An ordered map that is drained into the list of its values and built again from it keeps its entries
as long as every value stands under the key it names.
-/

namespace ChatgptArchive.KeyedMap

open Std List

variable {κ α : Type} [Ord κ] [TransOrd κ]

def values (entries : TreeMap κ α) : List α :=
  entries.toList.map (·.2)

def index (key : α → κ) (list : List α) : TreeMap κ α :=
  TreeMap.ofList (list.map fun a => (key a, a))

def updateEach {ρ : Type} (recordKey : ρ → κ) (fresh : κ → α) (update : α → ρ → α)
    (entries : TreeMap κ α) (records : List ρ) : TreeMap κ α :=
  records.foldl (fun entries record =>
    entries.insert (recordKey record)
      (update (entries.getD (recordKey record) (fresh (recordKey record))) record)) entries

def Keyed (key : α → κ) (entries : TreeMap κ α) : Prop :=
  ∀ k a, entries[k]? = some a → key a = k

variable [LawfulEqOrd κ]

theorem mem_values {entries : TreeMap κ α} {a : α} :
    a ∈ values entries ↔ ∃ k : κ, entries[k]? = some a := by
  simp only [values, mem_map, Prod.exists, TreeMap.mem_toList_iff_getElem?_eq_some]
  exact ⟨fun ⟨k, _, hk, rfl⟩ => ⟨k, hk⟩, fun ⟨k, hk⟩ => ⟨k, a, hk, rfl⟩⟩

section Keyed

variable {key : α → κ} {entries : TreeMap κ α} {list : List α}

theorem Keyed.mem_values_iff (h : Keyed key entries) {a : α} :
    a ∈ values entries ↔ entries[key a]? = some a := by
  refine ⟨fun ha => ?_, fun ha => mem_values.mpr ⟨_, ha⟩⟩
  obtain ⟨k, hk⟩ := mem_values.mp ha
  rw [h k a hk]
  exact hk

theorem Keyed.nodup_values (h : Keyed key entries) : ((values entries).map key).Nodup := by
  have hkeys : (values entries).map key = entries.toList.map (·.1) := by
    rw [values, map_map]
    refine map_congr_left fun entry hentry => ?_
    exact h entry.1 entry.2 (TreeMap.mem_toList_iff_getElem?_eq_some.mp hentry)
  rw [hkeys]
  refine pairwise_map.mpr (TreeMap.distinct_keys_toList.imp fun hne heq => hne ?_)
  rw [heq]
  exact ReflCmp.compare_self

theorem getElem?_index [DecidableEq κ] (h : (list.map key).Nodup) {k : κ} {a : α} :
    (index key list)[k]? = some a ↔ a ∈ list ∧ key a = k := by
  have hdistinct : (list.map fun a => (key a, a)).Pairwise fun x y => ¬ compare x.1 y.1 = .eq := by
    refine pairwise_map.mpr ((pairwise_map.mp h).imp fun hne heq => hne ?_)
    exact LawfulEqCmp.eq_of_compare heq
  have hmem : ∀ b ∈ list, (index key list)[key b]? = some b := fun b hb =>
    TreeMap.getElem?_ofList_of_mem ReflCmp.compare_self hdistinct (mem_map_of_mem hb)
  refine ⟨fun hk => ?_, fun ⟨ha, hkey⟩ => hkey ▸ hmem a ha⟩
  have hcontained : k ∈ list.map key := by
    by_contra habsent
    rw [index, TreeMap.getElem?_ofList_of_contains_eq_false] at hk
    · cases hk
    · simpa using habsent
  obtain ⟨b, hb, rfl⟩ := mem_map.mp hcontained
  rw [hmem b hb] at hk
  cases hk
  exact ⟨hb, rfl⟩

theorem Keyed.getElem?_index_values [DecidableEq κ] (h : Keyed key entries) (k : κ) :
    (index key (values entries))[k]? = entries[k]? := by
  refine Option.ext fun a => ?_
  rw [getElem?_index h.nodup_values, h.mem_values_iff]
  exact ⟨fun ⟨ha, hk⟩ => hk ▸ ha, fun ha => ⟨(h k a ha).symm ▸ ha, h k a ha⟩⟩

theorem getElem?_index_map [DecidableEq κ] (h : (list.map key).Nodup) {f : α → α}
    (hf : ∀ a, key (f a) = key a) (k : κ) :
    (index key (list.map f))[k]? = ((index key list).map fun _ => f)[k]? := by
  have hkeys : (list.map f).map key = list.map key := by
    rw [map_map]
    exact map_congr_left fun a _ => hf a
  refine Option.ext fun a => ?_
  rw [getElem?_index (hkeys ▸ h), TreeMap.getElem?_map, Option.map_eq_some_iff, mem_map]
  constructor
  · rintro ⟨⟨b, hb, rfl⟩, hk⟩
    exact ⟨b, (getElem?_index h).mpr ⟨hb, hf b ▸ hk⟩, rfl⟩
  · rintro ⟨b, hb, rfl⟩
    obtain ⟨hb, hk⟩ := (getElem?_index h).mp hb
    exact ⟨⟨b, hb, rfl⟩, (hf b).trans hk⟩

end Keyed

/-! ## Maps that only grow -/

def Grows (R : α → α → Prop) (entries entries' : TreeMap κ α) : Prop :=
  ∀ (k : κ) a, entries[k]? = some a → ∃ a', entries'[k]? = some a' ∧ R a a'

section Grows

variable {R : α → α → Prop} {entries entries' entries'' : TreeMap κ α}

omit [TransOrd κ] [LawfulEqOrd κ] in
theorem Grows.refl (hR : ∀ a, R a a) (entries : TreeMap κ α) : Grows R entries entries :=
  fun _ a ha => ⟨a, ha, hR a⟩

omit [TransOrd κ] [LawfulEqOrd κ] in
theorem Grows.trans (hR : ∀ a b c, R a b → R b c → R a c) (h : Grows R entries entries')
    (h' : Grows R entries' entries'') : Grows R entries entries'' := by
  intro k a ha
  obtain ⟨b, hb, hab⟩ := h k a ha
  obtain ⟨c, hc, hbc⟩ := h' k b hb
  exact ⟨c, hc, hR a b c hab hbc⟩

theorem Grows.insert (hR : ∀ a, R a a) {k : κ} {b : α}
    (h : ∀ a, entries[k]? = some a → R a b) : Grows R entries (entries.insert k b) := by
  intro k' a ha
  rw [TreeMap.getElem?_insert]
  split
  · rename_i heq
    rw [← LawfulEqCmp.eq_of_compare heq] at ha
    exact ⟨b, rfl, h a ha⟩
  · exact ⟨a, ha, hR a⟩

theorem Grows.map {f : κ → α → α} (h : ∀ k a, R a (f k a)) (entries : TreeMap κ α) :
    Grows R entries (entries.map f) := by
  intro k a ha
  rw [TreeMap.getElem?_map, ha]
  exact ⟨f k a, rfl, h k a⟩

theorem Grows.values (h : Grows R entries entries') {a : α} (ha : a ∈ values entries) :
    ∃ a' ∈ KeyedMap.values entries', R a a' := by
  obtain ⟨k, hk⟩ := mem_values.mp ha
  obtain ⟨a', ha', hR⟩ := h k a hk
  exact ⟨a', mem_values.mpr ⟨k, ha'⟩, hR⟩

end Grows

/-! ## What the values tell -/

/-- Every key has a value that names it and tells of the records that came under it, in their
order. -/
def Told {ρ : Type} [DecidableEq κ] (recordKey : ρ → κ) (key : α → κ) (fresh : κ → α)
    (tells : List ρ → α → Prop) (records : List ρ) (entries : TreeMap κ α) : Prop :=
  ∀ k, key (entries.getD k (fresh k)) = k ∧
    tells (records.filter (recordKey · = k)) (entries.getD k (fresh k))

section Told

variable {ρ : Type} [DecidableEq κ] {recordKey : ρ → κ} {key : α → κ} {fresh : κ → α}
  {tells : List ρ → α → Prop} {records : List ρ} {entries entries' : TreeMap κ α}

omit [LawfulEqOrd κ] in
theorem Told.empty (hfresh : ∀ k, key (fresh k) = k ∧ tells [] (fresh k)) :
    Told recordKey key fresh tells [] ∅ := by
  intro k
  rw [TreeMap.getD_emptyc]
  exact hfresh k

omit [LawfulEqOrd κ] in
theorem Told.keyed (h : Told recordKey key fresh tells records entries) : Keyed key entries := by
  intro k a hk
  have heq := (h k).1
  rw [TreeMap.getD_eq_getD_getElem?, hk] at heq
  exact heq

theorem Told.of_mem_values (h : Told recordKey key fresh tells records entries) {a : α}
    (hmem : a ∈ values entries) : tells (records.filter (recordKey · = key a)) a := by
  have htells := (h (key a)).2
  rw [TreeMap.getD_eq_getD_getElem?, h.keyed.mem_values_iff.mp hmem] at htells
  exact htells

/-- A key under which a record came has a value, if a fresh value does not tell of the record. -/
theorem Told.exists_mem_values (h : Told recordKey key fresh tells records entries) {record : ρ}
    (hrecord : record ∈ records)
    (hfresh : ∀ k presented, tells presented (fresh k) → presented = []) :
    ∃ a ∈ values entries, key a = recordKey record := by
  obtain ⟨hkey, htells⟩ := h (recordKey record)
  cases hvalue : entries[recordKey record]? with
  | none =>
    rw [TreeMap.getD_eq_getD_getElem?, hvalue] at htells
    have hmem : record ∈ records.filter (recordKey · = recordKey record) :=
      List.mem_filter.mpr ⟨hrecord, decide_eq_true rfl⟩
    rw [hfresh _ _ htells] at hmem
    exact absurd hmem List.not_mem_nil
  | some a =>
    rw [TreeMap.getD_eq_getD_getElem?, hvalue] at hkey
    exact ⟨a, mem_values.mpr ⟨_, hvalue⟩, hkey⟩

omit [LawfulEqOrd κ] in
theorem Told.congr (h : Told recordKey key fresh tells records entries)
    (heq : ∀ k : κ, entries'[k]? = entries[k]?) :
    Told recordKey key fresh tells records entries' := by
  intro k
  rw [TreeMap.getD_eq_getD_getElem?, heq, ← TreeMap.getD_eq_getD_getElem?]
  exact h k

theorem Told.insert (h : Told recordKey key fresh tells records entries) {record : ρ} {a : α}
    (hkey : key a = recordKey record)
    (htells : tells (records.filter (recordKey · = recordKey record) ++ [record]) a) :
    Told recordKey key fresh tells (records ++ [record])
      (entries.insert (recordKey record) a) := by
  intro k
  rw [TreeMap.getD_insert, filter_append]
  split
  · rename_i heq
    obtain rfl := LawfulEqCmp.eq_of_compare heq
    rw [filter_singleton, decide_eq_true rfl, cond_true]
    exact ⟨hkey, htells⟩
  · rename_i hne
    have hother : recordKey record ≠ k := fun heq => hne (heq ▸ ReflCmp.compare_self)
    rw [filter_singleton, decide_eq_false hother, cond_false, append_nil]
    exact h k

theorem Told.updateEach {update : α → ρ → α} (h : Told recordKey key fresh tells records entries)
    (hupdate : ∀ a record records, key a = recordKey record → tells records a →
      key (update a record) = key a ∧ tells (records ++ [record]) (update a record))
    (added : List ρ) :
    Told recordKey key fresh tells (records ++ added)
      (updateEach recordKey fresh update entries added) := by
  induction added generalizing records entries with
  | nil =>
    rw [append_nil]
    exact h
  | cons record added ih =>
    rw [append_cons]
    obtain ⟨hkey, htells⟩ := h (recordKey record)
    obtain ⟨hkey', htells'⟩ := hupdate _ record _ hkey htells
    exact ih (h.insert (hkey'.trans hkey) htells')

/-- Where the values that tell of their records are related to their updates, the map grows. -/
theorem Told.grows_updateEach {R : α → α → Prop} (hrefl : ∀ a, R a a)
    (htrans : ∀ a b c, R a b → R b c → R a c) {update : α → ρ → α}
    (h : Told recordKey key fresh tells records entries)
    (hupdate : ∀ a record records, key a = recordKey record → tells records a →
      key (update a record) = key a ∧ tells (records ++ [record]) (update a record))
    (hgrow : ∀ a record records, tells records a → R a (update a record)) (added : List ρ) :
    Grows R entries (KeyedMap.updateEach recordKey fresh update entries added) := by
  induction added generalizing records entries with
  | nil => exact .refl hrefl entries
  | cons record added ih =>
    obtain ⟨hkey, htells⟩ := h (recordKey record)
    obtain ⟨hkey', htells'⟩ := hupdate _ record _ hkey htells
    refine .trans htrans (.insert hrefl fun a hlookup => ?_)
      (ih (h.insert (hkey'.trans hkey) htells'))
    rw [TreeMap.getD_eq_getD_getElem?, hlookup] at htells ⊢
    exact hgrow a record _ htells

theorem Told.map {f : κ → α → α} (h : Told recordKey key fresh tells records entries)
    (hf : ∀ k a records, tells records a → key (f k a) = key a ∧ tells records (f k a)) :
    Told recordKey key fresh tells records (entries.map f) := by
  intro k
  obtain ⟨hkey, htells⟩ := h k
  rw [TreeMap.getD_eq_getD_getElem?] at hkey htells
  rw [TreeMap.getD_map]
  cases hlookup : entries[k]? with
  | none =>
    rw [hlookup] at hkey htells
    exact ⟨hkey, htells⟩
  | some a =>
    rw [hlookup] at hkey htells
    obtain ⟨hkey', htells'⟩ := hf k a _ htells
    exact ⟨hkey'.trans hkey, htells'⟩

end Told

end ChatgptArchive.KeyedMap
