import Mathlib.Data.List.Basic
import Mathlib.Data.List.Nodup

/-!
# Tables as lists of rows

The statements of a relational store over one table: a delete and an update by a predicate, and
the insert that updates the row it conflicts with. A table is the list of its rows; `key` is the
column, or the tuple of columns, that identifies a row.
-/

namespace ChatgptArchive.Table

open List

variable {α κ : Type*} {p : α → Bool} {t : List α} {r inserted : α} {f : α → α} {key : α → κ}

def deleteWhere (p : α → Bool) (t : List α) : List α := t.filter fun r => !p r

def updateWhere (p : α → Bool) (f : α → α) (t : List α) : List α :=
  t.map fun r => if p r then f r else r

/-- `INSERT … ON CONFLICT DO UPDATE … RETURNING *`: the rows `p` holds for conflict with the
inserted one and are merged instead. The first component is the returned row. -/
def upsert (p : α → Bool) (inserted : α) (merge : α → α) (t : List α) : α × List α :=
  match t.find? p with
  | some r => (merge r, updateWhere p merge t)
  | none => (inserted, t ++ [inserted])

def insertAbsent (p : α → Bool) (inserted : α) (t : List α) : List α :=
  if t.any p then t else t ++ [inserted]

theorem mem_inserted : r ∈ t ++ [inserted] ↔ r ∈ t ∨ r = inserted := by
  rw [mem_append, mem_singleton]

@[simp] theorem mem_deleteWhere : r ∈ deleteWhere p t ↔ r ∈ t ∧ p r = false := by
  simp [deleteWhere]

theorem mem_updateWhere :
    r ∈ updateWhere p f t ↔ (r ∈ t ∧ p r = false) ∨ ∃ q ∈ t, p q = true ∧ r = f q := by
  simp only [updateWhere, mem_map]
  constructor
  · rintro ⟨q, hq, rfl⟩
    by_cases hp : p q = true
    · exact .inr ⟨q, hq, hp, if_pos hp⟩
    · rw [if_neg hp]
      exact .inl ⟨hq, by simpa using hp⟩
  · rintro (⟨hr, hp⟩ | ⟨q, hq, hp, rfl⟩)
    · exact ⟨r, hr, by simp [hp]⟩
    · exact ⟨q, hq, if_pos hp⟩

theorem map_updateWhere (hf : ∀ r, key (f r) = key r) (t : List α) :
    (updateWhere p f t).map key = t.map key := by
  simp only [updateWhere, map_map]
  refine map_congr_left fun r _ => ?_
  by_cases hp : p r = true <;> simp [hp, hf]

theorem nodup_map_updateWhere (ht : (t.map key).Nodup) (hf : ∀ r, key (f r) = key r) :
    ((updateWhere p f t).map key).Nodup := by
  rw [map_updateWhere hf]
  exact ht

theorem find?_updateWhere {q : α → Bool} (hf : ∀ r, q (f r) = q r) (t : List α) :
    (updateWhere p f t).find? q = (t.find? q).map fun r => if p r then f r else r := by
  have hq : (q ∘ fun r => if p r then f r else r) = q := by
    funext r
    by_cases hp : p r = true <;> simp [hp, hf]
  rw [updateWhere, find?_map, hq]

theorem deleteWhere_sublist (p : α → Bool) (t : List α) : (deleteWhere p t).Sublist t :=
  filter_sublist

theorem nodup_map_deleteWhere (h : (t.map key).Nodup) : ((deleteWhere p t).map key).Nodup :=
  h.sublist ((deleteWhere_sublist p t).map key)

theorem filter_key_eq [DecidableEq κ] (h : (t.map key).Nodup) {r : α} (hr : r ∈ t) :
    t.filter (fun q => decide (key q = key r)) = [r] := by
  induction t with
  | nil => cases hr
  | cons a t ih =>
    obtain ⟨hfresh, hnodup⟩ := nodup_cons.mp h
    rcases mem_cons.mp hr with rfl | hr
    · have hrest : t.filter (fun q => decide (key q = key r)) = [] :=
        filter_eq_nil_iff.mpr fun q hq heq =>
          hfresh (mem_map.mpr ⟨q, hq, of_decide_eq_true heq⟩)
      rw [filter_cons, hrest, decide_eq_true rfl, if_pos rfl]
    · have hne : key a ≠ key r := fun heq => hfresh (mem_map.mpr ⟨r, hr, heq.symm⟩)
      rw [filter_cons, ih hnodup hr, decide_eq_false hne, if_neg Bool.false_ne_true]

theorem find?_of_key (h : (t.map key).Nodup) {p : α → Bool} {r : α} (hr : r ∈ t) (hp : p r = true)
    (hkey : ∀ q, p q = true → key q = key r) : t.find? p = some r := by
  cases hfind : t.find? p with
  | none => exact absurd hp (find?_eq_none.mp hfind r hr)
  | some q =>
    exact congrArg some (inj_on_of_nodup_map h (mem_of_find?_eq_some hfind) hr
      (hkey q (find?_some hfind)))

theorem mem_map_deleteWhere {p : κ → Bool} {k : κ} :
    k ∈ (deleteWhere (fun r => p (key r)) t).map key ↔ k ∈ t.map key ∧ p k = false := by
  simp only [mem_map, mem_deleteWhere]
  constructor
  · rintro ⟨r, ⟨hr, hp⟩, rfl⟩
    exact ⟨⟨r, hr, rfl⟩, hp⟩
  · rintro ⟨⟨r, hr, rfl⟩, hp⟩
    exact ⟨r, ⟨hr, hp⟩, rfl⟩

section Upsert

variable {p : α → Bool} {inserted : α} {merge : α → α} {t : List α} {key : α → κ}

theorem upsert_cases (p : α → Bool) (inserted : α) (merge : α → α) (t : List α) :
    (∃ r ∈ t, p r = true ∧ upsert p inserted merge t = (merge r, updateWhere p merge t)) ∨
      ((∀ r ∈ t, p r = false) ∧ upsert p inserted merge t = (inserted, t ++ [inserted])) := by
  unfold upsert
  cases hfind : t.find? p with
  | some r => exact .inl ⟨r, mem_of_find?_eq_some hfind, find?_some hfind, rfl⟩
  | none => exact .inr ⟨by simpa using hfind, rfl⟩

theorem upsert_fst_mem : (upsert p inserted merge t).1 ∈ (upsert p inserted merge t).2 := by
  rcases upsert_cases p inserted merge t with
    ⟨r, hr, hp, h⟩ | ⟨_, h⟩
  · rw [h]
    exact mem_updateWhere.mpr (.inr ⟨r, hr, hp, rfl⟩)
  · rw [h]
    exact mem_append_right _ (mem_singleton_self _)

theorem upsert_fst {P : α → Prop} (hmerge : ∀ r ∈ t, p r = true → P (merge r))
    (hinsert : (∀ r ∈ t, p r = false) → P inserted) : P (upsert p inserted merge t).1 := by
  rcases upsert_cases p inserted merge t with
    ⟨r, hr, hp, h⟩ | ⟨hnone, h⟩
  · rw [h]
    exact hmerge r hr hp
  · rw [h]
    exact hinsert hnone

/-- Every row of the table after an upsert is an untouched row, a merged row or the new one. -/
theorem mem_upsert {x : α} (hx : x ∈ (upsert p inserted merge t).2) :
    (x ∈ t ∧ p x = false) ∨ (∃ r ∈ t, p r = true ∧ x = merge r) ∨
      (x = inserted ∧ ∀ r ∈ t, p r = false) := by
  rcases upsert_cases p inserted merge t with
    ⟨_, _, _, h⟩ | ⟨hnone, h⟩
  · rw [h] at hx
    rcases mem_updateWhere.mp hx with h | h
    · exact .inl h
    · exact .inr (.inl h)
  · rw [h] at hx
    rcases mem_append.mp hx with hx | hx
    · exact .inl ⟨hx, hnone x hx⟩
    · exact .inr (.inr ⟨mem_singleton.mp hx, hnone⟩)

theorem map_upsert_subset (hm : ∀ r, key (merge r) = key r) {k : κ} (hk : k ∈ t.map key) :
    k ∈ (upsert p inserted merge t).2.map key := by
  rcases upsert_cases p inserted merge t with
    ⟨_, _, _, h⟩ | ⟨_, h⟩
  · rw [h, map_updateWhere hm]
    exact hk
  · rw [h, map_append]
    exact mem_append_left _ hk

theorem mem_upsert_of_mem (p : α → Bool) (inserted : α) (merge : α → α) {x : α} (hx : x ∈ t) :
    x ∈ (upsert p inserted merge t).2 ∨ merge x ∈ (upsert p inserted merge t).2 := by
  rcases upsert_cases p inserted merge t with
    ⟨_, _, _, h⟩ | ⟨_, h⟩
  · rw [h]
    by_cases hp : p x = true
    · exact .inr (mem_updateWhere.mpr (.inr ⟨x, hx, hp, rfl⟩))
    · exact .inl (mem_updateWhere.mpr (.inl ⟨hx, by simpa using hp⟩))
  · rw [h]
    exact .inl (mem_append_left _ hx)

theorem find?_upsert_self (hmerge : ∀ r, p (merge r) = p r) (hinserted : p inserted = true) :
    (upsert p inserted merge t).2.find? p = some (upsert p inserted merge t).1 := by
  unfold upsert
  cases hfind : t.find? p with
  | some r =>
    dsimp only
    rw [find?_updateWhere hmerge, hfind, Option.map_some, if_pos (find?_some hfind)]
  | none =>
    dsimp only
    rw [find?_append, hfind, Option.none_or, find?_singleton, if_pos hinserted]

theorem find?_upsert_of_disjoint {q : α → Bool} (hmerge : ∀ r, q (merge r) = q r)
    (hdisjoint : ∀ r, q r = true → p r = false) (hinserted : q inserted = false) :
    (upsert p inserted merge t).2.find? q = t.find? q := by
  unfold upsert
  cases t.find? p with
  | some r =>
    dsimp only
    rw [find?_updateWhere hmerge]
    cases hfind : t.find? q with
    | none => rfl
    | some s => rw [Option.map_some, if_neg (by simp [hdisjoint s (find?_some hfind)])]
  | none =>
    dsimp only
    rw [find?_append, find?_singleton, if_neg (by simp [hinserted]), Option.or_none]

theorem nodup_map_upsert (hm : ∀ r, key (merge r) = key r) (ht : (t.map key).Nodup)
    (hfresh : (∀ r ∈ t, p r = false) → key inserted ∉ t.map key) :
    ((upsert p inserted merge t).2.map key).Nodup := by
  rcases upsert_cases p inserted merge t with
    ⟨_, _, _, h⟩ | ⟨hnone, h⟩
  · rw [h, map_updateWhere hm]
    exact ht
  · rw [h, map_append]
    exact Nodup.append ht (nodup_singleton _)
      (disjoint_singleton.mpr (hfresh hnone))

end Upsert

theorem insertAbsent_of_absent (h : ∀ r ∈ t, p r = false) :
    insertAbsent p inserted t = t ++ [inserted] :=
  if_neg (by simpa using h)

theorem mem_insertAbsent :
    r ∈ insertAbsent p inserted t ↔ r ∈ t ∨ (r = inserted ∧ ∀ q ∈ t, p q = false) := by
  unfold insertAbsent
  by_cases h : t.any p = true
  · rw [if_pos h]
    obtain ⟨q, hq, hp⟩ := any_eq_true.mp h
    constructor
    · exact .inl
    · rintro (hr | ⟨-, hnone⟩)
      · exact hr
      · rw [hnone q hq] at hp
        cases hp
  · rw [if_neg h, mem_append, mem_singleton]
    have hnone : ∀ q ∈ t, p q = false := by simpa using h
    exact or_congr_right ⟨fun e => ⟨e, hnone⟩, fun e => e.1⟩

theorem nodup_map_insertAbsent (ht : (t.map key).Nodup)
    (hfresh : (∀ r ∈ t, p r = false) → key inserted ∉ t.map key) :
    ((insertAbsent p inserted t).map key).Nodup := by
  unfold insertAbsent
  split
  · exact ht
  · rename_i h
    have hnone : ∀ r ∈ t, p r = false := by simpa using h
    rw [map_append]
    exact Nodup.append ht (nodup_singleton _)
      (disjoint_singleton.mpr (hfresh hnone))

/-! ## Statements beside the selected rows -/

section Beside

variable {p q : α → Bool} {f : α → α} {inserted : α} {t : List α}

theorem filter_deleteWhere_beside (h : ∀ r ∈ t, p r = true → q r = false) :
    (deleteWhere p t).filter q = t.filter q := by
  rw [deleteWhere, filter_filter]
  refine filter_congr fun r hr => ?_
  cases hp : p r with
  | true => simp [h r hr hp]
  | false => simp

theorem filter_updateWhere_beside (h : ∀ r ∈ t, p r = true → q r = false ∧ q (f r) = false) :
    (updateWhere p f t).filter q = t.filter q := by
  induction t with
  | nil => rfl
  | cons r t ih =>
    have ih := ih fun s hs => h s (mem_cons_of_mem r hs)
    have hr := h r mem_cons_self
    rw [updateWhere, map_cons, ← updateWhere]
    cases hp : p r with
    | true =>
      obtain ⟨hq, hqf⟩ := hr hp
      simp [hq, hqf, ih]
    | false => simp [filter_cons, ih]

theorem filter_append_beside (h : q inserted = false) : (t ++ [inserted]).filter q = t.filter q := by
  simp [h]

theorem filter_insertAbsent_beside (h : q inserted = false) :
    (insertAbsent p inserted t).filter q = t.filter q := by
  unfold insertAbsent
  split
  · rfl
  · exact filter_append_beside h

theorem filter_upsert_beside (h : ∀ r ∈ t, p r = true → q r = false ∧ q (f r) = false)
    (hinserted : (∀ r ∈ t, p r = false) → q inserted = false) :
    (upsert p inserted f t).2.filter q = t.filter q := by
  rcases upsert_cases p inserted f t with ⟨_, _, _, heq⟩ | ⟨hnone, heq⟩
  · rw [heq]
    exact filter_updateWhere_beside h
  · rw [heq]
    exact filter_append_beside (hinserted hnone)

end Beside

end ChatgptArchive.Table
