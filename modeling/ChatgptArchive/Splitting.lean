import Mathlib.Data.List.DropRight
import Mathlib.Data.List.Infix

/-!
# Splitting and trimming

A list is cut at the elements that satisfy a predicate, or trimmed of such elements at both ends.
A part holds no such element, and a segment without them lies in one part. Trimming keeps all that
stands between two elements it does not remove.
-/

namespace Splitting

open List

variable {α : Type*} {p : α → Bool} {x sep : α} {xs ys part : List α} {parts : List (List α)}

theorem not_mem_of_mem_splitOnP (hpart : part ∈ xs.splitOnP p) (hx : x ∈ part) : p x = false := by
  induction xs generalizing part with
  | nil =>
    rw [splitOnP_nil, mem_singleton] at hpart
    subst hpart
    cases hx
  | cons y xs ih =>
    rw [splitOnP_cons_eq_if_modifyHead] at hpart
    split at hpart
    · obtain rfl | hpart := mem_cons.mp hpart
      · cases hx
      · exact ih hpart hx
    · rename_i hy
      -- the letter goes to the first part of the rest
      cases hrest : xs.splitOnP p with
      | nil => exact absurd hrest (splitOnP_ne_nil p xs)
      | cons first rest =>
        rw [hrest, modifyHead_cons] at hpart
        obtain rfl | hpart := mem_cons.mp hpart
        · obtain rfl | hx := mem_cons.mp hx
          · simpa using hy
          · exact ih (hrest ▸ mem_cons_self) hx
        · exact ih (hrest ▸ mem_cons_of_mem _ hpart) hx

theorem splitOnP_intercalate (hsep : p sep = true)
    (hparts : ∀ part ∈ parts, ∀ x ∈ part, p x = false) (hne : parts ≠ []) :
    ([sep].intercalate parts).splitOnP p = parts := by
  induction parts with
  | nil => exact absurd rfl hne
  | cons first rest ih =>
    have hfirst := hparts first mem_cons_self
    cases rest with
    | nil =>
      rw [intercalate_singleton]
      exact splitOnP_eq_singleton hfirst
    | cons second rest =>
      rw [intercalate_cons_cons, append_assoc, singleton_append,
        splitOnP_append_cons_of_forall_mem hfirst sep hsep,
        ih (fun part hpart => hparts part (mem_cons_of_mem _ hpart)) (cons_ne_nil _ _)]

theorem mem_intercalate (h : x ∈ [sep].intercalate parts) : x = sep ∨ ∃ part ∈ parts, x ∈ part := by
  induction parts with
  | nil => cases h
  | cons first rest ih =>
    cases rest with
    | nil =>
      rw [intercalate_singleton] at h
      exact .inr ⟨first, mem_cons_self, h⟩
    | cons second rest =>
      rw [intercalate_cons_cons, append_assoc, singleton_append, mem_append, mem_cons] at h
      rcases h with h | rfl | h
      · exact .inr ⟨first, mem_cons_self, h⟩
      · exact .inl rfl
      · exact (ih h).imp_right fun ⟨part, hpart, hx⟩ => ⟨part, mem_cons_of_mem _ hpart, hx⟩

/-! ## Segments and parts -/

theorem splitOnP_segments (xs : List α) : ∃ first rest, xs.splitOnP p = first :: rest ∧
    first <+: xs ∧ ∀ part ∈ rest, part <:+: xs := by
  induction xs with
  | nil => exact ⟨[], [], splitOnP_nil, prefix_refl _, fun _ h => by cases h⟩
  | cons y xs ih =>
    obtain ⟨first, rest, hsplit, hfirst, hrest⟩ := ih
    rw [splitOnP_cons_eq_if_modifyHead, hsplit]
    split
    · refine ⟨[], first :: rest, rfl, nil_prefix, ?_⟩
      intro part hpart
      rcases mem_cons.mp hpart with rfl | hpart
      · exact infix_cons hfirst.isInfix
      · exact infix_cons (hrest part hpart)
    · exact ⟨y :: first, rest, rfl, prefix_cons_inj y |>.mpr hfirst,
        fun part hpart => infix_cons (hrest part hpart)⟩

theorem infix_of_mem_splitOnP (h : part ∈ xs.splitOnP p) : part <:+: xs := by
  obtain ⟨first, rest, hsplit, hfirst, hrest⟩ := splitOnP_segments (p := p) xs
  rw [hsplit] at h
  rcases mem_cons.mp h with rfl | h
  · exact hfirst.isInfix
  · exact hrest part h

theorem splitOnP_append (hxs : ∀ x ∈ xs, p x = false) (ys : List α) :
    (xs ++ ys).splitOnP p = (ys.splitOnP p).modifyHead (xs ++ ·) := by
  induction xs with
  | nil =>
    cases h : ys.splitOnP p <;> simp [h]
  | cons x xs ih =>
    rw [cons_append, splitOnP_cons_eq_if_modifyHead, if_neg (by simp [hxs x mem_cons_self]),
      ih fun y hy => hxs y (mem_cons_of_mem _ hy), modifyHead_modifyHead]
    rfl

theorem exists_part_of_segment (hxs : ∀ x ∈ xs, p x = false) (h : xs <:+: ys) :
    ∃ part ∈ ys.splitOnP p, xs <:+: part := by
  obtain ⟨before, after, rfl⟩ := h
  induction before with
  | nil =>
    cases hrest : after.splitOnP p with
    | nil => exact absurd hrest (splitOnP_ne_nil p after)
    | cons first rest =>
      rw [nil_append, splitOnP_append hxs, hrest, modifyHead_cons]
      exact ⟨xs ++ first, mem_cons_self, (prefix_append xs first).isInfix⟩
  | cons c before ih =>
    obtain ⟨part, hpart, hsegment⟩ := ih
    rw [cons_append, cons_append, splitOnP_cons_eq_if_modifyHead]
    split
    · exact ⟨part, mem_cons_of_mem _ hpart, hsegment⟩
    · cases hrest : (before ++ xs ++ after).splitOnP p with
      | nil => exact absurd hrest (splitOnP_ne_nil p _)
      | cons first rest =>
        rw [hrest] at hpart
        rw [modifyHead_cons]
        rcases mem_cons.mp hpart with rfl | hpart
        · exact ⟨c :: part, mem_cons_self, infix_cons hsegment⟩
        · exact ⟨part, mem_cons_of_mem _ hpart, hsegment⟩

/-! ## Trimming -/

def trim (p : α → Bool) (xs : List α) : List α := (xs.dropWhile p).rdropWhile p

theorem dropWhile_append_cons (hx : p x = false) (xs ys : List α) :
    (xs ++ x :: ys).dropWhile p = xs.dropWhile p ++ x :: ys := by
  rw [dropWhile_append]
  split
  · rename_i hempty
    rw [List.isEmpty_iff.mp hempty, dropWhile_cons_of_neg (by simp [hx])]
    rfl
  · rfl

theorem rdropWhile_append_cons (hx : p x = false) (xs ys : List α) :
    (xs ++ x :: ys).rdropWhile p = xs ++ x :: ys.rdropWhile p := by
  rw [List.rdropWhile, reverse_append, reverse_cons, append_assoc,
    singleton_append, dropWhile_append_cons hx, reverse_append, reverse_cons,
    reverse_reverse, append_assoc, singleton_append]
  rfl

theorem trim_append_cons (hx : p x = false) (xs ys : List α) :
    trim p (xs ++ x :: ys) = xs.dropWhile p ++ x :: ys.rdropWhile p := by
  rw [trim, dropWhile_append_cons hx, rdropWhile_append_cons hx]

def splitOnce [DecidableEq α] (x : α) (xs : List α) : Option (List α × List α) :=
  match xs.dropWhile (· ≠ x) with
  | [] => none
  | _ :: after => some (xs.takeWhile (· ≠ x), after)

theorem splitOnce_of_append_cons [DecidableEq α] (xs ys : List α) :
    ∃ before after, splitOnce x (xs ++ x :: ys) = some (before, after) ∧
      xs ++ x :: ys = before ++ x :: after ∧ x ∉ before ∧ ys <:+ after := by
  induction xs with
  | nil =>
    refine ⟨[], ys, ?_, rfl, by simp, suffix_refl ys⟩
    simp [splitOnce]
  | cons y xs ih =>
    by_cases hy : y = x
    · subst hy
      refine ⟨[], xs ++ y :: ys, ?_, rfl, by simp, ?_⟩
      · simp [splitOnce]
      · exact (suffix_cons y ys).trans (suffix_append xs (y :: ys))
    · obtain ⟨before, after, hsplit, heq, hbefore, hafter⟩ := ih
      refine ⟨y :: before, after, ?_, by rw [cons_append, heq, cons_append], ?_, hafter⟩
      · unfold splitOnce at hsplit ⊢
        rw [cons_append, dropWhile_cons_of_pos (by simpa using hy),
          takeWhile_cons_of_pos (by simpa using hy)]
        split at hsplit
        · cases hsplit
        · cases hsplit
          rfl
      · rw [mem_cons, not_or]
        exact ⟨Ne.symm hy, hbefore⟩

end Splitting
