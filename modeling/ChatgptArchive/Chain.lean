import Mathlib.Data.List.Basic
import Mathlib.Data.List.Induction
import Mathlib.Data.List.Nodup

/-!
# Chains of versions

Two ways to keep a chain of the versions that arrive one after the other: append one that differs
from the latest, or append one that is not in the chain. They agree exactly as long as no version
returns after another.
-/

namespace ChatgptArchive.Chain

open List

variable {α : Type*} {a : α} {versions : List α}

def NeverReturns (versions : List α) : Prop := ∀ a b, [a, b, a].Sublist versions → a = b

theorem sublist_concat_iff {l r : List α} {b : α} :
    (l ++ [a]).Sublist (r ++ [b]) ↔ (l ++ [a]).Sublist r ∨ a = b ∧ l.Sublist r := by
  rw [← reverse_sublist, ← @reverse_sublist _ (l ++ [a]) r, ← @reverse_sublist _ l r]
  simp only [reverse_append, reverse_singleton, singleton_append]
  exact cons_sublist_cons'

theorem neverReturns_concat :
    NeverReturns (versions ++ [a]) ↔
      NeverReturns versions ∧ (a ∈ versions → versions.getLast? = some a) := by
  constructor
  · intro h
    refine ⟨fun b c hsub => h b c (hsub.trans (sublist_append_left _ _)), fun hmem => ?_⟩
    obtain ⟨earlier, last, rfl⟩ : ∃ earlier last, versions = earlier ++ [last] :=
      ⟨_, _, (dropLast_append_getLast (ne_nil_of_mem hmem)).symm⟩
    rw [getLast?_concat]
    rcases mem_append.mp hmem with hmem | hmem
    -- an earlier occurrence has the last version after it, so the two are equal
    · have hsub : [a, last].Sublist (earlier ++ [last]) :=
        (singleton_sublist.mpr hmem).append_right [last]
      rw [h a last (hsub.append_right [a])]
    · rw [mem_singleton.mp hmem]
  · rintro ⟨h, hlast⟩ b c hsub
    rcases (sublist_concat_iff (l := [b, c])).mp hsub with hearlier | ⟨rfl, hbefore⟩
    · exact h b c hearlier
    · have hmem : b ∈ versions := hbefore.subset mem_cons_self
      obtain ⟨earlier, last, rfl⟩ : ∃ earlier last, versions = earlier ++ [last] :=
        ⟨_, _, (dropLast_append_getLast (ne_nil_of_mem hmem)).symm⟩
      have hlast := hlast hmem
      rw [getLast?_concat, Option.some.injEq] at hlast
      rcases (sublist_concat_iff (l := [b])).mp hbefore with hearlier | ⟨hc, -⟩
      · exact h b c (hlast ▸ hearlier.append_right [last])
      · rw [hc, hlast]

variable [DecidableEq α]

def appendChanged (chain : List α) (a : α) : List α :=
  if chain.getLast? = some a then chain else chain ++ [a]

def changes (versions : List α) : List α := versions.foldl appendChanged []

theorem getLast?_appendChanged (chain : List α) (a : α) :
    (appendChanged chain a).getLast? = some a := by
  unfold appendChanged
  split
  · assumption
  · exact getLast?_concat

theorem changes_concat (versions : List α) (a : α) :
    changes (versions ++ [a]) = appendChanged (changes versions) a := by
  rw [changes, foldl_concat, changes]

theorem getLast?_changes (versions : List α) : (changes versions).getLast? = versions.getLast? := by
  induction versions using reverseRecOn with
  | nil => rfl
  | append_singleton versions a _ =>
    rw [changes_concat, getLast?_appendChanged, getLast?_concat]

theorem mem_changes : a ∈ changes versions ↔ a ∈ versions := by
  induction versions using reverseRecOn with
  | nil => exact Iff.rfl
  | append_singleton versions b ih =>
    rw [changes_concat, appendChanged, mem_append, ← ih]
    split
    · rename_i hlast
      refine ⟨.inl, fun hmem => hmem.elim id fun hb => ?_⟩
      rw [mem_singleton.mp hb]
      exact mem_of_getLast? hlast
    · exact mem_append

theorem eraseDups_concat (versions : List α) (a : α) : (versions ++ [a]).eraseDups =
      if a ∈ versions then versions.eraseDups else versions.eraseDups ++ [a] := by
  rw [eraseDups_append]
  split
  · rename_i hmem
    simp [List.removeAll, hmem]
  · rename_i hnew
    simp [List.removeAll, hnew, eraseDups_cons]

theorem eraseDups_map {β : Type*} [DecidableEq β] {f : α → β} (hf : Function.Injective f)
    (versions : List α) : (versions.map f).eraseDups = versions.eraseDups.map f := by
  induction versions using reverseRecOn with
  | nil => rfl
  | append_singleton versions a ih =>
    rw [map_append, map_singleton, eraseDups_concat, eraseDups_concat, ih]
    by_cases hmem : a ∈ versions
    · rw [if_pos hmem, if_pos (mem_map_of_mem hmem)]
    · rw [if_neg hmem, if_neg (mt (mem_map_of_injective hf).mp hmem), map_append, map_singleton]

theorem nodup_eraseDups (versions : List α) : versions.eraseDups.Nodup := by
  induction versions using reverseRecOn with
  | nil => exact nodup_nil
  | append_singleton versions a ih =>
    rw [eraseDups_concat]
    split
    · exact ih
    · rename_i hnew
      refine ih.append (nodup_singleton a) (disjoint_singleton.mpr fun hmem => hnew ?_)
      exact mem_eraseDups.mp hmem

theorem changes_eq_eraseDups_iff (versions : List α) :
    changes versions = versions.eraseDups ↔ NeverReturns versions := by
  induction versions using reverseRecOn with
  | nil => exact iff_of_true rfl fun a b h => absurd (h.subset mem_cons_self) not_mem_nil
  | append_singleton versions a ih =>
    rw [changes_concat, eraseDups_concat, neverReturns_concat, ← ih, appendChanged,
      getLast?_changes]
    by_cases hlast : versions.getLast? = some a
    · rw [if_pos hlast, if_pos (mem_of_getLast? hlast)]
      exact ⟨fun heq => ⟨heq, fun _ => hlast⟩, And.left⟩
    · rw [if_neg hlast]
      by_cases hmem : a ∈ versions
      · -- the version is repeated in one chain and not in the other
        rw [if_pos hmem]
        refine iff_of_false (fun heq => ?_) fun h => hlast (h.2 hmem)
        have hnodup := heq ▸ nodup_eraseDups versions
        exact disjoint_of_nodup_append hnodup (mem_changes.mpr hmem) (mem_singleton_self a)
      · rw [if_neg hmem, append_left_inj]
        exact ⟨fun heq => ⟨heq, fun h => absurd h hmem⟩, And.left⟩

end ChatgptArchive.Chain
