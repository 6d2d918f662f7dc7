import Mathlib.Data.List.Sort
import Mathlib.Data.String.Basic

/-!
# Members of an object

An object is read as a list of members with distinct keys. Its members in ascending order of their
keys are determined by what each key looks up.
-/

namespace ChatgptArchive.Members

open List

theorem append_inj_of_key {κ α : Type*} [DecidableEq κ] {key : κ} {l l' r r' : List (κ × α)}
    (hl : key ∉ l.map (·.1)) (hl' : key ∉ l'.map (·.1)) (hr : ∀ member ∈ r, member.1 = key)
    (hr' : ∀ member ∈ r', member.1 = key) (h : l ++ r = l' ++ r') : l = l' ∧ r = r' := by
  have hfilter : ∀ {l r : List (κ × α)}, key ∉ l.map (·.1) → (∀ member ∈ r, member.1 = key) →
      (l ++ r).filter (fun member => member.1 ≠ key) = l := by
    intro l r hl hr
    have hleft : l.filter (fun member => member.1 ≠ key) = l :=
      filter_eq_self.mpr fun member hmem =>
        decide_eq_true fun heq => hl (mem_map.mpr ⟨member, hmem, heq⟩)
    have hright : r.filter (fun member => member.1 ≠ key) = [] :=
      filter_eq_nil_iff.mpr fun member hmem htrue =>
        of_decide_eq_true htrue (hr member hmem)
    rw [filter_append, hleft, hright, append_nil]
  have heq : l = l' := by rw [← hfilter hl hr, h, hfilter hl' hr']
  subst heq
  exact ⟨rfl, append_cancel_left h⟩

section Lookup

variable {κ α β : Type*} [BEq κ] [LawfulBEq κ] {members : List (κ × α)}

theorem lookup_eq_some_iff (h : (members.map (·.1)).Nodup) {key : κ} {a : α} :
    members.lookup key = some a ↔ (key, a) ∈ members := by
  induction members with
  | nil => simp
  | cons member members ih =>
    obtain ⟨k, b⟩ := member
    obtain ⟨hfirst, hdistinct⟩ := nodup_cons.mp h
    rw [lookup_cons, mem_cons, ← ih hdistinct]
    cases hk : key == k with
    | true =>
      obtain rfl := beq_iff_eq.mp hk
      rw [Option.some.injEq, Prod.mk.injEq]
      refine ⟨fun hb => .inl ⟨rfl, hb.symm⟩, fun hmem => ?_⟩
      rcases hmem with ⟨-, hb⟩ | hlater
      · exact hb.symm
      · exact absurd (mem_map.mpr ⟨_, (ih hdistinct).mp hlater, rfl⟩) hfirst
    | false =>
      refine ⟨.inr, fun hmem => hmem.resolve_left fun heq => ?_⟩
      cases heq
      rw [beq_self_eq_true] at hk
      cases hk

theorem isSome_lookup {key : κ} : (members.lookup key).isSome ↔ key ∈ members.map (·.1) := by
  induction members with
  | nil => simp
  | cons member members ih =>
    rw [lookup_cons, map_cons, mem_cons, ← ih]
    by_cases hkey : key = member.1
    · simp [hkey]
    · simp [hkey, beq_eq_false_iff_ne.mpr hkey]

theorem lookup_map (f : κ → α → β) (members : List (κ × α)) (key : κ) :
    (members.map fun member => (member.1, f member.1 member.2)).lookup key =
      (members.lookup key).map (f key) := by
  induction members with
  | nil => rfl
  | cons member members ih =>
    rw [map_cons, lookup_cons, lookup_cons]
    cases hk : key == member.1 with
    | true => rw [← beq_iff_eq.mp hk, Option.map_some]
    | false => exact ih

theorem lookup_filter (p : κ → Bool) (members : List (κ × α)) (key : κ) :
    (members.filter fun member => p member.1).lookup key =
      if p key = true then members.lookup key else none := by
  induction members with
  | nil => simp
  | cons member members ih =>
    rw [filter_cons, lookup_cons]
    cases hk : key == member.1 with
    | true =>
      obtain rfl := beq_iff_eq.mp hk
      split
      · rw [lookup_cons, beq_self_eq_true]
      · rename_i hp
        rw [ih, if_neg hp]
    | false =>
      split
      · rw [lookup_cons, hk]
        exact ih
      · exact ih

theorem lookup_perm {members' : List (κ × α)} (hperm : members.Perm members')
    (h : (members.map (·.1)).Nodup) (key : κ) : members.lookup key = members'.lookup key := by
  have h' : (members'.map (·.1)).Nodup := (hperm.map _).nodup_iff.mp h
  refine Option.ext fun a => ?_
  rw [lookup_eq_some_iff h, lookup_eq_some_iff h', hperm.mem_iff]

end Lookup

section Sorted

variable {κ α : Type*} [LinearOrder κ] {members members' : List (κ × α)}

def sorted (members : List (κ × α)) : List (κ × α) := members.insertionSort fun a b => a.1 ≤ b.1

theorem sorted_perm (members : List (κ × α)) : (sorted members).Perm members :=
  perm_insertionSort _ _

theorem sorted_pairwise (members : List (κ × α)) :
    (sorted members).Pairwise fun a b => a.1 ≤ b.1 := by
  have : Std.Total fun a b : κ × α => a.1 ≤ b.1 := ⟨fun a b => le_total a.1 b.1⟩
  have : IsTrans (κ × α) fun a b => a.1 ≤ b.1 := ⟨fun _ _ _ => le_trans⟩
  exact pairwise_insertionSort _ _

theorem sorted_sorted (members : List (κ × α)) : sorted (sorted members) = sorted members :=
  (sorted_pairwise members).insertionSort_eq

theorem sorted_inj_of_keys (h : (members.map (·.1)).Nodup)
    (hkeys : members.map (·.1) = members'.map (·.1)) :
    sorted members = sorted members' ↔ members = members' := by
  refine ⟨fun heq => ?_, congrArg sorted⟩
  have hperm : members.Perm members' :=
    (sorted_perm members).symm.trans (heq ▸ sorted_perm members')
  refine ext_getElem hperm.length_eq fun i hi hi' => ?_
  have hkey : (members[i]).1 = (members'[i]).1 := by
    simpa [getElem?_map, hi, hi'] using congrArg (·[i]?) hkeys
  exact inj_on_of_nodup_map (hkeys ▸ h) (hperm.mem_iff.mp (getElem_mem hi))
    (getElem_mem hi') hkey

theorem sorted_keys_nodup (h : (members.map (·.1)).Nodup) : ((sorted members).map (·.1)).Nodup :=
  ((sorted_perm members).map _).nodup_iff.mpr h

variable [BEq κ] [LawfulBEq κ]

theorem lookup_sorted (h : (members.map (·.1)).Nodup) (key : κ) :
    (sorted members).lookup key = members.lookup key :=
  lookup_perm (sorted_perm members) (sorted_keys_nodup h) key

theorem eq_of_lookup (hsorted : members.Pairwise fun a b => a.1 ≤ b.1)
    (hsorted' : members'.Pairwise fun a b => a.1 ≤ b.1) (h : (members.map (·.1)).Nodup)
    (h' : (members'.map (·.1)).Nodup) (hlookup : ∀ key, members.lookup key = members'.lookup key) :
    members = members' := by
  have hmem : ∀ member, member ∈ members ↔ member ∈ members' := fun member => by
    rw [← lookup_eq_some_iff h, ← lookup_eq_some_iff h', hlookup]
  have hperm := (perm_ext_iff_of_nodup h.of_map h'.of_map).mpr hmem
  refine hperm.eq_of_pairwise (fun a b ha hb hle hge => ?_) hsorted hsorted'
  exact inj_on_of_nodup_map h' ((hmem a).mp ha) hb (le_antisymm hle hge)

/-- Objects that look up alike are sorted alike. -/
theorem sorted_eq_iff (h : (members.map (·.1)).Nodup) (h' : (members'.map (·.1)).Nodup) :
    sorted members = sorted members' ↔ ∀ key, members.lookup key = members'.lookup key := by
  constructor
  · intro heq key
    rw [← lookup_sorted h, heq, lookup_sorted h']
  · intro hlookup
    refine eq_of_lookup (sorted_pairwise _) (sorted_pairwise _) (sorted_keys_nodup h)
      (sorted_keys_nodup h') fun key => ?_
    rw [lookup_sorted h, lookup_sorted h', hlookup]

end Sorted

end ChatgptArchive.Members
