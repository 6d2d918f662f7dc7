import Mathlib.Logic.Relation
import Mathlib.Order.Basic

/-!
# Exclusive locks

Locks on keys, each held by at most one transaction from the moment it is taken until the
transaction ends. Taking a lock that another transaction holds waits: here it is not enabled. When
every transaction takes its locks in ascending order, no transactions wait for one another.
-/

namespace ChatgptArchive

def Locks (κ τ : Type*) := κ → Option τ

namespace Locks

variable {κ τ : Type*}

def free : Locks κ τ := fun _ => none

def Held (locks : Locks κ τ) (t : τ) (k : κ) : Prop := locks k = some t

variable [DecidableEq κ] [DecidableEq τ]

def Available (locks : Locks κ τ) (t : τ) (k : κ) : Prop := locks k = none ∨ locks k = some t

instance (locks : Locks κ τ) (t : τ) (k : κ) : Decidable (locks.Available t k) :=
  inferInstanceAs (Decidable (_ ∨ _))

def acquire (locks : Locks κ τ) (t : τ) (k : κ) : Locks κ τ := fun l =>
  if l = k then some t else locks l

def release (locks : Locks κ τ) (t : τ) : Locks κ τ := fun k =>
  if locks k = some t then none else locks k

variable {locks : Locks κ τ} {t u : τ} {k l : κ}

omit [DecidableEq κ] [DecidableEq τ] in
theorem Held.unique (ht : locks.Held t k) (hu : locks.Held u k) : t = u :=
  Option.some.inj (ht.symm.trans hu)

omit [DecidableEq τ] in
theorem held_acquire (locks : Locks κ τ) (t : τ) (k : κ) : (locks.acquire t k).Held t k :=
  if_pos rfl

omit [DecidableEq τ] in
theorem Held.acquire (h : locks.Held u l) (havailable : locks.Available t k) :
    (locks.acquire t k).Held u l := by
  by_cases hl : l = k
  · subst hl
    have htu : t = u := by
      rcases havailable with hfree | hheld
      · exact absurd (hfree.symm.trans h) nofun
      · exact Held.unique hheld h
    exact htu ▸ held_acquire locks t l
  · exact (if_neg hl).trans h

omit [DecidableEq κ] in
theorem Held.release (h : locks.Held u l) (hne : t ≠ u) : (locks.release t).Held u l := by
  have hnot : locks l ≠ some t := fun heq => hne (Held.unique heq h)
  exact (if_neg hnot).trans h

omit [DecidableEq κ] in
theorem Held.not_held_release (h : locks.Held t k) (u : τ) : ¬(locks.release t).Held u k := by
  intro hu
  have hfree : locks.release t k = none := if_pos h
  exact absurd (hfree.symm.trans hu) nofun

omit [DecidableEq τ] in
theorem Held.of_acquire (h : (locks.acquire t k).Held u l) : locks.Held u l ∨ u = t ∧ l = k := by
  unfold Held Locks.acquire at h
  split at h
  · rename_i heq
    cases h
    exact .inr ⟨rfl, heq⟩
  · exact .inl h

omit [DecidableEq κ] in
theorem Held.of_release (h : (locks.release t).Held u k) : locks.Held u k ∧ u ≠ t := by
  unfold Held Locks.release at h
  split at h
  · cases h
  · rename_i hne
    exact ⟨h, fun heq => hne (heq ▸ h)⟩

def WaitsFor (locks : Locks κ τ) (next : τ → Option κ) (t u : τ) : Prop :=
  ∃ k, next t = some k ∧ locks.Held u k ∧ t ≠ u

variable [Preorder κ] {next : τ → Option κ}
  (hascending : ∀ t k l, locks.Held t k → next t = some l → k < l)
include hascending

omit [DecidableEq κ] [DecidableEq τ] in
theorem next_lt_of_waits (h : Relation.TransGen (locks.WaitsFor next) t u) {k l : κ} (ht : next t = some k)
    (hu : next u = some l) : k < l := by
  induction h generalizing l with
  | single hwaits =>
    obtain ⟨k', hk, hheld, -⟩ := hwaits
    cases ht.symm.trans hk
    exact hascending _ _ _ hheld hu
  | tail _ hwaits ih =>
    obtain ⟨k', hk, hheld, -⟩ := hwaits
    exact (ih hk).trans (hascending _ _ _ hheld hu)

omit [DecidableEq κ] [DecidableEq τ] in
/-- No transaction waits for itself through others. -/
theorem waits_irrefl (t : τ) : ¬Relation.TransGen (locks.WaitsFor next) t t := by
  intro h
  obtain ⟨u, ⟨k, hk, -⟩, -⟩ := Relation.TransGen.head'_iff.mp h
  exact lt_irrefl k (next_lt_of_waits hascending h hk hk)

end Locks

end ChatgptArchive
