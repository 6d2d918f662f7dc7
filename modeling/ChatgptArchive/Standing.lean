import Mathlib.Data.List.Induction

/-!
# What stands of a sequence of notices

A notice tells a key a value, or retracts the key. The first value a key is told stands until the
key is retracted: a key that is told again keeps the value it has.
-/

namespace ChatgptArchive

open List

/-- A key is told a value, or the value told to it is retracted. -/
inductive Notice (κ ν : Type*) where
  | told (key : κ) (value : ν)
  | retracted (key : κ) (value : ν)
  deriving DecidableEq, Repr

namespace Notice

variable {κ ν : Type*} [DecidableEq κ]

def key : Notice κ ν → κ
  | told key _ | retracted key _ => key

def apply (key : κ) (standing : Option ν) : Notice κ ν → Option ν
  | told key' value => if key' = key then standing.or (some value) else standing
  | retracted key' _ => if key' = key then none else standing

def standing (notices : List (Notice κ ν)) (key : κ) : Option ν :=
  notices.foldl (apply key) none

variable {notices notices' : List (Notice κ ν)} {k : κ} {v : ν}

theorem standing_append (notices notices' : List (Notice κ ν)) (k : κ) :
    standing (notices ++ notices') k = notices'.foldl (apply k) (standing notices k) :=
  foldl_append

@[simp]
theorem standing_told_self (notices : List (Notice κ ν)) (k : κ) (v : ν) :
    standing (notices ++ [told k v]) k = (standing notices k).or (some v) := by
  simp [standing_append, apply]

@[simp]
theorem standing_retracted_self (notices : List (Notice κ ν)) (k : κ) (v : ν) :
    standing (notices ++ [retracted k v]) k = none := by
  simp [standing_append, apply]

theorem standing_append_other (h : ∀ n ∈ notices', n.key ≠ k) :
    standing (notices ++ notices') k = standing notices k := by
  rw [standing_append]
  generalize standing notices k = value
  induction notices' with
  | nil => rfl
  | cons n notices' ih =>
    have happly : apply k value n = value := by
      have hne := h n mem_cons_self
      cases n <;> exact if_neg hne
    rw [foldl_cons, happly]
    exact ih fun n hn => h n (mem_cons_of_mem _ hn)

theorem foldl_apply_none (hall : ∀ n ∈ notices, ∃ k w, n = retracted k w) :
    notices.foldl (apply k) none = none := by
  induction notices with
  | nil => rfl
  | cons n notices ih =>
    obtain ⟨k', w, rfl⟩ := hall n mem_cons_self
    have hnone : apply k (none : Option ν) (retracted k' w) = none := ite_self _
    rw [foldl_cons, hnone]
    exact ih fun n hn => hall n (mem_cons_of_mem _ hn)

theorem standing_append_retracted (hall : ∀ n ∈ notices', ∃ k w, n = retracted k w)
    (h : retracted k v ∈ notices') : standing (notices ++ notices') k = none := by
  obtain ⟨before, after, rfl⟩ := append_of_mem h
  have hself : standing (notices ++ (before ++ [retracted k v])) k = none := by
    rw [← append_assoc, standing_retracted_self]
  rw [append_cons, ← append_assoc, standing_append, hself]
  exact foldl_apply_none fun n hn =>
    hall n (mem_append_right _ (mem_cons_of_mem _ hn))

/-- A value that stands was told when nothing stood, and the key is not retracted since. -/
theorem exists_told_of_standing (h : standing notices k = some v) :
    ∃ before after, notices = before ++ told k v :: after ∧ standing before k = none ∧
      ∀ w, retracted k w ∉ after := by
  induction notices using reverseRecOn with
  | nil => cases h
  | append_singleton notices n ih =>
    rw [standing_append, foldl_cons, foldl_nil] at h
    -- the value stood before the last notice, or the last notice tells it
    by_cases hbefore : standing notices k = some v ∧ ∀ w, n ≠ retracted k w
    · obtain ⟨before, after, heq, hnone, hafter⟩ := ih hbefore.1
      refine ⟨before, after ++ [n], by rw [heq]; simp, hnone, fun w hw => ?_⟩
      rcases mem_append.mp hw with hw | hw
      · exact hafter w hw
      · exact hbefore.2 w (mem_singleton.mp hw).symm
    · cases n with
      | told key value =>
        simp only [apply] at h
        split at h
        · rename_i hkey
          subst hkey
          cases hstanding : standing notices key with
          | none =>
            rw [hstanding, Option.none_or] at h
            cases h
            exact ⟨notices, [], rfl, hstanding, fun _ => not_mem_nil⟩
          | some value' =>
            rw [hstanding, Option.some_or] at h
            exact absurd ⟨hstanding.trans h, nofun⟩ hbefore
        · exact absurd ⟨h, nofun⟩ hbefore
      | retracted key value =>
        simp only [apply] at h
        split at h
        · cases h
        · rename_i hkey
          refine absurd ⟨h, fun w heq => ?_⟩ hbefore
          cases heq
          exact hkey rfl

theorem standing_or_retracted (h : told k v ∈ notices) :
    (standing notices k).isSome ∨ ∃ before after w, notices = before ++ retracted k w :: after ∧
      ∀ n ∈ after, n.key ≠ k := by
  induction notices using reverseRecOn with
  | nil => cases h
  | append_singleton notices n ih =>
    by_cases hkey : n.key = k
    · cases n with
      | told key value =>
        obtain rfl : key = k := hkey
        left
        rw [standing_told_self]
        cases standing notices key <;> rfl
      | retracted key value =>
        obtain rfl : key = k := hkey
        exact .inr ⟨notices, [], value, rfl, fun _ h => absurd h not_mem_nil⟩
    · have hother : ∀ n' ∈ [n], n'.key ≠ k := fun n' hn => mem_singleton.mp hn ▸ hkey
      have htold : told k v ∈ notices := by
        rcases mem_append.mp h with h | h
        · exact h
        · exact absurd (mem_singleton.mp h ▸ rfl) hkey
      -- a notice about another key changes neither side
      rw [standing_append_other hother]
      refine (ih htold).imp_right fun ⟨before, after, w, heq, hafter⟩ => ?_
      refine ⟨before, after ++ [n], w, by rw [heq]; simp, fun n' hn => ?_⟩
      exact (mem_append.mp hn).elim (hafter n') (hother n')

end Notice

end ChatgptArchive
