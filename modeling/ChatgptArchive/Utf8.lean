import Mathlib.Data.List.Basic

/-!
# UTF-8

A text is read one octet at a time. Between two octets the reader owes the rest of the character
it is in: the ranges the next octets must lie in. The text is UTF-8 when no octet is refused and
nothing is owed at its end.
-/

namespace Utf8

variable {owed owed' : List Range} {b : UInt8} {bytes : List UInt8}

abbrev Range := UInt8 × UInt8

def tail : Range := (0x80, 0xBF)

def isTail (b : UInt8) : Bool := 0x80 ≤ b && b ≤ 0xBF

def first (b : UInt8) : Option (List Range) :=
  if b ≤ 0x7F then some []
  else if b < 0xC2 then none
  else if b ≤ 0xDF then some [tail]
  else if b = 0xE0 then some [(0xA0, 0xBF), tail]
  else if b = 0xED then some [(0x80, 0x9F), tail]
  else if b ≤ 0xEF then some [tail, tail]
  else if b = 0xF0 then some [(0x90, 0xBF), tail, tail]
  else if b ≤ 0xF3 then some [tail, tail, tail]
  else if b = 0xF4 then some [(0x80, 0x8F), tail, tail]
  else none

def step : List Range → UInt8 → Option (List Range)
  | [], b => first b
  | (low, high) :: owed, b => if low ≤ b && b ≤ high then some owed else none

def run : List Range → List UInt8 → Option (List Range)
  | owed, [] => some owed
  | owed, b :: bytes => (step owed b).bind fun owed => run owed bytes

def valid (bytes : List UInt8) : Bool := run [] bytes = some []

theorem run_append (owed : List Range) (a b : List UInt8) :
    run owed (a ++ b) = (run owed a).bind fun owed => run owed b := by
  induction a generalizing owed with
  | nil => rfl
  | cons c a ih =>
    simp only [List.cons_append, run, Option.bind_assoc]
    exact congrArg _ (funext ih)

/-! ## Where a character may end -/

def Owes (owed : List Range) : Prop := ∀ r ∈ owed, 0x80 ≤ r.1 ∧ r.2 ≤ 0xBF

theorem owes_of_all (h : (owed.all fun r => decide (0x80 ≤ r.1 ∧ r.2 ≤ 0xBF)) = true) : Owes owed :=
  fun r hr => of_decide_eq_true (List.all_eq_true.mp h r hr)

theorem first_owes (h : first b = some owed) : Owes owed := by
  unfold first at h
  -- each branch leaves a list of ranges that is written out
  repeat' split at h
  all_goals cases h
  all_goals
    exact owes_of_all (by decide)

theorem step_owes (howes : Owes owed) (h : step owed b = some owed') : Owes owed' := by
  match owed with
  | [] => exact first_owes h
  | (low, high) :: rest =>
    simp only [step] at h
    split at h
    · obtain rfl := Option.some.inj h
      exact fun r hr => howes r (List.mem_cons_of_mem _ hr)
    · cases h

theorem run_owes (howes : Owes owed) (h : run owed bytes = some owed') : Owes owed' := by
  induction bytes generalizing owed with
  | nil =>
    obtain rfl := Option.some.inj h
    exact howes
  | cons b bytes ih =>
    obtain ⟨next, hnext, hrest⟩ := Option.bind_eq_some_iff.mp h
    exact ih (step_owes howes hnext) hrest

theorem not_isTail_of_first (h : first b = some owed) : isTail b = false := by
  unfold first at h
  unfold isTail
  by_cases hlow : b ≤ 0x7F
  · have : ¬ (0x80 ≤ b) := by
      intro hb
      exact absurd (UInt8.le_trans hb hlow) (by decide)
    simp [this]
  · rw [if_neg hlow] at h
    by_cases hsecond : b < 0xC2
    · rw [if_pos hsecond] at h
      cases h
    · have : ¬ (b ≤ 0xBF) := by
        intro hb
        exact hsecond (UInt8.lt_of_le_of_lt hb (by decide))
      simp [this]

theorem isTail_of_step {r : Range} (howes : Owes (r :: owed)) (h : step (r :: owed) b = some owed') :
    isTail b = true := by
  obtain ⟨low, high⟩ := r
  simp only [step] at h
  split at h
  · rename_i hb
    rw [Bool.and_eq_true, decide_eq_true_eq, decide_eq_true_eq] at hb
    obtain ⟨hlow, hhigh⟩ := howes (low, high) List.mem_cons_self
    simp only [isTail, Bool.and_eq_true, decide_eq_true_eq]
    exact ⟨UInt8.le_trans hlow hb.1, UInt8.le_trans hb.2 hhigh⟩
  · cases h

theorem valid_take_iff (h : valid bytes = true) (n : Nat) :
    valid (bytes.take n) = true ↔ ∀ b, bytes[n]? = some b → isTail b = false := by
  have hrun : run [] (bytes.take n ++ bytes.drop n) = some [] := by
    rw [List.take_append_drop]
    exact of_decide_eq_true h
  rw [run_append] at hrun
  obtain ⟨owed, howed, hrest⟩ := Option.bind_eq_some_iff.mp hrun
  have howes : Owes owed := run_owes (fun _ hr => by cases hr) howed
  rw [valid, decide_eq_true_eq, howed]
  have hnext : bytes[n]? = (bytes.drop n)[0]? := by
    rw [List.getElem?_drop, Nat.add_zero]
  rw [hnext]
  -- the cut is sound when the prefix owes nothing, which the next byte tells
  cases hdrop : bytes.drop n with
  | nil =>
    rw [hdrop] at hrest
    simpa [run] using hrest
  | cons b rest =>
    rw [hdrop] at hrest
    obtain ⟨owed', hstep, -⟩ := Option.bind_eq_some_iff.mp hrest
    simp only [List.getElem?_cons_zero, Option.some.injEq, forall_eq']
    constructor
    · rintro rfl
      exact not_isTail_of_first hstep
    · intro hb
      match owed with
      | [] => rfl
      | r :: owed => exact absurd (isTail_of_step howes hstep) (by simp [hb])

/-! ## ASCII -/

theorem run_ascii (h : ∀ b ∈ bytes, b ≤ 0x7F) : run [] bytes = some [] := by
  induction bytes with
  | nil => rfl
  | cons b bytes ih =>
    have hb : step [] b = some [] := if_pos (h b List.mem_cons_self)
    simp only [run, hb, Option.bind_some]
    exact ih fun c hc => h c (List.mem_cons_of_mem _ hc)

theorem valid_ascii_append {a : List UInt8} (h : ∀ b ∈ a, b ≤ 0x7F) (rest : List UInt8) :
    valid (a ++ rest) = valid rest := by
  simp [valid, run_append, run_ascii h]

/-- The euro sign and its cuts. -/
example : valid [0xE2, 0x82, 0xAC] = true ∧ valid [0xE2, 0x82] = false ∧ valid [0xC0, 0x80] = false
    ∧ valid [0xED, 0xA0, 0x80] = false := by decide

end Utf8
