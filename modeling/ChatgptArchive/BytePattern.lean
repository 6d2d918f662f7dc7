import Mathlib.Data.List.Basic
import Mathlib.Data.List.Pairwise

/-!
# Beginnings of byte strings

A pattern lists, position by position, the bytes a string may begin with. Looking at the first
bytes of a string finds exactly the patterns that end there.
-/

/-- The bytes allowed at each position; none where every byte is. -/
abbrev BytePattern := List (Option (List UInt8))

namespace BytePattern

open List

def fits : BytePattern → List UInt8 → Bool
  | [], _ => true
  | _ :: _, [] => false
  | allowed :: pattern, b :: bytes => allowed.all (·.contains b) && fits pattern bytes

def excludes : BytePattern → BytePattern → Bool
  | some a :: p, some b :: q => a.all (!b.contains ·) || excludes p q
  | none :: p, _ :: q => excludes p q
  | some _ :: p, none :: q => excludes p q
  | _, _ => false

theorem fits_take (pattern : BytePattern) (bytes : List UInt8) (n : Nat) :
    fits pattern (bytes.take n) = (fits pattern bytes && decide (pattern.length ≤ n)) := by
  induction pattern generalizing bytes n with
  | nil => simp [fits]
  | cons allowed pattern ih =>
    cases bytes with
    | nil => simp [fits]
    | cons b bytes =>
      cases n with
      | zero => simp [fits]
      | succ n => simp [fits, ih, Bool.and_assoc]

theorem not_fits_of_excludes {p q : BytePattern} {bytes : List UInt8}
    (hexcludes : excludes p q = true) (hp : fits p bytes = true) : fits q bytes = false := by
  induction p generalizing q bytes with
  | nil => cases q <;> cases hexcludes
  | cons a p ih =>
    match q, bytes with
    | [], _ => cases a <;> cases hexcludes
    | _ :: _, [] => rfl
    | b :: q, c :: bytes =>
      simp only [fits, Bool.and_eq_true] at hp
      rw [fits, Bool.and_eq_false_iff]
      match a, b with
      | none, _ => exact .inr (ih hexcludes hp.2)
      | some _, none => exact .inr (ih hexcludes hp.2)
      | some a, some b =>
        rw [excludes, Bool.or_eq_true] at hexcludes
        obtain hhere | hlater := hexcludes
        · left
          have hc : c ∈ a := by simpa using hp.1
          simpa using all_eq_true.mp hhere c hc
        · exact .inr (ih hlater hp.2)

def ofBytes (text : List UInt8) : BytePattern := text.map fun b => some [b]

theorem fits_ofBytes (text bytes : List UInt8) :
    fits (ofBytes text) bytes = text.isPrefixOf bytes := by
  induction text generalizing bytes with
  | nil => rfl
  | cons a text ih =>
    cases bytes with
    | nil => rfl
    | cons b bytes =>
      have h := ih bytes
      simp only [ofBytes] at h
      simp only [ofBytes, map_cons, fits, h, List.isPrefixOf, Option.all_some]
      congr 1
      rw [contains_cons, contains_nil, Bool.or_false, Bool.eq_iff_iff, beq_iff_eq, beq_iff_eq]
      exact eq_comm

theorem fits_map {text : List UInt8} (read : UInt8 → UInt8) {forms : UInt8 → List UInt8}
    (hforms : ∀ a ∈ text, ∀ b, read b = a ↔ b ∈ forms a) (bytes : List UInt8) :
    fits (text.map fun a => some (forms a)) bytes = text.isPrefixOf (bytes.map read) := by
  induction text generalizing bytes with
  | nil => rfl
  | cons a text ih =>
    cases bytes with
    | nil => rfl
    | cons b bytes =>
      simp only [map_cons, fits, List.isPrefixOf, Option.all_some,
        ih fun a ha => hforms a (mem_cons_of_mem _ ha)]
      congr 1
      rw [Bool.eq_iff_iff, contains_iff_mem, ← hforms a mem_cons_self b, beq_iff_eq]
      exact eq_comm

theorem fits_append (p q : BytePattern) (bytes : List UInt8) :
    fits (p ++ q) bytes = (fits p bytes && fits q (bytes.drop p.length)) := by
  induction p generalizing bytes with
  | nil => simp [fits]
  | cons a p ih =>
    cases bytes with
    | nil => simp [fits]
    | cons b bytes => simp [fits, ih, Bool.and_assoc]

theorem fits_replicate_none (n : Nat) (bytes : List UInt8) :
    fits (replicate n none) bytes = decide (n ≤ bytes.length) := by
  induction n generalizing bytes with
  | zero => simp [fits]
  | succ n ih =>
    cases bytes with
    | nil => simp [replicate_succ, fits]
    | cons b bytes => simp [replicate_succ, fits, ih]

/-! ## The first pattern of a table -/

variable {κ : Type*}

def lookup (table : List (κ × BytePattern)) (bytes : List UInt8) : Option (κ × Nat) :=
  (table.find? fun entry => entry.2.fits bytes).map fun entry => (entry.1, entry.2.length)

def Separate (table : List (κ × BytePattern)) : Prop :=
  table.Pairwise fun a b => excludes a.2 b.2 = true

instance (table : List (κ × BytePattern)) : Decidable (Separate table) :=
  inferInstanceAs (Decidable (List.Pairwise _ _))

/-- The first bytes of a string show its pattern when they hold all of it, and none otherwise. -/
theorem lookup_take {table : List (κ × BytePattern)} (htable : Separate table)
    (bytes : List UInt8) (n : Nat) :
    lookup table (bytes.take n) = (lookup table bytes).filter fun found => found.2 ≤ n := by
  induction table with
  | nil => rfl
  | cons entry table ih =>
    obtain ⟨hentry, hrest⟩ := pairwise_cons.mp htable
    simp only [lookup, find?_cons, fits_take] at ih ⊢
    cases hfits : entry.2.fits bytes with
    | false => simpa using ih hrest
    | true =>
      by_cases hlength : entry.2.length ≤ n
      · simp [hlength, Option.filter_some]
      · -- the pattern is cut, and no other pattern of the table is there
        have hnone : table.find? (fun other =>
            other.2.fits bytes && decide (other.2.length ≤ n)) = none := by
          rw [find?_eq_none]
          intro other hother
          rw [not_fits_of_excludes (hentry other hother) hfits]
          exact Bool.false_ne_true
        simp [hlength, hnone, Option.filter_some]

end BytePattern
