import ChatgptArchive.Splitting
import Mathlib.Data.String.Basic

/-!
# Entry names

An entry's name is cut at slashes and backslashes. Empty components and single dots are dropped;
a name that is absolute, climbs, names a drive or keeps no component is refused. The other names
become archive-relative paths with single slashes.
-/

namespace ChatgptArchive

open List Splitting

variable {part : List Char} {name path : String}

inductive ArchiveIntakeError where
  | unsupportedFormat | unsafePath | duplicateName | specialFile | limitExceeded
  | evidenceUnavailable
  deriving DecidableEq, Repr

def isSeparator (c : Char) : Bool := c = '/' || c = '\\'

def nameParts (name : String) : List (List Char) := name.toList.splitOnP isSeparator

def isKept (part : List Char) : Bool := !part.isEmpty && part ≠ ['.']

def keptParts (name : String) : List (List Char) := (nameParts name).filter isKept

def joinParts (parts : List (List Char)) : String := String.ofList (['/'].intercalate parts)

def normalizePath (name : String) : Except ArchiveIntakeError String :=
  if name.isEmpty || name.startsWith '/' || name.startsWith '\\' ||
      (nameParts name).any (· = ['.', '.']) then
    .error .unsafePath
  else
    let parts := keptParts name
    if parts.isEmpty || parts.any (·.contains ':') then .error .unsafePath
    else .ok (joinParts parts)

def pathComponents (path : String) : List (List Char) := path.toList.splitOn '/'

def baseName (path : String) : String := String.ofList ((pathComponents path).getLastD [])

/-! ## What a normalized path consists of -/

theorem mem_keptParts :
    part ∈ keptParts name ↔ part ∈ nameParts name ∧ part ≠ [] ∧ part ≠ ['.'] := by
  simp [keptParts, isKept]

theorem slash_not_mem_keptParts (h : part ∈ keptParts name) : '/' ∉ part := by
  intro hslash
  have := not_mem_of_mem_splitOnP (mem_keptParts.mp h).1 hslash
  exact absurd this (by decide)

theorem pathComponents_joinParts {parts : List (List Char)} (hne : parts ≠ [])
    (hslash : ∀ part ∈ parts, '/' ∉ part) : pathComponents (joinParts parts) = parts := by
  rw [pathComponents, joinParts, String.toList_ofList]
  exact splitOn_intercalate '/' hslash hne

/-- The names that are taken, and the path each gives. -/
theorem normalizePath_eq_ok_iff : normalizePath name = .ok path ↔
    (name.startsWith '/' = false ∧ name.startsWith '\\' = false ∧
      ['.', '.'] ∉ nameParts name ∧ (∀ part ∈ keptParts name, ':' ∉ part) ∧
      keptParts name ≠ []) ∧ path = joinParts (keptParts name) := by
  have hempty : name.isEmpty = true → keptParts name = [] := by
    intro hname
    rw [String.isEmpty_iff.mp hname]
    rfl
  unfold normalizePath
  dsimp only
  split
  · rename_i hrefused
    simp only [Bool.or_eq_true, any_eq_true, decide_eq_true_eq] at hrefused
    refine iff_of_false (fun h => by cases h) ?_
    rintro ⟨⟨hslash, hbackslash, hdots, -, hne⟩, -⟩
    rcases hrefused with ((hname | hstart) | hstart) | ⟨_, hmem, rfl⟩
    · exact hne (hempty hname)
    · exact absurd hstart (by simp [hslash])
    · exact absurd hstart (by simp [hbackslash])
    · exact hdots hmem
  · rename_i hname
    simp only [Bool.or_eq_true, not_or, any_eq_true, decide_eq_true_eq, not_exists, not_and,
      Bool.not_eq_true] at hname
    have hdots : ['.', '.'] ∉ nameParts name := fun hmem => hname.2 _ hmem rfl
    split
    · rename_i hparts
      simp only [Bool.or_eq_true, any_eq_true, List.isEmpty_iff, contains_iff_mem]
        at hparts
      refine iff_of_false (fun h => by cases h) ?_
      rintro ⟨⟨-, -, -, hcolon, hne⟩, -⟩
      rcases hparts with hnone | ⟨part, hpart, hmem⟩
      · exact hne hnone
      · exact hcolon part hpart hmem
    · rename_i hparts
      simp only [Bool.or_eq_true, not_or, any_eq_true, List.isEmpty_iff,
        contains_iff_mem, not_exists, not_and] at hparts
      rw [Except.ok.injEq, eq_comm]
      exact (and_iff_right ⟨hname.1.1.2, hname.1.2, hdots, hparts.2, hparts.1⟩).symm

theorem pathComponents_normalizePath (h : normalizePath name = .ok path) :
    pathComponents path = keptParts name := by
  obtain ⟨⟨-, -, -, -, hne⟩, rfl⟩ := normalizePath_eq_ok_iff.mp h
  exact pathComponents_joinParts hne fun _ => slash_not_mem_keptParts

theorem normalizePath_component (h : normalizePath name = .ok path) {component : List Char}
    (hcomponent : component ∈ pathComponents path) :
    component ≠ [] ∧ component ≠ ['.'] ∧ component ≠ ['.', '.'] := by
  rw [pathComponents_normalizePath h] at hcomponent
  obtain ⟨hmem, hempty, hdot⟩ := mem_keptParts.mp hcomponent
  refine ⟨hempty, hdot, ?_⟩
  rintro rfl
  exact (normalizePath_eq_ok_iff.mp h).1.2.2.1 hmem

/-! ## Normalizing a normalized path -/

theorem not_isSeparator_of_mem_keptParts (h : part ∈ keptParts name) :
    ∀ c ∈ part, isSeparator c = false :=
  fun _ => not_mem_of_mem_splitOnP (mem_keptParts.mp h).1

theorem nameParts_joinParts (hne : keptParts name ≠ []) :
    nameParts (joinParts (keptParts name)) = keptParts name := by
  rw [nameParts, joinParts, String.toList_ofList]
  exact splitOnP_intercalate rfl (fun _ => not_isSeparator_of_mem_keptParts) hne

theorem keptParts_joinParts (hne : keptParts name ≠ []) :
    keptParts (joinParts (keptParts name)) = keptParts name := by
  rw [keptParts, nameParts_joinParts hne]
  exact filter_eq_self.mpr fun part hpart => (mem_filter.mp hpart).2

theorem backslash_not_mem_joinParts : '\\' ∉ (joinParts (keptParts name)).toList := by
  rw [joinParts, String.toList_ofList]
  intro hmem
  rcases mem_intercalate hmem with heq | ⟨part, hpart, hmem⟩
  · exact absurd heq (by decide)
  · exact absurd (not_isSeparator_of_mem_keptParts hpart _ hmem) (by decide)

theorem nil_mem_nameParts {c : Char} (hc : isSeparator c = true) (h : name.startsWith c = true) :
    [] ∈ nameParts name := by
  rw [String.startsWith_char_eq_head?, beq_iff_eq] at h
  obtain ⟨rest, hrest⟩ := List.head?_eq_some_iff.mp h
  rw [nameParts, hrest, splitOnP_cons_eq_if_modifyHead, if_pos hc]
  exact mem_cons_self

theorem startsWith_joinParts {c : Char} (hc : isSeparator c = true) (hne : keptParts name ≠ []) :
    (joinParts (keptParts name)).startsWith c = false := by
  by_contra hstart
  -- a path that starts with a separator has an empty component, and those are not kept
  have hempty := nil_mem_nameParts hc (Bool.not_eq_false _ ▸ hstart)
  rw [nameParts_joinParts hne] at hempty
  exact (mem_keptParts.mp hempty).2.1 rfl

theorem normalizePath_normalizePath (h : normalizePath name = .ok path) :
    normalizePath path = .ok path := by
  obtain ⟨⟨-, -, hdots, hcolon, hne⟩, rfl⟩ := normalizePath_eq_ok_iff.mp h
  rw [normalizePath_eq_ok_iff, nameParts_joinParts hne, keptParts_joinParts hne]
  refine ⟨⟨startsWith_joinParts rfl hne, startsWith_joinParts rfl hne, ?_, hcolon, hne⟩, rfl⟩
  exact fun hmem => hdots (mem_keptParts.mp hmem).1

example : normalizePath "a//./b\\c" = .ok "a/b/c" ∧ normalizePath "a/../b" = .error .unsafePath ∧
    normalizePath "c:/x" = .error .unsafePath := by decide +kernel

end ChatgptArchive
