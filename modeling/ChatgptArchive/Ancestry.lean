import Mathlib.Data.List.Perm.Subperm

/-!
# Ancestors in a functional graph

Each node has at most one parent, and the chain of parents may end, leave the known nodes or run
into a cycle. `Nearest` is the first node above a given one that has a property; `walk` looks for
it along the keys of the parents and gives up at a key it has seen.
-/

namespace ChatgptArchive.Ancestry

open List

section Nearest

variable {α : Type*} {parent : α → Option α} {P Q : α → Prop} {x y a b : α}

inductive Nearest (parent : α → Option α) (P : α → Prop) : α → α → Prop
  | here {x a : α} (hparent : parent x = some a) (ha : P a) : Nearest parent P x a
  | up {x y a : α} (hparent : parent x = some y) (hy : ¬P y) (ha : Nearest parent P y a) :
      Nearest parent P x a

theorem Nearest.holds (h : Nearest parent P x a) : P a := by
  induction h with
  | here _ ha => exact ha
  | up _ _ _ ih => exact ih

theorem Nearest.unique (h : Nearest parent P x a) (h' : Nearest parent P x b) : a = b := by
  induction h with
  | here hparent ha =>
    cases h' with
    | here hparent' _ => exact Option.some.inj (hparent.symm.trans hparent')
    | up hparent' hy _ =>
      cases hparent.symm.trans hparent'
      exact absurd ha hy
  | up hparent hy _ ih =>
    cases h' with
    | here hparent' hb =>
      cases hparent.symm.trans hparent'
      exact absurd hb hy
    | up hparent' _ hb =>
      cases hparent.symm.trans hparent'
      exact ih hb

theorem nearest_iff_of_not (hparent : parent x = some y) (hy : ¬P y) :
    Nearest parent P x a ↔ Nearest parent P y a := by
  refine ⟨fun h => ?_, .up hparent hy⟩
  cases h with
  | here hparent' ha =>
    cases hparent.symm.trans hparent'
    exact absurd ha hy
  | up hparent' _ ha =>
    cases hparent.symm.trans hparent'
    exact ha

theorem nearest_iff_of_holds (hparent : parent x = some y) (hy : P y) :
    Nearest parent P x a ↔ a = y := by
  refine ⟨fun h => h.unique (.here hparent hy), ?_⟩
  rintro rfl
  exact .here hparent hy

theorem not_nearest_of_none (hparent : parent x = none) : ¬Nearest parent P x a := by
  intro h
  cases h with
  | here hparent' _ =>
    rw [hparent] at hparent'
    cases hparent'
  | up hparent' _ _ =>
    rw [hparent] at hparent'
    cases hparent'

/-- The nearest node with a weaker property is the nearest one with the stronger, if it has it. -/
theorem Nearest.strengthen (h : Nearest parent Q x a) (hPQ : ∀ z, P z → Q z) (ha : P a) :
    Nearest parent P x a := by
  induction h with
  | here hparent _ => exact .here hparent ha
  | up hparent hy _ ih => exact .up hparent (fun hP => hy (hPQ _ hP)) (ih ha)

theorem Nearest.exists_weaker (h : Nearest parent P x a) (hPQ : ∀ z, P z → Q z) :
    ∃ b, Nearest parent Q x b := by
  induction h with
  | here hparent ha => exact ⟨_, .here hparent (hPQ _ ha)⟩
  | @up x y a hparent _ _ ih =>
    by_cases hy : Q y
    · exact ⟨y, .here hparent hy⟩
    · obtain ⟨b, hb⟩ := ih
      exact ⟨b, .up hparent hy hb⟩

theorem not_nearest_of_closed {C : α → Prop}
    (hclosed : ∀ z, C z → ∃ z', parent z = some z' ∧ C z' ∧ ¬P z') (hx : C x) :
    ¬Nearest parent P x a := by
  intro h
  induction h with
  | here hparent ha =>
    obtain ⟨z, hz, -, hnot⟩ := hclosed _ hx
    cases hparent.symm.trans hz
    exact hnot ha
  | up hparent _ _ ih =>
    obtain ⟨z, hz, hC, -⟩ := hclosed _ hx
    cases hparent.symm.trans hz
    exact ih hC

end Nearest

section Walk

variable {α κ : Type*} [DecidableEq κ]

structure Indexes (nodes : List α) (key : α → κ) (lookup : κ → Option α) : Prop where
  found : ∀ {k a}, lookup k = some a → a ∈ nodes ∧ key a = k
  finds : ∀ {a}, a ∈ nodes → lookup (key a) = some a

def walk (lookup : κ → Option α) (up : α → Option κ) (stops : α → Bool) :
    Nat → List κ → Option κ → Option α
  | 0, _, _ => none
  | _, _, none => none
  | fuel + 1, seen, some k =>
    if k ∈ seen then none
    else match lookup k with
      | none => none
      | some a => if stops a then some a else walk lookup up stops fuel (k :: seen) (up a)

def parentOf (lookup : κ → Option α) (up : α → Option κ) (x : α) : Option α :=
  (up x).bind lookup

variable {nodes : List α} {key : α → κ} {lookup : κ → Option α} {up : α → Option κ}
  {stops : α → Bool} {x a : α}

/-- By induction on the fuel: the path has no node twice, so the nodes outlast it. -/
theorem walk_path (h : Indexes nodes key lookup) (hx : x ∈ nodes) (hstops : stops x = true) :
    ∀ (fuel : Nat) (path : List α) (y : α),
      (∀ z ∈ path, z ∈ nodes ∧ stops z = false) →
      (∀ z ∈ path, z = y ∨ ∃ z' ∈ path, parentOf lookup up z = some z') →
      (y = x ∨ y ∈ path) → path.Nodup → nodes.length < fuel + path.length →
      (walk lookup up stops fuel (path.map key ++ [key x]) (up y) = some a ↔
        Nearest (parentOf lookup up) (stops · = true) y a ∧ a ≠ x) := by
  intro fuel
  induction fuel with
  | zero =>
    intro path y hpath _ _ hnodup hfuel
    have hle := (hnodup.subperm fun z hz => (hpath z hz).1).length_le
    omega
  | succ fuel ih =>
    intro path y hpath hclosed hy hnodup hfuel
    cases hup : up y with
    | none =>
      have hparent : parentOf lookup up y = none := by rw [parentOf, hup, Option.bind_none]
      rw [walk]
      · exact ⟨nofun, fun hnear => absurd hnear.1 (not_nearest_of_none hparent)⟩
      · exact Nat.succ_ne_zero fuel
    | some k =>
      have hparent : parentOf lookup up y = lookup k := by rw [parentOf, hup, Option.bind_some]
      rw [walk]
      split
      · rename_i hseen
        refine ⟨nofun, fun hnear => ?_⟩
        rcases mem_append.mp hseen with hseen | hseen
        · -- the chain has run into a cycle of nodes that do not stop the walk
          obtain ⟨z, hz, rfl⟩ := mem_map.mp hseen
          rw [h.finds (hpath z hz).1] at hparent
          have hnot : ¬stops z = true := by simp [(hpath z hz).2]
          refine absurd ((nearest_iff_of_not hparent hnot).mp hnear.1)
            (not_nearest_of_closed (C := (· ∈ path)) (fun w hw => ?_) hz)
          rcases hclosed w hw with rfl | ⟨w', hw', hparent'⟩
          · exact ⟨z, hparent, hz, hnot⟩
          · exact ⟨w', hparent', hw', by simp [(hpath w' hw').2]⟩
        · -- it has come back to where the walk began
          rw [mem_singleton.mp hseen, h.finds hx] at hparent
          exact absurd ((nearest_iff_of_holds hparent hstops).mp hnear.1) hnear.2
      · rename_i hseen
        obtain ⟨hnew, hne⟩ := not_or.mp (mt mem_append.mpr hseen)
        split
        · rename_i hnone
          rw [hnone] at hparent
          exact ⟨nofun, fun hnear => absurd hnear.1 (not_nearest_of_none hparent)⟩
        · rename_i b hfound
          obtain ⟨hb, rfl⟩ := h.found hfound
          rw [hfound] at hparent
          split
          · rename_i hstop
            have hbx : b ≠ x := fun heq => hne (mem_singleton.mpr (congrArg key heq))
            rw [nearest_iff_of_holds hparent hstop, Option.some.injEq]
            constructor
            · rintro rfl
              exact ⟨rfl, hbx⟩
            · exact fun hab => hab.1.symm
          · rename_i hstop
            rw [nearest_iff_of_not hparent hstop]
            have hbpath : b ∉ path := fun hmem => hnew (mem_map_of_mem hmem)
            refine ih (b :: path) b (fun z hz => ?_) (fun z hz => ?_) (.inr mem_cons_self)
              (nodup_cons.mpr ⟨hbpath, hnodup⟩) ?_
            · rcases mem_cons.mp hz with rfl | hz
              · exact ⟨hb, by simpa using hstop⟩
              · exact hpath z hz
            · rcases mem_cons.mp hz with rfl | hz
              · exact .inl rfl
              · right
                rcases hclosed z hz with rfl | ⟨z', hz', hparent'⟩
                · exact ⟨b, mem_cons_self, hparent⟩
                · exact ⟨z', mem_cons_of_mem _ hz', hparent'⟩
            · rw [length_cons]
              omega

/-- A walk with one step more than there are nodes finds the nearest node that stops it, unless
that is the node it began at. -/
theorem walk_eq_some (h : Indexes nodes key lookup) (hx : x ∈ nodes) (hstops : stops x = true) :
    walk lookup up stops (nodes.length + 1) [key x] (up x) = some a ↔
      Nearest (parentOf lookup up) (stops · = true) x a ∧ a ≠ x :=
  walk_path h hx hstops (nodes.length + 1) [] x (fun _ hz => absurd hz not_mem_nil)
    (fun _ hz => absurd hz not_mem_nil) (.inl rfl) nodup_nil
    (by rw [length_nil]; omega)

end Walk

end ChatgptArchive.Ancestry
