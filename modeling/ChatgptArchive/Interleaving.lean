import Mathlib.Data.Nat.Notation

/-!
# Threads over a shared state

Any number of threads, each with its own state, over one shared state. An assertion about such a
system has three parts: what holds of the shared state, what holds of each thread given the shared
state, and what holds of any two threads. A step of one thread keeps the assertion when the thread
establishes its own part and interferes with no other thread's.
-/

namespace ChatgptArchive

structure Interleaving (σ κ : Type*) where
  shared : σ
  threads : ℕ → Option κ

namespace Interleaving

variable {σ κ : Type*} {s : Interleaving σ κ} {c : ℕ} {shared : σ} {t : κ}

def set (s : Interleaving σ κ) (c : ℕ) (shared : σ) (t : κ) : Interleaving σ κ :=
  { shared, threads := fun d => if d = c then some t else s.threads d }

def restrict (s : Interleaving σ κ) (shared : σ) (p : κ → Bool) : Interleaving σ κ :=
  { shared, threads := fun d => (s.threads d).filter p }

theorem set_threads_self : (s.set c shared t).threads c = some t := if_pos rfl

theorem set_threads_of_ne {d : ℕ} (h : d ≠ c) : (s.set c shared t).threads d = s.threads d := if_neg h

/-- An assertion: of the shared state, of each thread over it, of any two threads. -/
structure Asserts (I : σ → Prop) (P : σ → κ → Prop) (A : κ → κ → Prop) (s : Interleaving σ κ) :
    Prop where
  shared : I s.shared
  thread : ∀ {c t}, s.threads c = some t → P s.shared t
  apart : ∀ {c d t u}, c ≠ d → s.threads c = some t → s.threads d = some u → A t u

namespace Asserts

variable {I : σ → Prop} {P : σ → κ → Prop} {A : κ → κ → Prop}

/-- A step of one thread, which leaves the others what they assert. -/
theorem set (h : Asserts I P A s) {c : ℕ} {shared : σ} {t : κ} (hshared : I shared)
    (hown : P shared t)
    (hothers : ∀ {d u}, d ≠ c → s.threads d = some u → P shared u ∧ A t u ∧ A u t) :
    Asserts I P A (s.set c shared t) where
  shared := hshared
  thread {d u} hd := by
    by_cases hdc : d = c
    · rw [hdc, set_threads_self] at hd
      cases hd
      exact hown
    · rw [set_threads_of_ne hdc] at hd
      exact (hothers hdc hd).1
  apart {d e u v} hne hd he := by
    by_cases hdc : d = c
    · rw [hdc, set_threads_self] at hd
      rw [set_threads_of_ne (hdc ▸ hne.symm)] at he
      cases hd
      exact (hothers (hdc ▸ hne.symm) he).2.1
    · rw [set_threads_of_ne hdc] at hd
      by_cases hec : e = c
      · rw [hec, set_threads_self] at he
        cases he
        exact (hothers hdc hd).2.2
      · rw [set_threads_of_ne hec] at he
        exact h.apart hne hd he

theorem restrict (h : Asserts I P A s) {shared : σ} {p : κ → Bool} (hshared : I shared)
    (hkept : ∀ {c t}, s.threads c = some t → p t = true → P shared t) :
    Asserts I P A (s.restrict shared p) where
  shared := hshared
  thread hc := by
    obtain ⟨hthread, hp⟩ := Option.filter_eq_some_iff.mp hc
    exact hkept hthread hp
  apart hne hc hd :=
    h.apart hne (Option.filter_eq_some_iff.mp hc).1 (Option.filter_eq_some_iff.mp hd).1

end Asserts

end Interleaving

end ChatgptArchive
