import ChatgptArchive.BlobProtocol
import Mathlib.Data.Sum.Order

/-!
# The order of the locks

`blob_protocol.rs` fixes an order for the locks: the tenant's first, then the digests' in ascending
order. Distinct digests are taken to have distinct lock keys. Whatever the interleaving, no
registrars and erasers come to wait for one another.
-/

namespace ChatgptArchive

def Progress.wanted : Progress → List String
  | .locking _ digests => digests
  | .awaiting item => [item.digest]
  | _ => []

namespace BlobProtocol

def nextLock (s : BlobProtocol) (t : TransactionId) : Option (Uuid ⊕ₗ String) :=
  match s.transactions t with
  | none => none
  | some ⟨some tenantId, _⟩ => some (Sum.inlₗ tenantId)
  | some ⟨none, progress⟩ => progress.wanted.head?.map Sum.inrₗ

def lockTable (tenantLocks : Locks Uuid TransactionId) (digestLocks : Locks String TransactionId) :
    Locks (Uuid ⊕ₗ String) TransactionId :=
  fun k => Sum.elim tenantLocks digestLocks (ofLex k)

def locks (s : BlobProtocol) : Locks (Uuid ⊕ₗ String) TransactionId :=
  lockTable s.tenantLocks s.digestLocks

/-- A transaction that holds a lock is past its tenant lock, and has only later ones to take. -/
def Orderly (s : BlobProtocol) : Prop :=
  ∀ t, (∀ k, s.locks.Held t k → ∃ progress, s.transactions t = some ⟨none, progress⟩ ∧
      ∀ d ∈ progress.wanted, k < Sum.inrₗ d) ∧
    ∀ own ∈ s.transactions t, own.progress.wanted.Pairwise (· < ·)

namespace Orderly

variable {contracts : Contracts} {config : ImportConfig} {s : BlobProtocol} {t : TransactionId}

variable (h : Orderly s)
include h

theorem setTransaction {transaction : Option Transaction}
    {tenantLocks : Locks Uuid TransactionId} {digestLocks : Locks String TransactionId}
    (hothers : ∀ u ≠ t, ∀ k, (lockTable tenantLocks digestLocks).Held u k →
      s.locks.Held u k)
    (hheld : ∀ k, (lockTable tenantLocks digestLocks).Held t k →
      ∃ progress, transaction = some ⟨none, progress⟩ ∧ ∀ d ∈ progress.wanted, k < Sum.inrₗ d)
    (hsorted : ∀ own ∈ transaction, own.progress.wanted.Pairwise (· < ·)) :
    Orderly { s.setTransaction t transaction with tenantLocks, digestLocks } := by
  intro u
  by_cases hut : u = t
  · subst hut
    have hown : (s.setTransaction u transaction).transactions u = transaction := if_pos rfl
    exact ⟨fun k hk => hown.symm ▸ hheld k hk, hown.symm ▸ hsorted⟩
  · have hown : (s.setTransaction t transaction).transactions u = s.transactions u := if_neg hut
    exact ⟨fun k hk => hown.symm ▸ (h u).1 k (hothers u hut k hk), hown.symm ▸ (h u).2⟩

theorem not_held (hbefore : ∀ progress, s.transactions t ≠ some ⟨none, progress⟩)
    (k : Uuid ⊕ₗ String) : ¬s.locks.Held t k := by
  intro hk
  obtain ⟨progress, hprogress, -⟩ := (h t).1 k hk
  exact hbefore progress hprogress

theorem start (hnew : s.transactions t = none) {transaction : Transaction}
    (hsorted : transaction.progress.wanted.Pairwise (· < ·)) :
    Orderly (s.setTransaction t (some transaction)) := by
  have hfree := h.not_held (t := t) (by simp [hnew])
  refine h.setTransaction (fun _ _ _ hk => hk) (fun k hk => absurd hk (hfree k)) fun own hown => ?_
  cases hown
  exact hsorted

omit h in
theorem transactions_of_progressOf {progress : Progress} (h : s.progressOf t = some progress) :
    s.transactions t = some ⟨none, progress⟩ := by
  unfold progressOf at h
  split at h
  · rename_i p hp
    cases h
    exact hp
  · cases h

theorem later {progress : Progress} (hprogress : s.progressOf t = some progress)
    {k : Uuid ⊕ₗ String} (hk : s.locks.Held t k) {d : String} (hd : d ∈ progress.wanted) :
    k < Sum.inrₗ d := by
  obtain ⟨progress', hprogress', hlater⟩ := (h t).1 k hk
  cases (transactions_of_progressOf hprogress).symm.trans hprogress'
  exact hlater d hd

theorem advance {progress next : Progress} (hprogress : s.progressOf t = some progress)
    (hwanted : next.wanted.Sublist progress.wanted) : Orderly (s.advance t next) := by
  have htransaction := transactions_of_progressOf hprogress
  refine h.setTransaction (fun _ _ _ hk => hk) (fun k hk => ⟨next, rfl, fun d hd => ?_⟩) ?_
  · exact h.later hprogress hk (hwanted.subset hd)
  · rintro own ⟨⟩
    exact ((h t).2 _ htransaction).sublist hwanted

theorem conclude (t : TransactionId) : Orderly (s.conclude t) := by
  have hreleased : ∀ u k, (s.conclude t).locks.Held u k → s.locks.Held u k ∧ u ≠ t := by
    rintro u (tenantId | digest) hk
    · exact Locks.Held.of_release (show (s.tenantLocks.release t).Held u tenantId from hk)
    · exact Locks.Held.of_release (show (s.digestLocks.release t).Held u digest from hk)
  exact h.setTransaction (fun u _ k hk => (hreleased u k hk).1)
    (fun k hk => absurd rfl (hreleased t k hk).2) nofun

/-- Taking one more lock: it comes after those held and before those still wanted. -/
theorem take {next : Progress} (key : Uuid ⊕ₗ String)
    {tenantLocks : Locks Uuid TransactionId} {digestLocks : Locks String TransactionId}
    (hacquired : ∀ u k, (lockTable tenantLocks digestLocks).Held u k →
      s.locks.Held u k ∨ u = t ∧ k = key)
    (hheld : ∀ k, s.locks.Held t k → ∀ d ∈ next.wanted, k < Sum.inrₗ d)
    (hkey : ∀ d ∈ next.wanted, key < Sum.inrₗ d) (hsorted : next.wanted.Pairwise (· < ·)) :
    Orderly { s.advance t next with tenantLocks, digestLocks } := by
  refine h.setTransaction (fun u hu k hk => ?_) (fun k hk => ⟨next, rfl, fun d hd => ?_⟩) ?_
  · exact (hacquired u k hk).resolve_right fun heq => hu heq.1
  · rcases hacquired t k hk with hk | ⟨-, rfl⟩
    · exact hheld k hk d hd
    · exact hkey d hd
  · rintro own ⟨⟩
    exact hsorted

theorem lockTenant {tenantId : Uuid} {progress : Progress}
    (htransaction : s.transactions t = some ⟨some tenantId, progress⟩) :
    Orderly { s.advance t progress with tenantLocks := s.tenantLocks.acquire t tenantId } := by
  have hfree := h.not_held (t := t) (by simp [htransaction])
  refine h.take (Sum.inlₗ tenantId) ?_ (fun k hk => absurd hk (hfree k))
    (fun d _ => Sum.Lex.inl_lt_inr _ _) ((h t).2 _ htransaction)
  rintro u (tenantId' | digest) hk
  · exact (Locks.Held.of_acquire hk).imp_right fun heq => ⟨heq.1, congrArg Sum.inlₗ heq.2⟩
  · exact .inl hk

theorem lockNext {progress next : Progress} {digest : String}
    (hprogress : s.progressOf t = some progress) (hwanted : progress.wanted = digest :: next.wanted) :
    Orderly (s.lockNext t digest next) := by
  have htransaction := transactions_of_progressOf hprogress
  have hsorted : (digest :: next.wanted).Pairwise (· < ·) := hwanted ▸ (h t).2 _ htransaction
  unfold BlobProtocol.lockNext
  split
  · refine h.take (Sum.inrₗ digest) ?_ (fun k hk d hd => ?_)
      (fun d hd => Sum.Lex.inr_lt_inr_iff.mpr (List.rel_of_pairwise_cons hsorted hd))
      hsorted.of_cons
    · rintro u (tenantId | digest') hk
      · exact .inl hk
      · exact (Locks.Held.of_acquire hk).imp_right fun heq => ⟨heq.1, congrArg Sum.inrₗ heq.2⟩
    · exact h.later hprogress hk (hwanted ▸ List.mem_cons_of_mem _ hd)
  · exact h

theorem proveNext {fault : Bool} {registrations unproved : List Registration}
    {registration : Registration}
    (hprogress : s.progressOf t = some (.proving registrations (registration :: unproved))) :
    Orderly (s.proveNext t fault registrations registration unproved) := by
  unfold BlobProtocol.proveNext
  split
  · exact h.advance hprogress (List.Sublist.refl _)
  · dsimp only
    split
    · exact advance (s := { s with blobs := _ }) h hprogress (List.Sublist.refl _)
    · exact conclude (s := { s with blobs := _ }) h t

/-- Each action takes the next lock in the order, or takes none. -/
theorem step (action : BlobAction) : Orderly (s.step contracts config action) := by
  cases action with
  | store digest lengthBytes => exact h
  | register t tenant registrations =>
    rw [BlobProtocol.step]
    split
    · rename_i hnew
      refine h.start hnew ?_
      have hdistinct := (List.perm_insertionSort (· ≤ ·) _).nodup_iff.mpr
        (List.nodup_dedup (registrations.map (·.reference.digest)))
      exact ((List.pairwise_insertionSort (· ≤ ·) _).and hdistinct).imp fun h => h.1.lt_of_ne h.2
    · exact h
  | eraseListed t tenantId item =>
    rw [BlobProtocol.step]
    split
    · rename_i hnew
      exact h.start hnew (List.pairwise_singleton _ _)
    · exact h
  | lockTenant t =>
    rw [BlobProtocol.step]
    split
    · rename_i tenantId progress htransaction
      split
      · exact h.lockTenant htransaction
      · exact h
    · exact h
  | lockDigest t =>
    rw [BlobProtocol.step]
    split
    · rename_i hprogress
      exact h.lockNext hprogress rfl
    · rename_i hprogress
      exact h.advance hprogress (List.nil_sublist _)
    · rename_i hprogress
      exact h.lockNext hprogress rfl
    · exact h
  | prove t fault =>
    rw [BlobProtocol.step]
    split
    · rename_i hprogress
      exact h.proveNext hprogress
    · exact h
  | recheck t =>
    rw [BlobProtocol.step]
    split
    · rename_i hprogress
      refine h.advance hprogress ?_
      split <;> exact List.nil_sublist _
    · exact h
  | erase t =>
    rw [BlobProtocol.step]
    split
    · rename_i hprogress
      split
      · exact advance (s := { s with blobs := _ }) h hprogress (List.nil_sublist _)
      · exact h.conclude t
    · exact h
  | commit t event =>
    rw [BlobProtocol.step]
    split
    · split
      · exact conclude (s := { s with db := _ }) h t
      · exact h
    · exact h
  | finish t =>
    rw [BlobProtocol.step]
    split
    · exact h.conclude t
    · exact h
  | abort t => exact h.conclude t
  | transact event =>
    rw [BlobProtocol.step]
    split <;> exact h

end Orderly

/-- In no interleaving do transactions wait for one another in a circle. -/
theorem waits_acyclic (contracts : Contracts) (config : ImportConfig) (actions : List BlobAction)
    (t : TransactionId) :
    let s := Run.run (BlobProtocol.step contracts config) initial actions
    ¬Relation.TransGen (s.locks.WaitsFor s.nextLock) t t := by
  have horderly : Orderly (Run.run (BlobProtocol.step contracts config) initial actions) :=
    Run.run_preserves (fun _ action h => h.step action) fun t => by
      refine ⟨?_, nofun⟩
      rintro (tenantId | digest) hk
      · cases hk
      · cases hk
  refine Locks.waits_irrefl (fun u k l hheld hnext => ?_) t
  obtain ⟨progress, hprogress, hlater⟩ := (horderly u).1 k hheld
  rw [nextLock, hprogress] at hnext
  obtain ⟨d, hd, rfl⟩ := Option.map_eq_some_iff.mp hnext
  exact hlater d (List.mem_of_head? hd)

end BlobProtocol

end ChatgptArchive
