import ChatgptArchive.Locks
import ChatgptArchive.Integrity.BlobReferences

/-!
# Registering and erasing blobs

The store keeps objects by digest. A registrar takes the lock of every digest it is about to
reference, proves each object present or stores it again from the bytes it holds, and commits the
referencing rows. An eraser takes the tenant's lock and the digest's lock, looks for a row that
carries the listed reference and erases the object when there is none. A lock is held until its
transaction commits or aborts; the eraser's check reads the committed rows.
-/

namespace ChatgptArchive

structure BlobStore where
  objects : String → Option Nat

namespace BlobStore

variable {blobs : BlobStore} {reference : BlobRef}

def empty : BlobStore := ⟨fun _ => none⟩

def store (blobs : BlobStore) (digest : String) (lengthBytes : Nat) : BlobStore :=
  -- publishing is create-new: an existing object is never rewritten
  ⟨fun d => if d = digest then some ((blobs.objects d).getD lengthBytes) else blobs.objects d⟩

def verify (blobs : BlobStore) (reference : BlobRef) : Bool :=
  blobs.objects reference.digest = some reference.lengthBytes

def erase (blobs : BlobStore) (reference : BlobRef) : Option BlobStore :=
  -- erasing an absent object succeeds; an object that does not verify is refused
  match blobs.objects reference.digest with
  | none => some blobs
  | some lengthBytes =>
    if lengthBytes = reference.lengthBytes then
      some ⟨fun d => if d = reference.digest then none else blobs.objects d⟩
    else none

def Present (blobs : BlobStore) (digest : String) : Prop := (blobs.objects digest).isSome

instance (blobs : BlobStore) (digest : String) : Decidable (blobs.Present digest) :=
  inferInstanceAs (Decidable (_ = true))

theorem Present.store {blobs : BlobStore} {d : String} (h : blobs.Present d) (digest : String)
    (lengthBytes : Nat) : (blobs.store digest lengthBytes).Present d := by
  unfold Present BlobStore.store
  dsimp only
  split
  · rfl
  · exact h

theorem present_store (blobs : BlobStore) (digest : String) (lengthBytes : Nat) :
    (blobs.store digest lengthBytes).Present digest := by
  simp [Present, BlobStore.store]

theorem present_of_verify (h : blobs.verify reference = true) : blobs.Present reference.digest := by
  simp only [verify, decide_eq_true_eq] at h
  simp [Present, h]

theorem Present.erase {blobs' : BlobStore} {d : String} (h : blobs.Present d)
    (herase : blobs.erase reference = some blobs') (hne : d ≠ reference.digest) :
    blobs'.Present d := by
  unfold BlobStore.erase at herase
  split at herase
  · cases herase
    exact h
  · split at herase
    · cases herase
      unfold Present
      dsimp only
      rwa [if_neg hne]
    · cases herase

end BlobStore

structure HeldBytes where
  digest : String
  lengthBytes : Nat
  deriving DecidableEq, Repr

structure Registration where
  reference : BlobRef
  held : HeldBytes
  deriving DecidableEq, Repr

inductive Progress where
  /-- A registrar with digest locks still to take, in ascending order. -/
  | locking (registrations : List Registration) (digests : List String)
  /-- A registrar that holds its locks, with objects still to prove present. -/
  | proving (registrations unproved : List Registration)
  /-- An eraser before its digest lock. -/
  | awaiting (item : BlobRef)
  | rechecking (item : BlobRef)
  /-- An eraser that found no row with the listed reference. -/
  | erasing (item : BlobRef)
  /-- An eraser that kept or erased the object, before its commit. -/
  | decided
  deriving DecidableEq, Repr

structure Transaction where
  tenant : Option Uuid
  progress : Progress
  deriving DecidableEq, Repr

abbrev TransactionId := Nat

structure BlobProtocol where
  db : Database
  blobs : BlobStore
  tenantLocks : Locks Uuid TransactionId
  digestLocks : Locks String TransactionId
  transactions : TransactionId → Option Transaction

inductive BlobAction where
  /-- Bytes are stored ahead of any transaction. -/
  | store (digest : String) (lengthBytes : Nat)
  /-- A publication takes no tenant lock; an import does. -/
  | register (t : TransactionId) (tenant : Option Uuid) (registrations : List Registration)
  | eraseListed (t : TransactionId) (tenantId : Uuid) (item : BlobRef)
  | lockTenant (t : TransactionId)
  | lockDigest (t : TransactionId)
  /-- Verifies the next object; `fault` is a verification that fails for another reason. -/
  | prove (t : TransactionId) (fault : Bool)
  | recheck (t : TransactionId)
  | erase (t : TransactionId)
  /-- A registrar commits its rows. -/
  | commit (t : TransactionId) (event : Event)
  /-- An eraser commits. -/
  | finish (t : TransactionId)
  | abort (t : TransactionId)
  /-- A transaction commits that stores no reference. -/
  | transact (event : Event)
  deriving DecidableEq, Repr

namespace BlobProtocol

def initial : BlobProtocol :=
  { db := .empty, blobs := .empty, tenantLocks := .free, digestLocks := .free
    transactions := fun _ => none }

def setTransaction (s : BlobProtocol) (t : TransactionId) (transaction : Option Transaction) :
    BlobProtocol :=
  { s with transactions := fun u => if u = t then transaction else s.transactions u }

def advance (s : BlobProtocol) (t : TransactionId) (progress : Progress) : BlobProtocol :=
  s.setTransaction t (some ⟨none, progress⟩)

def conclude (s : BlobProtocol) (t : TransactionId) : BlobProtocol :=
  { s.setTransaction t none with
    tenantLocks := s.tenantLocks.release t, digestLocks := s.digestLocks.release t }

def progressOf (s : BlobProtocol) (t : TransactionId) : Option Progress :=
  match s.transactions t with
  | some ⟨none, progress⟩ => some progress
  | _ => none

def lockNext (s : BlobProtocol) (t : TransactionId) (digest : String) (next : Progress) :
    BlobProtocol :=
  if s.digestLocks.Available t digest then
    { s.advance t next with digestLocks := s.digestLocks.acquire t digest }
  else s

def proveNext (s : BlobProtocol) (t : TransactionId) (fault : Bool)
    (registrations : List Registration) (registration : Registration)
    (unproved : List Registration) : BlobProtocol :=
  -- proves the next object present, or stores it again from the held bytes. Bytes of another digest
  -- or length are not the blob: the registrar gives up and registers nothing
  if !fault && s.blobs.verify registration.reference then
    s.advance t (.proving registrations unproved)
  else
    let s := { s with
      blobs := s.blobs.store registration.held.digest registration.held.lengthBytes }
    if registration.held.digest = registration.reference.digest ∧
        registration.held.lengthBytes = registration.reference.lengthBytes then
      s.advance t (.proving registrations unproved)
    else s.conclude t

variable (contracts : Contracts) (config : ImportConfig)

def step (s : BlobProtocol) : BlobAction → BlobProtocol
  -- one action. An action that is not enabled leaves the state as it is
  | .store digest lengthBytes => { s with blobs := s.blobs.store digest lengthBytes }
  | .register t tenant registrations =>
    if s.transactions t = none then
      s.setTransaction t (some ⟨tenant, .locking registrations
        ((registrations.map (·.reference.digest)).dedup.insertionSort (· ≤ ·))⟩)
    else s
  | .eraseListed t tenantId item =>
    if s.transactions t = none then s.setTransaction t (some ⟨some tenantId, .awaiting item⟩)
    else s
  | .lockTenant t =>
    match s.transactions t with
    | some ⟨some tenantId, progress⟩ =>
      if s.tenantLocks.Available t tenantId then
        { s.advance t progress with tenantLocks := s.tenantLocks.acquire t tenantId }
      else s
    | _ => s
  | .lockDigest t =>
    match s.progressOf t with
    | some (.locking registrations (digest :: digests)) =>
      s.lockNext t digest (.locking registrations digests)
    | some (.locking registrations []) => s.advance t (.proving registrations registrations)
    | some (.awaiting item) => s.lockNext t item.digest (.rechecking item)
    | _ => s
  | .prove t fault =>
    match s.progressOf t with
    | some (.proving registrations (registration :: unproved)) =>
      s.proveNext t fault registrations registration unproved
    | _ => s
  | .recheck t =>
    match s.progressOf t with
    | some (.rechecking item) =>
      s.advance t (if s.db.blobIsReferenced item then .decided else .erasing item)
    | _ => s
  | .erase t =>
    match s.progressOf t with
    | some (.erasing item) =>
      match s.blobs.erase item with
      | some blobs => { s with blobs }.advance t .decided
      | none => s.conclude t
    | _ => s
  | .commit t event =>
    match s.progressOf t with
    | some (.proving registrations []) =>
      if event.registers ⊆ registrations.map (·.reference) then
        { s with db := s.db.step contracts config event }.conclude t
      else s
    | _ => s
  | .finish t =>
    match s.progressOf t with
    | some .decided => s.conclude t
    | _ => s
  | .abort t => s.conclude t
  | .transact event =>
    if event.registers = [] then { s with db := s.db.step contracts config event } else s

variable {contracts config}

/-! ## What a transaction may rely on -/

/-- What holds for a transaction as long as it keeps its locks: a registrar's proved objects stay,
and no row comes to reference the digest an eraser decided to erase. -/
def Relies (db : Database) (blobs : BlobStore) (locks : Locks String TransactionId)
    (t : TransactionId) : Progress → Prop
  | .locking registrations digests => ∀ registration ∈ registrations,
      registration.reference.digest ∈ digests ∨ locks.Held t registration.reference.digest
  | .proving registrations unproved => ∀ registration ∈ registrations,
      locks.Held t registration.reference.digest ∧
        (registration ∈ unproved ∨ blobs.Present registration.reference.digest)
  | .awaiting _ => True
  | .rechecking item => locks.Held t item.digest
  | .erasing item => locks.Held t item.digest ∧ ∀ r ∈ db.blobRefs, r.digest ≠ item.digest
  | .decided => True

theorem Relies.mono {db db' : Database} {blobs blobs' : BlobStore}
    {locks locks' : Locks String TransactionId} {t : TransactionId} {progress : Progress}
    (h : Relies db blobs locks t progress) (hlocks : ∀ d, locks.Held t d → locks'.Held t d)
    (hblobs : ∀ d, locks.Held t d → blobs.Present d → blobs'.Present d)
    (hrefs : ∀ d, locks.Held t d → (∀ r ∈ db.blobRefs, r.digest ≠ d) →
      ∀ r ∈ db'.blobRefs, r.digest ≠ d) : Relies db' blobs' locks' t progress := by
  cases progress with
  | locking registrations digests => exact fun reg hreg => (h reg hreg).imp_right (hlocks _)
  | proving registrations unproved =>
    intro reg hreg
    obtain ⟨hheld, hproved⟩ := h reg hreg
    exact ⟨hlocks _ hheld, hproved.imp_right (hblobs _ hheld)⟩
  | awaiting item => trivial
  | rechecking item => exact hlocks _ h
  | erasing item => exact ⟨hlocks _ h.1, hrefs _ h.1 h.2⟩
  | decided => trivial

structure Protected (s : BlobProtocol) : Prop where
  sound : Sound s.db
  present : ∀ r ∈ s.db.blobRefs, s.blobs.Present r.digest
  relies : ∀ t transaction, s.transactions t = some transaction →
    Relies s.db s.blobs s.digestLocks t transaction.progress

theorem Protected.initial : Protected initial where
  sound := .empty
  present := nofun
  relies := nofun

namespace Protected

variable {s : BlobProtocol} {t : TransactionId}

variable (h : Protected s)
include h

theorem setTransaction {transaction : Option Transaction}
    {locks : Locks String TransactionId} {tenantLocks : Locks Uuid TransactionId}
    (hlocks : ∀ u, u ≠ t → ∀ d, s.digestLocks.Held u d → locks.Held u d)
    (hown : ∀ own ∈ transaction, Relies s.db s.blobs locks t own.progress) :
    Protected { s.setTransaction t transaction with tenantLocks, digestLocks := locks } where
  sound := h.sound
  present := h.present
  relies u transaction' hu := by
    by_cases hut : u = t
    · subst hut
      exact hown transaction' ((if_pos rfl).symm.trans hu)
    · have hu : s.transactions u = some transaction' := (if_neg hut).symm.trans hu
      exact (h.relies u transaction' hu).mono (hlocks u hut) (fun _ _ hp => hp) fun _ _ hr => hr

theorem advance {progress : Progress}
    (hown : Relies s.db s.blobs s.digestLocks t progress) : Protected (s.advance t progress) :=
  h.setTransaction (fun _ _ _ hheld => hheld) fun _ hmem => Option.some.inj hmem ▸ hown

theorem conclude (t : TransactionId) : Protected (s.conclude t) :=
  h.setTransaction (fun _ hne _ hheld => hheld.release (Ne.symm hne)) nofun

theorem lockNext {digest : String} {next : Progress} (hown : s.digestLocks.Available t digest →
      Relies s.db s.blobs (s.digestLocks.acquire t digest) t next) :
    Protected (s.lockNext t digest next) := by
  unfold BlobProtocol.lockNext
  split
  · rename_i havailable
    exact h.setTransaction (fun _ _ _ hheld => hheld.acquire havailable)
      fun _ hmem => Option.some.inj hmem ▸ hown havailable
  · exact h

theorem store (digest : String) (lengthBytes : Nat) :
    Protected { s with blobs := s.blobs.store digest lengthBytes } where
  sound := h.sound
  present r hr := (h.present r hr).store digest lengthBytes
  relies u transaction hu := (h.relies u transaction hu).mono (fun _ hheld => hheld)
    (fun _ _ hp => hp.store digest lengthBytes) fun _ _ hr => hr

theorem relies_of_progressOf {progress : Progress} (hprogress : s.progressOf t = some progress) :
    Relies s.db s.blobs s.digestLocks t progress := by
  unfold progressOf at hprogress
  split at hprogress
  · rename_i p hp
    cases hprogress
    exact h.relies t _ hp
  · cases hprogress

theorem proveNext {fault : Bool} {registrations unproved : List Registration}
    {registration : Registration}
    (hprogress : s.progressOf t = some (.proving registrations (registration :: unproved))) :
    Protected (s.proveNext t fault registrations registration unproved) := by
  have hrelies := h.relies_of_progressOf hprogress
  -- The first object is proved by the step, the others are as before it.
  have hnext : ∀ {blobs : BlobStore}, blobs.Present registration.reference.digest →
      (∀ d, s.blobs.Present d → blobs.Present d) →
      Relies s.db blobs s.digestLocks t (.proving registrations unproved) := by
    intro blobs hproved hkept other hother
    obtain ⟨hheld, hpresent⟩ := hrelies other hother
    refine ⟨hheld, ?_⟩
    rcases hpresent with hmem | hpresent
    · rcases List.mem_cons.mp hmem with rfl | hmem
      · exact .inr hproved
      · exact .inl hmem
    · exact .inr (hkept _ hpresent)
  unfold BlobProtocol.proveNext
  split
  · rename_i hverify
    rw [Bool.and_eq_true] at hverify
    exact h.advance (hnext (BlobStore.present_of_verify hverify.2) fun _ hp => hp)
  · have hstored := h.store registration.held.digest registration.held.lengthBytes
    dsimp only
    split
    · rename_i hmatches
      refine hstored.advance (hnext ?_ fun _ hp => hp.store _ _)
      exact hmatches.1 ▸ BlobStore.present_store ..
    · exact hstored.conclude t

theorem erase {item : BlobRef} {blobs : BlobStore}
    (hprogress : s.progressOf t = some (.erasing item)) (herase : s.blobs.erase item = some blobs) :
    Protected ({ s with blobs }.advance t .decided) := by
  obtain ⟨hheld, hunreferenced⟩ := h.relies_of_progressOf hprogress
  constructor
  · exact h.sound
  · exact fun r hr => (h.present r hr).erase herase (hunreferenced r hr)
  · intro u transaction hu
    by_cases hut : u = t
    · subst hut
      cases (if_pos rfl).symm.trans hu
      trivial
    · have hu : s.transactions u = some transaction := (if_neg hut).symm.trans hu
      -- Another registrar that proved this object would hold its lock.
      refine (h.relies u transaction hu).mono (fun _ hd => hd) (fun d hd hp => ?_) fun _ _ hr => hr
      exact hp.erase herase fun hitem => hut (hd.unique (hitem ▸ hheld))

theorem write {event : Event} (hpresent : ∀ r ∈ event.registers, s.blobs.Present r.digest)
    (hfree : ∀ r ∈ event.registers, ∀ u, ¬s.digestLocks.Held u r.digest) :
    Protected { s with db := s.db.step contracts config event } where
  sound := h.sound.step contracts config event
  present r hr := (h.sound.step_blobRefs event hr).elim (h.present r) (hpresent r)
  relies u transaction hu := by
    refine (h.relies u transaction hu).mono (fun _ hd => hd) (fun _ _ hp => hp) ?_
    intro d hd hnone r hr
    rcases h.sound.step_blobRefs event hr with hr | hr
    · exact hnone r hr
    · exact fun heq => hfree r hr u (heq ▸ hd)

/-- A registrar's commit: it holds the lock of every digest it references, and gives it back. -/
theorem commit {event : Event} {registrations : List Registration}
    (hprogress : s.progressOf t = some (.proving registrations []))
    (hregisters : event.registers ⊆ registrations.map (·.reference)) :
    Protected ({ s with db := s.db.step contracts config event }.conclude t) := by
  have hproved : ∀ r ∈ event.registers,
      s.digestLocks.Held t r.digest ∧ s.blobs.Present r.digest := by
    intro r hr
    obtain ⟨registration, hmem, rfl⟩ := List.mem_map.mp (hregisters hr)
    obtain ⟨hheld, hpresent⟩ := h.relies_of_progressOf hprogress registration hmem
    exact ⟨hheld, hpresent.resolve_left List.not_mem_nil⟩
  have hconcluded := h.conclude t
  exact hconcluded.write (fun r hr => (hproved r hr).2)
    fun r hr => (hproved r hr).1.not_held_release

end Protected

/-! ## Every interleaving -/

/-- When an eraser looks for references to its digest, either no row references the digest or
some row carries exactly the listed reference. -/
def ComparesWhole (s : BlobProtocol) : BlobAction → Prop
  | .recheck t =>
    match s.progressOf t with
    | some (.rechecking item) =>
      (∃ r ∈ s.db.blobRefs, r.digest = item.digest) → item ∈ s.db.blobRefs
    | _ => True
  | _ => True

instance (s : BlobProtocol) : ∀ action, Decidable (s.ComparesWhole action)
  | .recheck t => by
    unfold ComparesWhole
    dsimp only
    split <;> infer_instance
  | .store .. | .register .. | .eraseListed .. | .lockTenant _ | .lockDigest _ | .prove ..
  | .erase _ | .commit .. | .finish _ | .abort _ | .transact _ => isTrue trivial

theorem Protected.step {s : BlobProtocol} (h : Protected s) {action : BlobAction}
    (hcompares : s.ComparesWhole action) : Protected (s.step contracts config action) := by
  cases action with
  | store digest lengthBytes => exact h.store digest lengthBytes
  | register t tenant registrations =>
    rw [BlobProtocol.step]
    split
    · refine h.setTransaction (fun _ _ _ hd => hd) fun own hown => ?_
      cases hown
      exact fun registration hmem => .inl (by simpa using ⟨registration, hmem, rfl⟩)
    · exact h
  | eraseListed t tenantId item =>
    rw [BlobProtocol.step]
    split
    · refine h.setTransaction (fun _ _ _ hd => hd) fun own hown => ?_
      cases hown
      trivial
    · exact h
  | lockTenant t =>
    rw [BlobProtocol.step]
    split
    · rename_i tenantId progress htransaction
      split
      · refine h.setTransaction (fun _ _ _ hd => hd) fun own hown => ?_
        cases hown
        exact h.relies t ⟨some tenantId, progress⟩ htransaction
      · exact h
    · exact h
  | lockDigest t =>
    rw [BlobProtocol.step]
    split
    · rename_i registrations digest digests hprogress
      refine h.lockNext fun havailable registration hmem => ?_
      rcases h.relies_of_progressOf hprogress registration hmem with hdigest | hheld
      · rcases List.mem_cons.mp hdigest with heq | hdigest
        · exact .inr (heq ▸ Locks.held_acquire ..)
        · exact .inl hdigest
      · exact .inr (hheld.acquire havailable)
    · rename_i registrations hprogress
      refine h.advance fun registration hmem => ?_
      have hheld := h.relies_of_progressOf hprogress registration hmem
      exact ⟨hheld.resolve_left List.not_mem_nil, .inl hmem⟩
    · rename_i item hprogress
      exact h.lockNext fun _ => Locks.held_acquire ..
    · exact h
  | prove t fault =>
    rw [BlobProtocol.step]
    split
    · rename_i hprogress
      exact h.proveNext hprogress
    · exact h
  | recheck t =>
    rw [BlobProtocol.step]
    split
    · rename_i item hprogress
      refine h.advance ?_
      split
      · trivial
      · rename_i hnot
        -- not found under its lock, and no other reference has this digest
        simp only [ComparesWhole, hprogress] at hcompares
        refine ⟨h.relies_of_progressOf hprogress, fun r hr heq => hnot ?_⟩
        exact Database.blobIsReferenced_iff.mpr (hcompares ⟨r, hr, heq⟩)
    · exact h
  | erase t =>
    rw [BlobProtocol.step]
    split
    · rename_i item hprogress
      split
      · rename_i blobs herase
        exact h.erase hprogress herase
      · exact h.conclude t
    · exact h
  | commit t event =>
    rw [BlobProtocol.step]
    split
    · rename_i registrations hprogress
      split
      · rename_i hregisters
        exact h.commit hprogress hregisters
      · exact h
    · exact h
  | finish t =>
    rw [BlobProtocol.step]
    split
    · exact h.conclude t
    · exact h
  | abort t => exact h.conclude t
  | transact event =>
    rw [BlobProtocol.step]
    split
    · rename_i hregisters
      exact h.write (hregisters ▸ nofun) (hregisters ▸ nofun)
    · exact h

/-- In every interleaving in which each eraser that finds its digest referenced finds its whole
reference, no committed row references a missing object. -/
theorem references_present (contracts : Contracts) (config : ImportConfig)
    (actions : List BlobAction)
    (hmeets : Run.Meets (BlobProtocol.step contracts config) ComparesWhole initial actions) :
    ∀ r ∈ (Run.run (BlobProtocol.step contracts config) initial actions).db.blobRefs,
      (Run.run (BlobProtocol.step contracts config) initial actions).blobs.Present r.digest :=
  have hprotected : Protected (Run.run (BlobProtocol.step contracts config) initial actions) :=
    Run.run_invariant (fun _ _ h hcompares => h.step hcompares) .initial hmeets
  hprotected.present

def publication (t : TransactionId) (runId : Uuid) (accountRef digest mediaType : String) :
    List BlobAction :=
  [.transact (.createRun 1 accountRef .consumerExport mediaType),
    .transact (.recordHash runId digest 1), .store digest 1,
    .register t none [⟨⟨digest, 1, mediaType⟩, ⟨digest, 1⟩⟩], .lockDigest t, .lockDigest t,
    .prove t false,
    .commit t (.publish 1
      { runId, accountExternalRef := accountRef, mode := .consumerExport
        blobRef := ⟨digest, 1, mediaType⟩, sha256Hex := digest, byteLength := 1
        platformOperation := none })]

/-- Two accounts publish the same bytes, the second under a media type of its own; then the first
deletes its archive and its blob is erased. -/
def sameBytes (mediaType : String) : List BlobAction :=
  publication 0 0 "first" "bytes" "application/zip" ++ publication 1 4 "second" "bytes" mediaType ++
    [.transact (.delete 2 ⟨"evidence", 1, "application/json"⟩ 1 99 (.archive 3)),
      .eraseListed 2 1 ⟨"bytes", 1, "application/zip"⟩, .lockTenant 2, .lockDigest 2, .recheck 2,
      .erase 2, .finish 2]

set_option maxRecDepth 100000 in
/-- The second account's row is left without its object: the eraser compares media types too, the
store does not know them. -/
theorem references_missing :
    (Run.run (BlobProtocol.step .permissive ⟨[], 100⟩) initial
        (sameBytes "application/octet-stream")).db.blobRefs =
      [⟨"bytes", 1, "application/octet-stream"⟩] ∧
    ¬(Run.run (BlobProtocol.step .permissive ⟨[], 100⟩) initial
        (sameBytes "application/octet-stream")).blobs.Present "bytes" := by
  decide +kernel

set_option maxRecDepth 100000 in
/-- Under one media type the object is kept. -/
theorem references_present_same_media_type :
    (Run.run (BlobProtocol.step .permissive ⟨[], 100⟩) initial
      (sameBytes "application/zip")).blobs.Present "bytes" :=
  references_present .permissive ⟨[], 100⟩ (sameBytes "application/zip") (by decide +kernel)
    ⟨"bytes", 1, "application/zip"⟩ (by decide +kernel)

end BlobProtocol

end ChatgptArchive
