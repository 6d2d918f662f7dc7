import ChatgptArchive.BlobProtocol

/-!
# The local blob backend

Objects are files found by the hex digest they were published under. Publishing is create-new, so an
object that is there already stays, whatever it holds; verifying reads the object again and compares
its length and its hash with the reference.
-/

namespace ChatgptArchive

structure OwnedRef where
  ownerService : String
  blob : BlobRef
  deriving DecidableEq, Repr

def blobOwner : String := "ratatoskr-chatgpt"

inductive BlobStoreError where
  | unavailable | invalidMediaType | stream | missing
  deriving DecidableEq, Repr

inductive StoredObject where
  | file (bytes : List UInt8)
  | other
  deriving DecidableEq, Repr

structure LocalFsBackend where
  objects : String → Option StoredObject

namespace LocalFsBackend

variable {d : String}

def publish (backend : LocalFsBackend) (digest : String) (bytes : List UInt8) : LocalFsBackend :=
  -- the hard link of a received part: an existing object is never rewritten
  ⟨fun d => if d = digest then some ((backend.objects d).getD (.file bytes))
    else backend.objects d⟩

section Digest

variable (sha256 : List UInt8 → String)

def receive (backend : LocalFsBackend) (mediaType : String) (bytes : List UInt8) :
    OwnedRef × LocalFsBackend :=
  (⟨blobOwner, ⟨sha256 bytes, bytes.length, mediaType⟩⟩, backend.publish (sha256 bytes) bytes)

def readVerified (backend : LocalFsBackend) (reference : BlobRef) : Except BlobStoreError Unit :=
  match backend.objects reference.digest with
  | some (.file bytes) =>
    if bytes.length ≠ reference.lengthBytes then .error .missing
    else if sha256 bytes ≠ reference.digest then .error .missing
    else .ok ()
  | _ => .error .missing

def verify (backend : LocalFsBackend) (reference : OwnedRef) : Except BlobStoreError Unit :=
  if reference.ownerService ≠ blobOwner then .error .missing
  else backend.readVerified sha256 reference.blob

end Digest

/-! ## What publishing leaves -/

theorem publish_objects_self (backend : LocalFsBackend) (digest : String) (bytes : List UInt8) :
    (backend.publish digest bytes).objects digest =
      some ((backend.objects digest).getD (.file bytes)) := if_pos rfl

theorem publish_objects_of_ne {digest : String} (h : d ≠ digest) (backend : LocalFsBackend)
    (bytes : List UInt8) : (backend.publish digest bytes).objects d = backend.objects d := if_neg h

theorem publish_keeps {backend : LocalFsBackend} {object : StoredObject}
    (h : backend.objects d = some object) (digest : String) (bytes : List UInt8) :
    (backend.publish digest bytes).objects d = some object := by
  by_cases hd : d = digest
  · subst hd
    rw [publish_objects_self, h]
    rfl
  · rw [publish_objects_of_ne hd, h]

variable {sha256 : List UInt8 → String} {backend : LocalFsBackend}

theorem readVerified_eq_ok {reference : BlobRef} :
    backend.readVerified sha256 reference = .ok () ↔
      ∃ bytes, backend.objects reference.digest = some (.file bytes) ∧
        bytes.length = reference.lengthBytes ∧ sha256 bytes = reference.digest := by
  unfold readVerified
  split
  · rename_i bytes hobject
    by_cases hlength : bytes.length = reference.lengthBytes
    · by_cases hdigest : sha256 bytes = reference.digest <;> simp [hobject, hlength, hdigest]
    · simp [hobject, hlength]
  · rename_i hobject
    constructor
    · intro h
      cases h
    · rintro ⟨bytes, hbytes, -⟩
      exact absurd hbytes (hobject bytes)

theorem verify_eq_ok {reference : OwnedRef} :
    backend.verify sha256 reference = .ok () ↔
      reference.ownerService = blobOwner ∧
        backend.readVerified sha256 reference.blob = .ok () := by
  unfold verify
  by_cases howner : reference.ownerService = blobOwner
  · simp [howner]
  · simp [howner]

end LocalFsBackend

/-! ## Registering references -/

inductive RegistrationError where
  | database | unavailable
  deriving DecidableEq, Repr

structure HeldRegistration where
  reference : OwnedRef
  held : List UInt8
  deriving DecidableEq, Repr

namespace LocalFsBackend

variable (sha256 : List UInt8 → String) {registration : HeldRegistration}
  {registrations : List HeldRegistration} {i : Nat}

def restore (backend : LocalFsBackend) (registration : HeldRegistration) :
    LocalFsBackend × Except RegistrationError Unit :=
  let (stored, backend) := backend.receive sha256 registration.reference.blob.mediaType
    registration.held
  if stored.blob.digest = registration.reference.blob.digest ∧
      stored.blob.lengthBytes = registration.reference.blob.lengthBytes then
    (backend, .ok ())
  else (backend, .error .unavailable)

def registerFrom (fault : Nat → Bool) : LocalFsBackend → List HeldRegistration → Nat →
    LocalFsBackend × Except RegistrationError Unit
  -- proves each object present or restores it, under the locks of their digests. `fault i` is a
  -- verification of the registration at `i` that fails for another reason than the object
  | backend, [], _ => (backend, .ok ())
  | backend, registration :: registrations, i =>
    if !fault i && (backend.verify sha256 registration.reference).isOk then
      registerFrom fault backend registrations (i + 1)
    else match backend.restore sha256 registration with
      | (backend, .ok ()) => registerFrom fault backend registrations (i + 1)
      | (backend, .error e) => (backend, .error e)

def registerBlobs (fault : Nat → Bool) (backend : LocalFsBackend)
    (registrations : List HeldRegistration) : LocalFsBackend × Except RegistrationError Unit :=
  registerFrom sha256 fault backend registrations 0

variable {sha256} {fault : Nat → Bool} {backend backend' : LocalFsBackend}

theorem restore_eq_ok (h : backend.restore sha256 registration = (backend', .ok ())) :
    backend' = backend.publish (sha256 registration.held) registration.held ∧
      registration.held.length = registration.reference.blob.lengthBytes := by
  unfold restore at h
  dsimp only at h
  split at h
  · rename_i hsame
    obtain ⟨rfl, -⟩ := Prod.mk.inj h
    exact ⟨rfl, hsame.2⟩
  · obtain ⟨-, h⟩ := Prod.mk.inj h
    cases h

theorem registerFrom_cons_ok
    (h : registerFrom sha256 fault backend (registration :: registrations) i = (backend', .ok ())) :
    ∃ next, registerFrom sha256 fault next registrations (i + 1) = (backend', .ok ()) ∧
      ((next = backend ∧ backend.verify sha256 registration.reference = .ok ()) ∨
        (next = backend.publish (sha256 registration.held) registration.held ∧
          registration.held.length = registration.reference.blob.lengthBytes)) := by
  rw [registerFrom] at h
  split at h
  · rename_i hverified
    refine ⟨backend, h, .inl ⟨rfl, ?_⟩⟩
    rw [Bool.and_eq_true] at hverified
    cases hverify : backend.verify sha256 registration.reference with
    | ok => rfl
    | error e =>
      rw [hverify] at hverified
      cases hverified.2
  · split at h
    · rename_i next hrestore
      exact ⟨next, h, .inr (restore_eq_ok hrestore)⟩
    · obtain ⟨-, h⟩ := Prod.mk.inj h
      cases h

theorem registerFrom_keeps {d : String} {object : StoredObject}
    (hobject : backend.objects d = some object)
    (h : registerFrom sha256 fault backend registrations i = (backend', .ok ())) :
    backend'.objects d = some object := by
  induction registrations generalizing backend i with
  | nil =>
    obtain ⟨rfl, -⟩ := Prod.mk.inj h
    exact hobject
  | cons registration registrations ih =>
    obtain ⟨next, hnext, ⟨rfl, -⟩ | ⟨rfl, -⟩⟩ := registerFrom_cons_ok h
    · exact ih hobject hnext
    · exact ih (publish_keeps hobject _ _) hnext

/-- A registered digest that named nothing, or the held bytes, names the held bytes at the end. -/
theorem registerFrom_proves (hsha : Function.Injective sha256)
    {registrations : List HeldRegistration} {i : Nat}
    (hheld : ∀ r ∈ registrations, sha256 r.held = r.reference.blob.digest)
    (h : registerFrom sha256 fault backend registrations i = (backend', .ok ()))
    {r : HeldRegistration} (hr : r ∈ registrations)
    (hobject : backend.objects r.reference.blob.digest = none ∨
      backend.objects r.reference.blob.digest = some (.file r.held)) :
    backend'.objects r.reference.blob.digest = some (.file r.held) ∧
      r.held.length = r.reference.blob.lengthBytes := by
  induction registrations generalizing backend i with
  | nil => cases hr
  | cons registration registrations ih =>
    obtain ⟨next, hnext, hstep⟩ := registerFrom_cons_ok h
    have hrest := fun r hr => hheld r (List.mem_cons_of_mem _ hr)
    have hdigest := hheld r hr
    obtain rfl | hr := List.mem_cons.mp hr
    · obtain ⟨rfl, hverify⟩ | ⟨rfl, hlength⟩ := hstep
      · -- what verified under the digest hashes to it, so it is the held bytes
        obtain ⟨bytes, hbytes, hlength, hhash⟩ :=
          readVerified_eq_ok.mp (verify_eq_ok.mp hverify).2
        obtain rfl := hsha (hhash.trans hdigest.symm)
        exact ⟨registerFrom_keeps hbytes hnext, hlength⟩
      · refine ⟨registerFrom_keeps ?_ hnext, hlength⟩
        rw [← hdigest] at hobject ⊢
        rw [publish_objects_self]
        obtain hnone | hsome := hobject
        · rw [hnone]
          rfl
        · rw [hsome]
          rfl
    · refine ih hrest hnext hr ?_
      obtain ⟨rfl, -⟩ | ⟨rfl, -⟩ := hstep
      · exact hobject
      · by_cases hsame : r.reference.blob.digest = sha256 registration.held
        · -- another registration of the digest holds the same bytes
          obtain hbytes : r.held = registration.held := hsha (hdigest.trans hsame)
          rw [hsame, publish_objects_self, ← hsame, ← hbytes]
          obtain hnone | hsome := hobject
          · rw [hnone]
            exact .inr rfl
          · rw [hsome]
            exact .inr rfl
        · rw [publish_objects_of_ne hsame]
          exact hobject

/-- Registration proves the bytes exactly when the service owns every reference and nothing but the
held bytes stands under a registered digest: an object that does not verify is neither replaced nor
reported. -/
theorem registerBlobs_verifies_iff (hsha : Function.Injective sha256)
    {registrations : List HeldRegistration}
    (hheld : ∀ r ∈ registrations, sha256 r.held = r.reference.blob.digest)
    (h : registerBlobs sha256 fault backend registrations = (backend', .ok ())) :
    (∀ r ∈ registrations, backend'.verify sha256 r.reference = .ok ()) ↔
      ∀ r ∈ registrations, r.reference.ownerService = blobOwner ∧
        ∀ object, backend.objects r.reference.blob.digest = some object →
          object = .file r.held := by
  constructor
  · intro hverified r hr
    obtain ⟨howner, hread⟩ := verify_eq_ok.mp (hverified r hr)
    refine ⟨howner, fun object hobject => ?_⟩
    obtain ⟨bytes, hbytes, -, hhash⟩ := readVerified_eq_ok.mp hread
    obtain rfl := hsha (hhash.trans (hheld r hr).symm)
    exact Option.some.inj ((registerFrom_keeps hobject h).symm.trans hbytes)
  · intro hall r hr
    obtain ⟨howner, hobject⟩ := hall r hr
    have hbefore : backend.objects r.reference.blob.digest = none ∨
        backend.objects r.reference.blob.digest = some (.file r.held) := by
      cases hat : backend.objects r.reference.blob.digest with
      | none => exact .inl rfl
      | some object => exact .inr (congrArg some (hobject object hat))
    obtain ⟨hafter, hlength⟩ := registerFrom_proves hsha hheld h hr hbefore
    exact verify_eq_ok.mpr ⟨howner, readVerified_eq_ok.mpr ⟨r.held, hafter, hlength, hheld r hr⟩⟩

/-! ## The store of the lock protocol

As long as every object holds the bytes it was published with, its length is all there is to know
of it, and the backend is the store that the lock protocol works with. -/

/-- Every object is a file with the bytes of its digest. -/
def Honest (sha256 : List UInt8 → String) (backend : LocalFsBackend) : Prop :=
  ∀ d object, backend.objects d = some object → ∃ bytes, object = .file bytes ∧ sha256 bytes = d

def StoredObject.length : StoredObject → Option Nat
  | .file bytes => some bytes.length
  | .other => none

def lengths (backend : LocalFsBackend) : BlobStore :=
  ⟨fun d => (backend.objects d).bind StoredObject.length⟩

theorem Honest.publish (h : Honest sha256 backend) (bytes : List UInt8) :
    Honest sha256 (backend.publish (sha256 bytes) bytes) ∧
      (backend.publish (sha256 bytes) bytes).lengths =
        backend.lengths.store (sha256 bytes) bytes.length := by
  have hself : ∃ kept, (backend.publish (sha256 bytes) bytes).objects (sha256 bytes) =
      some (.file kept) ∧ sha256 kept = sha256 bytes ∧
        kept.length = (backend.lengths.objects (sha256 bytes)).getD bytes.length := by
    rw [publish_objects_self]
    cases hbefore : backend.objects (sha256 bytes) with
    | none => exact ⟨bytes, rfl, rfl, by simp [lengths, hbefore]⟩
    | some object =>
      obtain ⟨kept, rfl, hdigest⟩ := h _ object hbefore
      exact ⟨kept, rfl, hdigest, by simp [lengths, hbefore, StoredObject.length]⟩
  obtain ⟨kept, hkept, hdigest, hlength⟩ := hself
  constructor
  · intro d object hobject
    by_cases hd : d = sha256 bytes
    · rw [hd, hkept] at hobject
      exact ⟨kept, (Option.some.inj hobject).symm, hdigest.trans hd.symm⟩
    · rw [publish_objects_of_ne hd] at hobject
      exact h d object hobject
  · refine congrArg BlobStore.mk (funext fun d => ?_)
    by_cases hd : d = sha256 bytes
    · rw [if_pos hd, hd, hkept, ← hlength]
      rfl
    · rw [if_neg hd, publish_objects_of_ne hd]
      rfl

theorem Honest.readVerified (h : Honest sha256 backend) (reference : BlobRef) :
    (backend.readVerified sha256 reference).isOk = backend.lengths.verify reference := by
  have hiff : backend.readVerified sha256 reference = .ok () ↔
      backend.lengths.verify reference = true := by
    rw [readVerified_eq_ok, BlobStore.verify, decide_eq_true_eq, lengths]
    dsimp only
    cases hobject : backend.objects reference.digest with
    | none => simp
    | some object =>
      obtain ⟨bytes, rfl, hdigest⟩ := h _ object hobject
      simp [StoredObject.length, hdigest]
  rw [Bool.eq_iff_iff, ← hiff]
  cases backend.readVerified sha256 reference <;> simp [Except.isOk, Except.toBool]

end LocalFsBackend

namespace BlobStore

/-- What the lock protocol does to its store for one registration, and whether the registrar goes
on. -/
def prove (blobs : BlobStore) (fault : Bool) (registration : Registration) : BlobStore × Bool :=
  if !fault && blobs.verify registration.reference then (blobs, true)
  else (blobs.store registration.held.digest registration.held.lengthBytes,
    registration.held.digest = registration.reference.digest &&
      registration.held.lengthBytes = registration.reference.lengthBytes)

def proveAll (fault : Nat → Bool) : BlobStore → List Registration → Nat → BlobStore × Bool
  | blobs, [], _ => (blobs, true)
  | blobs, registration :: registrations, i =>
    let proved := blobs.prove (fault i) registration
    if proved.2 then proveAll fault proved.1 registrations (i + 1) else (proved.1, false)

theorem proveNext_eq (s : BlobProtocol) (t : TransactionId) (fault : Bool)
    (registrations : List Registration) (registration : Registration)
    (unproved : List Registration) :
    s.proveNext t fault registrations registration unproved =
      let proved := s.blobs.prove fault registration
      if proved.2 then { s with blobs := proved.1 }.advance t (.proving registrations unproved)
      else { s with blobs := proved.1 }.conclude t := by
  unfold BlobProtocol.proveNext prove
  split
  · rfl
  · simp only [Bool.and_eq_true, decide_eq_true_eq]

end BlobStore

def HeldRegistration.abstracted (sha256 : List UInt8 → String) (registration : HeldRegistration) :
    Registration :=
  ⟨registration.reference.blob, ⟨sha256 registration.held, registration.held.length⟩⟩

namespace LocalFsBackend

variable {sha256 : List UInt8 → String} {fault : Nat → Bool} {backend : LocalFsBackend}

/-- The backend is honest, its lengths are the store's, and both answer alike. -/
def Refines (sha256 : List UInt8 → String)
    (registered : LocalFsBackend × Except RegistrationError Unit) (proved : BlobStore × Bool) :
    Prop :=
  Honest sha256 registered.1 ∧ registered.1.lengths = proved.1 ∧ registered.2.isOk = proved.2

/-- Registering references of the service with an honest backend does to the lengths of the objects
what the lock protocol does to its store, and succeeds when that does. -/
theorem Honest.registerFrom {registrations : List HeldRegistration}
    (howned : ∀ r ∈ registrations, r.reference.ownerService = blobOwner)
    (h : Honest sha256 backend) (i : Nat) :
    Refines sha256 (LocalFsBackend.registerFrom sha256 fault backend registrations i)
      (backend.lengths.proveAll fault (registrations.map (·.abstracted sha256)) i) := by
  induction registrations generalizing backend i with
  | nil => exact ⟨h, rfl, rfl⟩
  | cons registration registrations ih =>
    obtain ⟨howner, howned⟩ := List.forall_mem_cons.mp howned
    have hverify : (backend.verify sha256 registration.reference).isOk =
        backend.lengths.verify registration.reference.blob := by
      rw [verify, if_neg (not_not.mpr howner), h.readVerified]
    rw [LocalFsBackend.registerFrom, hverify, List.map_cons, BlobStore.proveAll]
    by_cases hverified : (!fault i && backend.lengths.verify registration.reference.blob) = true
    · have hproved : backend.lengths.prove (fault i) (registration.abstracted sha256) =
          (backend.lengths, true) := if_pos hverified
      rw [if_pos hverified, hproved]
      exact ih howned h (i + 1)
    · obtain ⟨hhonest, hlengths⟩ := h.publish registration.held
      have hproved : backend.lengths.prove (fault i) (registration.abstracted sha256) =
          ((backend.publish (sha256 registration.held) registration.held).lengths,
            sha256 registration.held = registration.reference.blob.digest &&
              registration.held.length = registration.reference.blob.lengthBytes) := by
        rw [BlobStore.prove, hlengths]
        exact if_neg hverified
      rw [if_neg hverified, hproved, restore, receive]
      dsimp only
      -- the bytes that are held are stored again, whether or not they are the blob
      by_cases hheld : sha256 registration.held = registration.reference.blob.digest ∧
          registration.held.length = registration.reference.blob.lengthBytes
      · rw [if_pos hheld, if_pos (by simpa using hheld)]
        exact ih howned hhonest (i + 1)
      · rw [if_neg hheld, if_neg (by simpa using hheld)]
        exact ⟨hhonest, rfl, rfl⟩

/-! ## Two bytes under a digest that spells them -/

def spell (bytes : List UInt8) : String := String.ofList (bytes.map Char.ofUInt8)

theorem spell_injective : Function.Injective spell := by
  have hchar : Function.Injective Char.ofUInt8 := fun a b hab =>
    UInt8.toUInt32_inj.mp (congrArg Char.val hab)
  intro a b hab
  exact List.map_injective_iff.mpr hchar (String.ofList_injective hab)

def pairRegistration : HeldRegistration := ⟨⟨blobOwner, ⟨spell [1, 2], 2, "text/plain"⟩⟩, [1, 2]⟩

def emptyBackend : LocalFsBackend := ⟨fun _ => none⟩

theorem registerBlobs_verifies_iff_pair :
    (registerBlobs spell (fun _ => false) emptyBackend [pairRegistration]).1.verify spell
      pairRegistration.reference = .ok () := by
  have hok : registerBlobs spell (fun _ => false) emptyBackend [pairRegistration] =
      (emptyBackend.publish (spell [1, 2]) [1, 2], .ok ()) := rfl
  have hiff := registerBlobs_verifies_iff spell_injective (by decide) hok
  rw [hok]
  refine hiff.mpr (fun r hr => ?_) pairRegistration List.mem_cons_self
  obtain rfl := List.mem_singleton.mp hr
  exact ⟨rfl, fun object hobject => by cases hobject⟩

def truncatedBackend : LocalFsBackend :=
  ⟨fun d => if d = spell [1, 2] then some (.file [1]) else none⟩

/-- The registration of both bytes succeeds and leaves the truncated object. -/
theorem registerBlobs_truncated :
    (registerBlobs spell (fun _ => false) truncatedBackend [pairRegistration]).2 = .ok () ∧
      (registerBlobs spell (fun _ => false) truncatedBackend [pairRegistration]).1.verify spell
        pairRegistration.reference = .error .missing := by
  decide +kernel

end LocalFsBackend

end ChatgptArchive
