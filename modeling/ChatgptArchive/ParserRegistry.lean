import ChatgptArchive.Archive.Inspect
import ChatgptArchive.Schema

/-!
# The parser registry

Parsers declare the acquisition modes and the inventory signals they need. Ordinary intake selects
a parser only when exactly one declaration is compatible; operator workflows look a parser up by
its exact identity and list the compatible ones in version order.
-/

namespace ChatgptArchive

variable {ε : Type}

structure ParserRegistration where
  id : ParserId
  modes : List AcquisitionMode
  requiredSignals : Finset String
  deriving DecidableEq

structure RegisteredParser (ε : Type) where
  declaration : ParserRegistration
  executor : Option ε

structure ParserRegistry (ε : Type) where
  registrations : List (RegisteredParser ε)

inductive RegistryError where
  | duplicateIdentity
  deriving DecidableEq, Repr

inductive ParserSelection where
  | selected (id : ParserId)
  | unsupported
  | ambiguous (ids : List ParserId)
  deriving DecidableEq, Repr

def compatible (registration : ParserRegistration) (inventory : ArchiveInventory)
    (mode : AcquisitionMode) : Bool :=
  registration.modes.contains mode && registration.requiredSignals ⊆ inventory.signals

/-! ## Version order -/

inductive VersionPart where
  | number (value : Nat)
  | text (part : List Char)
  deriving DecidableEq, Repr

def versionPart (part : List Char) : VersionPart :=
  match parseU64 part with
  | some value => .number value
  | none => .text part

def isVersionSeparator (c : Char) : Bool := c = '.' || c = '-' || c = '_'

def versionParts (version : String) : List VersionPart :=
  (version.toList.splitOnP isVersionSeparator).map versionPart

def VersionPart.compare : VersionPart → VersionPart → Ordering
  | .number a, .number b => Ord.compare a b
  | .number _, .text _ => .lt
  | .text _, .number _ => .gt
  | .text a, .text b => Ord.compare (String.ofList a) (String.ofList b)

def compareParts : List VersionPart → List VersionPart → Ordering
  | [], [] => .eq
  | [], _ :: _ => .lt
  | _ :: _, [] => .gt
  | a :: as, b :: bs => (a.compare b).then (compareParts as bs)

def compareVersions (left right : String) : Ordering :=
  compareParts (versionParts left) (versionParts right)

def ParserId.compare (left right : ParserId) : Ordering :=
  (Ord.compare left.name right.name).then (compareVersions left.version right.version)

def ParserId.notAfter (left right : ParserId) : Prop := left.compare right ≠ .gt

instance : DecidableRel ParserId.notAfter := fun _ _ => inferInstanceAs (Decidable (_ ≠ _))

/-! ## The registry -/

namespace ParserRegistry

variable {ε : Type}

def empty : ParserRegistry ε := ⟨[]⟩

def registerParser (registry : ParserRegistry ε) (parser : RegisteredParser ε) :
    Except RegistryError (ParserRegistry ε) :=
  if registry.registrations.any fun item => item.declaration.id = parser.declaration.id then
    .error .duplicateIdentity
  else .ok ⟨registry.registrations ++ [parser]⟩

def register (registry : ParserRegistry ε) (registration : ParserRegistration) :
    Except RegistryError (ParserRegistry ε) :=
  registry.registerParser ⟨registration, none⟩

def registerCompiled (registry : ParserRegistry ε) (registration : ParserRegistration)
    (executor : ε) : Except RegistryError (ParserRegistry ε) :=
  registry.registerParser ⟨registration, some executor⟩

def compatibleVersions (registry : ParserRegistry ε) (inventory : ArchiveInventory)
    (mode : AcquisitionMode) : List ParserId :=
  -- every compatible identity in declared-version order. The sort is stable
  ((registry.registrations.filter fun item => compatible item.declaration inventory mode).map
    fun item => item.declaration.id).insertionSort ParserId.notAfter

def findExact (registry : ParserRegistry ε) (id : ParserId) (inventory : ArchiveInventory)
    (mode : AcquisitionMode) : Option ε :=
  registry.registrations.findSome? fun item =>
    if item.declaration.id = id && compatible item.declaration inventory mode then item.executor
    else none

def select (registry : ParserRegistry ε) (inventory : ArchiveInventory) (mode : AcquisitionMode) :
    ParserSelection :=
  match registry.compatibleVersions inventory mode with
  | [] => .unsupported
  | [id] => .selected id
  | ids => .ambiguous ids

end ParserRegistry

/-! ## The runtime registry -/

def syntheticRegistration : ParserRegistration where
  id := ⟨"synthetic-conversations", "0.1.0"⟩
  modes := [.consumerExport]
  requiredSignals := {"conversations.json"}

def ParserRegistry.runtime {ε : Type} (synthetic : ε) :
    Except RegistryError (ParserRegistry ε) :=
  ParserRegistry.empty.registerCompiled syntheticRegistration synthetic

theorem ParserRegistry.runtime_eq (synthetic : ε) :
    ParserRegistry.runtime synthetic = .ok ⟨[⟨syntheticRegistration, some synthetic⟩]⟩ := rfl

theorem select_runtime_iff {synthetic : ε} {registry : ParserRegistry ε}
    (hregistry : ParserRegistry.runtime synthetic = .ok registry) {inventory : ArchiveInventory}
    {mode : AcquisitionMode} :
    registry.select inventory mode = .selected syntheticRegistration.id ↔
      mode = .consumerExport ∧ "conversations.json" ∈ inventory.signals := by
  rw [ParserRegistry.runtime_eq] at hregistry
  obtain rfl := Except.ok.inj hregistry
  have hcompatible : compatible syntheticRegistration inventory mode = true ↔
      mode = .consumerExport ∧ "conversations.json" ∈ inventory.signals := by
    simp [compatible, syntheticRegistration]
  rw [← hcompatible, ParserRegistry.select, ParserRegistry.compatibleVersions]
  -- one declaration: it is selected when it is compatible, and nothing is otherwise
  cases hc : compatible syntheticRegistration inventory mode with
  | true => simp [hc]
  | false => simp [hc]

end ChatgptArchive
