import ChatgptArchive.Archive.Read

/-!
# Running the registered parser

The parser looks its documents up by their exact paths among the files that were read from the
archive, and skips a quarantined one.
-/

namespace ChatgptArchive

open List

inductive ParserExecutionError where
  | failed | storage
  deriving DecidableEq, Repr

def evidence (artifacts : List ParserArtifactEvidence) (name : String) : Option (List UInt8) :=
  (artifacts.find? fun artifact => artifact.path = name && !artifact.quarantined).map (·.bytes)

structure ParserExecutionInput where
  inventory : ArchiveInventory
  artifacts : List ParserArtifactEvidence
  rawArchive : BlobRef

/-! ## What the parser finds -/

theorem readFiles_result {files : List (ArchiveEntry × EntryStream)}
    {artifacts : List ParserArtifactEvidence} (h : (readFiles files).result = .ok artifacts) :
    artifacts = files.map fun file =>
      ⟨file.1.path, file.2.bytes, file.1.kind.quarantined⟩ := by
  induction files generalizing artifacts with
  | nil =>
    cases h
    rfl
  | cons file files ih =>
    rw [readFiles] at h
    split at h
    · cases hrest : (readFiles files).result with
      | error e =>
        rw [hrest] at h
        cases h
      | ok rest =>
        rw [hrest] at h
        cases h
        rw [map_cons, ← ih hrest]
    · cases h

section Library

variable {cp437 : UInt8 → Char} {limits : ArchiveLimits} {archive : List ZipEntry}
  {inventory : ArchiveInventory} {artifacts : List ParserArtifactEvidence}

theorem readArtifacts_result (h : SoundInventory cp437 limits archive inventory)
    (hread : (readArtifacts archive inventory).result = .ok artifacts) :
    artifacts = (fileStreams inventory.entries archive).map fun file =>
      ⟨file.1.path, file.2.bytes, file.1.kind.quarantined⟩ :=
  readFiles_result (readArtifacts_eq h ▸ hread)

theorem exists_inspected {entries : List ArchiveEntry}
    (h : Forall₂ (Presents cp437) archive entries) {entry : ZipEntry} (hentry : entry ∈ archive) :
    ∃ inspected, (inspected, entry) ∈ entries.zip archive ∧ Presents cp437 entry inspected := by
  induction h with
  | nil => cases hentry
  | cons hfirst _ ih =>
    rw [zip_cons_cons]
    obtain rfl | hentry := mem_cons.mp hentry
    · exact ⟨_, mem_cons_self, hfirst⟩
    · obtain ⟨inspected, hmem, hpresents⟩ := ih hentry
      exact ⟨inspected, mem_cons_of_mem _ hmem, hpresents⟩

def HoldsTrusted (cp437 : UInt8 → Char) (archive : List ZipEntry) (name : String) : Prop :=
  ∃ entry ∈ archive, entry.isDir = false ∧ entryPath cp437 entry = .ok name ∧
    ∃ kind, classifyPrefix entry.stream = .ok kind ∧ kind.quarantined = false

theorem evidence_isSome {name : String} : (evidence artifacts name).isSome = true ↔
      ∃ artifact ∈ artifacts, artifact.path = name ∧ artifact.quarantined = false := by
  simp [evidence]

theorem evidence_isSome_iff (h : SoundInventory cp437 limits archive inventory)
    (hread : (readArtifacts archive inventory).result = .ok artifacts) (name : String) :
    (evidence artifacts name).isSome = true ↔ HoldsTrusted cp437 archive name := by
  rw [evidence_isSome, readArtifacts_result h hread]
  constructor
  · rintro ⟨artifact, hartifact, rfl, htrusted⟩
    obtain ⟨file, hfile, rfl⟩ := mem_map.mp hartifact
    obtain ⟨hmem, hkind⟩ := mem_fileStreams hfile
    obtain ⟨entry, hentry, hpresents⟩ := exists_presented h.presented hmem
    have hdir : entry.isDir = false :=
      Bool.eq_false_iff.mpr fun hdir => hkind (hpresents.directory.mpr hdir)
    exact ⟨entry, hentry, hdir, hpresents.path, file.1.kind, hpresents.kind hdir, htrusted⟩
  · rintro ⟨entry, hentry, hdir, hpath, kind, hkind, htrusted⟩
    obtain ⟨inspected, hzip, hpresents⟩ := exists_inspected h.presented hentry
    obtain rfl := Except.ok.inj (hpath.symm.trans hpresents.path)
    obtain rfl := Except.ok.inj (hkind.symm.trans (hpresents.kind hdir))
    have hfile : (inspected, entry.stream) ∈ fileStreams inventory.entries archive := by
      refine mem_map.mpr ⟨(inspected, entry), mem_filter.mpr ⟨hzip, ?_⟩, rfl⟩
      exact decide_eq_true (classifyPrefix_ne_directory hkind)
    exact ⟨_, mem_map_of_mem hfile, rfl, htrusted⟩

def SignalsName (cp437 : UInt8 → Char) (archive : List ZipEntry) (name : String) : Prop :=
  ∃ entry ∈ archive, entry.isDir = false ∧
    ∃ path, entryPath cp437 entry = .ok path ∧ baseName path = name

theorem mem_signals_iff (h : SoundInventory cp437 limits archive inventory) (name : String) :
    name ∈ inventory.signals ↔ SignalsName cp437 archive name := by
  rw [h.signals, fileSignals, mem_toFinset, mem_map]
  constructor
  · rintro ⟨inspected, hmem, rfl⟩
    obtain ⟨hmem, hkind⟩ := mem_filter.mp hmem
    obtain ⟨entry, hentry, hpresents⟩ := exists_presented h.presented hmem
    have hdir : entry.isDir = false :=
      Bool.eq_false_iff.mpr fun hdir => of_decide_eq_true hkind (hpresents.directory.mpr hdir)
    exact ⟨entry, hentry, hdir, inspected.path, hpresents.path, rfl⟩
  · rintro ⟨entry, hentry, hdir, path, hpath, rfl⟩
    obtain ⟨inspected, hzip, hpresents⟩ := exists_inspected h.presented hentry
    obtain rfl := Except.ok.inj (hpath.symm.trans hpresents.path)
    have hkind : inspected.kind ≠ .directory := fun hkind => by
      rw [hpresents.directory, hdir] at hkind
      cases hkind
    exact ⟨inspected, mem_filter.mpr ⟨(of_mem_zip hzip).1, decide_eq_true hkind⟩, rfl⟩

/-- A selected parser finds its input exactly when, among the files whose paths end in the name of
the document, one has that name as its whole path and does not begin like a page or like media. -/
theorem selected_finds_input_iff {ε : Type} {synthetic : ε} {registry : ParserRegistry ε}
    {mode : AcquisitionMode} (hregistry : ParserRegistry.runtime synthetic = .ok registry)
    (hinspect : inspectZip cp437 limits archive = .ok inventory)
    (hread : (readArtifacts archive inventory).result = .ok artifacts) :
    (registry.select inventory mode = .selected syntheticRegistration.id →
        (evidence artifacts "conversations.json").isSome = true) ↔
      (mode = .consumerExport → SignalsName cp437 archive "conversations.json" →
        HoldsTrusted cp437 archive "conversations.json") := by
  have hsound := soundInventory_of_inspectZip hinspect
  rw [select_runtime_iff hregistry, evidence_isSome_iff hsound hread, mem_signals_iff hsound,
    and_imp]

end Library

def plainArchive : List ZipEntry := [.file "conversations.json" 2 2 [0x5b, 0x5d]]

def plainInventory : ArchiveInventory where
  entries := [⟨"conversations.json", .json, 2, 2⟩]
  compressedBytes := 2
  decompressedBytes := 2
  signals := {"conversations.json"}

theorem selected_finds_input_iff_plain :
    (evidence [⟨"conversations.json", [0x5b, 0x5d], false⟩] "conversations.json").isSome = true := by
  have hinspect : inspectZip (fun _ => '?') ⟨1, 9, 9, 9, 9⟩ plainArchive = .ok plainInventory := by
    decide +kernel
  have hread : (readArtifacts plainArchive plainInventory).result =
      .ok [⟨"conversations.json", [0x5b, 0x5d], false⟩] := by decide +kernel
  have hselect : (⟨[⟨syntheticRegistration, some ()⟩]⟩ : ParserRegistry Unit).select plainInventory
      .consumerExport = .selected syntheticRegistration.id := by decide +kernel
  refine (selected_finds_input_iff (ParserRegistry.runtime_eq ()) hinspect hread).mpr ?_ hselect
  intro _ _
  exact ⟨_, List.mem_cons_self, rfl, by decide +kernel, .json, by decide +kernel, rfl⟩

def nestedArchive : List ZipEntry := [.file "export/conversations.json" 2 2 [0x5b, 0x5d]]

def nestedInventory : ArchiveInventory where
  entries := [⟨"export/conversations.json", .json, 2, 2⟩]
  compressedBytes := 2
  decompressedBytes := 2
  signals := {"conversations.json"}

/-- The parser is selected for the document in the directory and does not find it. -/
theorem selected_misses_nested :
    inspectZip (fun _ => '?') ⟨1, 9, 9, 9, 9⟩ nestedArchive = .ok nestedInventory ∧
      (⟨[⟨syntheticRegistration, some ()⟩]⟩ : ParserRegistry Unit).select nestedInventory
        .consumerExport = .selected syntheticRegistration.id ∧
      (readArtifacts nestedArchive nestedInventory).result =
        .ok [⟨"export/conversations.json", [0x5b, 0x5d], false⟩] ∧
      evidence [⟨"export/conversations.json", [0x5b, 0x5d], false⟩] "conversations.json" = none := by
  decide +kernel

end ChatgptArchive
