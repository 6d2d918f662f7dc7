import ChatgptArchive.Archive.Extract
import ChatgptArchive.ParserRegistry
import ChatgptArchive.Reparse

/-!
# Reading an archive for its parser

`read_artifacts` reads every file of an inspected archive to its end and compares the length with
the declared one only then. The parser finds its documents among what was read.
-/

namespace ChatgptArchive

open List

structure ParserArtifactEvidence where
  path : String
  bytes : List UInt8
  quarantined : Bool
  deriving DecidableEq, Repr

structure ArtifactsRead where
  taken : List Nat
  result : Except ReparseError (List ParserArtifactEvidence)

def readFrom (archive : List ZipEntry) : List ArchiveEntry → Nat → ArtifactsRead
  | [], _ => ⟨[], .ok []⟩
  | entry :: entries, index =>
    if entry.kind = .directory then readFrom archive entries (index + 1)
    else match archive[index]? with
      | none => ⟨[], .error .conflict⟩
      | some zipped =>
        let bytes := zipped.stream.bytes
        if zipped.stream.corrupt || bytes.length ≠ entry.decompressedBytes then
          ⟨[bytes.length], .error .conflict⟩
        else
          let rest := readFrom archive entries (index + 1)
          ⟨bytes.length :: rest.taken,
            rest.result.map fun artifacts =>
              ⟨entry.path, bytes, entry.kind.quarantined⟩ :: artifacts⟩

def readArtifacts (archive : List ZipEntry) (inventory : ArchiveInventory) : ArtifactsRead :=
  readFrom archive inventory.entries 0

/-! ## The files of an inventory -/

def fileStreams (entries : List ArchiveEntry) (archive : List ZipEntry) :
    List (ArchiveEntry × EntryStream) :=
  ((entries.zip archive).filter fun file => file.1.kind ≠ .directory).map fun file =>
    (file.1, file.2.stream)

def Agrees (file : ArchiveEntry × EntryStream) : Prop :=
  file.2.corrupt = false ∧ file.2.bytes.length = file.1.decompressedBytes

instance : DecidablePred Agrees := fun _ => inferInstanceAs (Decidable (_ ∧ _))

def readFiles : List (ArchiveEntry × EntryStream) → ArtifactsRead
  | [] => ⟨[], .ok []⟩
  | file :: files =>
    if Agrees file then
      ⟨file.2.bytes.length :: (readFiles files).taken,
        (readFiles files).result.map fun artifacts =>
          ⟨file.1.path, file.2.bytes, file.1.kind.quarantined⟩ :: artifacts⟩
    else ⟨[file.2.bytes.length], .error .conflict⟩

/-- The reader pairs the entries with the readers of their files. -/
theorem readFrom_eq {archive : List ZipEntry} {entries : List ArchiveEntry} {index : Nat}
    (hlength : (archive.drop index).length = entries.length) :
    readFrom archive entries index = readFiles (fileStreams entries (archive.drop index)) := by
  induction entries generalizing index with
  | nil => simp [readFrom, fileStreams, readFiles]
  | cons entry entries ih =>
    cases hdrop : archive.drop index with
    | nil => simp [hdrop] at hlength
    | cons zipped rest =>
      have hzipped : archive[index]? = some zipped := by
        rw [← Nat.add_zero index, ← getElem?_drop, hdrop]
        rfl
      have hrest : archive.drop (index + 1) = rest := by
        rw [← drop_drop, hdrop]
        rfl
      have hnext := @ih (index + 1) (by simpa [hrest, hdrop] using hlength)
      rw [hrest] at hnext
      rw [readFrom, fileStreams, zip_cons_cons]
      by_cases hdirectory : entry.kind = .directory
      · rw [if_pos hdirectory, hnext, filter_cons_of_neg (by simp [hdirectory])]
        rfl
      · rw [if_neg hdirectory, filter_cons_of_pos (by simp [hdirectory]), hzipped]
        dsimp only
        rw [map_cons, readFiles, hnext]
        by_cases hagrees : Agrees (entry, zipped.stream)
        · have hcorrupt : zipped.stream.corrupt = false := hagrees.1
          have hends : zipped.stream.bytes.length = entry.decompressedBytes := hagrees.2
          rw [if_pos hagrees, if_neg (by simp [hcorrupt, hends])]
          rfl
        · rw [if_neg hagrees, if_pos ?_]
          simpa [Agrees, or_iff_not_imp_left] using hagrees

/-! ## How much is taken -/

section Library

variable {cp437 : UInt8 → Char} {limits : ArchiveLimits} {archive : List ZipEntry}
  {inventory : ArchiveInventory}

theorem mem_fileStreams {entries : List ArchiveEntry} {file : ArchiveEntry × EntryStream}
    (h : file ∈ fileStreams entries archive) :
    file.1 ∈ entries ∧ file.1.kind ≠ .directory := by
  obtain ⟨pair, hpair, rfl⟩ := mem_map.mp h
  obtain ⟨hzip, hkind⟩ := mem_filter.mp hpair
  exact ⟨(of_mem_zip hzip).1, of_decide_eq_true hkind⟩

theorem readArtifacts_eq (h : SoundInventory cp437 limits archive inventory) :
    readArtifacts archive inventory = readFiles (fileStreams inventory.entries archive) :=
  readFrom_eq (by simpa using h.presented.length_eq)

/-! ## The library's readers -/

abbrev EntryReader := Nat → List UInt8 → EntryStream

def opened (reader : EntryReader) (packed : List (ZipEntry × List UInt8)) : List ZipEntry :=
  packed.map fun entry => { entry.1 with stream := reader entry.1.size entry.2 }

end Library

end ChatgptArchive
