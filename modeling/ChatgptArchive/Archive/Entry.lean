import ChatgptArchive.Archive.Path
import ChatgptArchive.Utf8

/-!
# The entries of an archive

What the ZIP library gives for an archive: its entries in central-directory order, each with the
sizes it declares and a reader of its data, which may be longer or shorter than declared.
-/

namespace ChatgptArchive

open List

/-- The decompressed bytes of an entry and how a reader hands them out: `reads` lists what the calls
of `read` return before the end, where a `corrupt` entry reports an error. -/
structure EntryStream where
  bytes : List UInt8
  reads : Nat → List (List UInt8)
  corrupt : Bool
  flatten_reads : ∀ buffer, 0 < buffer → (reads buffer).flatten = bytes
  reads_bounded : ∀ buffer, 0 < buffer → ∀ chunk ∈ reads buffer,
    chunk ≠ [] ∧ chunk.length ≤ buffer

namespace EntryStream

def firstRead (stream : EntryStream) (buffer : Nat) : Except ArchiveIntakeError (List UInt8) :=
  match stream.reads buffer with
  | chunk :: _ => .ok chunk
  | [] => if stream.corrupt then .error .unsupportedFormat else .ok []

def ofBytes (bytes : List UInt8) (corrupt : Bool) : EntryStream where
  -- a reader that fills its buffer on the first call and returns one byte at a time after it
  bytes
  reads buffer :=
    if bytes = [] then [] else bytes.take buffer :: (bytes.drop buffer).map fun b => [b]
  corrupt
  flatten_reads buffer _ := by
    split
    · rename_i hempty
      exact hempty.symm
    · have hsingle : ((bytes.drop buffer).map fun b => [b]).flatten = bytes.drop buffer := by
        rw [← flatMap_def, flatMap_singleton']
      rw [flatten_cons, hsingle, take_append_drop]
  reads_bounded buffer hbuffer chunk hchunk := by
    split at hchunk
    · cases hchunk
    · rename_i hne
      obtain rfl | hchunk := mem_cons.mp hchunk
      · exact ⟨by simp [hne]; omega, length_take_le _ _⟩
      · obtain ⟨b, -, rfl⟩ := mem_map.mp hchunk
        exact ⟨cons_ne_nil _ _, hbuffer⟩

/-- A reader that stops at the declared size, with an error when there is more data. -/
def stoppedAt (size : Nat) (data : List UInt8) : EntryStream :=
  .ofBytes (data.take size) (size < data.length)

theorem firstRead_ofBytes (bytes : List UInt8) (buffer : Nat) :
    (ofBytes bytes false).firstRead buffer = .ok (bytes.take buffer) := by
  unfold firstRead ofBytes
  dsimp only
  by_cases hempty : bytes = []
  · rw [if_pos hempty, hempty, take_nil]
    rfl
  · rw [if_neg hempty]

end EntryStream

structure ZipEntry where
  nameRaw : List UInt8
  /-- Bit 11 of the flags: the name is UTF-8. -/
  utf8Flag : Bool
  name : Option String
  isDir : Bool
  unixMode : Option Nat
  compressedSize : Nat
  size : Nat
  stream : EntryStream

def decodedEntryName (cp437 : UInt8 → Char) (entry : ZipEntry) :
    Except ArchiveIntakeError String :=
  -- the name of an entry; `cp437` reads a byte of a name without the UTF-8 flag
  let named := match entry.name with
    | some name => .ok name
    | none => .error .unsupportedFormat
  if entry.utf8Flag then
    if Utf8.valid entry.nameRaw then named else .error .unsupportedFormat
  else if entry.nameRaw.all (· ≤ 0x7F) then named
  else .ok (String.ofList (entry.nameRaw.map cp437))

def rejectSpecialFile (entry : ZipEntry) : Except ArchiveIntakeError Unit :=
  -- regular files, directories and entries without a file type pass
  match entry.unixMode with
  | none => .ok ()
  | some mode =>
    let kind := mode &&& 0o170000
    if kind ≠ 0 && kind ≠ 0o100000 && kind ≠ 0o040000 then .error .specialFile else .ok ()

def entryPath (cp437 : UInt8 → Char) (entry : ZipEntry) : Except ArchiveIntakeError String := do
  let name ← decodedEntryName cp437 entry
  normalizePath name

def ZipEntry.file (name : String) (compressedSize size : Nat) (bytes : List UInt8) : ZipEntry :=
  { nameRaw := name.toList.map fun c => c.toNat.toUInt8, utf8Flag := false, name := some name
    isDir := false, unixMode := some 0o100644, compressedSize, size
    stream := .stoppedAt size bytes }

end ChatgptArchive
