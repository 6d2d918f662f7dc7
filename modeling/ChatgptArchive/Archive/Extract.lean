import ChatgptArchive.Archive.Inspect

/-!
# Extracting an archive

The archive is inspected again and must give the inventory that was inspected before. Every file
is then copied into the staging directory chunk by chunk; the bytes of the entry and of all entries
together are counted as they come, whatever the sizes declare.
-/

namespace ChatgptArchive

open List Outcome

structure StagedArtifact where
  entry : ArchiveEntry
  index : Nat
  bytes : List UInt8
  deriving DecidableEq, Repr

structure CopyTotals where
  entryTotal : Nat
  total : Nat
  written : List UInt8
  deriving DecidableEq, Repr

def copyBuffer : Nat := 64 * 1024

section Library

variable (cp437 : UInt8 → Char) (limits : ArchiveLimits)

def copyChunks : List (List UInt8) → CopyTotals → Except ArchiveIntakeError CopyTotals
  | [], totals => .ok totals
  | chunk :: chunks, totals => do
    let entryTotal ← checkedAdd totals.entryTotal chunk.length
    let total ← checkedAdd totals.total chunk.length
    if limits.maxEntryBytes < entryTotal || limits.maxDecompressedBytes < total then
      .error .limitExceeded
    else copyChunks chunks ⟨entryTotal, total, totals.written ++ chunk⟩

def extractEntry (total index : Nat) (observed : ArchiveEntry) (entry : ZipEntry) :
    Except ArchiveIntakeError (StagedArtifact × Nat) := do
  let path ← entryPath cp437 entry
  if path ≠ observed.path then .error .unsafePath
  else do
    let totals ← copyChunks limits (entry.stream.reads copyBuffer) ⟨0, total, []⟩
    if entry.stream.corrupt then .error .unsupportedFormat
    else if totals.entryTotal ≠ observed.decompressedBytes then .error .unsupportedFormat
    else return (⟨observed, index, totals.written⟩, totals.total)

def extractEntries (archive : List ZipEntry) :
    List ArchiveEntry → Nat → Nat → Except ArchiveIntakeError (List StagedArtifact)
  | [], _, _ => .ok []
  | observed :: expected, index, total =>
    if observed.kind = .directory then extractEntries archive expected (index + 1) total
    else match archive[index]? with
      | none => .error .unsupportedFormat
      | some entry => do
        let staged ← extractEntry cp437 limits total index observed entry
        let rest ← extractEntries archive expected (index + 1) staged.2
        return staged.1 :: rest

def extractZipToStaging (archive : List ZipEntry) (expected : ArchiveInventory) :
    Except ArchiveIntakeError (List StagedArtifact) := do
  let inspected ← inspectZip cp437 limits archive
  if inspected ≠ expected then .error .unsupportedFormat
  else extractEntries cp437 limits archive inspected.entries 0 0

end Library

section Library

variable {cp437 : UInt8 → Char} {limits : ArchiveLimits} {total index : Nat}

theorem copyChunks_eq_ok {chunks : List (List UInt8)} {totals totals' : CopyTotals}
    (hentry : totals.entryTotal ≤ limits.maxEntryBytes)
    (htotal : totals.total ≤ limits.maxDecompressedBytes)
    (h : copyChunks limits chunks totals = .ok totals') :
    totals'.entryTotal = totals.entryTotal + chunks.flatten.length ∧
      totals'.total = totals.total + chunks.flatten.length ∧
      totals'.written = totals.written ++ chunks.flatten ∧
      totals'.entryTotal ≤ limits.maxEntryBytes ∧ totals'.total ≤ limits.maxDecompressedBytes := by
  induction chunks generalizing totals with
  | nil =>
    cases h
    simp [hentry, htotal]
  | cons chunk chunks ih =>
    obtain ⟨entryTotal, hnextEntry, h⟩ := bind_eq_ok.mp h
    obtain ⟨total, hnextTotal, h⟩ := bind_eq_ok.mp h
    split at h
    · cases h
    · rename_i hlimits
      simp only [Bool.or_eq_true, decide_eq_true_eq, not_or, not_lt] at hlimits
      obtain ⟨he, ht, hw, hele, htle⟩ := ih hlimits.1 hlimits.2 h
      rw [checkedAdd_eq_ok hnextEntry] at he
      rw [checkedAdd_eq_ok hnextTotal] at ht
      refine ⟨?_, ?_, ?_, hele, htle⟩
      · rw [he, flatten_cons, length_append, Nat.add_assoc]
      · rw [ht, flatten_cons, length_append, Nat.add_assoc]
      · rw [hw, flatten_cons, append_assoc]

theorem extractEntry_eq_ok {observed : ArchiveEntry} {entry : ZipEntry}
    {staged : StagedArtifact × Nat} (htotal : total ≤ limits.maxDecompressedBytes)
    (h : extractEntry cp437 limits total index observed entry = .ok staged) :
    staged.1 = ⟨observed, index, entry.stream.bytes⟩ ∧
      staged.2 = total + entry.stream.bytes.length ∧
      entry.stream.bytes.length = observed.decompressedBytes ∧
      entry.stream.bytes.length ≤ limits.maxEntryBytes ∧
      staged.2 ≤ limits.maxDecompressedBytes := by
  obtain ⟨path, -, h⟩ := bind_eq_ok.mp h
  split at h
  · cases h
  · obtain ⟨totals, htotals, h⟩ := bind_eq_ok.mp h
    split at h
    · cases h
    · split at h
      · cases h
      · rename_i hlength
        cases h
        have hcopied := copyChunks_eq_ok (Nat.zero_le _) htotal htotals
        rw [entry.stream.flatten_reads copyBuffer (by decide)] at hcopied
        obtain ⟨he, ht, hw, hele, htle⟩ := hcopied
        rw [Nat.zero_add] at he
        rw [nil_append] at hw
        rw [ne_eq, not_not, he] at hlength
        exact ⟨by rw [hw], ht, hlength, he ▸ hele, htle⟩

/-- The staged copy of a file: the whole stream of the entry it stands for, as long as declared
and within the limit of an entry. -/
structure Staged (limits : ArchiveLimits) (archive : List ZipEntry) (entries : List ArchiveEntry)
    (staged : StagedArtifact) : Prop where
  entry : entries[staged.index]? = some staged.entry
  stream : ∃ entry, archive[staged.index]? = some entry ∧ staged.bytes = entry.stream.bytes
  length : staged.bytes.length = staged.entry.decompressedBytes
  within : staged.bytes.length ≤ limits.maxEntryBytes

/-- By induction on the entries left, with the bytes written so far as the total. -/
theorem extractEntries_eq_ok {archive : List ZipEntry} {entries expected : List ArchiveEntry}
    {staged : List StagedArtifact} (hexpected : entries.drop index = expected)
    (htotal : total ≤ limits.maxDecompressedBytes)
    (h : extractEntries cp437 limits archive expected index total = .ok staged) :
    staged.map (·.entry) = expected.filter (fun e => e.kind ≠ .directory) ∧
      (∀ s ∈ staged, Staged limits archive entries s) ∧
      total + (staged.map (·.bytes.length)).sum ≤ limits.maxDecompressedBytes := by
  induction expected generalizing index total staged with
  | nil =>
    cases h
    exact ⟨rfl, (fun _ hs => by cases hs), htotal⟩
  | cons observed expected ih =>
    have hobserved : entries[index]? = some observed := by
      rw [← Nat.add_zero index, ← getElem?_drop, hexpected]
      rfl
    have hrest : entries.drop (index + 1) = expected := by
      rw [← drop_drop, hexpected]
      rfl
    rw [extractEntries] at h
    split at h
    · rename_i hdirectory
      rw [filter_cons_of_neg (by simp [hdirectory])]
      exact ih hrest htotal h
    · rename_i hfile
      split at h
      · cases h
      · rename_i entry hentry
        obtain ⟨first, hfirst, h⟩ := bind_eq_ok.mp h
        obtain ⟨rest, hrun, h⟩ := bind_eq_ok.mp h
        cases h
        obtain ⟨hstaged, hnext, hlength, hwithin, hbound⟩ := extractEntry_eq_ok htotal hfirst
        obtain ⟨hentries, hrestStaged, hsum⟩ := ih hrest hbound hrun
        refine ⟨?_, ?_, ?_⟩
        · rw [map_cons, hentries, hstaged, filter_cons_of_pos (by simp [hfile])]
        · intro s hs
          obtain rfl | hs := mem_cons.mp hs
          · rw [hstaged]
            exact ⟨hobserved, ⟨entry, hentry, rfl⟩, hlength, hwithin⟩
          · exact hrestStaged s hs
        · rw [map_cons, sum_cons, hstaged, ← Nat.add_assoc]
          exact hnext ▸ hsum

/-- An archive that inspection accepts is safe to extract, and what extraction stages of it is its
files, whole and within the limits. -/
theorem inspectZip_sound {archive : List ZipEntry} {inventory : ArchiveInventory}
    (h : inspectZip cp437 limits archive = .ok inventory) :
    SoundInventory cp437 limits archive inventory ∧
      ∀ staged, extractZipToStaging cp437 limits archive inventory = .ok staged →
        staged.map (·.entry) = inventory.entries.filter (fun e => e.kind ≠ .directory) ∧
          (∀ s ∈ staged, Staged limits archive inventory.entries s) ∧
          (staged.map (·.bytes.length)).sum ≤ limits.maxDecompressedBytes := by
  refine ⟨soundInventory_of_inspectZip h, fun staged hstaged => ?_⟩
  obtain ⟨inspected, hinspected, hstaged⟩ := Outcome.bind_eq_ok.mp hstaged
  obtain rfl := Except.ok.inj (h.symm.trans hinspected)
  rw [if_neg (fun hne => hne rfl)] at hstaged
  obtain ⟨hentries, hfiles, hsum⟩ := extractEntries_eq_ok List.drop_zero (Nat.zero_le _) hstaged
  exact ⟨hentries, hfiles, by simpa using hsum⟩

end Library

def smallArchive : List ZipEntry :=
  [{ ZipEntry.file "notes/" 0 0 [] with
    isDir := true, unixMode := some 0o040755 },
   .file "notes/a.txt" 2 3 (ascii "abc"), .file ".\\conversations.json" 2 2 (ascii "[]")]

def smallLimits : ArchiveLimits := ⟨3, 100, 3, 5, 2⟩

def smallInventory : ArchiveInventory where
  entries := [⟨"notes", .directory, 0, 0⟩, ⟨"notes/a.txt", .text, 2, 3⟩,
    ⟨"conversations.json", .json, 2, 2⟩]
  compressedBytes := 4
  decompressedBytes := 5
  signals := {"conversations.json", "a.txt"}

theorem inspectZip_sound_small :
    SoundInventory (fun _ => '?') smallLimits smallArchive smallInventory ∧
      extractZipToStaging (fun _ => '?') smallLimits smallArchive smallInventory =
        .ok [⟨⟨"notes/a.txt", .text, 2, 3⟩, 1, ascii "abc"⟩,
          ⟨⟨"conversations.json", .json, 2, 2⟩, 2, ascii "[]"⟩] := by
  have hinspect : inspectZip (fun _ => '?') smallLimits smallArchive = .ok smallInventory := by
    decide +kernel
  exact ⟨(inspectZip_sound hinspect).1, by decide +kernel⟩

end ChatgptArchive
