import ChatgptArchive.Archive.Classify
import ChatgptArchive.Outcome
import Mathlib.Algebra.Order.Ring.Nat
import Mathlib.Data.Finset.Lattice.Lemmas
import Mathlib.Data.List.Forall2

/-!
# Inspecting an archive

The first pass checks every name and every declared size against the limits and adds the sizes up;
the second pass classifies the files by their first bytes. Both totals are kept in 64 bits, so an
addition that would not fit is refused.
-/

namespace ChatgptArchive

open List Outcome

structure ArchiveLimits where
  maxEntries : Nat
  maxCompressedBytes : Nat
  maxEntryBytes : Nat
  maxDecompressedBytes : Nat
  maxCompressionRatio : Nat
  deriving DecidableEq, Repr

structure ArchiveEntry where
  path : String
  kind : EntryKind
  compressedBytes : Nat
  decompressedBytes : Nat
  deriving DecidableEq, Repr

structure ArchiveInventory where
  entries : List ArchiveEntry
  compressedBytes : Nat
  decompressedBytes : Nat
  /-- The base names of the files. -/
  signals : Finset String
  deriving DecidableEq

def checkedAdd (a b : Nat) : Except ArchiveIntakeError Nat :=
  if a + b < 2 ^ 64 then .ok (a + b) else .error .limitExceeded

def saturatingMul (a b : Nat) : Nat := min (a * b) (2 ^ 64 - 1)

def checkedMetadataTotals (limits : ArchiveLimits)
    (compressed decompressed compressedTotal decompressedTotal : Nat) :
    Except ArchiveIntakeError (Nat × Nat) := do
  let nextCompressed ← checkedAdd compressedTotal compressed
  let nextDecompressed ← checkedAdd decompressedTotal decompressed
  if limits.maxCompressedBytes < compressed || limits.maxCompressedBytes < nextCompressed ||
      limits.maxEntryBytes < decompressed || limits.maxDecompressedBytes < nextDecompressed ||
      (compressed = 0 && 0 < decompressed) ||
      (0 < compressed && saturatingMul compressed limits.maxCompressionRatio < decompressed) then
    .error .limitExceeded
  else return (nextCompressed, nextDecompressed)

structure Inspection where
  names : Finset String
  entries : List ArchiveEntry
  compressedBytes : Nat
  decompressedBytes : Nat
  signals : Finset String

def Inspection.start : Inspection := ⟨∅, [], 0, 0, ∅⟩

section Library

variable (cp437 : UInt8 → Char) (limits : ArchiveLimits)

def inspectEntry (pass : Inspection) (entry : ZipEntry) :
    Except ArchiveIntakeError Inspection := do
  let normalized ← entryPath cp437 entry
  if normalized ∈ pass.names then .error .duplicateName
  else do
    rejectSpecialFile entry
    let totals ← checkedMetadataTotals limits entry.compressedSize entry.size
      pass.compressedBytes pass.decompressedBytes
    return {
      names := insert normalized pass.names
      entries := pass.entries ++ [{
        path := normalized, kind := if entry.isDir then .directory else .unknown
        compressedBytes := entry.compressedSize, decompressedBytes := entry.size }]
      compressedBytes := totals.1
      decompressedBytes := totals.2
      signals := if entry.isDir then pass.signals else insert (baseName normalized) pass.signals }

def inspectEntries : Inspection → List ZipEntry → Except ArchiveIntakeError Inspection
  | pass, [] => .ok pass
  | pass, entry :: archive => do
    let pass ← inspectEntry cp437 limits pass entry
    inspectEntries pass archive

def classifyEntries :
    List ArchiveEntry → List ZipEntry → Except ArchiveIntakeError (List ArchiveEntry)
  | inspected :: entries, entry :: archive =>
    if inspected.kind = .directory then do
      let rest ← classifyEntries entries archive
      return inspected :: rest
    else do
      let kind ← classifyPrefix entry.stream
      let rest ← classifyEntries entries archive
      return { inspected with kind } :: rest
  | _, _ => .ok []

def inspectZip (archive : List ZipEntry) : Except ArchiveIntakeError ArchiveInventory :=
  if limits.maxEntries < archive.length then .error .limitExceeded
  else do
    let pass ← inspectEntries cp437 limits .start archive
    let entries ← classifyEntries pass.entries archive
    return {
      entries, compressedBytes := pass.compressedBytes
      decompressedBytes := pass.decompressedBytes, signals := pass.signals }

end Library

/-! ## The first pass -/

theorem checkedAdd_eq_ok {a b c : Nat} (h : checkedAdd a b = .ok c) : c = a + b := by
  unfold checkedAdd at h
  split at h
  · exact (Except.ok.inj h).symm
  · cases h

structure WithinLimits (limits : ArchiveLimits) (entry : ArchiveEntry) : Prop where
  compressed : entry.compressedBytes ≤ limits.maxCompressedBytes
  decompressed : entry.decompressedBytes ≤ limits.maxEntryBytes
  ratio : entry.decompressedBytes ≤ entry.compressedBytes * limits.maxCompressionRatio

theorem checkedMetadataTotals_eq_ok {limits : ArchiveLimits}
    {compressed decompressed compressedTotal decompressedTotal : Nat} {totals : Nat × Nat}
    (h : checkedMetadataTotals limits compressed decompressed compressedTotal decompressedTotal =
      .ok totals) :
    totals.1 = compressedTotal + compressed ∧ totals.2 = decompressedTotal + decompressed ∧
      totals.1 ≤ limits.maxCompressedBytes ∧ totals.2 ≤ limits.maxDecompressedBytes ∧
      compressed ≤ limits.maxCompressedBytes ∧ decompressed ≤ limits.maxEntryBytes ∧
      decompressed ≤ compressed * limits.maxCompressionRatio := by
  obtain ⟨nextCompressed, hcompressed, h⟩ := bind_eq_ok.mp h
  obtain ⟨nextDecompressed, hdecompressed, h⟩ := bind_eq_ok.mp h
  split at h
  · cases h
  · rename_i hrefused
    cases h
    simp only [Bool.or_eq_true, Bool.and_eq_true, decide_eq_true_eq, not_or, not_and,
      not_lt] at hrefused
    obtain ⟨⟨⟨⟨⟨hc, htotal⟩, hd⟩, hdtotal⟩, hzero⟩, hratio⟩ := hrefused
    refine ⟨checkedAdd_eq_ok hcompressed, checkedAdd_eq_ok hdecompressed, htotal, hdtotal, hc, hd,
      ?_⟩
    -- nothing decompresses from nothing, and the saturated product is at most the product
    obtain rfl | hpos := Nat.eq_zero_or_pos compressed
    · exact Nat.le_trans (hzero rfl) (Nat.zero_le _)
    · exact Nat.le_trans (hratio hpos) (Nat.min_le_left _ _)

section Library

variable {cp437 : UInt8 → Char} {limits : ArchiveLimits} {archive : List ZipEntry}
  {pass pass' : Inspection} {entry : ZipEntry} {entries a b : List ArchiveEntry}

structure Describes (cp437 : UInt8 → Char) (entry : ZipEntry) (inspected : ArchiveEntry) :
    Prop where
  path : entryPath cp437 entry = .ok inspected.path
  compressed : inspected.compressedBytes = entry.compressedSize
  decompressed : inspected.decompressedBytes = entry.size
  directory : inspected.kind = .directory ↔ entry.isDir = true

def fileSignals (entries : List ArchiveEntry) : Finset String :=
  ((entries.filter fun e => e.kind ≠ .directory).map fun e => baseName e.path).toFinset

structure Inspected (cp437 : UInt8 → Char) (limits : ArchiveLimits) (archive : List ZipEntry)
    (pass : Inspection) : Prop where
  described : Forall₂ (Describes cp437) archive pass.entries
  names : pass.names = (pass.entries.map (·.path)).toFinset
  nodup : (pass.entries.map (·.path)).Nodup
  within : ∀ e ∈ pass.entries, WithinLimits limits e
  compressed : pass.compressedBytes = (pass.entries.map (·.compressedBytes)).sum
  compressed_le : pass.compressedBytes ≤ limits.maxCompressedBytes
  decompressed : pass.decompressedBytes = (pass.entries.map (·.decompressedBytes)).sum
  decompressed_le : pass.decompressedBytes ≤ limits.maxDecompressedBytes
  signals : pass.signals = fileSignals pass.entries

theorem Inspected.start : Inspected cp437 limits [] .start where
  described := .nil
  names := rfl
  nodup := nodup_nil
  within _ he := by cases he
  compressed := rfl
  compressed_le := Nat.zero_le _
  decompressed := rfl
  decompressed_le := Nat.zero_le _
  signals := rfl

/-- An entry that passes adds to the totals, the names and the signals. -/
theorem Inspected.inspectEntry (h : Inspected cp437 limits archive pass)
    (hstep : inspectEntry cp437 limits pass entry = .ok pass') :
    Inspected cp437 limits (archive ++ [entry]) pass' := by
  obtain ⟨normalized, hpath, hstep⟩ := bind_eq_ok.mp hstep
  split at hstep
  · cases hstep
  · rename_i hfresh
    obtain ⟨-, -, hstep⟩ := bind_eq_ok.mp hstep
    obtain ⟨totals, htotals, hstep⟩ := bind_eq_ok.mp hstep
    cases hstep
    obtain ⟨hc, hd, hcle, hdle, hcompressed, hdecompressed, hratio⟩ :=
      checkedMetadataTotals_eq_ok htotals
    rw [h.names, mem_toFinset] at hfresh
    constructor
    case described =>
      refine rel_append h.described (.cons ⟨hpath, rfl, rfl, ?_⟩ .nil)
      cases entry.isDir <;> simp
    case names =>
      rw [h.names, map_append, toFinset_append]
      ext name
      simp
    case nodup =>
      rw [map_append, nodup_append]
      refine ⟨h.nodup, nodup_singleton _, fun a ha b hb hab => hfresh ?_⟩
      have hb : b = normalized := mem_singleton.mp hb
      exact hb ▸ hab ▸ ha
    case within =>
      intro e he
      obtain he | he := mem_append.mp he
      · exact h.within e he
      · rw [mem_singleton.mp he]
        exact ⟨hcompressed, hdecompressed, hratio⟩
    case compressed =>
      rw [hc, h.compressed, map_append, sum_append]
      simp
    case compressed_le => exact hcle
    case decompressed =>
      rw [hd, h.decompressed, map_append, sum_append]
      simp
    case decompressed_le => exact hdle
    case signals =>
      rw [h.signals, fileSignals, fileSignals, filter_append, map_append, toFinset_append]
      cases entry.isDir with
      | true => simp
      | false => simp [Finset.union_comm]

theorem Inspected.inspectEntries {rest : List ZipEntry} (h : Inspected cp437 limits archive pass)
    (hrun : inspectEntries cp437 limits pass rest = .ok pass') :
    Inspected cp437 limits (archive ++ rest) pass' := by
  induction rest generalizing archive pass with
  | nil =>
    cases hrun
    rw [append_nil]
    exact h
  | cons entry rest ih =>
    obtain ⟨next, hnext, hrun⟩ := bind_eq_ok.mp hrun
    rw [append_cons]
    exact ih (h.inspectEntry hnext) hrun

/-! ## The second pass -/

theorem classifyBytes_ne_directory (bytes : List UInt8) : classifyBytes bytes ≠ .directory := by
  unfold classifyBytes
  dsimp only
  repeat' split
  all_goals exact fun h => by cases h

theorem classifyPrefix_ne_directory {stream : EntryStream} {kind : EntryKind}
    (h : classifyPrefix stream = .ok kind) : kind ≠ .directory := by
  obtain ⟨window, -, h⟩ := bind_eq_ok.mp h
  cases h
  exact classifyBytes_ne_directory window

/-- The entry of an inventory: as declared, and a file with the kind of its first bytes. -/
structure Presents (cp437 : UInt8 → Char) (entry : ZipEntry) (inspected : ArchiveEntry) : Prop
    extends Describes cp437 entry inspected where
  kind : entry.isDir = false → classifyPrefix entry.stream = .ok inspected.kind

theorem classifyEntries_presents {inspected : List ArchiveEntry}
    (hdescribed : Forall₂ (Describes cp437) archive inspected)
    (h : classifyEntries inspected archive = .ok entries) :
    Forall₂ (Presents cp437) archive entries := by
  induction hdescribed generalizing entries with
  | nil =>
    cases h
    exact .nil
  | @cons entry first archive inspected hfirst _ ih =>
    rw [classifyEntries] at h
    split at h
    · rename_i hdirectory
      obtain ⟨rest, hrest, h⟩ := bind_eq_ok.mp h
      cases h
      refine .cons ⟨hfirst, fun hfile => ?_⟩ (ih hrest)
      exact absurd (hfirst.directory.mp hdirectory) (by simp [hfile])
    · rename_i hfile
      obtain ⟨kind, hkind, h⟩ := bind_eq_ok.mp h
      obtain ⟨rest, hrest, h⟩ := bind_eq_ok.mp h
      cases h
      refine .cons ⟨⟨hfirst.path, hfirst.compressed, hfirst.decompressed, ?_⟩, fun _ => hkind⟩
        (ih hrest)
      exact iff_of_false (classifyPrefix_ne_directory hkind)
        fun hdir => hfile (hfirst.directory.mpr hdir)

/-! ## The inventory -/

def ArchiveEntry.declared (entry : ArchiveEntry) : String × Nat × Nat × Bool :=
  (entry.path, entry.compressedBytes, entry.decompressedBytes, entry.kind = .directory)

theorem declared_eq (ha : Forall₂ (Describes cp437) archive a)
    (hb : Forall₂ (Describes cp437) archive b) :
    a.map ArchiveEntry.declared = b.map ArchiveEntry.declared := by
  induction ha generalizing b with
  | nil =>
    cases hb
    rfl
  | cons hfirst _ ih =>
    cases hb with
    | cons hfirst' hrest =>
      rw [map_cons, map_cons, ih hrest]
      congr 1
      have hpath := Except.ok.inj (hfirst.path.symm.trans hfirst'.path)
      simp only [ArchiveEntry.declared, hpath, hfirst.compressed, hfirst'.compressed,
        hfirst.decompressed, hfirst'.decompressed, hfirst.directory, hfirst'.directory]

theorem map_eq_of_declared {β : Type*}
    (h : a.map ArchiveEntry.declared = b.map ArchiveEntry.declared)
    (f : String × Nat × Nat × Bool → β) :
    a.map (fun e => f e.declared) = b.map fun e => f e.declared := by
  have := congrArg (List.map f) h
  rwa [map_map, map_map] at this

/-- Names and sizes are safe: they keep to the limits, and the totals are the sums of what the
entries declare. -/
structure SoundInventory (cp437 : UInt8 → Char) (limits : ArchiveLimits) (archive : List ZipEntry)
    (inventory : ArchiveInventory) : Prop where
  presented : Forall₂ (Presents cp437) archive inventory.entries
  count : inventory.entries.length ≤ limits.maxEntries
  distinct : (inventory.entries.map (·.path)).Nodup
  components : ∀ e ∈ inventory.entries, ∀ component ∈ pathComponents e.path,
    component ≠ [] ∧ component ≠ ['.'] ∧ component ≠ ['.', '.']
  within : ∀ e ∈ inventory.entries, WithinLimits limits e
  compressed : inventory.compressedBytes = (inventory.entries.map (·.compressedBytes)).sum
  compressed_le : inventory.compressedBytes ≤ limits.maxCompressedBytes
  decompressed : inventory.decompressedBytes = (inventory.entries.map (·.decompressedBytes)).sum
  decompressed_le : inventory.decompressedBytes ≤ limits.maxDecompressedBytes
  signals : inventory.signals = fileSignals inventory.entries

theorem fileSignals_eq (entries : List ArchiveEntry) :
    fileSignals entries = (((entries.map ArchiveEntry.declared).filter fun d => !d.2.2.2).map
      fun d => baseName d.1).toFinset := by
  rw [fileSignals, filter_map, map_map]
  congr 2
  refine filter_congr fun e _ => ?_
  simp [ArchiveEntry.declared]

theorem exists_normalizePath {path : String} (h : entryPath cp437 entry = .ok path) :
    ∃ name, normalizePath name = .ok path := by
  obtain ⟨name, -, hname⟩ := bind_eq_ok.mp h
  exact ⟨name, hname⟩

theorem exists_presented (h : Forall₂ (Presents cp437) archive entries) {e : ArchiveEntry}
    (he : e ∈ entries) : ∃ entry ∈ archive, Presents cp437 entry e := by
  induction h with
  | nil => cases he
  | cons hfirst _ ih =>
    obtain rfl | he := mem_cons.mp he
    · exact ⟨_, mem_cons_self, hfirst⟩
    · obtain ⟨entry, hentry, hpresents⟩ := ih he
      exact ⟨entry, mem_cons_of_mem _ hentry, hpresents⟩

theorem exists_described (h : Forall₂ (Describes cp437) archive entries)
    (hentry : entry ∈ archive) : ∃ e ∈ entries, Describes cp437 entry e := by
  induction h with
  | nil => cases hentry
  | cons hfirst _ ih =>
    obtain rfl | hentry := mem_cons.mp hentry
    · exact ⟨_, mem_cons_self, hfirst⟩
    · obtain ⟨e, he, hdescribes⟩ := ih hentry
      exact ⟨e, mem_cons_of_mem _ he, hdescribes⟩

theorem soundInventory_of_inspectZip {inventory : ArchiveInventory}
    (h : inspectZip cp437 limits archive = .ok inventory) :
    SoundInventory cp437 limits archive inventory := by
  unfold inspectZip at h
  split at h
  · cases h
  · rename_i hcount
    obtain ⟨pass, hpass, h⟩ := bind_eq_ok.mp h
    obtain ⟨entries, hentries, h⟩ := bind_eq_ok.mp h
    cases h
    have hstart : Inspected cp437 limits [] .start := .start
    have hinspected : Inspected cp437 limits archive pass := by
      simpa using hstart.inspectEntries hpass
    have hpresented := classifyEntries_presents hinspected.described hentries
    have hdeclared : pass.entries.map ArchiveEntry.declared =
        entries.map ArchiveEntry.declared :=
      declared_eq hinspected.described (hpresented.imp fun _ _ hp => hp.toDescribes)
    constructor
    case presented => exact hpresented
    case count => exact hpresented.length_eq ▸ Nat.not_lt.mp hcount
    case distinct =>
      have hpaths : pass.entries.map (·.path) = entries.map (·.path) :=
        map_eq_of_declared hdeclared fun d => d.1
      exact hpaths ▸ hinspected.nodup
    case components =>
      intro e he component hcomponent
      obtain ⟨entry, -, hpresents⟩ := exists_presented hpresented he
      obtain ⟨name, hname⟩ := exists_normalizePath hpresents.path
      exact normalizePath_component hname hcomponent
    case within =>
      intro e he
      -- an entry of the first pass declares the same
      have hmem : e.declared ∈ pass.entries.map ArchiveEntry.declared :=
        hdeclared ▸ mem_map_of_mem he
      obtain ⟨e', he', heq⟩ := mem_map.mp hmem
      have hwithin := hinspected.within e' he'
      simp only [ArchiveEntry.declared, Prod.mk.injEq] at heq
      obtain ⟨-, hcompressed, hdecompressed, -⟩ := heq
      exact ⟨hcompressed ▸ hwithin.compressed, hdecompressed ▸ hwithin.decompressed,
        hcompressed ▸ hdecompressed ▸ hwithin.ratio⟩
    case compressed =>
      have hsizes : pass.entries.map (·.compressedBytes) = entries.map (·.compressedBytes) :=
        map_eq_of_declared hdeclared fun d => d.2.1
      exact hsizes ▸ hinspected.compressed
    case compressed_le => exact hinspected.compressed_le
    case decompressed =>
      have hsizes : pass.entries.map (·.decompressedBytes) = entries.map (·.decompressedBytes) :=
        map_eq_of_declared hdeclared fun d => d.2.2.1
      exact hsizes ▸ hinspected.decompressed
    case decompressed_le => exact hinspected.decompressed_le
    case signals => rw [fileSignals_eq, ← hdeclared, ← fileSignals_eq, ← hinspected.signals]

/-! ## Names and the duplicate check -/

theorem mem_names_of_inspectEntries (h : inspectEntries cp437 limits .start archive = .ok pass)
    (hentry : entry ∈ archive) {path : String} (hpath : entryPath cp437 entry = .ok path) :
    path ∈ pass.names := by
  have hstart : Inspected cp437 limits [] .start := .start
  have hinspected := hstart.inspectEntries h
  rw [nil_append] at hinspected
  obtain ⟨inspected, hmem, hdescribes⟩ := exists_described hinspected.described hentry
  have hsame : inspected.path = path := Except.ok.inj (hdescribes.path.symm.trans hpath)
  rw [hinspected.names, mem_toFinset, ← hsame]
  exact mem_map_of_mem hmem

/-- A name is accepted exactly when it is relative, does not climb, names no drive and keeps a
component. Its path is a fixed point that only the kept components determine, so an entry whose
name keeps the components of an entry before it is refused as a duplicate. -/
theorem normalizePath_exact (name : String) :
    ((∃ path, normalizePath name = .ok path) ↔
      name.startsWith '/' = false ∧ name.startsWith '\\' = false ∧
        ['.', '.'] ∉ nameParts name ∧ (∀ part ∈ keptParts name, ':' ∉ part) ∧
        ∃ part ∈ nameParts name, part ≠ [] ∧ part ≠ ['.']) ∧
    ∀ path, normalizePath name = .ok path →
      '\\' ∉ path.toList ∧ path = joinParts (keptParts name) ∧ normalizePath path = .ok path ∧
      ∀ other otherPath, normalizePath other = .ok otherPath →
        keptParts other = keptParts name → otherPath = path ∧
        ∀ (cp437 : UInt8 → Char) (limits : ArchiveLimits) (archive : List ZipEntry)
          (pass : Inspection) (first second : ZipEntry),
          inspectEntries cp437 limits .start archive = .ok pass → first ∈ archive →
          decodedEntryName cp437 first = .ok name → decodedEntryName cp437 second = .ok other →
          inspectEntry cp437 limits pass second = .error .duplicateName := by
  have hkept : keptParts name ≠ [] ↔ ∃ part ∈ nameParts name, part ≠ [] ∧ part ≠ ['.'] := by
    constructor
    · intro hne
      obtain ⟨part, hpart⟩ := List.exists_mem_of_ne_nil _ hne
      exact ⟨part, mem_keptParts.mp hpart⟩
    · rintro ⟨part, hpart⟩
      exact List.ne_nil_of_mem (mem_keptParts.mpr hpart)
  constructor
  · simp only [normalizePath_eq_ok_iff, ← hkept]
    exact ⟨fun ⟨_, h, _⟩ => h, fun h => ⟨_, h, rfl⟩⟩
  · intro path hpath
    have heq := (normalizePath_eq_ok_iff.mp hpath).2
    refine ⟨heq ▸ backslash_not_mem_joinParts, heq, normalizePath_normalizePath hpath, ?_⟩
    intro other otherPath hother hsame
    have hcollide : otherPath = path := by
      rw [(normalizePath_eq_ok_iff.mp hother).2, hsame, heq]
    refine ⟨hcollide, ?_⟩
    intro cp437 limits archive pass first second hpass hfirst hname hother'
    have hfirstPath : entryPath cp437 first = .ok path := by rw [entryPath, hname]; exact hpath
    have hsecondPath : entryPath cp437 second = .ok path := by
      rw [entryPath, hother', ← hcollide]; exact hother
    have hseen := mem_names_of_inspectEntries hpass hfirst hfirstPath
    rw [inspectEntry, hsecondPath]
    exact if_pos hseen

theorem normalizePath_exact_dotted : normalizePath "a\\.\\b" = .ok "a/b" ∧
    normalizePath "a/b" = .ok "a/b" := by
  have hpath : normalizePath "a\\.\\b" = .ok "a/b" := by decide +kernel
  exact ⟨hpath, ((normalizePath_exact "a\\.\\b").2 "a/b" hpath).2.2.1⟩

end Library

end ChatgptArchive
