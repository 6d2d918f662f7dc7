import ChatgptArchive.Json
import ChatgptArchive.Outcome
import ChatgptArchive.Splitting
import Mathlib.Data.List.Destutter
import Mathlib.Data.List.Sort

/-!
# Fixture admission

A candidate is a tree of small JSON and Markdown files with a manifest. Its files are searched for
private values: for markers anywhere in the text, and for e-mail addresses token by token.
-/

namespace ChatgptArchive

open List Splitting

inductive FixtureAdmissionStatus where
  | admitted | rejected
  deriving DecidableEq

structure FixtureAdmissionReport where
  caseId : Option String
  status : FixtureAdmissionStatus
  findings : List String
  deriving DecidableEq

inductive FixtureAdmissionError where
  | io
  deriving DecidableEq

structure FixtureReviews where
  consent : Bool
  license : Bool
  secretScan : Bool
  personalDataScan : Bool
  pathSafety : Bool
  deterministicComparison : Bool
  independentReview : Bool
  ownerApproval : Bool

def FixtureReviews.allPassed (reviews : FixtureReviews) : Bool :=
  reviews.consent && reviews.license && reviews.secretScan && reviews.personalDataScan &&
    reviews.pathSafety && reviews.deterministicComparison && reviews.independentReview &&
    reviews.ownerApproval

structure FixtureManifest where
  format : String
  caseId : String
  acquisitionMode : String
  schemaId : String
  privateEvidenceRecord : String
  fixture : String
  observedStructure : String
  expectedStructure : String
  syntheticOnly : Bool
  reviews : FixtureReviews

/-- The octets of a file: the UTF-8 of a text, or no UTF-8. -/
inductive FileContent where
  | text (text : String)
  | binary (length : Nat)

namespace FileContent

def len : FileContent → Nat
  | text content => content.utf8ByteSize
  | binary length => length

def parse {α : Type} (read : String → Option α) : FileContent → Option α
  | text content => read content
  | binary _ => none

end FileContent

inductive Node where
  | file (content : FileContent)
  | directory (entries : List (String × Node))
  | symlink (target : Option FileContent)
  | special

abbrev CandidateFile := List String × FileContent

namespace Node

mutual

def filesAt (path : List String) : Node → List CandidateFile
  | file content => [(path, content)]
  | directory entries => filesIn path entries
  | symlink _ => []
  | special => []

def filesIn (path : List String) : List (String × Node) → List CandidateFile
  | [] => []
  | (name, node) :: entries => filesAt (path ++ [name]) node ++ filesIn path entries

end

def files (candidate : Node) : List CandidateFile := candidate.filesAt []

def read : Node → List String → Except FixtureAdmissionError (Option FileContent)
  -- `std::fs::read`: a name that leads nowhere is no error for its callers
  | file content, [] => .ok (some content)
  | symlink target, [] => .ok target
  | directory _, [] => .error .io
  | special, [] => .error .io
  | directory entries, name :: path =>
    match entries.lookup name with
    | some node => node.read path
    | none => .ok none
  | symlink none, _ :: _ => .ok none
  | symlink (some _), _ :: _ => .error .io
  | file _, _ :: _ => .error .io
  | special, _ :: _ => .error .io

end Node

namespace FixtureAdmission

def maxFiles : Nat := 32

def maxFileBytes : Nat := 1048576

/-! ## One file -/

def whitespace : List Nat :=
  [0x9, 0xA, 0xB, 0xC, 0xD, 0x20, 0x85, 0xA0, 0x1680, 0x2000, 0x2001, 0x2002, 0x2003, 0x2004,
    0x2005, 0x2006, 0x2007, 0x2008, 0x2009, 0x200A, 0x2028, 0x2029, 0x202F, 0x205F, 0x3000]

def isWhitespace (c : Char) : Bool := c.toNat ∈ whitespace

def separates (c : Char) : Bool := isWhitespace c || c = '"' || c = '<' || c = '>'

def tokens (text : String) : List (List Char) := text.toList.splitOnP separates

def isFringe (c : Char) : Bool := !c.isAlphanum && c ≠ '@' && c ≠ '.' && c ≠ '-' && c ≠ '_'

def looksLikeEmail (value : List Char) : Bool :=
  match splitOnce '@' (trim isFringe value) with
  | none => false
  | some (localPart, domain) =>
    !localPart.isEmpty && domain.contains '.' && domain.head? ≠ some '.' &&
      domain.getLast? ≠ some '.'

def extension (name : String) : Option String :=
  -- `Path::extension`: a name without a dot, or with its only dot in front, has none
  match name.toList.reverse.dropWhile (· ≠ '.') with
  | [] => none
  | [_] => none
  | _ => some (String.ofList (name.toList.reverse.takeWhile (· ≠ '.')).reverse)

def fileExtension (path : List String) : String :=
  ((path.getLast?.bind extension).getD "").toLower

def isDocument (path : List String) : Bool := fileExtension path ∈ ["json", "md"]

def markers : List String :=
  ["sk-", "bearer ", "account_email", "owner_email", "owner_name", "source_digest",
    "original_filename", "private_path"]

def inspectFile (path : List String) (content : FileContent) : List String :=
  if fileExtension path ∈ ["zip", "tar", "tgz", "gz", "7z"] then ["raw_archive_forbidden"]
  else if !isDocument path then ["unsupported_candidate_file"]
  else match content with
    | .binary _ => ["non_utf8_forbidden"]
    | .text text =>
      let lower := text.toLower
      (if markers.any fun marker => marker.toList <:+: lower.toList then
        ["private_or_secret_value"] else []) ++
      if (tokens text).any looksLikeEmail then ["private_or_secret_value"] else []

/-! ## The tree -/

structure Listing where
  files : List CandidateFile
  findings : List String

mutual

def listNode (path : List String) (depth : Nat) : Node → Listing
  -- the source keeps unread directories on a stack. The order of files and findings does not reach
  -- the report, so that here each is read where it is met
  | .symlink _ => ⟨[], ["symlink_forbidden"]⟩
  | .directory entries =>
    if 4 < depth + 1 then ⟨[], ["tree_too_deep"]⟩ else listEntries path (depth + 1) entries
  | .special => ⟨[], ["special_file_forbidden"]⟩
  | .file content => ⟨[(path, content)], []⟩

def listEntries (path : List String) (depth : Nat) : List (String × Node) → Listing
  | [] => ⟨[], []⟩
  | (name, node) :: entries =>
    let first := listNode (path ++ [name]) depth node
    let rest := listEntries path depth entries
    ⟨first.files ++ rest.files, first.findings ++ rest.findings⟩

end

def inspectTree (entries : List (String × Node)) : Listing :=
  let listing := listEntries [] 0 entries
  { files := listing.files
    findings := listing.findings ++
      (if maxFiles < listing.files.length then ["too_many_files"] else []) ++
      listing.files.flatMap fun (path, content) =>
        if maxFileBytes < content.len then ["file_too_large"] else inspectFile path content }

/-! ## The manifest -/

inductive Component where
  | rootDir | curDir | parentDir
  | normal (name : String)
  deriving DecidableEq

def components (path : String) : List Component :=
  -- `Path::components`: a single dot counts only in front
  let parts := path.toList.splitOn '/'
  let body := (parts.filter fun part => part ≠ [] ∧ part ≠ ['.']).map fun part =>
    if part = ['.', '.'] then .parentDir else .normal (String.ofList part)
  match parts with
  | [] :: _ :: _ => .rootDir :: body
  | ['.'] :: _ => .curDir :: body
  | _ => body

def Component.name? : Component → Option String
  | normal name => some name
  | _ => none

def safeRelativePath (path : String) : Bool :=
  !path.isEmpty && (components path).all fun component => component.name?.isSome

def joined (path : String) : List String := (components path).filterMap Component.name?

def asksDirectory (path : String) : Bool :=
  -- a slash, or a slash and a dot, at the end resolves to a directory or to `ENOTDIR`. The
  -- components drop it, so the listed files contain such a path
  (path.toList.splitOn '/').getLast? ∈ [some [], some ['.']]

def safeIdentifier (value : String) : Bool :=
  !value.isEmpty && value.utf8ByteSize ≤ 128 &&
    value.toList.all fun c => c.isAlphanum || c = '-' || c = '_' || c = '.'

section Parsers

variable (readManifest : String → Option FixtureManifest) (readValue : String → Option Value)

def readJson (candidate : Node) (path : String) :
    Except FixtureAdmissionError (Option Value × List String) := do
  match ← candidate.read (joined path) with
  | none => return (none, [])
  | some content =>
    if asksDirectory path then throw .io
    match content.parse readValue with
    | some value => return (some value, [])
    | none => return (none, ["candidate_json_invalid"])

def inspectStructures (candidate : Node) (manifest : FixtureManifest) :
    Except FixtureAdmissionError (List String) :=
  if safeRelativePath manifest.observedStructure && safeRelativePath manifest.expectedStructure then
    do
      let observed ← readJson readValue candidate manifest.observedStructure
      let expected ← readJson readValue candidate manifest.expectedStructure
      return observed.2 ++ expected.2 ++
        if observed.1.isSome && expected.1.isSome && observed.1 ≠ expected.1 then
          ["structure_comparison_mismatch"] else []
  else return []

def inspectManifest (candidate : Node) (files : List CandidateFile) (manifest : FixtureManifest) :
    Except FixtureAdmissionError (List String) := do
  let format := if manifest.format ≠ "ratatoskr-owner-derived-fixture" then
    ["manifest_format_unsupported"] else []
  let identifiers := if !safeIdentifier manifest.caseId || !safeIdentifier manifest.schemaId ||
      !safeIdentifier manifest.privateEvidenceRecord then ["manifest_identifier_invalid"] else []
  let mode := if manifest.acquisitionMode ∈ ["consumer_export", "edu_export", "compliance_log",
      "manual_conversation_capture", "legacy_import"] then [] else ["acquisition_mode_invalid"]
  let minimized := if !manifest.syntheticOnly then ["source_values_not_minimized"] else []
  let reviews := if !manifest.reviews.allPassed then ["review_or_approval_missing"] else []
  let paths := [manifest.fixture, manifest.observedStructure, manifest.expectedStructure].flatMap
    fun path => if !safeRelativePath path || joined path ∉ files.map (·.1) then
      ["manifest_path_unsafe_or_missing"] else []
  let structures ← inspectStructures readValue candidate manifest
  let fixture ← if safeRelativePath manifest.fixture then
    (·.2) <$> readJson readValue candidate manifest.fixture else .ok []
  return format ++ identifiers ++ mode ++ minimized ++ reviews ++ paths ++ structures ++ fixture

/-! ## The candidate -/

def inspectCase (candidate : Node) (files : List CandidateFile) :
    Option FileContent → Except FixtureAdmissionError (Option String × List String)
  | none => .ok (none, ["manifest_missing"])
  | some content =>
    match content.parse readManifest with
    | none => .ok (none, ["manifest_invalid"])
    | some manifest => do
      let findings ← inspectManifest readValue candidate files manifest
      return (some manifest.caseId, findings)

def inspect (candidate : Node) : Except FixtureAdmissionError FixtureAdmissionReport :=
  match candidate with
  | .directory entries => do
    let tree := inspectTree entries
    let manifest ← candidate.read ["manifest.json"]
    let case ← inspectCase readManifest readValue candidate tree.files manifest
    let findings := ((tree.findings ++ case.2).insertionSort (· ≤ ·)).destutter (· ≠ ·)
    return {
      caseId := case.1
      status := if findings.isEmpty then .admitted else .rejected
      findings }
  | _ => .ok ⟨none, .rejected, ["candidate_not_directory"]⟩

end Parsers

/-! ## Addresses

`alnum` says which characters are letters and digits: those of ASCII, or those of every script. -/

section Addresses

variable (alnum : Char → Bool)

structure IsLocalPart (s : List Char) : Prop where
  chars : ∀ c ∈ s, alnum c = true ∨ c = '.' ∨ c = '-' ∨ c = '_'
  first : ∃ c, s.head? = some c ∧ alnum c = true
  last : ∃ c, s.getLast? = some c ∧ alnum c = true

def IsDomain (s : List Char) : Prop :=
  ∃ labels : List (List Char), 2 ≤ labels.length ∧
    (∀ label ∈ labels, label ≠ [] ∧ ∀ c ∈ label, alnum c = true) ∧ s = ['.'].intercalate labels

def IsAddress (s : List Char) : Prop :=
  ∃ localPart domain, IsLocalPart alnum localPart ∧ IsDomain alnum domain ∧
    s = localPart ++ '@' :: domain

def HoldsAddress (text : List Char) : Prop := ∃ address, IsAddress alnum address ∧ address <:+: text

end Addresses

/-- Without its fringe, the token does not start with its first `@`, has no dot right after it, and
does not end in a dot. -/
def Exposed (token : List Char) : Prop :=
  ∀ before after, trim isFringe token = before ++ '@' :: after → '@' ∉ before →
    before ≠ [] ∧ after.head? ≠ some '.' ∧ after.getLast? ≠ some '.'

variable {alnum : Char → Bool} {address token text : List Char}

theorem IsDomain.dotted {domain : List Char} (h : IsDomain alnum domain) :
    ∃ label rest, domain = label ++ '.' :: rest := by
  obtain ⟨labels, hlength, -, rfl⟩ := h
  match labels, hlength with
  | first :: second :: rest, _ =>
    refine ⟨first, ['.'].intercalate (second :: rest), ?_⟩
    rw [intercalate_cons_cons, append_assoc, singleton_append]

theorem IsAddress.not_separates (halnum : ∀ c, alnum c = true → separates c = false)
    (h : IsAddress alnum address) : ∀ c ∈ address, separates c = false := by
  obtain ⟨localPart, domain, hlocal, ⟨labels, -, hlabels, rfl⟩, rfl⟩ := h
  intro c hc
  rw [mem_append, mem_cons] at hc
  rcases hc with hc | rfl | hc
  · rcases hlocal.chars c hc with hc | rfl | rfl | rfl
    · exact halnum c hc
    all_goals decide
  · decide
  · rcases mem_intercalate hc with rfl | ⟨label, hlabel, hc⟩
    · decide
    · exact halnum c ((hlabels label hlabel).2 c hc)

theorem exists_token_of_address (halnum : ∀ c, alnum c = true → separates c = false)
    {text : String} : HoldsAddress alnum text.toList ↔
      ∃ token ∈ tokens text, HoldsAddress alnum token := by
  constructor
  · rintro ⟨address, haddress, hsegment⟩
    obtain ⟨token, htoken, hsegment⟩ :=
      exists_part_of_segment (haddress.not_separates halnum) hsegment
    exact ⟨token, htoken, address, haddress, hsegment⟩
  · rintro ⟨token, htoken, address, haddress, hsegment⟩
    exact ⟨address, haddress, hsegment.trans (infix_of_mem_splitOnP htoken)⟩

/-- An address that its token exposes is found: trimming leaves its `@` and its dot. -/
theorem looksLikeEmail_of_exposed (haddress : HoldsAddress alnum token) (h : Exposed token) :
    looksLikeEmail token = true := by
  obtain ⟨address, ⟨localPart, domain, -, hdomain, rfl⟩, start, stop, rfl⟩ := haddress
  obtain ⟨label, rest, rfl⟩ := hdomain.dotted
  have htoken : start ++ (localPart ++ '@' :: (label ++ '.' :: rest)) ++ stop =
      (start ++ localPart) ++ '@' :: (label ++ '.' :: (rest ++ stop)) := by simp
  rw [htoken] at h ⊢
  rw [Exposed, trim_append_cons (by decide), rdropWhile_append_cons (by decide)] at h
  rw [looksLikeEmail, trim_append_cons (by decide), rdropWhile_append_cons (by decide)]
  obtain ⟨before, after, hsplit, heq, hbefore, hsuffix⟩ := splitOnce_of_append_cons
    (x := '@') ((start ++ localPart).dropWhile isFringe)
    (label ++ '.' :: (rest ++ stop).rdropWhile isFringe)
  obtain ⟨hne, hhead, hlast⟩ := h before after heq hbefore
  have hdot : '.' ∈ after := hsuffix.subset (mem_append_right _ mem_cons_self)
  rw [hsplit]
  simp [hne, hdot, hhead, hlast]

/-! ## What an admission says -/

mutual

theorem listNode_files {path : List String} {depth : Nat} : (node : Node) →
    (listNode path depth node).findings = [] → (listNode path depth node).files = node.filesAt path
  | .file content, _ => by rw [listNode, Node.filesAt]
  | .directory entries, h => by
    rw [listNode] at h ⊢
    split at h
    · cases h
    · rename_i hdepth
      rw [if_neg hdepth, Node.filesAt]
      exact listEntries_files entries h
  | .symlink target, h => by
    rw [listNode] at h
    cases h
  | .special, h => by
    rw [listNode] at h
    cases h

theorem listEntries_files {path : List String} {depth : Nat} : (entries : List (String × Node)) →
    (listEntries path depth entries).findings = [] →
    (listEntries path depth entries).files = Node.filesIn path entries
  | [], _ => by rw [listEntries, Node.filesIn]
  | (name, node) :: entries, h => by
    rw [listEntries] at h ⊢
    obtain ⟨hfirst, hrest⟩ := append_eq_nil_iff.mp h
    rw [Node.filesIn, listNode_files node hfirst, listEntries_files entries hrest]

end

variable {readManifest : String → Option FixtureManifest} {readValue : String → Option Value}
  {candidate : Node} {report : FixtureAdmissionReport}

theorem inspectFile_of_admitted (h : inspect readManifest readValue candidate = .ok report)
    (hadmitted : report.status = .admitted) :
    ∀ file ∈ candidate.files, inspectFile file.1 file.2 = [] := by
  unfold inspect at h
  split at h
  · rename_i entries
    obtain ⟨manifest, -, h⟩ := Outcome.bind_eq_ok.mp h
    obtain ⟨found, -, h⟩ := Outcome.bind_eq_ok.mp h
    cases h
    dsimp only at hadmitted
    split at hadmitted
    · rename_i hempty
      -- sorting and removing repetitions leaves nothing of nothing only
      rw [List.isEmpty_iff, destutter_eq_nil] at hempty
      have hnone := perm_nil.mp ((perm_insertionSort _ _).symm.trans
        (List.Perm.of_eq hempty))
      have htree := (append_eq_nil_iff.mp hnone).1
      rw [inspectTree, append_eq_nil_iff, append_eq_nil_iff, flatMap_eq_nil_iff] at htree
      obtain ⟨⟨hlisting, -⟩, hfiles⟩ := htree
      rintro ⟨path, content⟩ hfile
      rw [Node.files, Node.filesAt, ← listEntries_files entries hlisting] at hfile
      have hfile := hfiles (path, content) hfile
      dsimp only at hfile
      split at hfile
      · cases hfile
      · exact hfile
    · cases hadmitted
  · cases h
    cases hadmitted

theorem not_looksLikeEmail_of_inspectFile {path : List String} {text : String}
    (h : inspectFile path (.text text) = []) (hdocument : isDocument path = true) :
    ∀ token ∈ tokens text, looksLikeEmail token = false := by
  unfold inspectFile at h
  split at h
  · cases h
  · rw [hdocument, Bool.not_true, if_neg Bool.false_ne_true] at h
    have hemail := (append_eq_nil_iff.mp h).2
    split at hemail
    · cases hemail
    · rename_i hany
      simpa using hany

/-- The documents of an admitted candidate are free of addresses exactly when every token with an
address exposes it. -/
theorem admitted_no_address_iff (halnum : ∀ c, alnum c = true → separates c = false)
    (h : inspect readManifest readValue candidate = .ok report)
    (hadmitted : report.status = .admitted) :
    (∀ path text, (path, .text text) ∈ candidate.files → isDocument path = true →
      ¬ HoldsAddress alnum text.toList) ↔
    ∀ path text, (path, .text text) ∈ candidate.files → isDocument path = true →
      ∀ token ∈ tokens text, HoldsAddress alnum token → Exposed token := by
  have hinspected := inspectFile_of_admitted h hadmitted
  constructor
  · intro hnone path text hfile hdocument token htoken haddress
    exact absurd ((exists_token_of_address halnum).mpr ⟨token, htoken, haddress⟩)
      (hnone path text hfile hdocument)
  · intro hexposed path text hfile hdocument haddress
    obtain ⟨token, htoken, haddress⟩ := (exists_token_of_address halnum).mp haddress
    have hfound := looksLikeEmail_of_exposed haddress
      (hexposed path text hfile hdocument token htoken haddress)
    have hclean := not_looksLikeEmail_of_inspectFile (hinspected _ hfile) hdocument token htoken
    rw [hfound] at hclean
    cases hclean

def derivedManifest : FixtureManifest where
  format := "ratatoskr-owner-derived-fixture"
  caseId := "case-1"
  acquisitionMode := "consumer_export"
  schemaId := "conversations-v1"
  privateEvidenceRecord := "evidence-1"
  fixture := "derived.json"
  observedStructure := "observed-structure.json"
  expectedStructure := "expected-structure.json"
  syntheticOnly := true
  reviews := ⟨true, true, true, true, true, true, true, true⟩

def derived (notes : String) : Node :=
  .directory ((("notes.md", notes) :: ["derived.json", "observed-structure.json",
    "expected-structure.json", "manifest.json"].map (·, "[]")).map fun (name, text) =>
      (name, .file (.text text)))

def inspectDerived (notes : String) : Except FixtureAdmissionError FixtureAdmissionReport :=
  inspect (fun _ => some derivedManifest) (fun _ => some (.array [])) (derived notes)

theorem isAlphanum_not_separates (c : Char) (hc : c.isAlphanum = true) : separates c = false := by
  have hne : ∀ d : Char, d.isAlphanum = false → c ≠ d := by
    intro d hd heq
    rw [heq, hd] at hc
    cases hc
  have hwhite : ∀ n ∈ whitespace, (Char.ofNat n).isAlphanum = false := by decide
  simp only [separates, isWhitespace, Bool.or_eq_false_iff, decide_eq_false_iff_not]
  refine ⟨⟨⟨fun hmem => ?_, hne _ (by decide)⟩, hne _ (by decide)⟩, hne _ (by decide)⟩
  exact hne _ (hwhite _ hmem) (Char.ofNat_toNat c).symm

theorem derived_no_address : inspectDerived "No names." = .ok ⟨some "case-1", .admitted, []⟩ ∧
    ∀ path text, (path, .text text) ∈ (derived "No names.").files → isDocument path = true →
      ¬ HoldsAddress Char.isAlphanum text.toList := by
  have hreport : inspectDerived "No names." = .ok ⟨some "case-1", .admitted, []⟩ := by
    decide +kernel
  refine ⟨hreport, (admitted_no_address_iff isAlphanum_not_separates hreport rfl).mpr ?_⟩
  intro path text hfile _ token htoken haddress
  have hat : '@' ∈ text.toList := by
    obtain ⟨address, ⟨localPart, domain, -, -, rfl⟩, hsegment⟩ := haddress
    exact (hsegment.trans (Splitting.infix_of_mem_splitOnP htoken)).subset (by simp)
  simp only [derived, Node.files, Node.filesAt, Node.filesIn, List.map_cons, List.map_nil,
    List.mem_append, List.mem_cons, List.not_mem_nil, or_false, Prod.mk.injEq,
    FileContent.text.injEq] at hfile
  rcases hfile with ⟨-, rfl⟩ | ⟨-, rfl⟩ | ⟨-, rfl⟩ | ⟨-, rfl⟩ | ⟨-, rfl⟩
  all_goals exact absurd hat (by decide)

/-- An address at the end of a sentence is admitted. -/
theorem derived_address_admitted :
    inspectDerived "Write to owner@example.com." = .ok ⟨some "case-1", .admitted, []⟩ ∧
    (["notes.md"], .text "Write to owner@example.com.") ∈
      (derived "Write to owner@example.com.").files ∧
    HoldsAddress Char.isAlphanum "Write to owner@example.com.".toList := by
  refine ⟨by decide +kernel, List.mem_cons_self, "owner@example.com".toList, ?_, ?_⟩
  · refine ⟨"owner".toList, "example.com".toList, ⟨?_, ?_, ?_⟩, ?_, by decide⟩
    · intro c hc
      exact .inl (List.all_eq_true.mp (by decide : "owner".toList.all Char.isAlphanum = true) c hc)
    · exact ⟨'o', by decide⟩
    · exact ⟨'r', by decide⟩
    · refine ⟨["example".toList, "com".toList], by decide, ?_, by decide⟩
      intro label hlabel
      rw [List.mem_cons, List.mem_singleton] at hlabel
      rcases hlabel with rfl | rfl
      all_goals exact ⟨by decide, List.all_eq_true.mp (by decide)⟩
  · exact ⟨"Write to ".toList, ['.'], by decide⟩

end FixtureAdmission

end ChatgptArchive
