import ChatgptArchive.Archive.Entry
import ChatgptArchive.BytePattern
import Mathlib.Data.List.TakeWhile

/-!
# Classifying content

The kind of an entry is a coarse signal from its first 512 bytes: what the bytes after leading
white space begin with, and otherwise whether they are UTF-8.
-/

namespace ChatgptArchive

open List BytePattern Utf8

inductive EntryKind where
  | directory | json | html | media | text | unknown
  deriving DecidableEq, Repr

def EntryKind.quarantined : EntryKind → Bool
  | .html | .media => true
  | _ => false

def isAsciiWhitespace (b : UInt8) : Bool :=
  b = 0x20 || b = 0x09 || b = 0x0A || b = 0x0C || b = 0x0D

def toAsciiLowercase (b : UInt8) : UInt8 := if 0x41 ≤ b && b ≤ 0x5A then b + 0x20 else b

variable (bytes : List UInt8)

def trimAsciiWhitespace : List UInt8 := bytes.dropWhile isAsciiWhitespace

def ascii (text : String) : List UInt8 := text.toList.map fun c => c.toNat.toUInt8

def startsHtml : Bool :=
  let lowered := (bytes.take 32).map toAsciiLowercase
  (ascii "<html").isPrefixOf lowered || (ascii "<!doctype html").isPrefixOf lowered

def isMedia : Bool :=
  [0x89, 0x50, 0x4E, 0x47, 0x0D, 0x0A, 0x1A, 0x0A].isPrefixOf bytes ||
    [0xFF, 0xD8, 0xFF].isPrefixOf bytes ||
    (ascii "GIF87a").isPrefixOf bytes ||
    (ascii "GIF89a").isPrefixOf bytes ||
    ((ascii "RIFF").isPrefixOf bytes && (bytes.drop 8).take 4 = ascii "WEBP")

def classifyBytes : EntryKind :=
  let trimmed := trimAsciiWhitespace bytes
  if (ascii "\x7b").isPrefixOf trimmed || (ascii "[").isPrefixOf trimmed then .json
  else if startsHtml trimmed then .html
  else if isMedia trimmed then .media
  else if valid trimmed then .text
  else .unknown

def classifyPrefix (stream : EntryStream) : Except ArchiveIntakeError EntryKind := do
  let window ← stream.firstRead 512
  return classifyBytes window

/-! ## The marks that decide a kind -/

def letterForms (b : UInt8) : List UInt8 := if 0x61 ≤ b && b ≤ 0x7A then [b, b - 0x20] else [b]

def kindMarks : List (EntryKind × BytePattern) :=
  [(.json, .ofBytes (ascii "\x7b")), (.json, .ofBytes (ascii "[")),
   (.html, (ascii "<html").map fun b => some (letterForms b)),
   (.html, (ascii "<!doctype html").map fun b => some (letterForms b)),
   (.media, .ofBytes [0x89, 0x50, 0x4E, 0x47, 0x0D, 0x0A, 0x1A, 0x0A]),
   (.media, .ofBytes [0xFF, 0xD8, 0xFF]),
   (.media, .ofBytes (ascii "GIF87a")), (.media, .ofBytes (ascii "GIF89a")),
   (.media, ofBytes (ascii "RIFF") ++ replicate 4 none ++
      ofBytes (ascii "WEBP"))]

def kindMark : Option (EntryKind × Nat) :=
  BytePattern.lookup kindMarks (trimAsciiWhitespace bytes)

theorem kindMarks_separate : Separate kindMarks := by decide +kernel

theorem toAsciiLowercase_eq_iff {a : UInt8} (ha : (0x41 ≤ a && a ≤ 0x5A) = false) (b : UInt8) :
    toAsciiLowercase b = a ↔ b ∈ letterForms a := by
  have hsub : 97 ≤ a.toNat → (a - 0x20).toNat = a.toNat - 32 := fun h =>
    UInt8.toNat_sub_of_le a 0x20 (UInt8.le_iff_toNat_le.mpr (Nat.le_trans (by decide) h))
  simp only [Bool.and_eq_false_iff, decide_eq_false_iff_not, UInt8.le_iff_toNat_le] at ha
  unfold toAsciiLowercase letterForms
  -- capital or not, letter or not: each case is arithmetic of the byte values
  split <;> split <;> simp_all [UInt8.le_iff_toNat_le, ← UInt8.toNat_inj] <;> omega

/-- A text of at most 32 bytes is looked for in the lowered beginning as in the lowered whole. -/
theorem isPrefixOf_lowered {text : List UInt8} (hlength : text.length ≤ 32) (bytes : List UInt8) :
    text.isPrefixOf ((bytes.take 32).map toAsciiLowercase) =
      text.isPrefixOf (bytes.map toAsciiLowercase) := by
  rw [map_take, Bool.eq_iff_iff, isPrefixOf_iff_prefix, isPrefixOf_iff_prefix, prefix_take_iff]
  exact ⟨And.left, fun h => ⟨h, hlength⟩⟩

theorem startsHtml_eq :
    startsHtml bytes =
      (fits ((ascii "<html").map fun b => some (letterForms b)) bytes ||
        fits ((ascii "<!doctype html").map fun b => some (letterForms b)) bytes) := by
  have hlower : ∀ a ∈ ascii "<html" ++ ascii "<!doctype html",
      (0x41 ≤ a && a ≤ 0x5A) = false := by
    have hall : ∀ a ∈ ascii "<html" ++ ascii "<!doctype html",
        (!(0x41 ≤ a && a ≤ 0x5A)) = true := all_eq_true.mp (by decide)
    intro a ha
    rw [← Bool.not_eq_true', hall a ha]
  have hshort := fits_map toAsciiLowercase
    (fun a ha => toAsciiLowercase_eq_iff (hlower a (mem_append_left _ ha))) bytes
  have hlong := fits_map toAsciiLowercase
    (fun a ha => toAsciiLowercase_eq_iff (hlower a (mem_append_right _ ha))) bytes
  rw [hshort, hlong, startsHtml, isPrefixOf_lowered (by decide), isPrefixOf_lowered (by decide)]

theorem webp_fits_eq :
    fits (ofBytes (ascii "RIFF") ++ replicate 4 none ++
        ofBytes (ascii "WEBP")) bytes =
      ((ascii "RIFF").isPrefixOf bytes && (bytes.drop 8).take 4 = ascii "WEBP") := by
  rw [fits_append, fits_append, fits_ofBytes, fits_ofBytes, fits_replicate_none, Bool.and_assoc]
  congr 1
  change (decide (4 ≤ (bytes.drop 4).length) && (ascii "WEBP").isPrefixOf (bytes.drop 8)) = _
  rw [Bool.eq_iff_iff, Bool.and_eq_true, decide_eq_true_eq, decide_eq_true_eq,
    isPrefixOf_iff_prefix, prefix_iff_eq_take]
  change 4 ≤ (bytes.drop 4).length ∧ ascii "WEBP" = (bytes.drop 8).take 4 ↔ _
  constructor
  · exact fun h => h.2.symm
  · intro h
    have hlength := congrArg List.length h
    rw [length_take, length_drop] at hlength
    have hweb : (ascii "WEBP").length = 4 := rfl
    refine ⟨?_, h.symm⟩
    rw [length_drop]
    omega

theorem valid_trimAsciiWhitespace :
    valid (trimAsciiWhitespace bytes) = valid bytes := by
  conv_rhs => rw [← takeWhile_append_dropWhile (p := isAsciiWhitespace) (l := bytes)]
  refine (valid_ascii_append (fun b hb => ?_) _).symm
  have hspace := mem_takeWhile_imp hb
  simp only [isAsciiWhitespace, Bool.or_eq_true, decide_eq_true_eq] at hspace
  obtain (((rfl | rfl) | rfl) | rfl) | rfl := hspace <;> decide

theorem classifyBytes_eq :
    classifyBytes bytes = match kindMark bytes with
      | some (kind, _) => kind
      | none => if valid bytes then .text else .unknown := by
  unfold classifyBytes kindMark BytePattern.lookup kindMarks
  dsimp only
  rw [valid_trimAsciiWhitespace, startsHtml_eq, isMedia, ← webp_fits_eq]
  simp only [← fits_ofBytes, find?_cons, find?_nil]
  generalize trimAsciiWhitespace bytes = trimmed
  -- the tests are made in the order of the marks
  cases fits (.ofBytes (ascii "\x7b")) trimmed
  case true => rfl
  cases fits (.ofBytes (ascii "[")) trimmed
  case true => rfl
  cases fits ((ascii "<html").map fun b => some (letterForms b)) trimmed
  case true => rfl
  cases fits ((ascii "<!doctype html").map fun b => some (letterForms b)) trimmed
  case true => rfl
  cases fits (.ofBytes [0x89, 0x50, 0x4E, 0x47, 0x0D, 0x0A, 0x1A, 0x0A]) trimmed
  case true => rfl
  cases fits (.ofBytes [0xFF, 0xD8, 0xFF]) trimmed
  case true => rfl
  cases fits (.ofBytes (ascii "GIF87a")) trimmed
  case true => rfl
  cases fits (.ofBytes (ascii "GIF89a")) trimmed
  case true => rfl
  cases fits (ofBytes (ascii "RIFF") ++ replicate 4 none ++
    ofBytes (ascii "WEBP")) trimmed
  case true => rfl
  rfl

/-! ## What the first bytes show -/

def leadingWhitespace : Nat := (bytes.takeWhile isAsciiWhitespace).length

theorem trimAsciiWhitespace_take (n : Nat) :
    trimAsciiWhitespace (bytes.take n) =
      (trimAsciiWhitespace bytes).take (n - leadingWhitespace bytes) := by
  induction bytes generalizing n with
  | nil => simp [trimAsciiWhitespace]
  | cons b bytes ih =>
    cases n with
    | zero => simp [trimAsciiWhitespace]
    | succ n =>
      simp only [trimAsciiWhitespace, leadingWhitespace] at ih
      simp only [trimAsciiWhitespace, leadingWhitespace, take_succ_cons, dropWhile_cons,
        takeWhile_cons]
      cases isAsciiWhitespace b with
      | true => simpa using ih n
      | false => simp

theorem kindMark_some {bytes : List UInt8} {kind : EntryKind} {length : Nat}
    (h : kindMark bytes = some (kind, length)) :
    0 < length ∧ kind ≠ .text ∧ kind ≠ .unknown := by
  obtain ⟨entry, hentry, heq⟩ := Option.map_eq_some_iff.mp h
  obtain ⟨rfl, rfl⟩ := Prod.mk.inj heq
  have hmarks : ∀ entry ∈ kindMarks,
      0 < entry.2.length ∧ entry.1 ≠ .text ∧ entry.1 ≠ .unknown := by decide +kernel
  exact hmarks entry (mem_of_find?_eq_some hentry)

theorem kindMark_take (n : Nat) :
    kindMark (bytes.take n) =
      (kindMark bytes).filter fun mark => leadingWhitespace bytes + mark.2 ≤ n := by
  rw [kindMark, trimAsciiWhitespace_take, lookup_take kindMarks_separate]
  change (kindMark bytes).filter _ = _
  cases hmark : kindMark bytes with
  | none => rfl
  | some mark =>
    obtain ⟨kind, length⟩ := mark
    have hpos := (kindMark_some hmark).1
    simp only [Option.filter_some, decide_eq_true_eq]
    congr 1
    rw [eq_iff_iff]
    omega

/-- The first bytes of the content show its kind: the mark that decides it ends among them, or
there is no mark and they are cut between two characters of a text, or they already hold what is
not UTF-8. -/
def ShownWithin (window : Nat) (bytes : List UInt8) : Prop :=
  match kindMark bytes with
  | some (_, length) => leadingWhitespace bytes + length ≤ window
  | none =>
    if valid bytes then ∀ b, bytes[window]? = some b → isTail b = false
    else valid (bytes.take window) = false

theorem classifyBytes_take_iff (window : Nat) :
    classifyBytes (bytes.take window) = classifyBytes bytes ↔ ShownWithin window bytes := by
  rw [classifyBytes_eq, classifyBytes_eq, kindMark_take, ShownWithin]
  cases hmark : kindMark bytes with
  | some mark =>
    obtain ⟨kind, length⟩ := mark
    obtain ⟨-, htext, hunknown⟩ := kindMark_some hmark
    by_cases hwithin : leadingWhitespace bytes + length ≤ window
    · simp [hwithin, Option.filter_some]
    · -- the mark is cut off, and what is left is text or unknown bytes
      simp only [Option.filter_some, hwithin, decide_false, Bool.false_eq_true, if_false, iff_false]
      split
      · exact htext.symm
      · exact hunknown.symm
  | none =>
    simp only [Option.filter_none]
    cases hvalid : valid bytes with
    | true =>
      simp only [if_true, ← valid_take_iff hvalid window]
      cases valid (bytes.take window) <;> simp
    | false => cases valid (bytes.take window) <;> simp

/-- The window of an entry whose first read fills it as far as the content goes. -/
theorem classifyPrefix_eq_whole_iff {stream : EntryStream}
    (hread : stream.firstRead 512 = .ok (stream.bytes.take 512)) :
    classifyPrefix stream = .ok (classifyBytes stream.bytes) ↔ ShownWithin 512 stream.bytes := by
  have hstart : classifyPrefix stream = .ok (classifyBytes (stream.bytes.take 512)) := by
    rw [classifyPrefix, hread]
    rfl
  rw [hstart, Except.ok.injEq, classifyBytes_take_iff]

/-- A page that begins within the window is seen. -/
theorem classifyPrefix_eq_whole_iff_page :
    ShownWithin 512 (ascii "\n <HTML>") ∧
      classifyPrefix (.ofBytes (ascii "\n <HTML>") false) =
        .ok (classifyBytes (ascii "\n <HTML>")) := by
  have hmark : kindMark (ascii "\n <HTML>") = some (.html, 5) := by decide +kernel
  have hshown : ShownWithin 512 (ascii "\n <HTML>") := by
    rw [ShownWithin, hmark]
    decide
  exact ⟨hshown, (classifyPrefix_eq_whole_iff (EntryStream.firstRead_ofBytes _ 512)).mpr hshown⟩

/-- A letter of two bytes that the window cuts makes a text unknown, and a page behind white space
that fills the window is taken for text and not quarantined. -/
theorem classifyPrefix_cut :
    (classifyPrefix (.ofBytes (List.replicate 511 0x61 ++ [0xC3, 0xA9]) false) = .ok .unknown ∧
      classifyBytes (List.replicate 511 0x61 ++ [0xC3, 0xA9]) = .text) ∧
    (classifyPrefix (.ofBytes (List.replicate 512 0x20 ++ ascii "<html>") false) = .ok .text ∧
      classifyBytes (List.replicate 512 0x20 ++ ascii "<html>") = .html ∧
      EntryKind.text.quarantined = false ∧ EntryKind.html.quarantined = true) := by
  decide +kernel

end ChatgptArchive
