import Mathlib.Data.List.Basic
import Mathlib.Data.String.Basic

/-!
# Paths into a document

A path is a list of segments. Its text has a separator before each segment, and the separator and
the escape sign are escaped within one, so that different paths have different texts.
-/

namespace ChatgptArchive.Pointer

open List

/-! ## Texts of paths -/

def escapeTilde (c : Char) : List Char := if c = '~' then ['~', '0'] else [c]

def escapeSlash (c : Char) : List Char := if c = '/' then ['~', '1'] else [c]

def escape (segment : String) : String :=
  -- the escape sign is replaced first, then the separator
  String.ofList ((segment.toList.flatMap escapeTilde).flatMap escapeSlash)

def child (path segment : String) : String := path ++ "/" ++ escape segment

variable (path : List String)

def text : String := path.foldl child ""

def escapeChar (c : Char) : List Char :=
  if c = '~' then ['~', '0'] else if c = '/' then ['~', '1'] else [c]

theorem toList_escape (segment : String) :
    (escape segment).toList = segment.toList.flatMap escapeChar := by
  rw [escape, String.toList_ofList, flatMap_assoc]
  refine flatMap_congr fun c _ => ?_
  unfold escapeTilde escapeChar
  split
  · rfl
  · rw [flatMap_singleton, escapeSlash]

theorem slash_notMem_escape (segment : String) : '/' ∉ (escape segment).toList := by
  rw [toList_escape]
  intro hmem
  obtain ⟨c, -, hc⟩ := mem_flatMap.mp hmem
  unfold escapeChar at hc
  split at hc
  · exact absurd hc (by decide)
  · split at hc
    · exact absurd hc (by decide)
    · rename_i hslash
      exact hslash (mem_singleton.mp hc).symm

theorem escapeChar_cases (c : Char) :
    (c = '~' ∧ escapeChar c = ['~', '0']) ∨ (c = '/' ∧ escapeChar c = ['~', '1']) ∨
      (c ≠ '~' ∧ escapeChar c = [c]) := by
  unfold escapeChar
  split
  · exact .inl ⟨‹_›, rfl⟩
  · split
    · exact .inr (.inl ⟨‹_›, rfl⟩)
    · exact .inr (.inr ⟨‹_›, rfl⟩)

def unescape : List Char → List Char
  | '~' :: '0' :: rest => '~' :: unescape rest
  | '~' :: '1' :: rest => '/' :: unescape rest
  | c :: rest => c :: unescape rest
  | [] => []

theorem unescape_escape (chars : List Char) : unescape (chars.flatMap escapeChar) = chars := by
  induction chars with
  | nil => rfl
  | cons c chars ih =>
    rw [flatMap_cons]
    rcases escapeChar_cases c with ⟨rfl, hescaped⟩ | ⟨rfl, hescaped⟩ | ⟨hplain, hescaped⟩
    · rw [hescaped]
      exact congrArg _ ih
    · rw [hescaped]
      exact congrArg _ ih
    · rw [hescaped, singleton_append, unescape, ih]
      all_goals exact fun _ heq => absurd heq hplain

theorem escape_of_plain {segment : String} (h : ∀ c ∈ segment.toList, c ≠ '~' ∧ c ≠ '/') :
    escape segment = segment := by
  refine String.toList_injective ?_
  rw [toList_escape]
  refine (flatMap_congr fun c hc => ?_).trans (flatMap_singleton' segment.toList)
  rw [escapeChar, if_neg (h c hc).1, if_neg (h c hc).2]

theorem text_concat (segment : String) :
    text (path ++ [segment]) = child (text path) segment := by
  rw [text, foldl_concat, text]

theorem toList_foldl_child : ∀ start : String, (path.foldl child start).toList =
      start.toList ++ path.flatMap fun segment => '/' :: (escape segment).toList := by
  induction path with
  | nil => exact fun start => (append_nil _).symm
  | cons segment path ih =>
    intro start
    rw [foldl_cons, ih, child, String.toList_append, String.toList_append, flatMap_cons]
    simp

theorem toList_text :
    (text path).toList = path.flatMap fun segment => '/' :: (escape segment).toList := by
  rw [text, toList_foldl_child]
  rfl

def parse (pointer : String) : Option (List String) :=
  match pointer.toList with
  | [] => some []
  | '/' :: rest => some ((rest.splitOn '/').map fun segment => String.ofList (unescape segment))
  | _ => none

theorem flatMap_eq_intercalate (segment : String) :
    ((segment :: path).flatMap fun segment => '/' :: (escape segment).toList) =
      '/' :: List.intercalate ['/'] ((segment :: path).map fun s => (escape s).toList) := by
  induction path generalizing segment with
  | nil => simp
  | cons next path ih =>
    rw [flatMap_cons, ih, map_cons, map_cons, map_cons, intercalate_cons_cons]
    simp

theorem parse_text : parse (text path) = some path := by
  rw [parse, toList_text]
  cases path with
  | nil => rfl
  | cons segment path =>
    rw [flatMap_eq_intercalate]
    show some ((List.splitOn '/' _).map _) = _
    rw [splitOn_intercalate, map_map, Option.some.injEq]
    · refine (map_congr_left fun segment _ => ?_).trans (map_id _)
      rw [Function.comp_apply, toList_escape, unescape_escape, String.ofList_toList, id]
    · intro chars hchars
      obtain ⟨segment, -, rfl⟩ := mem_map.mp hchars
      exact slash_notMem_escape segment
    · simp

theorem text_injective {p q : List String} (h : text p = text q) : p = q :=
  Option.some.inj ((parse_text p).symm.trans ((congrArg parse h).trans (parse_text q)))

/-! ## Recorded values -/

section Records

variable {α β : Type*} {s : String}

variable (segment : String)

def under (records : List (List String × α)) : List (List String × α) :=
  records.map fun record => (segment :: record.1, record.2)

def below (records : List (List String × α)) : List (List String × α) :=
  records.filterMap fun record =>
    match record.1 with
    | [] => none
    | s :: path => if s = segment then some (path, record.2) else none

def members (fields : List (String × α)) : List (List String × α) :=
  fields.map fun field => ([field.1], field.2)

def here (records : List (List String × α)) : List (String × α) :=
  records.filterMap fun record =>
    match record.1 with
    | [s] => some (s, record.2)
    | _ => none

theorem below_append (l r : List (List String × α)) :
    below segment (l ++ r) = below segment l ++ below segment r :=
  filterMap_append

theorem here_append (l r : List (List String × α)) : here (l ++ r) = here l ++ here r :=
  filterMap_append

theorem below_under_self (records : List (List String × α)) :
    below segment (under segment records) = records := by
  rw [below, under, filterMap_map]
  refine (filterMap_congr fun record _ => ?_).trans filterMap_some
  exact if_pos rfl

theorem below_under_of_ne {t : String} (h : t ≠ s) (records : List (List String × α)) :
    below s (under t records) = [] := by
  rw [below, under, filterMap_map]
  refine filterMap_eq_nil_iff.mpr fun record _ => ?_
  exact if_neg h

theorem below_members_of_absent {fields : List (String × α)} (h : s ∉ fields.map (·.1)) :
    below s (members fields) = [] := by
  rw [below, members, filterMap_map]
  refine filterMap_eq_nil_iff.mpr fun field hfield => if_neg fun heq => h ?_
  exact mem_map.mpr ⟨field, hfield, heq⟩

theorem here_members (fields : List (String × α)) : here (members fields) = fields := by
  rw [here, members, filterMap_map]
  exact (filterMap_congr fun field _ => rfl).trans filterMap_some

theorem here_under {records : List (List String × α)} (h : ∀ record ∈ records, record.1 ≠ [])
    (segment : String) : here (under segment records) = [] := by
  rw [here, under, filterMap_map]
  refine filterMap_eq_nil_iff.mpr fun record hrecord => ?_
  obtain ⟨path, value⟩ := record
  cases path with
  | nil => exact absurd rfl (h _ hrecord)
  | cons s path => rfl

theorem members_ne_nil (fields : List (String × α)) : ∀ record ∈ members fields, record.1 ≠ [] := by
  intro record hrecord
  obtain ⟨field, -, rfl⟩ := mem_map.mp hrecord
  exact cons_ne_nil _ _

theorem under_ne_nil (records : List (List String × α)) :
    ∀ record ∈ under segment records, record.1 ≠ [] := by
  intro record hrecord
  obtain ⟨r, -, rfl⟩ := mem_map.mp hrecord
  exact cons_ne_nil _ _

theorem below_flatMap_under {parts : List (String × β)} (hdistinct : (parts.map (·.1)).Nodup)
    (records : String → β → List (List String × α)) (segment : String) :
    below segment (parts.flatMap fun part => under part.1 (records part.1 part.2)) =
      (parts.lookup segment).elim [] (records segment) := by
  induction parts with
  | nil => rfl
  | cons part parts ih =>
    obtain ⟨s, b⟩ := part
    obtain ⟨hfirst, hdistinct⟩ := nodup_cons.mp hdistinct
    rw [flatMap_cons, below_append, ih hdistinct, lookup_cons]
    by_cases hs : segment = s
    · subst hs
      have habsent : parts.lookup segment = none := lookup_eq_none_iff.mpr fun p hp =>
        bne_iff_ne.mpr fun heq => hfirst (mem_map.mpr ⟨p, hp, heq.symm⟩)
      rw [below_under_self, beq_self_eq_true, habsent]
      exact append_nil _
    · rw [below_under_of_ne (Ne.symm hs), show (segment == s) = false by simpa using hs]
      rfl

end Records

end ChatgptArchive.Pointer
