import ChatgptArchive.Json

/-!
# The text of a value determines it

The compact text of a value can be read back in one way only: strings end at their closing quote,
numbers before the next delimiter, and everything else at its last bracket.
-/

namespace ChatgptArchive.Value

open List

variable {a : Value} {b : String} {r s : List Char}

/-! ## Strings -/

def hexVal (c : Char) : Nat := if c.isDigit then c.toNat - 48 else c.toNat - 87

theorem hexVal_hexDigit : ∀ n < 16, hexVal (hexDigit n) = n := by decide

def unescape : List Char → Option (Char × List Char)
  | '\\' :: 'n' :: rest => some ('\n', rest)
  | '\\' :: 'r' :: rest => some ('\r', rest)
  | '\\' :: 't' :: rest => some ('\t', rest)
  | '\\' :: 'b' :: rest => some (Char.ofNat 8, rest)
  | '\\' :: 'f' :: rest => some (Char.ofNat 12, rest)
  | '\\' :: 'u' :: _ :: _ :: a :: b :: rest => some (Char.ofNat (16 * hexVal a + hexVal b), rest)
  | '\\' :: c :: rest => some (c, rest)
  | c :: rest => some (c, rest)
  | [] => none

theorem unescape_escapeChar (c : Char) (rest : List Char) :
    unescape (escapeChar c ++ rest) = some (c, rest) := by
  have hcode : ∀ n, c.toNat = n → Char.ofNat n = c := fun n h => h ▸ Char.ofNat_toNat c
  unfold escapeChar
  split_ifs with hquote hslash hline hreturn htab hback hfeed hcontrol
  · subst hquote; rfl
  · subst hslash; rfl
  · subst hline; rfl
  · subst hreturn; rfl
  · subst htab; rfl
  · rw [← hcode 8 hback]; rfl
  · rw [← hcode 12 hfeed]; rfl
  · show some (Char.ofNat (16 * hexVal _ + hexVal _), rest) = _
    rw [hexVal_hexDigit _ (by omega), hexVal_hexDigit _ (by omega), Nat.div_add_mod,
      Char.ofNat_toNat]
  · simp [unescape, hslash]

theorem escaped_inj {a b : List Char}
    (h : a.flatMap escapeChar ++ '"' :: r = b.flatMap escapeChar ++ '"' :: s) : a = b ∧ r = s := by
  -- the closing quote is not the start of an escaped character
  have hquote : ∀ c rest t, escapeChar c ++ rest ≠ '"' :: t := by
    intro c rest t heq
    have hread := unescape_escapeChar c rest
    rw [heq] at hread
    cases hread
    cases heq
  induction a generalizing b with
  | nil =>
    cases b with
    | nil => exact ⟨rfl, tail_eq_of_cons_eq h⟩
    | cons d b => exact absurd (by simpa using h.symm) (hquote d _ r)
  | cons c a ih =>
    cases b with
    | nil => exact absurd (by simpa using h) (hquote c _ s)
    | cons d b =>
      rw [flatMap_cons, flatMap_cons, append_assoc, append_assoc] at h
      have hread := congrArg unescape h
      rw [unescape_escapeChar, unescape_escapeChar, Option.some.injEq, Prod.mk.injEq] at hread
      obtain ⟨hab, hrs⟩ := ih hread.2
      exact ⟨by rw [hread.1, hab], hrs⟩

/-! ## The characters of a value -/

def quoted (text : String) : List Char := '"' :: (text.toList.flatMap escapeChar ++ ['"'])

theorem toList_quote (text : String) : (quote text).toList = quoted text := by
  simp [quote, quoted]

theorem quoted_inj {a : String} (h : quoted a ++ r = quoted b ++ s) : a = b ∧ r = s := by
  simp only [quoted, cons_append, append_assoc, List.cons.injEq, true_and, nil_append] at h
  obtain ⟨htext, hrest⟩ := escaped_inj h
  exact ⟨String.toList_inj.mp htext, hrest⟩

mutual

def chars : Value → List Char
  | null => ['n', 'u', 'l', 'l']
  | bool true => ['t', 'r', 'u', 'e']
  | bool false => ['f', 'a', 'l', 's', 'e']
  | number text => text.toList
  | string text => quoted text
  | array [] => ['[', ']']
  | array (value :: values) => '[' :: (value.chars ++ valuesTail values)
  | object [] => ['\x7b', '\x7d']
  | object ((key, value) :: fields) =>
    '\x7b' :: (quoted key ++ ':' :: (value.chars ++ fieldsTail fields))

def valuesTail : List Value → List Char
  | [] => [']']
  | value :: values => ',' :: (value.chars ++ valuesTail values)

def fieldsTail : List (String × Value) → List Char
  | [] => ['\x7d']
  | (key, value) :: fields => ',' :: (quoted key ++ ':' :: (value.chars ++ fieldsTail fields))

end

mutual

theorem toList_toText : (value : Value) → value.toText.toList = value.chars
  | null | bool true | bool false | array [] | object [] => rfl
  | number text => rfl
  | string text => toList_quote text
  | array (value :: values) => by
    rw [toText, chars, ← toList_toText value, ← toList_valuesTail values]
    simp [textsOfValues]
  | object ((key, value) :: fields) => by
    have htail := toList_fieldsTail fields (quote key ++ ":" ++ value.toText)
    simp only [String.toList_append, toList_quote, toList_toText value] at htail
    rw [toText, chars]
    simp only [textsOfFields, String.toList_append, append_assoc] at htail ⊢
    simpa using htail

theorem toList_valuesTail : (values : List Value) → ∀ text : String,
    (",".intercalate (text :: textsOfValues values)).toList ++ [']'] =
      text.toList ++ valuesTail values
  | [], text => by simp [textsOfValues, valuesTail]
  | value :: values, text => by
    rw [valuesTail, ← toList_toText value, ← toList_valuesTail values]
    simp [textsOfValues, String.toList_intercalate]

theorem toList_fieldsTail : (fields : List (String × Value)) → ∀ text : String,
    (",".intercalate (text :: textsOfFields fields)).toList ++ ['\x7d'] =
      text.toList ++ fieldsTail fields
  | [], text => by simp [textsOfFields, fieldsTail]
  | (key, value) :: fields, text => by
    have htail := toList_fieldsTail fields (quote key ++ ":" ++ value.toText)
    simp only [String.toList_append, toList_quote, toList_toText value] at htail
    rw [fieldsTail]
    simp only [textsOfFields, String.toList_intercalate, map_cons,
      intercalate_cons_cons, append_assoc] at htail ⊢
    simpa using htail

end

/-! ## Reading back -/

def numberChars : List Char := "0123456789+-.eE".toList

def IsNumber (text : String) : Prop := text.toList ≠ [] ∧ ∀ c ∈ text.toList, c ∈ numberChars

instance (text : String) : Decidable (IsNumber text) :=
  @instDecidableAnd _ _ inferInstance (List.decidableBAll _ _)

theorem mem_numberChars_of_isDigit {c : Char} (h : c.isDigit = true) : c ∈ numberChars := by
  have hrange : 48 ≤ c.toNat ∧ c.toNat ≤ 57 := by
    simpa [Char.isDigit, UInt32.le_iff_toNat_le] using h
  have hall : ∀ m < 10, Char.ofNat (48 + m) ∈ numberChars := by decide
  have hdigit := hall (c.toNat - 48) (by omega)
  rwa [Nat.add_sub_cancel' hrange.1, Char.ofNat_toNat] at hdigit

theorem isNumber_toString (n : Nat) : IsNumber (toString n) := by
  rw [IsNumber, Nat.toString_eq_repr, Nat.toList_repr]
  exact ⟨Nat.toDigits_ne_nil, fun c hc =>
    mem_numberChars_of_isDigit (Nat.isDigit_of_mem_toDigits (by decide) (by decide) hc)⟩

mutual

def Numeric : Value → Prop
  | number text => IsNumber text
  | array values => NumericValues values
  | object fields => NumericFields fields
  | _ => True

def NumericValues : List Value → Prop
  | [] => True
  | value :: values => value.Numeric ∧ NumericValues values

def NumericFields : List (String × Value) → Prop
  | [] => True
  | (_, value) :: fields => value.Numeric ∧ NumericFields fields

end

def kind : Value → Nat
  | null => 0
  | bool _ => 1
  | number _ => 2
  | string _ => 3
  | array _ => 4
  | object _ => 5

def charKind (c : Char) : Option Nat :=
  if c = 'n' then some 0
  else if c = 't' ∨ c = 'f' then some 1
  else if c ∈ numberChars then some 2
  else if c = '"' then some 3
  else if c = '[' then some 4
  else if c = '\x7b' then some 5
  else none

theorem charKind_head {value : Value} (h : value.Numeric) (rest : List Char) :
    (value.chars ++ rest).head?.bind charKind = some value.kind := by
  have hnumber : ∀ c ∈ numberChars, charKind c = some 2 :=
    forall_iff_forall_mem.mp (by decide)
  cases value with
  | null => rfl
  | bool value => cases value <;> rfl
  | number text =>
    rw [Numeric] at h
    obtain ⟨hne, hall⟩ := h
    rw [chars]
    cases htext : text.toList with
    | nil => exact absurd htext hne
    | cons c cs => exact hnumber c (hall c (htext ▸ mem_cons_self))
  | string text => rfl
  | array values => cases values <;> rfl
  | object fields =>
    cases fields with
    | nil => rfl
    | cons field fields => rfl

def Stops (rest : List Char) : Prop := ∀ c ∈ rest.head?, c = ',' ∨ c = ']' ∨ c = '\x7d'

theorem stops_valuesTail (values : List Value) (rest : List Char) :
    Stops (valuesTail values ++ rest) := by
  cases values with
  | nil => simp [valuesTail, Stops]
  | cons value values => simp [valuesTail, Stops]

theorem stops_fieldsTail (fields : List (String × Value)) (rest : List Char) :
    Stops (fieldsTail fields ++ rest) := by
  cases fields with
  | nil => simp [fieldsTail, Stops]
  | cons field fields => simp [fieldsTail, Stops]

theorem number_inj {a : String} (ha : IsNumber a) (hb : IsNumber b) {r s : List Char} (hr : Stops r)
    (hs : Stops s) (h : a.toList ++ r = b.toList ++ s) : a = b ∧ r = s := by
  have htake : ∀ {text : String} {rest : List Char}, IsNumber text → Stops rest →
      (text.toList ++ rest).takeWhile (· ∈ numberChars) = text.toList := by
    intro text rest htext hrest
    have hstop : rest.takeWhile (· ∈ numberChars) = [] := by
      cases rest with
      | nil => rfl
      | cons c rest =>
        have hout : c ∉ numberChars := by
          rcases hrest c (List.head?_cons ▸ rfl) with rfl | rfl | rfl <;> decide
        rw [takeWhile_cons, decide_eq_false hout]
        rfl
    rw [takeWhile_append_of_pos fun c hc => decide_eq_true (htext.2 c hc), hstop, append_nil]
  have heq : a.toList = b.toList := by rw [← htake ha hr, h, htake hb hs]
  rw [heq] at h
  exact ⟨String.toList_inj.mp heq, append_cancel_left h⟩

theorem kind_eq_of_chars {b : Value} (ha : a.Numeric) (hb : b.Numeric) {r s : List Char}
    (h : a.chars ++ r = b.chars ++ s) : a.kind = b.kind := by
  have hlead := charKind_head ha r
  rw [h, charKind_head hb s] at hlead
  exact (Option.some.inj hlead).symm

theorem chars_ne_close (ha : a.Numeric) {c : Char} (hc : charKind c = none) {r s : List Char} :
    a.chars ++ r ≠ c :: s := by
  intro h
  have hlead := charKind_head ha r
  rw [h, List.head?_cons, Option.bind_some, hc] at hlead
  cases hlead

mutual

/-- The first character gives the kind of the value, and what follows cannot extend it. -/
theorem chars_inj : (a : Value) → a.Numeric → ∀ b : Value, b.Numeric → ∀ r s : List Char,
    Stops r → Stops s → a.chars ++ r = b.chars ++ s → a = b ∧ r = s
  | null, ha, b, hb, r, s, _, _, h => by
    have hkind := kind_eq_of_chars ha hb h
    cases b with
    | null => exact ⟨rfl, append_cancel_left h⟩
    | _ => cases hkind
  | bool a, ha, b, hb, r, s, _, _, h => by
    have hkind := kind_eq_of_chars ha hb h
    cases b with
    | bool b => cases a <;> cases b <;> simp_all [chars]
    | _ => cases hkind
  | number a, ha, b, hb, r, s, hr, hs, h => by
    have hkind := kind_eq_of_chars ha hb h
    cases b with
    | number b =>
      obtain ⟨rfl, hrest⟩ := number_inj ha hb hr hs h
      exact ⟨rfl, hrest⟩
    | _ => cases hkind
  | string a, ha, b, hb, r, s, _, _, h => by
    have hkind := kind_eq_of_chars ha hb h
    cases b with
    | string b =>
      obtain ⟨rfl, hrest⟩ := quoted_inj h
      exact ⟨rfl, hrest⟩
    | _ => cases hkind
  | array [], ha, b, hb, r, s, _, _, h => by
    have hkind := kind_eq_of_chars ha hb h
    cases b with
    | array bs =>
      cases bs with
      | nil => exact ⟨rfl, append_cancel_left h⟩
      | cons b bs =>
        simp only [chars, cons_append, append_assoc, List.cons.injEq, true_and] at h
        -- no value begins with the closing bracket
        exact absurd h.symm (chars_ne_close hb.1 (by decide))
    | _ => cases hkind
  | array (a :: as), ha, b, hb, r, s, _, _, h => by
    have hkind := kind_eq_of_chars ha hb h
    cases b with
    | array bs =>
      cases bs with
      | nil =>
        simp only [chars, cons_append, append_assoc, List.cons.injEq, true_and] at h
        exact absurd h (chars_ne_close ha.1 (by decide))
      | cons b bs =>
        simp only [chars, cons_append, append_assoc, List.cons.injEq, true_and] at h
        obtain ⟨rfl, htail⟩ := chars_inj a ha.1 b hb.1 _ _ (stops_valuesTail as r)
          (stops_valuesTail bs s) h
        obtain ⟨rfl, hrest⟩ := valuesTail_inj as ha.2 bs hb.2 r s htail
        exact ⟨rfl, hrest⟩
    | _ => cases hkind
  | object [], ha, b, hb, r, s, _, _, h => by
    have hkind := kind_eq_of_chars ha hb h
    cases b with
    | object bs =>
      cases bs with
      | nil => exact ⟨rfl, append_cancel_left h⟩
      | cons b bs => simp [chars, quoted] at h
    | _ => cases hkind
  | object ((key, a) :: as), ha, b, hb, r, s, _, _, h => by
    have hkind := kind_eq_of_chars ha hb h
    cases b with
    | object bs =>
      cases bs with
      | nil => simp [chars, quoted] at h
      | cons b bs =>
        simp only [chars, cons_append, append_assoc, List.cons.injEq, true_and] at h
        obtain ⟨hkey, hvalue⟩ := quoted_inj h
        obtain ⟨rfl, htail⟩ := chars_inj a ha.1 b.2 hb.1 _ _ (stops_fieldsTail as r)
          (stops_fieldsTail bs s) (tail_eq_of_cons_eq hvalue)
        obtain ⟨rfl, hrest⟩ := fieldsTail_inj as ha.2 bs hb.2 r s htail
        exact ⟨by rw [hkey], hrest⟩
    | _ => cases hkind

theorem valuesTail_inj : (as : List Value) → NumericValues as → ∀ bs : List Value,
    NumericValues bs → ∀ r s : List Char, valuesTail as ++ r = valuesTail bs ++ s →
      as = bs ∧ r = s
  | [], _, [], _, r, s, h => ⟨rfl, by simpa [valuesTail] using h⟩
  | [], _, b :: bs, _, r, s, h => by simp [valuesTail] at h
  | a :: as, _, [], _, r, s, h => by simp [valuesTail] at h
  | a :: as, ha, b :: bs, hb, r, s, h => by
    simp only [valuesTail, cons_append, append_assoc, List.cons.injEq, true_and] at h
    obtain ⟨rfl, htail⟩ := chars_inj a ha.1 b hb.1 _ _ (stops_valuesTail as r)
      (stops_valuesTail bs s) h
    obtain ⟨rfl, hrest⟩ := valuesTail_inj as ha.2 bs hb.2 r s htail
    exact ⟨rfl, hrest⟩

theorem fieldsTail_inj : (as : List (String × Value)) → NumericFields as →
    ∀ bs : List (String × Value), NumericFields bs → ∀ r s : List Char,
    fieldsTail as ++ r = fieldsTail bs ++ s → as = bs ∧ r = s
  | [], _, [], _, r, s, h => ⟨rfl, by simpa [fieldsTail] using h⟩
  | [], _, (key, b) :: bs, _, r, s, h => by simp [fieldsTail] at h
  | (key, a) :: as, _, [], _, r, s, h => by simp [fieldsTail] at h
  | (key, a) :: as, ha, (key', b) :: bs, hb, r, s, h => by
    simp only [fieldsTail, cons_append, append_assoc, List.cons.injEq, true_and] at h
    obtain ⟨rfl, hvalue⟩ := quoted_inj h
    obtain ⟨rfl, htail⟩ := chars_inj a ha.1 b hb.1 _ _ (stops_fieldsTail as r)
      (stops_fieldsTail bs s) (tail_eq_of_cons_eq hvalue)
    obtain ⟨rfl, hrest⟩ := fieldsTail_inj as ha.2 bs hb.2 r s htail
    exact ⟨rfl, hrest⟩

end

theorem toText_inj {b : Value} (ha : a.Numeric) (hb : b.Numeric) : a.toText = b.toText ↔ a = b := by
  refine ⟨fun h => ?_, congrArg toText⟩
  have hchars := congrArg (fun text : String => text.toList ++ []) h
  rw [toList_toText, toList_toText] at hchars
  exact (chars_inj a ha b hb [] [] nofun nofun hchars).1

end ChatgptArchive.Value
