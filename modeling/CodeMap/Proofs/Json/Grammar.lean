import CodeMap.Proofs.Json.Values
import Mathlib.Data.List.Forall2

/-! # Texts of values

The grammar of JSON, apart from all readers. `IsValueText` tells which texts are values at all:
brackets may be nested to any depth, numbers may be of any size, and an escape may name half a
character. `SpelledBy` tells which texts spell a given value: blanks may stand around every token, a
character of a string has several spellings, and an integer has one. What is printed is one of the
spellings (`spelledBy_render`).
-/

namespace CodeMap.Json

/-! ## Blanks and brackets -/

theorem isSpace_space : ∀ c ∈ [' '], isSpace c := List.forall_mem_singleton.mpr rfl

/-- A text between blanks. -/
structure Padded where
  before : List Char
  text : List Char
  behind : List Char
  isSpace_before : ∀ c ∈ before, isSpace c
  isSpace_behind : ∀ c ∈ behind, isSpace c

namespace Padded

/-- The text with its blanks. -/
def full (p : Padded) : List Char := p.before ++ (p.text ++ p.behind)

/-- A text behind blanks. -/
def after (blanks : List Char) (h : ∀ c ∈ blanks, isSpace c) (text : List Char) : Padded :=
  ⟨blanks, text, [], h, List.forall_mem_nil _⟩

@[simp] theorem text_after (blanks : List Char) (h : ∀ c ∈ blanks, isSpace c) (text : List Char) :
    (after blanks h text).text = text := rfl

/-- A text without blanks. -/
abbrev bare (text : List Char) : Padded := after [] (List.forall_mem_nil _) text

theorem full_after (blanks : List Char) (h : ∀ c ∈ blanks, isSpace c) (text : List Char) :
    (after blanks h text).full = blanks ++ text := by
  rw [full, after, List.append_nil]

end Padded

/-- The text of a member: a key and a value around a colon. -/
structure MemberText where
  key : Padded
  value : Padded

/-- The member with its colon and its blanks. -/
def MemberText.full (m : MemberText) : List Char := m.key.full ++ ':' :: m.value.full

/-- Parts between brackets, with commas between them and a gap before the closing bracket. -/
def enclosed (opening closing : Char) (parts : List (List Char)) (gap : List Char) : List Char :=
  opening :: ([','].intercalate parts ++ (gap ++ [closing]))

theorem intercalate_comma (part : List Char) (rest : List (List Char)) :
    [','].intercalate (part :: rest) = part ++ rest.flatMap (',' :: ·) := by
  induction rest generalizing part with
  | nil => simp
  | cons next rest ih =>
    rw [List.intercalate_cons_cons, ih, List.flatMap_cons, List.append_assoc,
      List.singleton_append, List.cons_append]

/-! ## Strings -/

/-- Four hexadecimal digits that spell a unit of sixteen bits. -/
def IsUnit (n : Nat) (digits : List Char) : Prop :=
  digits.length = 4 ∧ (∀ c ∈ digits, Text.isHexDigit c) ∧ Text.hexNumber digits = n

/-- The character may stand in a string as it is. -/
def IsPlain (c : Char) : Prop := 0x20 ≤ c.toNat ∧ c ≠ '"' ∧ c ≠ '\\'

/-- The spellings of a character inside a string. -/
inductive SpelledChar : Char → List Char → Prop where
  | plain {c : Char} (h : IsPlain c) : SpelledChar c [c]
  | letter {c l : Char} (h : escapeLetter? l = some c) : SpelledChar c ['\\', l]
  | unit {n : Nat} {digits : List Char} (h : IsUnit n digits) (hn : n < 0xD800 ∨ 0xDFFF < n) :
    SpelledChar (Char.ofNat n) ('\\' :: 'u' :: digits)
  | pair {high low : Nat} {first second : List Char} (h₁ : IsUnit (0xD800 + high) first)
    (hhigh : high < 0x400) (h₂ : IsUnit (0xDC00 + low) second) (hlow : low < 0x400) :
    SpelledChar (Char.ofNat (0x10000 + high * 0x400 + low))
      ('\\' :: 'u' :: (first ++ '\\' :: 'u' :: second))

/-- The text spells the string: between quotes, character by character. -/
def SpelledString (s : String) (text : List Char) : Prop :=
  ∃ pieces : List (List Char), List.Forall₂ SpelledChar s.toList pieces ∧
    text = '"' :: (pieces.flatten ++ ['"'])

/-- A piece of a string: a character as it is, or an escape. Half a character may stand alone. -/
inductive IsPiece : List Char → Prop where
  | plain {c : Char} (h : IsPlain c) : IsPiece [c]
  | letter {c l : Char} (h : escapeLetter? l = some c) : IsPiece ['\\', l]
  | unit {n : Nat} {digits : List Char} (h : IsUnit n digits) : IsPiece ('\\' :: 'u' :: digits)

/-- The text is a string. -/
def IsStringText (text : List Char) : Prop :=
  ∃ pieces : List (List Char), (∀ p ∈ pieces, IsPiece p) ∧ text = '"' :: (pieces.flatten ++ ['"'])

/-! ## Numbers -/

/-- One digit or more. -/
def IsDigits (digits : List Char) : Prop := digits ≠ [] ∧ ∀ c ∈ digits, c.isDigit

/-- Digits without a zero in front, or a zero. -/
def IsWhole (digits : List Char) : Prop :=
  IsDigits digits ∧ (digits.head? = some '0' → digits = ['0'])

/-- Digits behind a point, or nothing. -/
inductive IsFraction : List Char → Prop where
  | absent : IsFraction []
  | digits {digits : List Char} (h : IsDigits digits) : IsFraction ('.' :: digits)

/-- Digits behind the letter `e`, with or without a sign, or nothing. -/
inductive IsExponent : List Char → Prop where
  | absent : IsExponent []
  | digits {letter : Char} {sign digits : List Char} (hletter : letter ∈ ['e', 'E'])
    (hsign : sign ∈ [[], ['+'], ['-']]) (h : IsDigits digits) :
    IsExponent (letter :: (sign ++ digits))

/-- The text is a number. -/
def IsNumberText (text : List Char) : Prop :=
  ∃ sign whole fraction exponent, sign ∈ [[], ['-']] ∧ IsWhole whole ∧ IsFraction fraction ∧
    IsExponent exponent ∧ text = sign ++ (whole ++ (fraction ++ exponent))

/-! ## Values -/

/-- The text is a value. -/
inductive IsValueText : List Char → Prop where
  | null : IsValueText ['n', 'u', 'l', 'l']
  | isTrue : IsValueText ['t', 'r', 'u', 'e']
  | isFalse : IsValueText ['f', 'a', 'l', 's', 'e']
  | number {text : List Char} (h : IsNumberText text) : IsValueText text
  | string {text : List Char} (h : IsStringText text) : IsValueText text
  | array {parts : List Padded} {gap : List Char} (h : ∀ p ∈ parts, IsValueText p.text)
    (hgap : ∀ c ∈ gap, isSpace c) : IsValueText (enclosed '[' ']' (parts.map Padded.full) gap)
  | object {parts : List MemberText} {gap : List Char} (hkey : ∀ m ∈ parts, IsStringText m.key.text)
    (hvalue : ∀ m ∈ parts, IsValueText m.value.text) (hgap : ∀ c ∈ gap, isSpace c) :
    IsValueText (enclosed '\x7b' '\x7d' (parts.map MemberText.full) gap)

/-- The text spells the value. All numbers are integers, and an integer has one spelling. -/
inductive SpelledBy : Json → List Char → Prop where
  | null : SpelledBy .null ['n', 'u', 'l', 'l']
  | isTrue : SpelledBy (.bool true) ['t', 'r', 'u', 'e']
  | isFalse : SpelledBy (.bool false) ['f', 'a', 'l', 's', 'e']
  | number {n : Number} (h : n.isIntegral) : SpelledBy (.number n) n.render
  | string {s : String} {text : List Char} (h : SpelledString s text) : SpelledBy (.string s) text
  | array {parts : List (Json × Padded)} {gap : List Char}
    (h : ∀ p ∈ parts, SpelledBy p.1 p.2.text) (hgap : ∀ c ∈ gap, isSpace c) :
    SpelledBy (.array (parts.map Prod.fst)) (enclosed '[' ']' (parts.map fun p => p.2.full) gap)
  | object {parts : List ((String × Json) × MemberText)} {gap : List Char}
    (hkey : ∀ m ∈ parts, SpelledString m.1.1 m.2.key.text)
    (hvalue : ∀ m ∈ parts, SpelledBy m.1.2 m.2.value.text) (hgap : ∀ c ∈ gap, isSpace c) :
    SpelledBy (.object (parts.map Prod.fst))
      (enclosed '\x7b' '\x7d' (parts.map fun m => m.2.full) gap)

section

variable {gap : List Char} (hgap : ∀ c ∈ gap, isSpace c)

include hgap

theorem SpelledBy.empty_array : (Json.array []).SpelledBy (enclosed '[' ']' [] gap) :=
  @SpelledBy.array [] gap (List.forall_mem_nil _) hgap

theorem SpelledBy.empty_object : (Json.object []).SpelledBy (enclosed '\x7b' '\x7d' [] gap) :=
  @SpelledBy.object [] gap (List.forall_mem_nil _) (List.forall_mem_nil _) hgap

end

/-- The text spells the value, with blanks around it. -/
def HasText (v : Json) (text : String) : Prop :=
  ∃ p : Padded, v.SpelledBy p.text ∧ text = String.ofList p.full

/-! ## Spellings are values -/

theorem SpelledChar.exists_pieces {c : Char} {text : List Char} (h : SpelledChar c text) :
    ∃ pieces : List (List Char), (∀ p ∈ pieces, IsPiece p) ∧ text = pieces.flatten := by
  cases h with
  | plain h => exact ⟨[_], by simpa using .plain h, by simp⟩
  | letter h => exact ⟨[_], by simpa using .letter h, by simp⟩
  | unit h _ => exact ⟨[_], by simpa using .unit h, by simp⟩
  | pair h₁ _ h₂ _ => exact ⟨[_, _], by simpa using ⟨.unit h₁, .unit h₂⟩, by simp⟩

theorem exists_pieces {cs : List Char} {texts : List (List Char)}
    (h : List.Forall₂ SpelledChar cs texts) :
    ∃ pieces : List (List Char), (∀ p ∈ pieces, IsPiece p) ∧ texts.flatten = pieces.flatten := by
  induction h with
  | nil => exact ⟨[], List.forall_mem_nil _, rfl⟩
  | cons hc _ ih =>
    obtain ⟨pieces, hpieces, rfl⟩ := hc.exists_pieces
    obtain ⟨more, hmore, hrest⟩ := ih
    refine ⟨pieces ++ more, List.forall_mem_append.mpr ⟨hpieces, hmore⟩, ?_⟩
    rw [List.flatten_cons, hrest, List.flatten_append]

theorem SpelledString.isStringText {s : String} {text : List Char} (h : SpelledString s text) :
    IsStringText text := by
  obtain ⟨texts, hall, rfl⟩ := h
  obtain ⟨pieces, hpieces, htexts⟩ := exists_pieces hall
  exact ⟨pieces, hpieces, by rw [htexts]⟩

theorem isWhole_toDigits (n : Nat) : IsWhole (Nat.toDigits 10 n) := by
  refine ⟨⟨Nat.toDigits_ne_nil, fun c hc =>
    Nat.isDigit_of_mem_toDigits (by decide) (by decide) hc⟩, fun hhead => ?_⟩
  rcases Nat.eq_zero_or_pos n with rfl | hpos
  · exact Nat.toDigits_zero 10
  · exact absurd hhead (head?_toDigits_ne_zero hpos)

theorem Number.isNumberText_render {n : Number} (h : n.isIntegral) : IsNumberText n.render := by
  cases n with
  | natural n =>
    exact ⟨[], _, [], [], by decide, isWhole_toDigits n.toNat, .absent, .absent, by simp [render]⟩
  | negative n =>
    exact ⟨['-'], _, [], [], by decide, isWhole_toDigits (n.val + 1), .absent, .absent,
      by simp [render]⟩
  | real x => cases h

theorem SpelledBy.isValueText {v : Json} {text : List Char} (h : v.SpelledBy text) :
    IsValueText text := by
  induction h with
  | null => exact .null
  | isTrue => exact .isTrue
  | isFalse => exact .isFalse
  | number h => exact .number (Number.isNumberText_render h)
  | string h => exact .string h.isStringText
  | @array parts gap _ hgap ih =>
    have hfull : (parts.map fun p => p.2.full) = (parts.map Prod.snd).map Padded.full := by
      rw [List.map_map, Function.comp_def]
    rw [hfull]
    exact .array (List.forall_mem_map.mpr ih) hgap
  | @object parts gap hkey _ hgap ih =>
    have hfull : (parts.map fun m => m.2.full) = (parts.map Prod.snd).map MemberText.full := by
      rw [List.map_map, Function.comp_def]
    rw [hfull]
    exact .object (List.forall_mem_map.mpr fun m hm => (hkey m hm).isStringText)
      (List.forall_mem_map.mpr ih) hgap

/-! ## First characters -/

/-- The text begins with something else than a blank or the end of an array. -/
def Begins (text : List Char) : Prop :=
  ∃ c rest, text = c :: rest ∧ isSpace c = false ∧ c ≠ ']'

theorem Begins.cons {c : Char} (rest : List Char) (h : isSpace c = false ∧ c ≠ ']') :
    Begins (c :: rest) := ⟨c, rest, rfl, h⟩

theorem isSpace_of_isDigit {c : Char} (h : c.isDigit) : isSpace c = false ∧ c ≠ ']' := by
  have hne : ∀ d : Char, d.isDigit = false → c ≠ d := by
    rintro d hd rfl
    rw [h] at hd
    cases hd
  simp [isSpace, hne ' ' (by decide), hne '\n' (by decide), hne '\t' (by decide),
    hne '\r' (by decide), hne ']' (by decide)]

theorem IsNumberText.exists_cons {text : List Char} (h : IsNumberText text) :
    ∃ c rest, text = c :: rest ∧ (c = '-' ∨ c.isDigit) := by
  obtain ⟨sign, whole, fraction, exponent, hsign, ⟨⟨hne, hdigits⟩, -⟩, -, -, rfl⟩ := h
  obtain ⟨c, rest, rfl⟩ := List.exists_cons_of_ne_nil hne
  simp only [List.mem_cons, List.not_mem_nil, or_false] at hsign
  rcases hsign with rfl | rfl
  · exact ⟨c, _, rfl, .inr (hdigits c List.mem_cons_self)⟩
  · exact ⟨'-', _, rfl, .inl rfl⟩

theorem IsValueText.begins {text : List Char} (h : IsValueText text) : Begins text := by
  cases h with
  | null => exact .cons _ (by decide)
  | isTrue => exact .cons _ (by decide)
  | isFalse => exact .cons _ (by decide)
  | array => exact .cons _ (by decide)
  | object => exact .cons _ (by decide)
  | number h =>
    obtain ⟨c, rest, rfl, rfl | hc⟩ := h.exists_cons
    · exact .cons _ (by decide)
    · exact .cons _ (isSpace_of_isDigit hc)
  | string h =>
    obtain ⟨pieces, -, rfl⟩ := h
    exact .cons _ (by decide)

/-! ## The printed form -/

theorem spelledChar_escapeChar (c : Char) : SpelledChar c (escapeChar c) := by
  unfold escapeChar
  split
  case h_8 _ hquote hbackslash _ _ _ _ _ =>
    split
    · next hc =>
      have hunit : IsUnit c.toNat
          ['0', '0', Nat.digitChar (c.toNat / 16), Nat.digitChar (c.toNat % 16)] := by
        have hhigh := hexDigit?_digitChar (n := c.toNat / 16) (by omega)
        have hlow := hexDigit?_digitChar (n := c.toNat % 16) (by omega)
        have hzero : Text.hexDigit? '0' = some 0 := by decide
        refine ⟨rfl, ?_, ?_⟩
        · simp [Text.isHexDigit, hhigh, hlow, hzero]
        · simp only [Text.hexNumber, List.foldl_cons, List.foldl_nil, hhigh, hlow, hzero,
            Option.getD_some]
          omega
      have h := SpelledChar.unit hunit (.inl (by omega))
      rwa [Char.ofNat_toNat] at h
    · next hc => exact .plain ⟨Nat.not_lt.mp hc, hquote, hbackslash⟩
  all_goals exact .letter rfl

theorem spelledString_render (s : String) : SpelledString s (renderString s) := by
  refine ⟨s.toList.map escapeChar, ?_, by rw [renderString, List.flatMap_def, List.cons_append]⟩
  exact List.forall₂_map_right_iff.mpr (List.forall₂_same.mpr fun c _ => spelledChar_escapeChar c)

theorem isSpace_colon (style : Style) :
    ∃ blanks, (∀ c ∈ blanks, isSpace c) ∧ style.colon = ':' :: blanks := by
  cases style with
  | compact => exact ⟨[], List.forall_mem_nil _, rfl⟩
  | indented => exact ⟨[' '], isSpace_space, rfl⟩

mutual

/-- What is printed spells the value. -/
theorem spelledBy_render (style : Style) (depth : Nat) : (v : Json) → v.isIntegral →
    v.SpelledBy (v.render style depth)
  | .null, _ => .null
  | .bool true, _ => .isTrue
  | .bool false, _ => .isFalse
  | .number _, h => .number h
  | .string s, _ => .string (spelledString_render s)
  | .array [], _ => .empty_array (List.forall_mem_nil _)
  | .array (v :: rest), h => by
    obtain ⟨hv, hrest⟩ := List.forall_mem_cons.mp (isIntegral_array.mp h)
    obtain ⟨parts, rfl, hparts, htext⟩ := spelledBy_renderItems style (depth + 1) rest hrest
    have hspace := isSpace_lineBreak style (depth + 1)
    have harray := @SpelledBy.array ((v, .after _ hspace (v.render style (depth + 1))) :: parts) _
      (List.forall_mem_cons.mpr ⟨spelledBy_render style (depth + 1) v hv, hparts⟩)
      (isSpace_lineBreak style depth)
    rw [List.map_cons, List.map_cons, enclosed, intercalate_comma, List.flatMap_map,
      Padded.full_after, ← htext] at harray
    simpa only [render, List.cons_append, List.append_assoc] using harray
  | .object [], _ => .empty_object (List.forall_mem_nil _)
  | .object ((k, v) :: rest), h => by
    obtain ⟨hv, hrest⟩ := List.forall_mem_cons.mp (isIntegral_object.mp h)
    obtain ⟨parts, rfl, hkeys, hparts, htext⟩ :=
      spelledBy_renderMembers style (depth + 1) rest hrest
    have hspace := isSpace_lineBreak style (depth + 1)
    obtain ⟨blanks, hblanks, hcolon⟩ := isSpace_colon style
    have hobject := @SpelledBy.object
      (((k, v), ⟨.after _ hspace (renderString k),
        .after _ hblanks (v.render style (depth + 1))⟩) :: parts) _
      (List.forall_mem_cons.mpr ⟨spelledString_render k, hkeys⟩)
      (List.forall_mem_cons.mpr ⟨spelledBy_render style (depth + 1) v hv, hparts⟩)
      (isSpace_lineBreak style depth)
    rw [List.map_cons, List.map_cons, enclosed, intercalate_comma, List.flatMap_map,
      MemberText.full, Padded.full_after, Padded.full_after, ← htext] at hobject
    simpa only [render, hcolon, List.cons_append, List.append_assoc] using hobject

theorem spelledBy_renderItems (style : Style) (depth : Nat) : (items : List Json) →
    (∀ v ∈ items, v.isIntegral) → ∃ parts : List (Json × Padded), parts.map Prod.fst = items ∧
      (∀ p ∈ parts, p.1.SpelledBy p.2.text) ∧
        renderItems style depth items = parts.flatMap fun p => ',' :: p.2.full
  | [], _ => ⟨[], rfl, List.forall_mem_nil _, rfl⟩
  | v :: rest, h => by
    obtain ⟨hv, hrest⟩ := List.forall_mem_cons.mp h
    obtain ⟨parts, rfl, hparts, htext⟩ := spelledBy_renderItems style depth rest hrest
    refine ⟨(v, .after _ (isSpace_lineBreak style depth) (v.render style depth)) :: parts, rfl,
      List.forall_mem_cons.mpr ⟨spelledBy_render style depth v hv, hparts⟩, ?_⟩
    simp only [renderItems, List.flatMap_cons, Padded.full_after, htext, List.cons_append,
      List.append_assoc]

theorem spelledBy_renderMembers (style : Style) (depth : Nat) : (members : List (String × Json)) →
    (∀ m ∈ members, m.2.isIntegral) → ∃ parts : List ((String × Json) × MemberText),
      parts.map Prod.fst = members ∧ (∀ m ∈ parts, SpelledString m.1.1 m.2.key.text) ∧
        (∀ m ∈ parts, m.1.2.SpelledBy m.2.value.text) ∧
          renderMembers style depth members = parts.flatMap fun m => ',' :: m.2.full
  | [], _ => ⟨[], rfl, List.forall_mem_nil _, List.forall_mem_nil _, rfl⟩
  | (k, v) :: rest, h => by
    obtain ⟨hv, hrest⟩ := List.forall_mem_cons.mp h
    obtain ⟨parts, rfl, hkeys, hparts, htext⟩ := spelledBy_renderMembers style depth rest hrest
    obtain ⟨blanks, hblanks, hcolon⟩ := isSpace_colon style
    refine ⟨((k, v), ⟨.after _ (isSpace_lineBreak style depth) (renderString k),
      .after _ hblanks (v.render style depth)⟩) :: parts, rfl,
      List.forall_mem_cons.mpr ⟨spelledString_render k, hkeys⟩,
      List.forall_mem_cons.mpr ⟨spelledBy_render style depth v hv, hparts⟩, ?_⟩
    simp only [renderMembers, List.flatMap_cons, MemberText.full, Padded.full_after, htext, hcolon,
      List.cons_append, List.append_assoc]

end

/-- A printed value is a text of it. -/
theorem hasText_render (style : Style) {v : Json} (h : v.isIntegral) :
    v.HasText (String.ofList (v.render style 0)) :=
  ⟨.bare (v.render style 0), spelledBy_render style 0 v h,
    by rw [Padded.full_after, List.nil_append]⟩

end CodeMap.Json
