import CodeMap.Proofs.Json.Spellings

/-! # Values skipped

The reader that skips a value skips every text that is a value (`IsValueText.takes_skip`): brackets
to any depth, numbers of any size, and escapes that name half a character. While brackets are open,
what is skipped next depends on the innermost one only, and behind the value it goes on there
(`skipBehind`, `IsSkipped`).
-/

namespace CodeMap.Json

/-! ## Tokens -/

/-- The digits before a text that begins with no digit are taken off. -/
theorem takeDigits_append_of_head? {digits rest : List Char} (hd : ∀ c ∈ digits, c.isDigit)
    (hr : ∀ c ∈ rest.head?, c.isDigit = false) : takeDigits (digits ++ rest) = (digits, rest) := by
  have htake : rest.takeWhile Char.isDigit = [] ∧ rest.dropWhile Char.isDigit = rest := by
    cases rest with
    | nil => exact ⟨rfl, rfl⟩
    | cons c rest => simp [hr c rfl]
  rw [takeDigits, List.takeWhile_append_of_pos hd, List.dropWhile_append_of_pos hd, htake.1,
    htake.2, List.append_nil]

theorem EndsNumber.head? {rest : List Char} (h : EndsNumber rest) :
    ∀ c ∈ rest.head?, c.isDigit = false := fun c hc => (h c hc).1

/-- A number without a sign does not begin with one. -/
theorem IsWhole.append_ne_minus {whole : List Char} (h : IsWhole whole) (rest more : List Char) :
    whole ++ rest ≠ '-' :: more := by
  intro hminus
  obtain ⟨c, digits, rfl⟩ := List.exists_cons_of_ne_nil h.1.1
  obtain ⟨rfl, -⟩ := List.cons.inj hminus
  exact absurd (h.1.2 '-' List.mem_cons_self) (by decide)

theorem IsDigits.skipPower_eq {digits rest : List Char} (h : IsDigits digits)
    (hr : EndsNumber rest) {sign : List Char} (hsign : sign ∈ [[], ['+'], ['-']]) :
    skipPower (sign ++ (digits ++ rest)) = .ok rest := by
  have htake := takeDigits_append_of_head? h.2 hr.head?
  obtain ⟨c, more, rfl⟩ := List.exists_cons_of_ne_nil h.1
  have hc : c ≠ '+' ∧ c ≠ '-' := by
    have hdigit := h.2 c List.mem_cons_self
    constructor <;> rintro rfl <;> exact absurd hdigit (by decide)
  simp only [List.mem_cons, List.not_mem_nil, or_false] at hsign
  rcases hsign with rfl | rfl | rfl <;> simp_all [skipPower]

theorem IsExponent.skipExponent_eq {exponent rest : List Char} (h : IsExponent exponent)
    (hr : EndsNumber rest) : skipExponent (exponent ++ rest) = .ok rest := by
  cases h with
  | absent =>
    rw [List.nil_append, skipExponent]
    · rintro _ rfl
      exact (hr 'e' rfl).2.2.1 rfl
    · rintro _ rfl
      exact (hr 'E' rfl).2.2.2 rfl
  | @digits letter sign digits hletter hsign hd =>
    rw [List.cons_append, List.append_assoc]
    simp only [List.mem_cons, List.not_mem_nil, or_false] at hletter
    rcases hletter with rfl | rfl <;> exact hd.skipPower_eq hr hsign

/-- What stands behind the digits before the point begins with no digit. -/
theorem IsExponent.head?_append {exponent rest : List Char} (h : IsExponent exponent)
    (hr : EndsNumber rest) : ∀ c ∈ (exponent ++ rest).head?, c.isDigit = false ∧ c ≠ '.' := by
  cases h with
  | absent => exact fun c hc => ⟨(hr c hc).1, (hr c hc).2.1⟩
  | digits hletter _ _ =>
    rintro _ ⟨⟩
    simp only [List.mem_cons, List.not_mem_nil, or_false] at hletter
    rcases hletter with rfl | rfl <;> decide

theorem IsFraction.head?_append {fraction rest : List Char} (h : IsFraction fraction)
    (hr : ∀ c ∈ rest.head?, c.isDigit = false) :
    ∀ c ∈ (fraction ++ rest).head?, c.isDigit = false := by
  cases h with
  | absent => exact hr
  | digits _ =>
    rintro _ ⟨⟩
    decide

theorem IsFraction.skipFraction_eq {fraction exponent rest : List Char} (h : IsFraction fraction)
    (he : IsExponent exponent) (hr : EndsNumber rest) :
    skipFraction (fraction ++ (exponent ++ rest)) = .ok rest := by
  have hhead := he.head?_append hr
  have hexponent := he.skipExponent_eq hr
  cases h with
  | absent =>
    rw [List.nil_append, skipFraction]
    · exact hexponent
    · intro _ he
      rw [he] at hhead
      exact (hhead '.' rfl).2 rfl
  | @digits digits hd =>
    have htake := takeDigits_append_of_head? hd.2 fun c hc => (hhead c hc).1
    obtain ⟨c, more, rfl⟩ := List.exists_cons_of_ne_nil hd.1
    simp only [List.cons_append, skipFraction] at htake ⊢
    rw [htake]
    exact hexponent

theorem IsNumberText.skipNumber_eq {text rest : List Char} (h : IsNumberText text)
    (hr : EndsNumber rest) : skipNumber (text ++ rest) = .ok rest := by
  obtain ⟨sign, whole, fraction, exponent, hsign, hwhole, hfraction, hexponent, rfl⟩ := h
  have hbehind := hfraction.skipFraction_eq hexponent hr
  have hhead := hfraction.head?_append fun c hc => (hexponent.head?_append hr c hc).1
  have hunsigned : skipUnsigned (whole ++ (fraction ++ (exponent ++ rest))) = .ok rest := by
    rw [skipUnsigned, takeDigits_append_of_head? hwhole.1.2 hhead]
    split
    · next he => exact absurd (Prod.mk.inj he).1 hwhole.1.1
    · next he =>
      obtain ⟨rfl, -⟩ := Prod.mk.inj he
      exact absurd (hwhole.2 rfl) (by simp)
    · next he =>
      obtain ⟨-, rfl⟩ := Prod.mk.inj he
      exact hbehind
  rw [List.append_assoc, List.append_assoc, List.append_assoc]
  simp only [List.mem_cons, List.not_mem_nil, or_false] at hsign
  rcases hsign with rfl | rfl
  · rw [List.nil_append, skipNumber]
    · exact hunsigned
    · exact fun more => hwhole.append_ne_minus _ more
  · exact hunsigned

theorem IsPiece.skipString_eq {piece : List Char} (h : IsPiece piece) (rest : List Char) :
    skipString (piece ++ rest) = skipString rest := by
  cases h with
  | plain h =>
    obtain ⟨hc, hquote, hbackslash⟩ := h
    rw [List.singleton_append, skipString, if_neg (Nat.not_lt.mpr hc)]
    · exact hquote
    · exact fun h => absurd h hbackslash
    · exact fun _ h => absurd h hbackslash
    · exact fun _ _ h => absurd h hbackslash
  | letter h =>
    rw [List.cons_append, List.singleton_append, skipString]
    · simp only [h]
    · rintro rfl
      cases h
  | unit h =>
    rw [List.cons_append, List.cons_append, skipString]
    split
    · next he =>
      rw [h.hexUnit_eq] at he
      cases he
    · next he =>
      rw [h.hexUnit_eq] at he
      cases he
      rfl

theorem IsStringText.exists_body {text : List Char} (h : IsStringText text) :
    ∃ body, text = '"' :: body ∧ ∀ rest, skipString (body ++ rest) = .ok rest := by
  obtain ⟨pieces, hpieces, rfl⟩ := h
  refine ⟨_, rfl, fun rest => ?_⟩
  rw [List.append_assoc, List.singleton_append]
  induction pieces with
  | nil => simp [skipString]
  | cons piece pieces ih =>
    obtain ⟨hpiece, hrest⟩ := List.forall_mem_cons.mp hpieces
    rw [List.flatten_cons, List.append_assoc, hpiece.skipString_eq, ih hrest]

/-! ## Brackets -/

/-- Skipping goes on behind a value: it ends if no bracket is open. -/
def skipBehind (brackets : List Bracket) (rest : List Char) : Except Fault (List Char) :=
  match brackets with
  | [] => .ok rest
  | bracket :: outer => skipFrom .commaOrEnd (bracket :: outer) rest

/-- The text is skipped inside these brackets, with blanks before it. -/
def IsSkipped (brackets : List Bracket) (text : List Char) : Prop :=
  ∀ {blanks rest : List Char}, (∀ c ∈ blanks, isSpace c) → EndsNumber rest →
    skipFrom .value brackets (blanks ++ (text ++ rest)) = skipBehind brackets rest

/-- A token that ends a value. -/
theorem skipFrom_of_end {awaited : Awaited} {brackets outer : List Bracket} {s rest : List Char}
    (h : skipToken awaited brackets (skipBlanks s) = .ok ⟨outer, .commaOrEnd, rest⟩) :
    skipFrom awaited brackets s = skipBehind outer rest := by
  rw [skipFrom]
  split
  · next he =>
    rw [h] at he
    cases he
  · next he =>
    rw [h] at he
    cases he
    rfl
  · next he =>
    rw [h] at he
    cases he
    cases outer with
    | nil => simp_all
    | cons bracket outer => rfl

/-- A token behind which something else is awaited than a comma. -/
theorem skipFrom_of_token {awaited next : Awaited} {brackets inner : List Bracket}
    {s rest : List Char} (hnext : next ≠ .commaOrEnd)
    (h : skipToken awaited brackets (skipBlanks s) = .ok ⟨inner, next, rest⟩) :
    skipFrom awaited brackets s = skipFrom next inner rest := by
  rw [skipFrom]
  split
  · next he =>
    rw [h] at he
    cases he
  · next he =>
    rw [h] at he
    cases he
    exact absurd rfl hnext
  · next he =>
    rw [h] at he
    cases he
    rfl

theorem skipToken_value (brackets : List Bracket) (s : List Char) :
    skipToken .value brackets s = skipValueToken brackets s := by
  simp [skipToken]

/-- What begins with a sign or a digit is skipped as a number. -/
theorem skipValueToken_of_number (brackets : List Bracket) {c : Char} (rest : List Char)
    (h : c = '-' ∨ c.isDigit) :
    skipValueToken brackets (c :: rest) =
      (skipNumber (c :: rest)).map (⟨brackets, .commaOrEnd, ·⟩) := by
  have hne : ∀ d : Char, (d = '-' ∨ d.isDigit) = False → c ≠ d := by
    rintro d hd rfl
    exact hd ▸ h
  unfold skipValueToken
  split
  case h_8 he =>
    obtain ⟨rfl, rfl⟩ := List.cons.inj he
    rw [if_pos (by simpa using h)]
  case h_1 he => cases he
  all_goals
    next he => exact absurd (List.cons.inj he).1 (hne _ (by decide))

/-- The text of a value without brackets is one token. -/
theorem skipFrom_of_value {brackets : List Bracket} {blanks text rest : List Char}
    (hb : ∀ c ∈ blanks, isSpace c) (ht : Begins text)
    (h : skipValueToken brackets (text ++ rest) = .ok ⟨brackets, .commaOrEnd, rest⟩) :
    skipFrom .value brackets (blanks ++ (text ++ rest)) = skipBehind brackets rest := by
  refine skipFrom_of_end ?_
  rw [skipBlanks_begins hb ht, skipToken_value, h]

/-- The first element of an array is skipped like any other. -/
theorem skipFrom_firstItem {brackets : List Bracket} {blanks text : List Char}
    (hb : ∀ c ∈ blanks, isSpace c) (ht : Begins text) (rest : List Char) :
    skipFrom .firstItem brackets (blanks ++ (text ++ rest)) =
      skipFrom .value brackets (blanks ++ (text ++ rest)) := by
  have htoken : skipToken .firstItem brackets (skipBlanks (blanks ++ (text ++ rest))) =
      skipToken .value brackets (skipBlanks (blanks ++ (text ++ rest))) := by
    rw [skipBlanks_begins hb ht]
    obtain ⟨c, more, rfl, -, hclose⟩ := ht
    cases brackets <;> simp [skipToken, hclose]
  rw [skipFrom, skipFrom, htoken]

/-! ## Arrays -/

theorem skipFrom_open_square (brackets : List Bracket) {blanks : List Char}
    (hb : ∀ c ∈ blanks, isSpace c) (s : List Char) :
    skipFrom .value brackets (blanks ++ '[' :: s) =
      skipFrom .firstItem (.square :: brackets) s := by
  refine skipFrom_of_token (by decide) ?_
  rw [skipBlanks_append hb (by decide), skipToken_value]
  rfl

/-- The elements behind one of them are skipped, up to the closing bracket. -/
theorem skipFrom_behindItems {parts : List Padded} {gap : List Char} (brackets : List Bracket)
    (hvalue : ∀ p ∈ parts, IsValueText p.text)
    (h : ∀ p ∈ parts, IsSkipped (.square :: brackets) p.text)
    (hgap : ∀ c ∈ gap, isSpace c) (rest : List Char) {blanks : List Char}
    (hb : ∀ c ∈ blanks, isSpace c) :
    skipBehind (.square :: brackets) (blanks ++ behindItems parts gap rest) =
      skipBehind brackets rest := by
  induction parts generalizing blanks with
  | nil =>
    refine skipFrom_of_end ?_
    show skipToken _ _ (skipBlanks (blanks ++ (gap ++ ']' :: rest))) = _
    rw [skipBlanks_blanks hb, skipBlanks_append hgap (by decide)]
    rfl
  | cons p parts ih =>
    obtain ⟨hp, hvalues⟩ := List.forall_mem_cons.mp hvalue
    obtain ⟨hskip, hrest⟩ := List.forall_mem_cons.mp h
    have hends := endsNumber_behindItems parts hgap rest
    have hcomma : skipBehind (.square :: brackets) (blanks ++ behindItems (p :: parts) gap rest) =
        skipFrom .value (.square :: brackets)
          (p.before ++ (p.text ++ (p.behind ++ behindItems parts gap rest))) := by
      refine skipFrom_of_token (by decide) ?_
      rw [behindItems_cons, skipBlanks_append hb (by decide)]
      rfl
    rw [hcomma, hskip p.isSpace_before (endsNumber_blanks p.isSpace_behind hends),
      ih hvalues hrest p.isSpace_behind]

/-- An array is skipped, if its elements are. -/
theorem isSkipped_array {parts : List Padded} {gap : List Char} (brackets : List Bracket)
    (hvalue : ∀ p ∈ parts, IsValueText p.text)
    (h : ∀ p ∈ parts, IsSkipped (.square :: brackets) p.text)
    (hgap : ∀ c ∈ gap, isSpace c) :
    IsSkipped brackets (enclosed '[' ']' (parts.map Padded.full) gap) := by
  intro blanks rest hb _
  cases parts with
  | nil =>
    rw [List.map_nil, enclosed_nil, skipFrom_open_square brackets hb]
    refine skipFrom_of_end ?_
    rw [skipBlanks_append hgap (by decide)]
    rfl
  | cons p parts =>
    obtain ⟨hp, hvalues⟩ := List.forall_mem_cons.mp hvalue
    obtain ⟨hskip, hrest⟩ := List.forall_mem_cons.mp h
    have hends := endsNumber_behindItems parts hgap rest
    rw [enclosed_items, skipFrom_open_square brackets hb,
      skipFrom_firstItem p.isSpace_before hp.begins,
      hskip p.isSpace_before (endsNumber_blanks p.isSpace_behind hends),
      skipFrom_behindItems brackets hvalues hrest hgap rest p.isSpace_behind]

/-! ## Objects -/

theorem skipFrom_open_curly (brackets : List Bracket) {blanks : List Char}
    (hb : ∀ c ∈ blanks, isSpace c) (s : List Char) :
    skipFrom .value brackets (blanks ++ '\x7b' :: s) =
      skipFrom .firstKey (.curly :: brackets) s := by
  refine skipFrom_of_token (by decide) ?_
  rw [skipBlanks_append hb (by decide), skipToken_value]
  rfl

/-- A key and its colon are skipped. -/
theorem skipFrom_key {awaited : Awaited} (hawaited : awaited ∈ [Awaited.firstKey, .key])
    (brackets : List Bracket) {m : MemberText} {keyBody : List Char}
    (hkey : ∀ rest, skipString (keyBody ++ rest) = .ok rest) (rest : List Char) :
    skipFrom awaited (.curly :: brackets) (m.key.before ++ '"' :: m.behindQuote keyBody rest) =
      skipFrom .value (.curly :: brackets)
        (m.value.before ++ (m.value.text ++ (m.value.behind ++ rest))) := by
  refine skipFrom_of_token (by decide) ?_
  rw [skipBlanks_append m.key.isSpace_before (by decide)]
  have htoken : skipKeyToken (.curly :: brackets) ('"' :: m.behindQuote keyBody rest) =
      .ok ⟨.curly :: brackets, .value,
        m.value.before ++ (m.value.text ++ (m.value.behind ++ rest))⟩ := by
    simp only [skipKeyToken, MemberText.behindQuote, hkey]
    rw [colon_blanks m.key.isSpace_behind]
    rfl
  simp only [List.mem_cons, List.not_mem_nil, or_false] at hawaited
  rcases hawaited with rfl | rfl <;> simpa [skipToken] using htoken

/-- The members behind one of them are skipped, up to the closing bracket. -/
theorem skipFrom_behindMembers {parts : List MemberText} {gap : List Char} (brackets : List Bracket)
    (hkey : ∀ m ∈ parts, IsStringText m.key.text)
    (h : ∀ m ∈ parts, IsSkipped (.curly :: brackets) m.value.text)
    (hgap : ∀ c ∈ gap, isSpace c) (rest : List Char) {blanks : List Char}
    (hb : ∀ c ∈ blanks, isSpace c) :
    skipBehind (.curly :: brackets) (blanks ++ behindMembers parts gap rest) =
      skipBehind brackets rest := by
  induction parts generalizing blanks with
  | nil =>
    refine skipFrom_of_end ?_
    show skipToken _ _ (skipBlanks (blanks ++ (gap ++ '\x7d' :: rest))) = _
    rw [skipBlanks_blanks hb, skipBlanks_append hgap (by decide)]
    rfl
  | cons m parts ih =>
    obtain ⟨hm, hkeys⟩ := List.forall_mem_cons.mp hkey
    obtain ⟨hskip, hrest⟩ := List.forall_mem_cons.mp h
    obtain ⟨keyBody, hbody, hread⟩ := hm.exists_body
    have hends := endsNumber_behindMembers parts hgap rest
    have hcomma : skipBehind (.curly :: brackets) (blanks ++ behindMembers (m :: parts) gap rest) =
        skipFrom .key (.curly :: brackets)
          (m.key.before ++ '"' :: m.behindQuote keyBody (behindMembers parts gap rest)) := by
      refine skipFrom_of_token (by decide) ?_
      rw [behindMembers_cons hbody, skipBlanks_append hb (by decide)]
      rfl
    rw [hcomma, skipFrom_key (by decide) brackets hread,
      hskip m.value.isSpace_before (endsNumber_blanks m.value.isSpace_behind hends),
      ih hkeys hrest m.value.isSpace_behind]

/-- An object is skipped, if its members are. -/
theorem isSkipped_object {parts : List MemberText} {gap : List Char} (brackets : List Bracket)
    (hkey : ∀ m ∈ parts, IsStringText m.key.text)
    (h : ∀ m ∈ parts, IsSkipped (.curly :: brackets) m.value.text)
    (hgap : ∀ c ∈ gap, isSpace c) :
    IsSkipped brackets (enclosed '\x7b' '\x7d' (parts.map MemberText.full) gap) := by
  intro blanks rest hb _
  cases parts with
  | nil =>
    rw [List.map_nil, enclosed_nil, skipFrom_open_curly brackets hb]
    refine skipFrom_of_end ?_
    rw [skipBlanks_append hgap (by decide)]
    rfl
  | cons m parts =>
    obtain ⟨hm, hkeys⟩ := List.forall_mem_cons.mp hkey
    obtain ⟨hskip, hrest⟩ := List.forall_mem_cons.mp h
    obtain ⟨keyBody, hbody, hread⟩ := hm.exists_body
    have hends := endsNumber_behindMembers parts hgap rest
    rw [enclosed_members hbody, skipFrom_open_curly brackets hb,
      skipFrom_key (by decide) brackets hread,
      hskip m.value.isSpace_before (endsNumber_blanks m.value.isSpace_behind hends),
      skipFrom_behindMembers brackets hkeys hrest hgap rest m.value.isSpace_behind]

/-! ## Values -/

/-- Every value is skipped, and what is skipped next stands right behind it. -/
theorem IsValueText.isSkipped {text : List Char} (h : IsValueText text)
    (brackets : List Bracket) : IsSkipped brackets text := by
  induction h generalizing brackets with
  | null => exact fun hb _ => skipFrom_of_value hb (.cons _ (by decide)) rfl
  | isTrue => exact fun hb _ => skipFrom_of_value hb (.cons _ (by decide)) rfl
  | isFalse => exact fun hb _ => skipFrom_of_value hb (.cons _ (by decide)) rfl
  | number h =>
    intro blanks rest hb hr
    refine skipFrom_of_value hb (IsValueText.number h).begins ?_
    have hnumber := h.skipNumber_eq hr
    obtain ⟨c, more, rfl, hc⟩ := h.exists_cons
    rw [List.cons_append] at hnumber ⊢
    rw [skipValueToken_of_number brackets _ hc, hnumber]
    rfl
  | string h =>
    intro blanks rest hb hr
    refine skipFrom_of_value hb (IsValueText.string h).begins ?_
    obtain ⟨body, rfl, hread⟩ := h.exists_body
    rw [List.cons_append, skipValueToken, hread]
    rfl
  | array hvalue hgap ih => exact isSkipped_array brackets hvalue (fun p hp => ih p hp _) hgap
  | object hkey _ hgap ih => exact isSkipped_object brackets hkey (fun m hm => ih m hm _) hgap

/-- The reader that skips a value takes every value, and leaves the state as it is. -/
theorem IsValueText.takes_skip {σ : Type} {text : List Char} (h : IsValueText text) (state : σ) :
    (Reader.skip state).Takes text state where
  run_eq blanks rest hb hr := by
    dsimp only [Reader.skip]
    rw [h.isSkipped [] hb hr]
    rfl

end CodeMap.Json
