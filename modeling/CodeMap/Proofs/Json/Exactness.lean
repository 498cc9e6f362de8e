import CodeMap.Proofs.Json.Acceptance
import CodeMap.Proofs.Json.Skipping
import Mathlib.Data.List.Induction

/-! # Nothing else is read

The other half of `SpelledBy.takes`: what the reader of any value makes of the text of a value is
spelled by this text, if its numbers are integers (`IsValueText.spellsWhatIsRead`). So a value is
read from the texts that spell it and from no others (`read_eq_ok_iff`), and what a reader of one
kind of value makes of a text is decoded from a value that the text spells.
-/

namespace CodeMap.Json

variable {α σ : Type}

/-! ## Digits -/

theorem ofDigitChars_concat (digits : List Char) (c : Char) :
    Nat.ofDigitChars 10 (digits ++ [c]) 0 = 10 * Nat.ofDigitChars 10 digits 0 + (c.toNat - 48) := by
  simp [Nat.ofDigitChars_eq_foldl, List.foldl_append]

theorem digitChar_of_isDigit {c : Char} (h : c.isDigit) :
    c.toNat - 48 < 10 ∧ Nat.digitChar (c.toNat - 48) = c := by
  have hrange : 48 ≤ c.toNat ∧ c.toNat ≤ 57 := by
    simpa [Char.isDigit, Char.le_def, UInt32.le_iff_toNat_le] using h
  have hall : ∀ n < 58, 48 ≤ n → Nat.digitChar (n - 48) = Char.ofNat n := by decide
  refine ⟨by omega, ?_⟩
  rw [hall c.toNat (by omega) hrange.1, Char.ofNat_toNat]

/-- A number has one spelling without zeros in front. -/
theorem IsWhole.toDigits_eq {digits : List Char} (h : IsWhole digits) :
    Nat.toDigits 10 (Nat.ofDigitChars 10 digits 0) = digits := by
  induction digits using List.reverseRecOn with
  | nil => exact absurd rfl h.1.1
  | append_singleton digits c ih =>
    obtain ⟨⟨-, hdigits⟩, hzero⟩ := h
    obtain ⟨hdigits, hc⟩ := List.forall_mem_append.mp hdigits
    obtain ⟨hlt, hchar⟩ := digitChar_of_isDigit (hc c List.mem_cons_self)
    rw [ofDigitChars_concat]
    cases digits with
    | nil => simp [Nat.toDigits_of_lt_base hlt, hchar]
    | cons first digits =>
      have hfirst : first ≠ '0' := by
        rintro rfl
        exact absurd (hzero rfl) (by simp)
      have hwhole : IsWhole (first :: digits) :=
        ⟨⟨List.cons_ne_nil _ _, hdigits⟩, fun he => absurd (Option.some.inj he) hfirst⟩
      have hrest := ih hwhole
      generalize Nat.ofDigitChars 10 (first :: digits) 0 = n at hrest ⊢
      have hpos : 0 < n := by
        refine Nat.pos_of_ne_zero ?_
        rintro rfl
        rw [Nat.toDigits_zero] at hrest
        exact hfirst (List.cons.inj hrest).1.symm
      have hdiv : (10 * n + (c.toNat - 48)) / 10 = n := by omega
      have hmod : (10 * n + (c.toNat - 48)) % 10 = c.toNat - 48 := by omega
      rw [Nat.toDigits_of_base_le (by decide) (by omega), hdiv, hmod, hrest, hchar]

/-! ## Numbers -/

theorem gatherWhole_places_pos {n places : Nat} (h : 0 < places) (digits : List Char) :
    0 < (gatherWhole n places digits).2 := by
  induction digits generalizing places with
  | nil => exact h
  | cons c rest ih =>
    rw [gatherWhole, if_neg (by simp [Nat.ne_of_gt h])]
    exact ih (Nat.succ_pos places)

/-- If all digits fit, their number is gathered. -/
theorem eq_ofDigitChars_of_gatherWhole {n : Nat} {digits : List Char}
    (h : (gatherWhole n 0 digits).2 = 0) :
    (gatherWhole n 0 digits).1 = Nat.ofDigitChars 10 digits n := by
  induction digits generalizing n with
  | nil => rfl
  | cons c rest ih =>
    rw [gatherWhole] at h ⊢
    split at h
    · next hfits =>
      rw [if_pos hfits, ih h, Nat.ofDigitChars_cons, withDigit, Nat.mul_comm]
      rfl
    · exact absurd h (Nat.ne_of_gt (gatherWhole_places_pos (Nat.succ_pos 0) rest))

theorem Number.isIntegral_of_scaled? {negative : Bool} {n : Nat} {exponent : Int} {m : Number}
    (h : Number.scaled? negative n exponent = some m) : m.isIntegral = false := by
  obtain ⟨_, -, rfl⟩ := Option.map_eq_some_iff.mp h
  rfl

/-- An integer has neither a point nor an exponent, and all its digits fit. -/
theorem Number.ofParts?_eq_integral {negative : Bool} {whole fraction : List Char} {p : Power}
    {n : Number} (h : Number.ofParts? negative whole fraction p = some n) (hn : n.isIntegral) :
    p = .absent ∧ fraction = [] ∧
      Number.ofInteger? negative (Nat.ofDigitChars 10 whole 0) = some n := by
  unfold ofParts? at h
  cases p with
  | vanishing =>
    cases h
    cases hn
  | ten exponent => exact absurd hn (by rw [isIntegral_of_scaled? h]; decide)
  | absent =>
    simp only [Bool.and_eq_true, decide_eq_true_eq] at h
    split at h
    · next hparts =>
      obtain ⟨hplaces, rfl⟩ := hparts
      refine ⟨rfl, rfl, ?_⟩
      rw [gatherFraction, eq_ofDigitChars_of_gatherWhole hplaces] at h
      rcases Option.or_eq_some_iff.mp h with h | ⟨-, h⟩
      · exact h
      · exact absurd hn (by rw [isIntegral_of_scaled? h]; decide)
    · exact absurd hn (by rw [isIntegral_of_scaled? h]; decide)

theorem Number.render_of_ofInteger? {negative : Bool} {m : Nat} {n : Number}
    (h : Number.ofInteger? negative m = some n) :
    n.render = (if negative then ['-'] else []) ++ Nat.toDigits 10 m := by
  unfold ofInteger? at h
  split at h
  · next hnegative =>
    split at h
    · cases h
    · next hzero =>
      split at h
      · cases h
        rw [render, if_pos hnegative, List.singleton_append, Nat.sub_add_cancel (by omega)]
      · cases h
  · next hnegative =>
    split at h
    · next hle =>
      cases h
      rw [render, if_neg hnegative, List.nil_append,
        UInt64.toNat_ofNat_of_lt' (Nat.lt_succ_of_le hle)]
    · cases h

theorem powerDigits_ne_absent {zero negative : Bool} {s rest : List Char} :
    powerDigits zero negative s ≠ .ok (.absent, rest) := by
  unfold powerDigits
  split
  · nofun
  · nofun
  · split
    · nofun
    · split <;> nofun

/-- An exponent that is there is read. -/
theorem IsExponent.eq_nil_of_power {exponent rest rest' : List Char} {zero : Bool}
    (h : IsExponent exponent) (hpower : power zero (exponent ++ rest) = .ok (.absent, rest')) :
    exponent = [] := by
  cases h with
  | absent => rfl
  | digits hletter _ _ =>
    unfold power at hpower
    rw [List.cons_append] at hpower
    simp only at hpower
    rw [if_pos (by simpa using hletter)] at hpower
    split at hpower <;> exact absurd hpower powerDigits_ne_absent

/-- A point that is there is read. -/
theorem IsFraction.eq_nil_of_fraction {text rest rest' : List Char} (h : IsFraction text)
    (hrest : ∀ c ∈ rest.head?, c.isDigit = false)
    (hfraction : fraction (text ++ rest) = .ok ([], rest')) : text = [] ∧ rest' = rest := by
  cases h with
  | absent =>
    unfold fraction at hfraction
    split at hfraction
    · split at hfraction
      · cases hfraction
      · cases hfraction
      · next hne _ =>
        cases hfraction
        exact absurd rfl hne
    · cases hfraction
      exact ⟨rfl, rfl⟩
  | digits hd =>
    unfold fraction at hfraction
    rw [List.cons_append] at hfraction
    simp only at hfraction
    rw [takeDigits_append_of_head? hd.2 hrest] at hfraction
    split at hfraction
    · cases hfraction
    · cases hfraction
    · next he =>
      cases hfraction
      exact absurd (Prod.mk.inj he).1 hd.1

/-- Where an integer is read there is neither a point nor an exponent. -/
theorem eq_render_of_unsignedNumber {negative : Bool} {whole part exponent rest rest' : List Char}
    {n : Number} (hwhole : IsWhole whole) (hpart : IsFraction part)
    (hexponent : IsExponent exponent) (hr : EndsNumber rest)
    (hrun : unsignedNumber negative (whole ++ (part ++ (exponent ++ rest))) = .ok (n, rest'))
    (hn : n.isIntegral) :
    part = [] ∧ exponent = [] ∧ n.render = (if negative then ['-'] else []) ++ whole := by
  have hbehind : ∀ c ∈ (exponent ++ rest).head?, c.isDigit = false :=
    fun c hc => (hexponent.head?_append hr c hc).1
  rw [unsignedNumber, takeDigits_append_of_head? hwhole.1.2 (hpart.head?_append hbehind)] at hrun
  split at hrun
  · cases hrun
  · cases hrun
  · cases hrun
  · next he =>
    obtain ⟨rfl, rfl⟩ := Prod.mk.inj he
    unfold numberFrom at hrun
    split at hrun
    · cases hrun
    · next hfraction =>
      split at hrun
      · cases hrun
      · next hpower =>
        split at hrun
        · next hparts =>
          cases hrun
          obtain ⟨rfl, rfl, hinteger⟩ := Number.ofParts?_eq_integral hparts hn
          obtain ⟨rfl, rfl⟩ := hpart.eq_nil_of_fraction hbehind hfraction
          refine ⟨rfl, hexponent.eq_nil_of_power hpower, ?_⟩
          rw [Number.render_of_ofInteger? hinteger, hwhole.toDigits_eq]
        · cases hrun

/-- An integer is read from no other text than its own. -/
theorem IsNumberText.eq_render {text rest rest' : List Char} {n : Number} (h : IsNumberText text)
    (hr : EndsNumber rest) (hrun : numberAt (text ++ rest) = .ok (n, rest')) (hn : n.isIntegral) :
    text = n.render := by
  obtain ⟨sign, whole, part, exponent, hsign, hwhole, hpart, hexponent, rfl⟩ := h
  rw [List.append_assoc, List.append_assoc, List.append_assoc] at hrun
  simp only [List.mem_cons, List.not_mem_nil, or_false] at hsign
  rcases hsign with rfl | rfl
  · have hfirst : numberAt (whole ++ (part ++ (exponent ++ rest))) =
        unsignedNumber false (whole ++ (part ++ (exponent ++ rest))) := by
      rw [numberAt]
      exact fun more => hwhole.append_ne_minus _ more
    obtain ⟨rfl, rfl, hrender⟩ :=
      eq_render_of_unsignedNumber hwhole hpart hexponent hr (hfirst.symm.trans hrun) hn
    simpa using hrender.symm
  · obtain ⟨rfl, rfl, hrender⟩ := eq_render_of_unsignedNumber hwhole hpart hexponent hr hrun hn
    simpa using hrender.symm

/-! ## Strings -/

theorem exists_escape_of_stringBody {read s rest : List Char} {t : String}
    (h : stringBody read ('\\' :: s) = .ok (t, rest)) :
    ∃ c more, escape s = .ok (c, more) ∧ stringBody (c :: read) more = .ok (t, rest) := by
  rw [stringBody, if_neg (by decide), if_pos rfl] at h
  split at h
  · cases h
  · next he => exact ⟨_, _, he, h⟩

/-- An escape by number that names no character names the first half of one. -/
theorem secondUnit_of_escape {n : Nat} {digits s more : List Char} {c : Char}
    (hn : IsUnit n digits) (hrange : ¬(n < 0xD800 ∨ 0xDFFF < n))
    (h : escape ('u' :: (digits ++ s)) = .ok (c, more)) :
    n < 0xDC00 ∧ secondUnit n s = .ok (c, more) := by
  rw [escape, if_pos rfl, numbered, hn.hexUnit_eq] at h
  simp only [Bool.and_eq_true, decide_eq_true_eq] at h
  split at h
  · cases h
  · rw [if_pos (by omega)] at h
    exact ⟨by omega, h⟩

/-- The second half of a character is read from one piece. -/
theorem exists_piece_of_secondUnit {first : Nat} {pieces : List (List Char)}
    (hpieces : ∀ p ∈ pieces, IsPiece p) {rest more : List Char} {c : Char}
    (h : secondUnit first (pieces.flatten ++ '"' :: rest) = .ok (c, more)) :
    ∃ low digits behind, pieces = ('\\' :: 'u' :: digits) :: behind ∧
      IsUnit (0xDC00 + low) digits ∧ low < 0x400 ∧
        c = Char.ofNat (0x10000 + (first - 0xD800) * 0x400 + low) ∧
          more = behind.flatten ++ '"' :: rest := by
  cases pieces with
  | nil => simp [secondUnit] at h
  | cons piece pieces =>
    rw [List.flatten_cons, List.append_assoc] at h
    cases hpieces piece List.mem_cons_self with
    | plain hc =>
      rw [List.singleton_append, secondUnit] at h
      · cases h
      · exact List.cons_ne_nil _ _
      · exact fun he => hc.2.2 (List.cons.inj he).1
      · exact fun _ he => hc.2.2 (List.cons.inj he).1
      · exact fun _ he => hc.2.2 (List.cons.inj he).1
    | @letter _ l hl =>
      rw [List.cons_append, List.singleton_append, secondUnit] at h
      · cases h
      · exact List.cons_ne_nil _ _
      · rintro _ he
        obtain ⟨rfl, -⟩ := List.cons.inj he
        cases hl
    | @unit second digits hunit =>
      simp only [List.cons_append, secondUnit, hunit.hexUnit_eq, Bool.and_eq_true,
        decide_eq_true_eq] at h
      split at h
      · next hrange =>
        obtain ⟨rfl, rfl⟩ := Prod.mk.inj (Except.ok.inj h)
        refine ⟨second - 0xDC00, digits, pieces, rfl, ?_, by omega, rfl, rfl⟩
        rwa [Nat.add_sub_cancel' hrange.1]
      · cases h

/-- Where the characters between quotes are read, they are spelled by what stands there. An escape
that names the first half of a character is read together with the next one. -/
theorem exists_spelling_of_stringBody : (pieces : List (List Char)) →
    (∀ p ∈ pieces, IsPiece p) → {read rest rest' : List Char} → {s : String} →
    stringBody read (pieces.flatten ++ '"' :: rest) = .ok (s, rest') →
      ∃ cs texts, List.Forall₂ SpelledChar cs texts ∧ texts.flatten = pieces.flatten ∧
        s = String.ofList (read.reverse ++ cs)
  | [], _, read, rest, rest', s, h => by
    rw [List.flatten_nil, List.nil_append, stringBody, if_pos rfl] at h
    cases h
    exact ⟨[], [], .nil, rfl, by rw [List.append_nil]⟩
  | piece :: pieces, hpieces, read, rest, rest', s, h => by
    obtain ⟨hpiece, hrest⟩ := List.forall_mem_cons.mp hpieces
    -- a character read from one piece leaves the other ones
    have hone : ∀ c, SpelledChar c piece → ∃ cs texts, List.Forall₂ SpelledChar cs texts ∧
        texts.flatten = (piece :: pieces).flatten ∧ s = String.ofList (read.reverse ++ cs) := by
      intro c hc
      rw [List.flatten_cons, List.append_assoc, hc.stringBody_eq] at h
      obtain ⟨cs, texts, hall, htexts, rfl⟩ := exists_spelling_of_stringBody pieces hrest h
      exact ⟨c :: cs, piece :: texts, .cons hc hall, by rw [List.flatten_cons, htexts]; rfl,
        by simp⟩
    cases hpiece with
    | plain hc => exact hone _ (.plain hc)
    | letter hl => exact hone _ (.letter hl)
    | @unit n digits hn =>
      by_cases hrange : n < 0xD800 ∨ 0xDFFF < n
      · exact hone _ (.unit hn hrange)
      · have h' : stringBody read ('\\' :: 'u' :: (digits ++ (pieces.flatten ++ '"' :: rest))) =
            .ok (s, rest') := by simpa using h
        obtain ⟨c, more, hescape, hmore⟩ := exists_escape_of_stringBody h'
        obtain ⟨hhigh, hsecond⟩ := secondUnit_of_escape hn hrange hescape
        obtain ⟨low, digits', behind, rfl, hunit, hlow, rfl, rfl⟩ :=
          exists_piece_of_secondUnit hrest hsecond
        obtain ⟨cs, texts, hall, htexts, rfl⟩ := exists_spelling_of_stringBody behind
          (fun p hp => hrest p (List.mem_cons_of_mem _ hp)) hmore
        have hfirst : 0xD800 + (n - 0xD800) = n := by omega
        have hpair := SpelledChar.pair (hfirst.symm ▸ hn) (by omega) hunit hlow
        refine ⟨_ :: cs, _ :: texts, .cons hpair hall, ?_, by simp⟩
        rw [List.flatten_cons, htexts]
        simp

/-- A string is read from no other text than one that spells it. -/
theorem IsStringText.spelledString {text : List Char} (h : IsStringText text) :
    ∃ body, text = '"' :: body ∧ ∀ {rest rest' s},
      stringBody [] (body ++ rest) = .ok (s, rest') → SpelledString s text := by
  obtain ⟨pieces, hpieces, rfl⟩ := h
  refine ⟨_, rfl, fun {rest rest' s} hrun => ?_⟩
  rw [List.append_assoc, List.singleton_append] at hrun
  obtain ⟨cs, texts, hall, htexts, rfl⟩ := exists_spelling_of_stringBody pieces hpieces hrun
  exact ⟨texts, by simpa using hall, by rw [htexts]⟩

/-! ## Scalars -/

/-- A scalar is read from no other text of a value than one that spells it. -/
theorem IsValueText.spelledBy_of_scalar? {text rest rest' : List Char} {x : Scalar}
    (h : IsValueText text) (hr : EndsNumber rest)
    (hrun : scalar? (text ++ rest) = some (.ok (x, rest'))) (hx : x.isIntegral) :
    x.toJson.SpelledBy text := by
  cases h with
  | null =>
    cases hrun
    exact .null
  | isTrue =>
    cases hrun
    exact .isTrue
  | isFalse =>
    cases hrun
    exact .isFalse
  | number h =>
    obtain ⟨c, more, hc, hfirst⟩ := h.exists_cons
    have hnumber : scalar? (text ++ rest) =
        some ((numberAt (text ++ rest)).map fun p => (Scalar.number p.1, p.2)) := by
      rw [hc, List.cons_append, scalar?_of_number _ hfirst]
    rw [hnumber] at hrun
    obtain ⟨⟨n, _⟩, hread, hn⟩ := map_ok_iff.mp (Option.some.inj hrun)
    cases hn
    rw [h.eq_render hr hread hx]
    exact .number hx
  | string h =>
    obtain ⟨body, hbody, hspelled⟩ := h.spelledString
    rw [hbody, List.cons_append, scalar?] at hrun
    obtain ⟨⟨s, _⟩, hread, hs⟩ := map_ok_iff.mp (Option.some.inj hrun)
    cases hs
    exact .string (hspelled hread)
  | array => cases hrun
  | object => cases hrun

/-! ## What a text spells -/

/-- What the reader of any value makes of the text, the text spells. -/
def SpellsWhatIsRead (text : List Char) : Prop :=
  ∀ {levels : Nat} {blanks rest rest' : List Char} {v : Json}, (∀ c ∈ blanks, isSpace c) →
    EndsNumber rest → (Reader.value levels).run (blanks ++ (text ++ rest)) = .ok (v, rest') →
      v.isIntegral → v.SpelledBy text

/-- The reader stops right behind a text that spells what it has read. -/
theorem SpelledBy.rest_eq {levels : Nat} {text blanks rest rest' : List Char} {v : Json}
    (h : v.SpelledBy text) (hb : ∀ c ∈ blanks, isSpace c) (hr : EndsNumber rest)
    (hrun : (Reader.value levels).run (blanks ++ (text ++ rest)) = .ok (v, rest')) :
    rest' = rest := by
  rw [(h.takes (Reader.fits_of_value hrun)).run_eq blanks rest hb hr] at hrun
  cases hrun
  rfl

/-- A value that is read is an array, an object or a scalar; brackets leave one level less. -/
theorem value_cases {levels : Nat} {s rest : List Char} {v : Json}
    (h : (Reader.value levels).run s = .ok (v, rest)) :
    (∃ inner body vs, skipBlanks s = '[' :: body ∧
      items (Reader.value inner) true [] body = .ok (vs, rest) ∧ v = .array vs) ∨
    (∃ inner body ms, skipBlanks s = '\x7b' :: body ∧
      members (gathered (Reader.value inner)) true [] body = .ok (ms, rest) ∧
        v = .object ms.reverse) ∨
    ∃ x : Scalar, scalar? (skipBlanks s) = some (.ok (x, rest)) ∧ v = x.toJson := by
  cases levels with
  | zero =>
    rcases runValue_eq_ok h with ⟨_, _, -, hi, -⟩ | ⟨_, _, -, hm, -⟩ | hx
    · cases hi
    · cases hm
    · exact .inr (.inr hx)
  | succ inner =>
    rcases runValue_eq_ok h with ⟨body, vs, hs, hi, hv⟩ | ⟨body, ms, hs, hm, hv⟩ | hx
    · exact .inl ⟨inner, body, vs, hs, settled_eq_ok.mp hi, hv⟩
    · exact .inr (.inl ⟨inner, body, ms, hs, settled_eq_ok.mp hm, hv⟩)
    · exact .inr (.inr hx)

theorem exists_item_of_next {item : Reader α} {first : Bool} {read as : List α}
    {s t rest : List Char} (ht : itemTurn first s = .ok (.next t))
    (h : items item first read s = .ok (as, rest)) :
    ∃ a more, item.run t = .ok (a, more) ∧ items item false (a :: read) more = .ok (as, rest) := by
  rw [items] at h
  split at h
  · cases h
  · next he =>
    rw [ht] at he
    cases he
  · next he =>
    rw [ht] at he
    cases he
    split at h
    · cases h
    · next hr => exact ⟨_, _, hr, h⟩

theorem exists_member_of_next {member : σ → String → Except Cause (Reader σ)} {first : Bool}
    {state final : σ} {s t rest : List Char} (ht : memberTurn first s = .ok (.next t))
    (h : members member first state s = .ok (final, rest)) :
    ∃ key u value v next more, stringBody [] t = .ok (key, u) ∧ member state key = .ok value ∧
      colon u = .ok v ∧ value.run v = .ok (next, more) ∧
        members member false next more = .ok (final, rest) := by
  rw [members] at h
  split at h
  · cases h
  · next he =>
    rw [ht] at he
    cases he
  · next he =>
    rw [ht] at he
    cases he
    split at h
    · cases h
    · next hk =>
      split at h
      · cases h
      · next hm =>
        split at h
        · cases h
        · next hc =>
          split at h
          · cases h
          · next hv => exact ⟨_, _, _, _, _, _, hk, hm, hc, hv, h⟩

/-! ## Arrays -/

/-- The elements read before a place are among those read at the end. -/
theorem mem_of_items {levels : Nat} {first : Bool} {read vs : List Json} {s rest : List Char}
    (h : items (Reader.value levels) first read s = .ok (vs, rest)) {v : Json} (hv : v ∈ read) :
    v ∈ vs := by
  obtain ⟨more, rfl, -⟩ := Reader.items_accepts Reader.accepts_value h
  exact List.mem_append_left _ (List.mem_reverse.mpr hv)

/-- One element is read, and its text spells it. -/
theorem exists_element {levels : Nat} {first : Bool} {p : Padded} {read vs : List Json}
    {s rest rest' : List Char} (hp : SpellsWhatIsRead p.text) (hr : EndsNumber rest)
    (ht : itemTurn first s = .ok (.next (p.text ++ (p.behind ++ rest))))
    (h : items (Reader.value levels) first read s = .ok (vs, rest'))
    (hvs : ∀ v ∈ vs, v.isIntegral) :
    ∃ v, v.SpelledBy p.text ∧
      items (Reader.value levels) false (v :: read) (p.behind ++ rest) = .ok (vs, rest') := by
  obtain ⟨v, more, hv, hmore⟩ := exists_item_of_next ht h
  have hends := endsNumber_blanks p.isSpace_behind hr
  have hi := hvs v (mem_of_items hmore List.mem_cons_self)
  have hspelled := hp (List.forall_mem_nil _) hends hv hi
  obtain rfl := hspelled.rest_eq (List.forall_mem_nil _) hends hv
  exact ⟨v, hspelled, hmore⟩

/-- The elements behind one of them are spelled by their texts. -/
theorem exists_elements {levels : Nat} {parts : List Padded} {gap : List Char}
    (hvalue : ∀ p ∈ parts, IsValueText p.text) (h : ∀ p ∈ parts, SpellsWhatIsRead p.text)
    (hgap : ∀ c ∈ gap, isSpace c) {rest rest' blanks : List Char} {read vs : List Json}
    (hb : ∀ c ∈ blanks, isSpace c)
    (hrun : items (Reader.value levels) false read (blanks ++ behindItems parts gap rest) =
      .ok (vs, rest')) (hvs : ∀ v ∈ vs, v.isIntegral) :
    ∃ texts : List (Json × Padded), texts.map Prod.snd = parts ∧
      vs = read.reverse ++ texts.map Prod.fst ∧ ∀ t ∈ texts, t.1.SpelledBy t.2.text := by
  induction parts generalizing blanks read with
  | nil =>
    cases (items_close (itemTurn_behindItems_nil hb hgap rest)).symm.trans hrun
    exact ⟨[], rfl, by simp, List.forall_mem_nil _⟩
  | cons p parts ih =>
    obtain ⟨hp, hvalues⟩ := List.forall_mem_cons.mp hvalue
    obtain ⟨hspells, hrest⟩ := List.forall_mem_cons.mp h
    have hturn := itemTurn_behindItems_cons hb hp.begins parts gap rest
    obtain ⟨v, hv, hmore⟩ :=
      exists_element hspells (endsNumber_behindItems _ hgap rest) hturn hrun hvs
    obtain ⟨texts, rfl, rfl, htexts⟩ := ih hvalues hrest p.isSpace_behind hmore
    exact ⟨(v, p) :: texts, rfl, by simp, List.forall_mem_cons.mpr ⟨hv, htexts⟩⟩

/-- Behind its bracket an array is read element by element. -/
theorem exists_items_of_value {levels : Nat} {s body rest : List Char} {v : Json}
    (h : (Reader.value levels).run s = .ok (v, rest)) (hs : skipBlanks s = '[' :: body) :
    ∃ inner vs, items (Reader.value inner) true [] body = .ok (vs, rest) ∧ v = .array vs := by
  rcases value_cases h with ⟨inner, _, vs, hs', hi, rfl⟩ | ⟨_, _, _, hs', -, -⟩ | ⟨x, hx, -⟩
  · cases hs.symm.trans hs'
    exact ⟨inner, vs, hi, rfl⟩
  · cases hs.symm.trans hs'
  · rw [hs] at hx
    cases hx

/-- The text of an array spells what is read from it, if its elements do. -/
theorem spellsWhatIsRead_array {parts : List Padded} {gap : List Char}
    (hvalue : ∀ p ∈ parts, IsValueText p.text) (h : ∀ p ∈ parts, SpellsWhatIsRead p.text)
    (hgap : ∀ c ∈ gap, isSpace c) :
    SpellsWhatIsRead (enclosed '[' ']' (parts.map Padded.full) gap) := by
  intro levels blanks rest rest' v hb _ hrun hi
  cases parts with
  | nil =>
    rw [List.map_nil, enclosed_nil] at hrun
    obtain ⟨inner, vs, hitems, rfl⟩ :=
      exists_items_of_value hrun (skipBlanks_append hb (by decide) _)
    cases (items_close (itemTurn_close true hgap rest)).symm.trans hitems
    exact .empty_array hgap
  | cons p parts =>
    obtain ⟨hp, hvalues⟩ := List.forall_mem_cons.mp hvalue
    obtain ⟨hspells, hrest⟩ := List.forall_mem_cons.mp h
    rw [enclosed_items] at hrun
    obtain ⟨inner, vs, hitems, rfl⟩ :=
      exists_items_of_value hrun (skipBlanks_append hb (by decide) _)
    have hvs := isIntegral_array.mp hi
    have hturn := itemTurn_begins p.isSpace_before hp.begins
      (p.behind ++ behindItems parts gap rest)
    obtain ⟨v, hv, hmore⟩ :=
      exists_element hspells (endsNumber_behindItems _ hgap rest) hturn hitems hvs
    obtain ⟨texts, rfl, rfl, htexts⟩ :=
      exists_elements hvalues hrest hgap p.isSpace_behind hmore hvs
    have harray := @SpelledBy.array ((v, p) :: texts) gap
      (List.forall_mem_cons.mpr ⟨hv, htexts⟩) hgap
    simpa [Function.comp_def] using harray

/-! ## Objects -/

/-- The members read before a place are among those read at the end. -/
theorem mem_of_members {levels : Nat} {first : Bool} {read ms : List (String × Json)}
    {s rest : List Char}
    (h : members (gathered (Reader.value levels)) first read s = .ok (ms, rest))
    {m : String × Json} (hm : m ∈ read) : m ∈ ms := by
  refine members_preserve (P := fun ms => m ∈ ms) ?_ h hm
  intro read key value s next rest hread hvalue hrun
  cases hvalue
  obtain ⟨v, -, rfl⟩ := Reader.run_map_eq_ok.mp hrun
  exact List.mem_cons_of_mem _ hread

/-- One member is read, and its text spells it. -/
theorem exists_member {levels : Nat} {first : Bool} {m : MemberText} {keyBody : List Char}
    {read ms : List (String × Json)} {s rest rest' : List Char}
    (hkey : ∀ {rest rest' s}, stringBody [] (keyBody ++ rest) = .ok (s, rest') →
      SpelledString s m.key.text)
    (hbody : m.key.text = '"' :: keyBody) (hp : SpellsWhatIsRead m.value.text)
    (hr : EndsNumber rest) (ht : memberTurn first s = .ok (.next (m.behindQuote keyBody rest)))
    (h : members (gathered (Reader.value levels)) first read s = .ok (ms, rest'))
    (hms : ∀ m ∈ ms, m.2.isIntegral) :
    ∃ key v, SpelledString key m.key.text ∧ v.SpelledBy m.value.text ∧
      members (gathered (Reader.value levels)) false ((key, v) :: read) (m.value.behind ++ rest) =
        .ok (ms, rest') := by
  obtain ⟨key, u, value, t, next, more, hk, hm, hc, hv, hmore⟩ := exists_member_of_next ht h
  have hspelled := hkey hk
  obtain ⟨keyBody', hbody', hread⟩ := hspelled.exists_body
  obtain rfl : keyBody' = keyBody := (List.cons.inj (hbody'.symm.trans hbody)).2
  rw [hread] at hk
  cases hk
  rw [colon_blanks m.key.isSpace_behind] at hc
  cases hc
  cases hm
  obtain ⟨v, hvalue, rfl⟩ := Reader.run_map_eq_ok.mp hv
  have hends := endsNumber_blanks m.value.isSpace_behind hr
  have hi := hms (key, v) (mem_of_members hmore List.mem_cons_self)
  have hspells := hp m.value.isSpace_before hends hvalue hi
  obtain rfl := hspells.rest_eq m.value.isSpace_before hends hvalue
  exact ⟨key, v, hspelled, hspells, hmore⟩

/-- The members behind one of them are spelled by their texts. -/
theorem exists_members {levels : Nat} {parts : List MemberText} {gap : List Char}
    (hkey : ∀ m ∈ parts, IsStringText m.key.text) (h : ∀ m ∈ parts, SpellsWhatIsRead m.value.text)
    (hgap : ∀ c ∈ gap, isSpace c) {rest rest' blanks : List Char} {read ms : List (String × Json)}
    (hb : ∀ c ∈ blanks, isSpace c)
    (hrun : members (gathered (Reader.value levels)) false read
      (blanks ++ behindMembers parts gap rest) = .ok (ms, rest'))
    (hms : ∀ m ∈ ms, m.2.isIntegral) :
    ∃ texts : List ((String × Json) × MemberText), texts.map Prod.snd = parts ∧
      ms = (texts.map Prod.fst).reverse ++ read ∧
        (∀ t ∈ texts, SpelledString t.1.1 t.2.key.text) ∧
          ∀ t ∈ texts, t.1.2.SpelledBy t.2.value.text := by
  induction parts generalizing blanks read with
  | nil =>
    cases (members_close (memberTurn_behindMembers_nil hb hgap rest)).symm.trans hrun
    exact ⟨[], rfl, rfl, List.forall_mem_nil _, List.forall_mem_nil _⟩
  | cons m parts ih =>
    obtain ⟨hm, hkeys⟩ := List.forall_mem_cons.mp hkey
    obtain ⟨hspells, hrest⟩ := List.forall_mem_cons.mp h
    obtain ⟨keyBody, hbody, hread⟩ := hm.spelledString
    have hturn := memberTurn_behindMembers_cons hb hbody parts gap rest
    obtain ⟨key, v, hfirst, hv, hmore⟩ :=
      exists_member hread hbody hspells (endsNumber_behindMembers _ hgap rest) hturn hrun hms
    obtain ⟨texts, rfl, rfl, htexts, hvalues⟩ := ih hkeys hrest m.value.isSpace_behind hmore
    exact ⟨((key, v), m) :: texts, rfl, by simp, List.forall_mem_cons.mpr ⟨hfirst, htexts⟩,
      List.forall_mem_cons.mpr ⟨hv, hvalues⟩⟩

/-- Behind its bracket an object is read member by member. -/
theorem exists_members_of_value {levels : Nat} {s body rest : List Char} {v : Json}
    (h : (Reader.value levels).run s = .ok (v, rest)) (hs : skipBlanks s = '\x7b' :: body) :
    ∃ inner ms, members (gathered (Reader.value inner)) true [] body = .ok (ms, rest) ∧
      v = .object ms.reverse := by
  rcases value_cases h with ⟨_, _, _, hs', -, -⟩ | ⟨inner, _, ms, hs', hm, rfl⟩ | ⟨x, hx, -⟩
  · cases hs.symm.trans hs'
  · cases hs.symm.trans hs'
    exact ⟨inner, ms, hm, rfl⟩
  · rw [hs] at hx
    cases hx

/-- The text of an object spells what is read from it, if its members do. -/
theorem spellsWhatIsRead_object {parts : List MemberText} {gap : List Char}
    (hkey : ∀ m ∈ parts, IsStringText m.key.text) (h : ∀ m ∈ parts, SpellsWhatIsRead m.value.text)
    (hgap : ∀ c ∈ gap, isSpace c) :
    SpellsWhatIsRead (enclosed '\x7b' '\x7d' (parts.map MemberText.full) gap) := by
  intro levels blanks rest rest' v hb _ hrun hi
  cases parts with
  | nil =>
    rw [List.map_nil, enclosed_nil] at hrun
    obtain ⟨inner, ms, hms, rfl⟩ :=
      exists_members_of_value hrun (skipBlanks_append hb (by decide) _)
    cases (members_close (memberTurn_close true hgap rest)).symm.trans hms
    exact .empty_object hgap
  | cons m parts =>
    obtain ⟨hm, hkeys⟩ := List.forall_mem_cons.mp hkey
    obtain ⟨hspells, hrest⟩ := List.forall_mem_cons.mp h
    obtain ⟨keyBody, hbody, hread⟩ := hm.spelledString
    rw [enclosed_members hbody] at hrun
    obtain ⟨inner, ms, hmembers, rfl⟩ :=
      exists_members_of_value hrun (skipBlanks_append hb (by decide) _)
    have hms : ∀ m ∈ ms, m.2.isIntegral := fun m hm =>
      isIntegral_object.mp hi m (List.mem_reverse.mpr hm)
    have hturn := memberTurn_first m.key.isSpace_before
      (m.behindQuote keyBody (behindMembers parts gap rest))
    obtain ⟨key, v, hfirst, hv, hmore⟩ :=
      exists_member hread hbody hspells (endsNumber_behindMembers _ hgap rest) hturn hmembers hms
    obtain ⟨texts, rfl, rfl, htexts, hvalues⟩ :=
      exists_members hkeys hrest hgap m.value.isSpace_behind hmore hms
    have hobject := @SpelledBy.object (((key, v), m) :: texts) gap
      (List.forall_mem_cons.mpr ⟨hfirst, htexts⟩) (List.forall_mem_cons.mpr ⟨hv, hvalues⟩) hgap
    simpa [Function.comp_def] using hobject

/-! ## Values -/

/-- The text of a value without brackets spells what is read from it. -/
theorem spellsWhatIsRead_scalar {text more : List Char} {c : Char} (h : IsValueText text)
    (hc : text = c :: more) (hsquare : c ≠ '[') (hcurly : c ≠ '\x7b') : SpellsWhatIsRead text := by
  intro levels blanks rest rest' v hb hr hrun hi
  have hs := skipBlanks_begins hb h.begins rest
  rcases value_cases hrun with ⟨_, _, _, hs', -, -⟩ | ⟨_, _, _, hs', -, -⟩ | ⟨x, hx, rfl⟩
  · rw [hs, hc] at hs'
    exact absurd (List.cons.inj hs').1 hsquare
  · rw [hs, hc] at hs'
    exact absurd (List.cons.inj hs').1 hcurly
  · rw [hs] at hx
    exact h.spelledBy_of_scalar? hr hx (by cases x <;> exact hi)

/-- The text of a value spells what is read from it, if that has no other numbers than integers. -/
theorem IsValueText.spellsWhatIsRead {text : List Char} (h : IsValueText text) :
    SpellsWhatIsRead text := by
  induction h with
  | null => exact spellsWhatIsRead_scalar .null rfl (by decide) (by decide)
  | isTrue => exact spellsWhatIsRead_scalar .isTrue rfl (by decide) (by decide)
  | isFalse => exact spellsWhatIsRead_scalar .isFalse rfl (by decide) (by decide)
  | number h =>
    obtain ⟨c, more, hc, hfirst⟩ := h.exists_cons
    refine spellsWhatIsRead_scalar (.number h) hc ?_ ?_ <;>
    · rintro rfl
      exact absurd hfirst (by decide)
  | string h =>
    obtain ⟨body, hbody, -⟩ := h.exists_body
    exact spellsWhatIsRead_scalar (.string h) hbody (by decide) (by decide)
  | array hvalue hgap ih => exact spellsWhatIsRead_array hvalue ih hgap
  | object hkey _ hgap ih => exact spellsWhatIsRead_object hkey ih hgap

/-- A value with no other numbers than integers is read from the texts that spell it and from no
other text of a value, if it has no more levels of brackets than a text may have. -/
theorem read_eq_ok_iff {p : Padded} (h : IsValueText p.text) {v : Json} (hi : v.isIntegral) :
    Json.read (String.ofList p.full) = .ok v ↔
      v.SpelledBy p.text ∧ v.fits Reader.maxLevels := by
  constructor
  · intro hread
    obtain ⟨rest, hrun, -⟩ := Reader.readAll_eq_ok.mp hread
    have hends : EndsNumber (p.behind ++ []) := endsNumber_blanks p.isSpace_behind endsNumber_nil
    rw [String.toList_ofList, Padded.full] at hrun
    rw [List.append_nil] at hends
    exact ⟨h.spellsWhatIsRead p.isSpace_before hends hrun hi, Reader.fits_of_value hrun⟩
  · rintro ⟨hspelled, hfits⟩
    exact (hspelled.takes hfits).readAll_eq

namespace Reader

variable {r : Reader α} {levels : Nat} {decode : Json → Option α} {text : List Char}

/-- What a reader takes from the text of a value is decoded from a value that the text spells. -/
theorem Decodes.exists_spelledBy (hd : r.Decodes levels decode)
    (hdecode : ∀ {v a}, decode v = some a → v.isIntegral) (h : IsValueText text)
    {blanks rest rest' : List Char} {a : α} (hb : ∀ c ∈ blanks, isSpace c) (hr : EndsNumber rest)
    (hrun : r.run (blanks ++ (text ++ rest)) = .ok (a, rest')) :
    rest' = rest ∧ ∃ v, v.SpelledBy text ∧ decode v = some a := by
  obtain ⟨v, hv, ha⟩ := hd.exists_value hrun
  have hspelled := h.spellsWhatIsRead hb hr hv (hdecode ha)
  exact ⟨hspelled.rest_eq hb hr hv, v, hspelled, ha⟩

/-- A reader takes every text that spells a value which the decoder takes. -/
theorem Accepts.takes (ha : r.Accepts levels decode) {v : Json} (h : v.SpelledBy text)
    (hfits : v.fits levels) {a : α} (hdecode : decode v = some a) : r.Takes text a where
  run_eq blanks rest hb hr := ha.run_eq ((h.takes hfits).run_eq blanks rest hb hr) hdecode

end Reader

end CodeMap.Json
