import CodeMap.Proofs.Json.Decoding
import CodeMap.Proofs.Json.Grammar
import Mathlib.Data.List.TakeWhile

/-! # Spellings read

The reader of any value takes every spelling of a value for this value, if its levels suffice
(`SpelledBy.takes`). `Reader.Takes` says so of one text; it is passed on from the parts of a text to
the text of their array or object.
-/

namespace CodeMap.Json

variable {α β σ : Type}

/-! ## The law of a reader for one text -/

/-- The reader takes the text for `a` behind blanks, and stops right behind it. -/
structure Reader.Takes (r : Reader α) (text : List Char) (a : α) : Prop where
  run_eq : ∀ (blanks rest : List Char), (∀ c ∈ blanks, isSpace c) → EndsNumber rest →
    r.run (blanks ++ (text ++ rest)) = .ok (a, rest)

theorem Reader.Takes.map {r : Reader α} {text : List Char} {a : α} (h : r.Takes text a)
    (f : α → β) : (r.map f).Takes text (f a) where
  run_eq blanks rest hb hr := by rw [run_map, h.run_eq blanks rest hb hr]

theorem skipBlanks_blanks {blanks : List Char} (hb : ∀ c ∈ blanks, isSpace c) (s : List Char) :
    skipBlanks (blanks ++ s) = skipBlanks s := List.dropWhile_append_of_pos hb

theorem skipBlanks_begins {blanks text : List Char} (hb : ∀ c ∈ blanks, isSpace c)
    (ht : Begins text) (rest : List Char) :
    skipBlanks (blanks ++ (text ++ rest)) = text ++ rest := by
  obtain ⟨c, more, rfl, hc, -⟩ := ht
  exact skipBlanks_append hb hc (more ++ rest)

theorem endsNumber_blanks {blanks rest : List Char} (hb : ∀ c ∈ blanks, isSpace c)
    (hr : EndsNumber rest) : EndsNumber (blanks ++ rest) := by
  cases blanks with
  | nil => exact hr
  | cons c blanks =>
    have hc : isSpace c := hb c List.mem_cons_self
    simp only [isSpace, Bool.or_eq_true, beq_iff_eq] at hc
    rcases hc with ((rfl | rfl) | rfl) | rfl <;> exact endsNumber_cons (by decide)

/-! ## Strings -/

/-- Four hexadecimal digits are read as the unit that they spell. -/
theorem IsUnit.hexUnit_eq {n : Nat} {digits : List Char} (h : IsUnit n digits)
    (rest : List Char) : hexUnit (digits ++ rest) = .ok (n, rest) := by
  obtain ⟨hlength, hdigits, rfl⟩ := h
  match digits, hlength with
  | [a, b, c, d], _ =>
    simp only [List.forall_mem_cons, Text.isHexDigit, Option.isSome_iff_exists] at hdigits
    obtain ⟨⟨a', ha⟩, ⟨b', hb⟩, ⟨c', hc⟩, ⟨d', hd⟩, -⟩ := hdigits
    simp [hexUnit, Text.hexNumber, ha, hb, hc, hd]

/-- A character is read from each of its spellings. -/
theorem SpelledChar.stringBody_eq {c : Char} {text : List Char} (h : SpelledChar c text)
    (read rest : List Char) : stringBody read (text ++ rest) = stringBody (c :: read) rest := by
  cases h with
  | plain h =>
    obtain ⟨hc, hquote, hbackslash⟩ := h
    rw [List.singleton_append, stringBody, if_neg hquote, if_neg hbackslash,
      if_neg (Nat.not_lt.mpr hc)]
  | @letter c l h =>
    have hl : l ≠ 'u' := by
      rintro rfl
      cases h
    have hread : escape (l :: rest) = .ok (c, rest) := by
      simp only [escape, if_neg hl, h]
    exact stringBody_escape hread
  | @unit n digits h hn =>
    refine stringBody_escape ?_
    have hlow : ¬(0xDC00 ≤ n ∧ n ≤ 0xDFFF) := by omega
    have hhigh : ¬(0xD800 ≤ n ∧ n ≤ 0xDBFF) := by omega
    simp [escape, numbered, h.hexUnit_eq, hlow, hhigh]
  | @pair high low first second h₁ hhigh h₂ hlow =>
    refine stringBody_escape ?_
    have hfirst : ¬(0xDC00 ≤ 0xD800 + high ∧ 0xD800 + high ≤ 0xDFFF) := by omega
    have hrange : 0xD800 + high ≤ 0xDBFF := by omega
    have hsecond : 0xDC00 + low ≤ 0xDFFF := by omega
    simp [escape, numbered, secondUnit, h₁.hexUnit_eq, h₂.hexUnit_eq, hfirst, hrange, hsecond]

theorem stringBody_flatten {cs : List Char} {pieces : List (List Char)}
    (h : List.Forall₂ SpelledChar cs pieces) (read rest : List Char) :
    stringBody read (pieces.flatten ++ '"' :: rest) =
      .ok (String.ofList (read.reverse ++ cs), rest) := by
  induction h generalizing read with
  | nil => rw [List.flatten_nil, List.nil_append, stringBody, if_pos rfl, List.append_nil]
  | cons hc _ ih =>
    rw [List.flatten_cons, List.append_assoc, hc.stringBody_eq, ih, List.reverse_cons,
      List.append_assoc, List.singleton_append]

/-- A string is read from each of its texts, from behind the opening quote on. -/
theorem SpelledString.exists_body {s : String} {text : List Char} (h : SpelledString s text) :
    ∃ body, text = '"' :: body ∧ ∀ rest, stringBody [] (body ++ rest) = .ok (s, rest) := by
  obtain ⟨pieces, hall, rfl⟩ := h
  refine ⟨_, rfl, fun rest => ?_⟩
  rw [List.append_assoc, List.singleton_append, stringBody_flatten hall, List.reverse_nil,
    List.nil_append, String.ofList_toList]

/-! ## Scalars -/

/-- A scalar is read from each of its spellings. -/
theorem SpelledBy.scalar?_eq {x : Scalar} {text : List Char} (h : x.toJson.SpelledBy text)
    {rest : List Char} (hr : EndsNumber rest) :
    scalar? (text ++ rest) = some (.ok (x, rest)) := by
  cases x with
  | null =>
    cases h
    rfl
  | bool b => cases h <;> rfl
  | number n =>
    cases h with
    | number h => exact scalar?_render (v := .number n) h .compact 0 hr
  | string s =>
    cases h with
    | string h =>
      obtain ⟨body, rfl, hbody⟩ := h.exists_body
      rw [List.cons_append, scalar?, hbody]
      rfl

/-! ## Arrays -/

theorem itemTurn_begins {blanks text : List Char} (hb : ∀ c ∈ blanks, isSpace c)
    (ht : Begins text) (rest : List Char) :
    itemTurn true (blanks ++ (text ++ rest)) = .ok (.next (text ++ rest)) := by
  obtain ⟨c, more, rfl, hc, hclose⟩ := ht
  exact itemTurn_first hb hc hclose (more ++ rest)

/-- What stands behind an element, up to and with the closing bracket. -/
abbrev behindItems (parts : List Padded) (gap rest : List Char) : List Char :=
  parts.flatMap (fun p => ',' :: p.full) ++ (gap ++ ']' :: rest)

theorem endsNumber_behindItems (parts : List Padded) {gap : List Char}
    (hgap : ∀ c ∈ gap, isSpace c) (rest : List Char) :
    EndsNumber (behindItems parts gap rest) := by
  cases parts with
  | nil =>
    show EndsNumber (gap ++ ']' :: rest)
    exact endsNumber_blanks hgap (endsNumber_cons (by decide))
  | cons p parts => exact endsNumber_cons (by decide)

/-- The array of some parts, cut behind the first of them. -/
theorem enclosed_items (p : Padded) (parts : List Padded) (gap rest : List Char) :
    enclosed '[' ']' ((p :: parts).map Padded.full) gap ++ rest =
      '[' :: (p.before ++ (p.text ++ (p.behind ++ behindItems parts gap rest))) := by
  rw [enclosed, List.map_cons, intercalate_comma, Padded.full, List.flatMap_map]
  simp only [List.cons_append, List.append_assoc, List.nil_append]

theorem enclosed_nil (opening closing : Char) (gap rest : List Char) :
    enclosed opening closing [] gap ++ rest = opening :: (gap ++ closing :: rest) := by
  simp [enclosed]

theorem behindItems_cons (p : Padded) (parts : List Padded) (gap rest : List Char) :
    behindItems (p :: parts) gap rest =
      ',' :: (p.before ++ (p.text ++ (p.behind ++ behindItems parts gap rest))) := by
  simp only [behindItems, List.flatMap_cons, Padded.full, List.cons_append, List.append_assoc]

section

variable {blanks : List Char} (hb : ∀ c ∈ blanks, isSpace c)

include hb

theorem itemTurn_behindItems_nil {gap : List Char} (hgap : ∀ c ∈ gap, isSpace c)
    (rest : List Char) :
    itemTurn false (blanks ++ behindItems [] gap rest) = .ok (.close rest) := by
  have hclose : itemTurn false ((blanks ++ gap) ++ ']' :: rest) = .ok (.close rest) :=
    itemTurn_close false (List.forall_mem_append.mpr ⟨hb, hgap⟩) rest
  rwa [List.append_assoc] at hclose

theorem itemTurn_behindItems_cons {p : Padded} (hp : Begins p.text) (parts : List Padded)
    (gap rest : List Char) :
    itemTurn false (blanks ++ behindItems (p :: parts) gap rest) =
      .ok (.next (p.text ++ (p.behind ++ behindItems parts gap rest))) := by
  have hcomma : itemTurn false (behindItems (p :: parts) gap rest) =
      .ok (.next (p.text ++ (p.behind ++ behindItems parts gap rest))) := by
    obtain ⟨c, more, htext, hc, hclose⟩ := hp
    rw [behindItems_cons, htext]
    exact itemTurn_comma p.isSpace_before hc hclose _
  rw [itemTurn, skipBlanks_blanks hb, ← hcomma, itemTurn]

end

/-- The elements behind the first are taken, up to the closing bracket. -/
theorem items_behind {item : Reader α} {parts : List (α × Padded)} {gap : List Char}
    (hvalue : ∀ p ∈ parts, IsValueText p.2.text) (h : ∀ p ∈ parts, item.Takes p.2.text p.1)
    (hgap : ∀ c ∈ gap, isSpace c) (rest : List Char) {blanks : List Char}
    (hb : ∀ c ∈ blanks, isSpace c) (read : List α) :
    items item false read (blanks ++ behindItems (parts.map Prod.snd) gap rest) =
      .ok (read.reverse ++ parts.map Prod.fst, rest) := by
  induction parts generalizing blanks read with
  | nil =>
    rw [List.map_nil, List.map_nil, List.append_nil]
    exact items_close (itemTurn_behindItems_nil hb hgap rest)
  | cons p parts ih =>
    obtain ⟨hp, hvalues⟩ := List.forall_mem_cons.mp hvalue
    obtain ⟨htakes, hrest⟩ := List.forall_mem_cons.mp h
    have hturn := itemTurn_behindItems_cons hb hp.begins (parts.map Prod.snd) gap rest
    have hends := endsNumber_behindItems (parts.map Prod.snd) hgap rest
    have hrun := htakes.run_eq [] _ (List.forall_mem_nil _) (endsNumber_blanks p.2.isSpace_behind hends)
    rw [List.map_cons, items_next hturn hrun, ih hvalues hrest p.2.isSpace_behind,
      List.reverse_cons, List.append_assoc, List.singleton_append, List.map_cons]

/-- The inside of an array is taken, if every element is. -/
theorem items_enclosed {item : Reader α} {parts : List (α × Padded)} {gap : List Char}
    (hvalue : ∀ p ∈ parts, IsValueText p.2.text) (h : ∀ p ∈ parts, item.Takes p.2.text p.1)
    (hgap : ∀ c ∈ gap, isSpace c) (rest : List Char) :
    ∃ body, enclosed '[' ']' (parts.map fun p => p.2.full) gap ++ rest = '[' :: body ∧
      items item true [] body = .ok (parts.map Prod.fst, rest) := by
  cases parts with
  | nil => exact ⟨_, enclosed_nil _ _ gap rest, items_close (itemTurn_close true hgap rest)⟩
  | cons p parts =>
    obtain ⟨hp, hvalues⟩ := List.forall_mem_cons.mp hvalue
    obtain ⟨htakes, hrest⟩ := List.forall_mem_cons.mp h
    have hfull : ((p :: parts).map fun p => p.2.full) =
        ((p :: parts).map Prod.snd).map Padded.full := by rw [List.map_map, Function.comp_def]
    have hturn := itemTurn_begins p.2.isSpace_before hp.begins
      (p.2.behind ++ behindItems (parts.map Prod.snd) gap rest)
    have hends := endsNumber_behindItems (parts.map Prod.snd) hgap rest
    have hrun := htakes.run_eq [] _ (List.forall_mem_nil _) (endsNumber_blanks p.2.isSpace_behind hends)
    refine ⟨_, by rw [hfull, List.map_cons, enclosed_items], ?_⟩
    rw [items_next hturn hrun, items_behind hvalues hrest hgap rest p.2.isSpace_behind]
    rfl

/-! ## Objects -/

/-- What stands behind a member, up to and with the closing bracket. -/
abbrev behindMembers (parts : List MemberText) (gap rest : List Char) : List Char :=
  parts.flatMap (fun m => ',' :: m.full) ++ (gap ++ '\x7d' :: rest)

/-- What stands behind the opening quote of a key: the rest of the key, the colon, the value. -/
abbrev MemberText.behindQuote (m : MemberText) (keyBody rest : List Char) : List Char :=
  keyBody ++ (m.key.behind ++ ':' :: (m.value.before ++ (m.value.text ++ (m.value.behind ++ rest))))

theorem endsNumber_behindMembers (parts : List MemberText) {gap : List Char}
    (hgap : ∀ c ∈ gap, isSpace c) (rest : List Char) :
    EndsNumber (behindMembers parts gap rest) := by
  cases parts with
  | nil =>
    show EndsNumber (gap ++ '\x7d' :: rest)
    exact endsNumber_blanks hgap (endsNumber_cons (by decide))
  | cons p parts => exact endsNumber_cons (by decide)

theorem behindMembers_cons {m : MemberText} {keyBody : List Char}
    (hkey : m.key.text = '"' :: keyBody) (parts : List MemberText) (gap rest : List Char) :
    behindMembers (m :: parts) gap rest =
      ',' :: (m.key.before ++ '"' :: m.behindQuote keyBody (behindMembers parts gap rest)) := by
  simp only [behindMembers, MemberText.behindQuote, List.flatMap_cons, MemberText.full, Padded.full,
    hkey, List.cons_append, List.append_assoc]

/-- The object of some members, cut behind the quote of the first key. -/
theorem enclosed_members {m : MemberText} {keyBody : List Char} (hkey : m.key.text = '"' :: keyBody)
    (parts : List MemberText) (gap rest : List Char) :
    enclosed '\x7b' '\x7d' ((m :: parts).map MemberText.full) gap ++ rest =
      '\x7b' :: (m.key.before ++ '"' :: m.behindQuote keyBody (behindMembers parts gap rest)) := by
  rw [enclosed, List.map_cons, intercalate_comma, List.flatMap_map]
  simp only [MemberText.behindQuote, behindMembers, MemberText.full, Padded.full, hkey,
    List.cons_append, List.append_assoc, List.nil_append]

/-- The object of some members with their keys, cut behind the quote of the first key. -/
theorem enclosed_keyed {m : String × MemberText} {keyBody : List Char}
    (hkey : m.2.key.text = '"' :: keyBody) (parts : List (String × MemberText))
    (gap rest : List Char) :
    enclosed '\x7b' '\x7d' ((m :: parts).map fun m => m.2.full) gap ++ rest =
      '\x7b' :: (m.2.key.before ++
        '"' :: m.2.behindQuote keyBody (behindMembers (parts.map Prod.snd) gap rest)) := by
  have hfull : ((m :: parts).map fun m => m.2.full) =
      ((m :: parts).map Prod.snd).map MemberText.full := by rw [List.map_map, Function.comp_def]
  rw [hfull, List.map_cons, enclosed_members hkey]

section

variable {blanks : List Char} (hb : ∀ c ∈ blanks, isSpace c)

include hb

theorem memberTurn_behindMembers_nil {gap : List Char} (hgap : ∀ c ∈ gap, isSpace c)
    (rest : List Char) :
    memberTurn false (blanks ++ behindMembers [] gap rest) = .ok (.close rest) := by
  have hclose : memberTurn false ((blanks ++ gap) ++ '\x7d' :: rest) = .ok (.close rest) :=
    memberTurn_close false (List.forall_mem_append.mpr ⟨hb, hgap⟩) rest
  rwa [List.append_assoc] at hclose

theorem memberTurn_behindMembers_cons {m : MemberText} {keyBody : List Char}
    (hkey : m.key.text = '"' :: keyBody) (parts : List MemberText) (gap rest : List Char) :
    memberTurn false (blanks ++ behindMembers (m :: parts) gap rest) =
      .ok (.next (m.behindQuote keyBody (behindMembers parts gap rest))) := by
  rw [behindMembers_cons hkey, memberTurn, skipBlanks_blanks hb,
    ← memberTurn_comma m.key.isSpace_before, memberTurn]

end

theorem colon_blanks {blanks : List Char} (hb : ∀ c ∈ blanks, isSpace c) (rest : List Char) :
    colon (blanks ++ ':' :: rest) = .ok rest := by
  rw [colon, skipBlanks_append hb (by decide)]
  rfl

/-- Members that are read one after another from their texts take one state to another. -/
inductive Follows (member : σ → String → Except Cause (Reader σ)) :
    σ → List (String × MemberText) → σ → Prop where
  | nil {state : σ} : Follows member state [] state
  | cons {state next final : σ} {m : String × MemberText} {value : Reader σ}
    {rest : List (String × MemberText)} (hm : member state m.1 = .ok value)
    (hv : value.Takes m.2.value.text next) (h : Follows member next rest final) :
    Follows member state (m :: rest) final

/-- One member is read, from behind the quote of its key on. -/
theorem members_step {member : σ → String → Except Cause (Reader σ)} {first : Bool}
    {state next : σ} {m : String × MemberText} {value : Reader σ} {keyBody s rest : List Char}
    (hkey : ∀ rest, stringBody [] (keyBody ++ rest) = .ok (m.1, rest))
    (hm : member state m.1 = .ok value) (hv : value.Takes m.2.value.text next)
    (hr : EndsNumber rest)
    (ht : memberTurn first s = .ok (.next (m.2.behindQuote keyBody rest))) :
    members member first state s = members member false next (m.2.value.behind ++ rest) :=
  members_next ht (hkey _) hm (colon_blanks m.2.key.isSpace_behind _)
    (hv.run_eq _ _ m.2.value.isSpace_before (endsNumber_blanks m.2.value.isSpace_behind hr))

/-- The members behind the first are read, up to the closing bracket. -/
theorem members_behind {member : σ → String → Except Cause (Reader σ)} {state final : σ}
    {parts : List (String × MemberText)} {gap : List Char}
    (hkey : ∀ m ∈ parts, SpelledString m.1 m.2.key.text) (h : Follows member state parts final)
    (hgap : ∀ c ∈ gap, isSpace c) (rest : List Char) {blanks : List Char}
    (hb : ∀ c ∈ blanks, isSpace c) :
    members member false state (blanks ++ behindMembers (parts.map Prod.snd) gap rest) =
      .ok (final, rest) := by
  induction h generalizing blanks with
  | nil =>
    exact members_close (memberTurn_behindMembers_nil hb hgap rest)
  | @cons state next final m value parts hm hv _ ih =>
    obtain ⟨hm', hkeys⟩ := List.forall_mem_cons.mp hkey
    obtain ⟨keyBody, hbody, hread⟩ := hm'.exists_body
    have hturn := memberTurn_behindMembers_cons hb hbody (parts.map Prod.snd) gap rest
    rw [List.map_cons, members_step hread hm hv (endsNumber_behindMembers _ hgap rest) hturn,
      ih hkeys m.2.value.isSpace_behind]

/-- The inside of an object is read, if its members are. -/
theorem members_enclosed {member : σ → String → Except Cause (Reader σ)} {start final : σ}
    {parts : List (String × MemberText)} {gap : List Char}
    (hkey : ∀ m ∈ parts, SpelledString m.1 m.2.key.text) (h : Follows member start parts final)
    (hgap : ∀ c ∈ gap, isSpace c) (rest : List Char) :
    ∃ body, enclosed '\x7b' '\x7d' (parts.map fun m => m.2.full) gap ++ rest = '\x7b' :: body ∧
      members member true start body = .ok (final, rest) := by
  cases h with
  | nil => exact ⟨_, enclosed_nil _ _ gap rest, members_close (memberTurn_close true hgap rest)⟩
  | @cons _ next _ m value parts hm hv h =>
    obtain ⟨hm', hkeys⟩ := List.forall_mem_cons.mp hkey
    obtain ⟨keyBody, hbody, hread⟩ := hm'.exists_body
    have hturn := memberTurn_first m.2.key.isSpace_before
      (m.2.behindQuote keyBody (behindMembers (parts.map Prod.snd) gap rest))
    refine ⟨_, enclosed_keyed hbody parts gap rest, ?_⟩
    rw [members_step hread hm hv (endsNumber_behindMembers _ hgap rest) hturn,
      members_behind hkeys h hgap rest m.2.value.isSpace_behind]

/-! ## Values -/

/-- The members of an object are gathered, latest first. -/
theorem follows_gathered {r : Reader Json} {parts : List ((String × Json) × MemberText)}
    (h : ∀ m ∈ parts, r.Takes m.2.value.text m.1.2) (read : List (String × Json)) :
    Follows (gathered r) read (parts.map fun m => (m.1.1, m.2))
      ((parts.map Prod.fst).reverse ++ read) := by
  induction parts generalizing read with
  | nil => exact .nil
  | cons m parts ih =>
    obtain ⟨hm, hrest⟩ := List.forall_mem_cons.mp h
    rw [List.map_cons, List.map_cons, List.reverse_cons, List.append_assoc, List.singleton_append]
    exact .cons rfl (hm.map fun v => (m.1.1, v) :: read) (ih hrest _)

theorem Reader.takes_value_scalar (levels : Nat) {x : Scalar} {text : List Char}
    (h : x.toJson.SpelledBy text) : (value levels).Takes text x.toJson where
  run_eq blanks rest hb hr := by
    obtain ⟨inner, hinner⟩ := run_value levels (blanks ++ (text ++ rest))
    rw [hinner]
    refine runValue_of_scalar ?_
    rw [skipBlanks_begins hb h.isValueText.begins, h.scalar?_eq hr]

/-- A value is taken from each of its spellings, if the levels suffice. -/
theorem SpelledBy.takes {v : Json} {text : List Char} (h : v.SpelledBy text) {levels : Nat}
    (hf : v.fits levels) : (Reader.value levels).Takes text v := by
  induction h generalizing levels with
  | null => exact Reader.takes_value_scalar levels (x := .null) .null
  | isTrue => exact Reader.takes_value_scalar levels (x := .bool true) .isTrue
  | isFalse => exact Reader.takes_value_scalar levels (x := .bool false) .isFalse
  | @number n h => exact Reader.takes_value_scalar levels (x := .number n) (.number h)
  | @string s _ h => exact Reader.takes_value_scalar levels (x := .string s) (.string h)
  | @array parts gap hparts hgap ih =>
    cases levels with
    | zero => cases hf
    | succ levels =>
      refine ⟨fun blanks rest hb _ => ?_⟩
      have hfits := List.forall_mem_map.mp (List.all_eq_true.mp hf)
      obtain ⟨body, hbody, hitems⟩ := items_enclosed (fun p hp => (hparts p hp).isValueText)
        (fun p hp => ih p hp (hfits p hp)) hgap rest
      have hs : skipBlanks (blanks ++ '[' :: body) = '[' :: body :=
        skipBlanks_append hb (by decide) _
      rw [hbody]
      exact runValue_array (Reader.value levels) hs (settled_eq_ok.mpr hitems)
  | @object parts gap hkey hparts hgap ih =>
    cases levels with
    | zero => cases hf
    | succ levels =>
      refine ⟨fun blanks rest hb _ => ?_⟩
      have hfits := List.forall_mem_map.mp (List.all_eq_true.mp hf)
      have hfollows := follows_gathered (fun m hm => ih m hm (hfits m hm)) []
      obtain ⟨body, hbody, hmembers⟩ := members_enclosed (List.forall_mem_map.mpr hkey) hfollows
        hgap rest
      have hs : skipBlanks (blanks ++ '\x7b' :: body) = '\x7b' :: body :=
        skipBlanks_append hb (by decide) _
      rw [List.map_map] at hbody
      have hvalue := runValue_object (Reader.value levels) hs (settled_eq_ok.mpr hmembers)
      rw [List.append_nil, List.reverse_reverse] at hvalue
      exact hbody ▸ hvalue

/-- What a reader takes, it takes from a whole text with blanks around it. -/
theorem Reader.Takes.readAll_eq {r : Reader α} {p : Padded} {a : α} (h : r.Takes p.text a) :
    r.readAll (String.ofList p.full) = .ok a := by
  have hends : EndsNumber (p.behind ++ []) := endsNumber_blanks p.isSpace_behind endsNumber_nil
  rw [List.append_nil] at hends
  refine readAll_eq_ok.mpr ⟨p.behind, ?_, List.dropWhile_eq_nil_iff.mpr p.isSpace_behind⟩
  rw [String.toList_ofList]
  exact h.run_eq p.before p.behind p.isSpace_before hends

/-- A value is read from each of its texts, if it has no more levels of brackets than a text may
have. -/
theorem HasText.read_eq {v : Json} {text : String} (h : v.HasText text)
    (hf : v.fits Reader.maxLevels) : Json.read text = .ok v := by
  obtain ⟨p, hp, rfl⟩ := h
  exact (hp.takes hf).readAll_eq

end CodeMap.Json
