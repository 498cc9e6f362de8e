import CodeMap.Proofs.Json.Exactness
import CodeMap.Proofs.Json.Forms

/-! # Records read from their texts

A lenient record skips what it does not know. It is read from the text of an object if and only if
the values that the texts of its own members spell can be put into a draft one after another
(`Record.IsLenient.read_eq_ok_iff`); the texts of all other members may be any values.
-/

namespace CodeMap.Json

variable {σ α : Type}

/-- The text is that of an object with these members, with blanks around all tokens. -/
structure IsObjectText (ms : List (String × MemberText)) (text : String) : Prop where
  keys : ∀ m ∈ ms, SpelledString m.1 m.2.key.text
  values : ∀ m ∈ ms, IsValueText m.2.value.text
  exists_text : ∃ (p : Padded) (gap : List Char), (∀ c ∈ gap, isSpace c) ∧
    p.text = enclosed '\x7b' '\x7d' (ms.map fun m => m.2.full) gap ∧ text = String.ofList p.full

/-- A text of an object is that of its members. -/
theorem HasText.exists_isObjectText {ms : List (String × Json)} {text : String}
    (h : (Json.object ms).HasText text) :
    ∃ parts : List ((String × Json) × MemberText), parts.map Prod.fst = ms ∧
      IsObjectText (parts.map fun m => (m.1.1, m.2)) text ∧
        ∀ m ∈ parts, m.1.2.SpelledBy m.2.value.text := by
  obtain ⟨p, hp, htext⟩ := h
  generalize ht : p.text = spelling at hp
  cases hp with
  | @object parts gap hkey hvalue hgap =>
    refine ⟨parts, rfl, ⟨?_, ?_, p, gap, hgap, ?_, htext⟩, hvalue⟩
    · exact List.forall_mem_map.mpr hkey
    · exact List.forall_mem_map.mpr fun m hm => (hvalue m hm).isValueText
    · rw [ht, List.map_map, Function.comp_def]

namespace Record

/-- The value stands for the text of a member: if the record knows the key, the text spells it. -/
structure StandsFor (r : Record σ α) (m : String × Json) (t : String × MemberText) : Prop where
  key_eq : m.1 = t.1
  spelledBy : m.1 ∈ r.keys → m.2.SpelledBy t.2.value.text

section

variable {r : Record σ α} {ms : List (String × Json)} {parts : List (String × MemberText)}

theorem map_fst_of_standsFor (h : List.Forall₂ r.StandsFor ms parts) :
    ms.map Prod.fst = parts.map Prod.fst := by
  induction h with
  | nil => rfl
  | cons hm _ ih => rw [List.map_cons, List.map_cons, hm.key_eq, ih]

theorem exists_standsFor (h : List.Forall₂ r.StandsFor ms parts) {t : String × MemberText}
    (ht : t ∈ parts) : ∃ m ∈ ms, r.StandsFor m t := by
  induction h with
  | nil => cases ht
  | @cons m _ _ _ hm _ ih =>
    rcases List.mem_cons.mp ht with rfl | ht
    · exact ⟨m, List.mem_cons_self, hm⟩
    · obtain ⟨n, hn, hstands⟩ := ih ht
      exact ⟨n, List.mem_cons_of_mem _ hn, hstands⟩

end

/-- The record skips what it does not know, and its fields read what they decode. -/
structure IsLenient (r : Record σ α) (levels : Nat) (field : String → σ → Json → Option σ) :
    Prop where
  other_eq : ∀ draft key, r.other levels draft key = Reader.skip draft
  decodes : ∀ f ∈ r.fields, ∀ draft, (f.read levels draft).Decodes levels (field f.key draft)
  accepts : ∀ f ∈ r.fields, ∀ draft, (f.read levels draft).Accepts levels (field f.key draft)
  isIntegral : ∀ {key draft v next}, field key draft v = some next → v.isIntegral
  fits : ∀ {key draft v next}, field key draft v = some next → v.fits levels

/-- A member put into a draft, or nothing done if the record does not know it. -/
abbrev putKnown (r : Record σ α) (field : String → σ → Json → Option σ) (draft : σ)
    (m : String × Json) : Option σ := r.put field (fun draft _ _ => draft) draft m

namespace IsLenient

variable {r : Record σ α} {levels : Nat} {field : String → σ → Json → Option σ}
  (h : r.IsLenient levels field)

include h

/-! ## One member -/

/-- A member that can be put into a draft is taken from its text. -/
theorem takes_member {m : String × Json} {t : String × MemberText} (hm : r.StandsFor m t)
    (hvalue : IsValueText t.2.value.text) {draft next : σ}
    (hput : r.putKnown field draft m = some next) :
    ∃ value, r.member levels draft t.1 = .ok value ∧ value.Takes t.2.value.text next := by
  obtain ⟨hkey, hspelled⟩ := hm
  rw [putKnown, put] at hput
  rw [member, ← hkey]
  cases hf : r.fields.find? fun f => f.key == m.1 with
  | none =>
    rw [hf] at hput
    cases hput
    exact ⟨_, rfl, h.other_eq draft m.1 ▸ hvalue.takes_skip draft⟩
  | some f =>
    rw [hf] at hput
    simp only at hput ⊢
    split at hput
    · cases hput
    · next hset =>
      have hfield := List.mem_of_find?_eq_some hf
      have he := List.find?_some hf
      obtain he : f.key = m.1 := eq_of_beq he
      refine ⟨f.read levels draft, by rw [if_neg hset], ?_⟩
      have hvalue := hspelled (he ▸ List.mem_map_of_mem hfield)
      exact (h.accepts f hfield draft).takes hvalue (h.fits hput) (he ▸ hput)

/-- A member that is taken from its text can be put into the draft. -/
theorem exists_put {t : String × MemberText} (hvalue : IsValueText t.2.value.text)
    {draft next : σ} {value : Reader σ} (hmember : r.member levels draft t.1 = .ok value)
    {rest rest' : List Char} (hr : EndsNumber rest)
    (hrun : value.run (t.2.value.before ++ (t.2.value.text ++ rest)) = .ok (next, rest')) :
    rest' = rest ∧ ∃ m, r.StandsFor m t ∧ r.putKnown field draft m = some next := by
  have hb := t.2.value.isSpace_before
  unfold member at hmember
  cases hf : r.fields.find? fun f => f.key == t.1 with
  | none =>
    rw [hf] at hmember
    cases hmember
    rw [h.other_eq, (hvalue.takes_skip draft).run_eq _ _ hb hr] at hrun
    cases hrun
    refine ⟨rfl, (t.1, .null), ⟨rfl, fun hmem => ?_⟩, by rw [putKnown, put, hf]⟩
    obtain ⟨f, hfield, he⟩ := List.mem_map.mp hmem
    exact absurd (beq_iff_eq.mpr he) (List.find?_eq_none.mp hf f hfield)
  | some f =>
    rw [hf] at hmember
    simp only at hmember
    split at hmember
    · cases hmember
    · next hset =>
      cases hmember
      have hfield := List.mem_of_find?_eq_some hf
      have he := List.find?_some hf
      obtain he : f.key = t.1 := eq_of_beq he
      obtain ⟨hrest, v, hv, hput⟩ := (h.decodes f hfield draft).exists_spelledBy h.isIntegral hvalue
        hb hr hrun
      refine ⟨hrest, (t.1, v), ⟨rfl, fun _ => hv⟩, ?_⟩
      rw [putKnown, put, hf]
      simp only [if_neg hset]
      exact he ▸ hput

/-! ## All members -/

theorem follows_of_foldlM {ms : List (String × Json)} {parts : List (String × MemberText)}
    (hms : List.Forall₂ r.StandsFor ms parts) (hvalue : ∀ t ∈ parts, IsValueText t.2.value.text)
    {draft final : σ} (hfold : ms.foldlM (r.putKnown field) draft = some final) :
    Follows (r.member levels) draft parts final := by
  induction hms generalizing draft with
  | nil =>
    cases hfold
    exact .nil
  | cons hm _ ih =>
    obtain ⟨hvalue, hrest⟩ := List.forall_mem_cons.mp hvalue
    rw [List.foldlM_cons] at hfold
    obtain ⟨next, hput, hfold⟩ := Option.bind_eq_some_iff.mp hfold
    obtain ⟨value, hmember, htakes⟩ := h.takes_member hm hvalue hput
    exact .cons hmember htakes (ih hrest hfold)

/-- One member is read from its text and can be put into the draft. -/
theorem exists_step {first : Bool} {t : String × MemberText} {keyBody s rest rest' : List Char}
    {draft final : σ} (hkey : ∀ rest, stringBody [] (keyBody ++ rest) = .ok (t.1, rest))
    (hvalue : IsValueText t.2.value.text) (hr : EndsNumber rest)
    (ht : memberTurn first s = .ok (.next (t.2.behindQuote keyBody rest)))
    (hrun : members (r.member levels) first draft s = .ok (final, rest')) :
    ∃ m next, r.StandsFor m t ∧ r.putKnown field draft m = some next ∧
      members (r.member levels) false next (t.2.value.behind ++ rest) = .ok (final, rest') := by
  obtain ⟨key, u, value, v, next, more, hk, hm, hc, hv, hmore⟩ := exists_member_of_next ht hrun
  rw [hkey] at hk
  cases hk
  rw [colon_blanks t.2.key.isSpace_behind] at hc
  cases hc
  have hends := endsNumber_blanks t.2.value.isSpace_behind hr
  obtain ⟨rfl, m, hstands, hput⟩ := h.exists_put hvalue hm hends hv
  exact ⟨m, next, hstands, hput, hmore⟩

theorem exists_foldlM_behind {parts : List (String × MemberText)} {gap : List Char}
    (hkey : ∀ m ∈ parts, SpelledString m.1 m.2.key.text)
    (hvalue : ∀ m ∈ parts, IsValueText m.2.value.text) (hgap : ∀ c ∈ gap, isSpace c)
    {draft final : σ} {rest rest' blanks : List Char} (hb : ∀ c ∈ blanks, isSpace c)
    (hrun : members (r.member levels) false draft
      (blanks ++ behindMembers (parts.map Prod.snd) gap rest) = .ok (final, rest')) :
    ∃ ms, List.Forall₂ r.StandsFor ms parts ∧ ms.foldlM (r.putKnown field) draft = some final := by
  induction parts generalizing blanks draft with
  | nil =>
    cases (members_close (memberTurn_behindMembers_nil hb hgap rest)).symm.trans hrun
    exact ⟨[], .nil, rfl⟩
  | cons t parts ih =>
    obtain ⟨ht, hkeys⟩ := List.forall_mem_cons.mp hkey
    obtain ⟨hv, hvalues⟩ := List.forall_mem_cons.mp hvalue
    obtain ⟨keyBody, hbody, hread⟩ := ht.exists_body
    have hturn := memberTurn_behindMembers_cons hb hbody (parts.map Prod.snd) gap rest
    obtain ⟨m, next, hm, hput, hmore⟩ :=
      h.exists_step hread hv (endsNumber_behindMembers _ hgap rest) hturn hrun
    obtain ⟨ms, hms, hfold⟩ := ih hkeys hvalues t.2.value.isSpace_behind hmore
    exact ⟨m :: ms, .cons hm hms, by rw [List.foldlM_cons, hput]; exact hfold⟩

/-- Members that are read from the text of an object can be put into the draft. -/
theorem exists_foldlM {parts : List (String × MemberText)} {gap : List Char}
    (hkey : ∀ m ∈ parts, SpelledString m.1 m.2.key.text)
    (hvalue : ∀ m ∈ parts, IsValueText m.2.value.text) (hgap : ∀ c ∈ gap, isSpace c)
    {draft final : σ} {body rest rest' : List Char}
    (hbody : enclosed '\x7b' '\x7d' (parts.map fun m => m.2.full) gap ++ rest = '\x7b' :: body)
    (hrun : members (r.member levels) true draft body = .ok (final, rest')) :
    ∃ ms, List.Forall₂ r.StandsFor ms parts ∧ ms.foldlM (r.putKnown field) draft = some final := by
  cases parts with
  | nil =>
    rw [List.map_nil, enclosed_nil] at hbody
    cases hbody
    cases (members_close (memberTurn_close true hgap rest)).symm.trans hrun
    exact ⟨[], .nil, rfl⟩
  | cons t parts =>
    obtain ⟨ht, hkeys⟩ := List.forall_mem_cons.mp hkey
    obtain ⟨hv, hvalues⟩ := List.forall_mem_cons.mp hvalue
    obtain ⟨keyBody, hkeyBody, hread⟩ := ht.exists_body
    rw [enclosed_keyed hkeyBody] at hbody
    cases hbody
    have hturn := memberTurn_first t.2.key.isSpace_before
      (t.2.behindQuote keyBody (behindMembers (parts.map Prod.snd) gap rest))
    obtain ⟨m, next, hm, hput, hmore⟩ :=
      h.exists_step hread hv (endsNumber_behindMembers _ hgap rest) hturn hrun
    obtain ⟨ms, hms, hfold⟩ :=
      h.exists_foldlM_behind hkeys hvalues hgap t.2.value.isSpace_behind hmore
    exact ⟨m :: ms, .cons hm hms, by rw [List.foldlM_cons, hput]; exact hfold⟩

end IsLenient

/-! ## Whole texts -/

/-- A lenient record is read from the text of an object if and only if the values of its own members
can be put into a draft one after another, and the draft can be finished. -/
theorem IsLenient.read_eq_ok_iff {r : Record σ α} {field : String → σ → Json → Option σ}
    (h : r.IsLenient 126 field) {parts : List (String × MemberText)} {text : String}
    (htext : IsObjectText parts text) {a : α} :
    r.read text = .ok a ↔ ∃ ms final, List.Forall₂ r.StandsFor ms parts ∧
      ms.foldlM (r.putKnown field) r.start = some final ∧ r.finish final = .ok a := by
  obtain ⟨hkeys, hvalues, p, gap, hgap, hp, rfl⟩ := htext
  rw [read, Reader.readAll_eq_ok]
  have hdraft : ∀ {body}, p.text ++ p.behind = '\x7b' :: body →
      r.runDraft Reader.maxLevels (String.ofList p.full).toList =
        settled '\x7d' (members (r.member 126) true r.start body) := by
    intro body hbody
    rw [String.toList_ofList, Padded.full, hbody, runDraft,
      skipBlanks_append p.isSpace_before (by decide)]
    rfl
  constructor
  · rintro ⟨rest, hrun, -⟩
    obtain ⟨final, hfinal, hfinish⟩ := run_reader_eq_ok.mp hrun
    obtain ⟨body, hbody⟩ : ∃ body, p.text ++ p.behind = '\x7b' :: body := by
      rw [hp, enclosed]
      exact ⟨_, rfl⟩
    rw [hdraft hbody] at hfinal
    rw [hp] at hbody
    obtain ⟨ms, hms, hfold⟩ :=
      h.exists_foldlM hkeys hvalues hgap hbody (settled_eq_ok.mp hfinal)
    exact ⟨ms, final, hms, hfold, hfinish⟩
  · rintro ⟨ms, final, hms, hfold, hfinish⟩
    obtain ⟨body, hbody, hmembers⟩ := members_enclosed hkeys (h.follows_of_foldlM hms hvalues hfold)
      hgap p.behind
    rw [← hp] at hbody
    refine ⟨p.behind, run_reader_eq_ok.mpr ⟨final, ?_, hfinish⟩,
      List.dropWhile_eq_nil_iff.mpr p.isSpace_behind⟩
    rw [hdraft hbody]
    exact settled_eq_ok.mpr hmembers

end Record

end CodeMap.Json
