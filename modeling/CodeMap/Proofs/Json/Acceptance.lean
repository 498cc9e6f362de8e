import CodeMap.Proofs.Json.Decoding

/-! # Decoders as readers

The other half of `Reader.Decodes`: where the reader of any value finds a value, and the decoder
takes this value, the reader of one kind of value accepts (`Reader.Accepts`). A text that holds a
value is therefore refused for no other reason than that the decoder does not take it
(`Reader.readAll_eq_ok_iff`).
-/

namespace CodeMap.Json

variable {α β σ : Type}

theorem Scalar.toJson_inj {x y : Scalar} (h : x.toJson = y.toJson) : x = y := by
  cases x <;> cases y <;> cases h <;> rfl

/-- Only the letters of its word are read as null. -/
theorem keyword_of_scalar?_null {s rest : List Char} (h : scalar? s = some (.ok (.null, rest))) :
    ∃ t, s = 'n' :: t ∧ keyword ['u', 'l', 'l'] t = .ok rest := by
  unfold scalar? at h
  split at h
  · obtain ⟨_, hk, hv⟩ := map_ok_iff.mp (Option.some.inj h)
    cases hv
    exact ⟨_, rfl, hk⟩
  · obtain ⟨_, -, hv⟩ := map_ok_iff.mp (Option.some.inj h)
    cases hv
  · obtain ⟨_, -, hv⟩ := map_ok_iff.mp (Option.some.inj h)
    cases hv
  · obtain ⟨_, -, hv⟩ := map_ok_iff.mp (Option.some.inj h)
    cases hv
  · split at h
    · obtain ⟨_, -, hv⟩ := map_ok_iff.mp (Option.some.inj h)
      cases hv
    · cases h
  · cases h

namespace Reader

/-- Where there is a value that the decoder takes, the reader accepts and takes it for the same. -/
structure Accepts (r : Reader α) (levels : Nat) (decode : Json → Option α) : Prop where
  run_eq {s rest : List Char} {v : Json} {a : α} :
    (value levels).run s = .ok (v, rest) → decode v = some a → r.run s = .ok (a, rest)

variable {levels : Nat}

theorem accepts_value : (value levels).Accepts levels some where
  run_eq hv h := by
    cases h
    exact hv

theorem Accepts.map {r : Reader α} {decode : Json → Option α} (h : r.Accepts levels decode)
    (f : α → β) : (r.map f).Accepts levels fun v => (decode v).map f where
  run_eq hv hdecode := by
    obtain ⟨a, ha, rfl⟩ := Option.map_eq_some_iff.mp hdecode
    exact run_map_eq_ok.mpr ⟨a, h.run_eq hv ha, rfl⟩

/-- A scalar that was read as a value was read by itself. -/
theorem scalar?_of_value {s rest : List Char} {x : Scalar}
    (h : (value levels).run s = .ok (x.toJson, rest)) :
    scalar? (skipBlanks s) = some (.ok (x, rest)) := by
  obtain ⟨inner, hinner⟩ := run_value levels s
  rw [hinner] at h
  rcases runValue_eq_ok h with ⟨_, _, -, -, hx⟩ | ⟨_, _, -, -, hx⟩ | ⟨y, hy, hx⟩
  · cases x <;> cases hx
  · cases x <;> cases hx
  · exact Scalar.toJson_inj hx ▸ hy

/-- A reader of scalars accepts a value if what the decoder takes is a scalar that it accepts. -/
theorem accepts_scalar {wanted : Wanted} {accept : Scalar → Option (Except Cause α)}
    {decode : Json → Option α}
    (h : ∀ {v a}, decode v = some a → ∃ x : Scalar, v = x.toJson ∧ accept x = some (.ok a)) :
    (scalar wanted accept).Accepts levels decode where
  run_eq hv hdecode := by
    obtain ⟨x, rfl, ha⟩ := h hdecode
    dsimp only [Reader.scalar]
    rw [runScalar, scalar?_of_value hv]
    simp only [ha]

theorem accepts_string : string.Accepts levels string? := by
  refine accepts_scalar fun {v a} h => ?_
  cases v with
  | string s =>
    cases h
    exact ⟨.string _, rfl, rfl⟩
  | null | bool | number | array | object => cases h

theorem accepts_boolean : boolean.Accepts levels boolean? := by
  refine accepts_scalar fun {v a} h => ?_
  cases v with
  | bool b =>
    cases h
    exact ⟨.bool _, rfl, rfl⟩
  | null | number | string | array | object => cases h

theorem accepts_natural (width : Width) : (natural width).Accepts levels (natural? width) := by
  refine accepts_scalar fun {v a} h => ?_
  unfold natural? at h
  split at h
  · next n =>
    split at h
    · next hn =>
      cases h
      exact ⟨.number (.natural n), rfl, congrArg some (if_pos hn)⟩
    · cases h
  · cases h

theorem accepts_word64 : word64.Accepts levels word64? := (accepts_natural .word64).map UInt64.ofNat

theorem accepts_word32 : word32.Accepts levels word32? := (accepts_natural .word32).map UInt32.ofNat

/-- A value that begins with the letter of null is null. -/
theorem eq_null_of_value {s t rest : List Char} {v : Json}
    (h : (value levels).run s = .ok (v, rest)) (hs : skipBlanks s = 'n' :: t) : v = .null := by
  obtain ⟨inner, hinner⟩ := run_value levels s
  rw [hinner] at h
  rcases runValue_eq_ok h with ⟨_, _, hs', -, -⟩ | ⟨_, _, hs', -, -⟩ | ⟨x, hx, rfl⟩
  · rw [hs] at hs'
    cases hs'
  · rw [hs] at hs'
    cases hs'
  · rw [hs] at hx
    obtain ⟨_, -, hv⟩ := map_ok_iff.mp (Option.some.inj hx)
    cases hv
    rfl

theorem Accepts.nullable {r : Reader α} {decode : Json → Option α} (h : r.Accepts levels decode) :
    r.nullable.Accepts levels (nullable? decode) where
  run_eq {s rest v o} hv hdecode := by
    dsimp only [Reader.nullable]
    by_cases hnull : v = .null
    · subst hnull
      cases hdecode
      obtain ⟨t, ht, hk⟩ := keyword_of_scalar?_null (scalar?_of_value (x := .null) hv)
      rw [ht]
      simp only [hk]
      rfl
    · have hvalue : (decode v).map some = some o := by
        cases v with
        | null => exact absurd rfl hnull
        | bool | number | string | array | object => exact hdecode
      obtain ⟨a, ha, rfl⟩ := Option.map_eq_some_iff.mp hvalue
      split
      · next ht => exact absurd (eq_null_of_value hv ht) hnull
      · rw [h.run_eq ((run_value_skipBlanks levels s).trans hv) ha]
        rfl

/-- Where an array of any values is read, its elements are accepted one by one. -/
theorem items_accepts {item : Reader α} {decode : Json → Option α}
    (hitem : item.Accepts levels decode) {first : Bool} {before all : List Json}
    {s rest : List Char} (h : items (value levels) first before s = .ok (all, rest)) :
    ∃ vs, all = before.reverse ++ vs ∧ ∀ (read as : List α), vs.mapM decode = some as →
      items item first read s = .ok (read.reverse ++ as, rest) := by
  fun_induction items (value levels) first before s with
  | case1 | case3 => cases h
  | case2 first before s t ht =>
    cases h
    refine ⟨[], (List.append_nil _).symm, fun read as has => ?_⟩
    cases has
    rw [List.reverse_nil, List.append_nil]
    exact items_close ht
  | case4 first before s t ht v rest' hv ih =>
    obtain ⟨vs, rfl, hvs⟩ := ih h
    refine ⟨v :: vs, by rw [List.reverse_cons, List.append_assoc, List.singleton_append],
      fun read as has => ?_⟩
    rw [List.mapM_cons] at has
    obtain ⟨a, ha, has⟩ := Option.bind_eq_some_iff.mp has
    obtain ⟨more, hmore, has⟩ := Option.bind_eq_some_iff.mp has
    cases has
    rw [items_next ht (hitem.run_eq hv ha), hvs _ _ hmore, List.reverse_cons, List.append_assoc,
      List.singleton_append]

theorem accepts_list {item : Nat → Reader α} {decode : Json → Option α}
    (hitem : (item levels).Accepts levels decode) :
    (list (levels + 1) item).Accepts (levels + 1) (list? decode) where
  run_eq {s rest v as} hv hdecode := by
    rcases runValue_eq_ok hv with ⟨body, vs, hs, hitems, rfl⟩ | ⟨_, _, -, -, rfl⟩ | ⟨x, -, rfl⟩
    · obtain ⟨vs', rfl, haccepts⟩ := items_accepts hitem (settled_eq_ok.mp hitems)
      dsimp only [Reader.list]
      rw [hs]
      exact settled_eq_ok.mpr (haccepts [] as hdecode)
    · cases hdecode
    · cases x <;> cases hdecode

/-- A reader that decodes and accepts reads a text if and only if the text holds a value that the
decoder takes. -/
theorem readAll_eq_ok_iff {r : Reader α} {decode : Json → Option α}
    (hd : r.Decodes maxLevels decode) (ha : r.Accepts maxLevels decode) {text : String} {a : α} :
    r.readAll text = .ok a ↔ ∃ v, Json.read text = .ok v ∧ decode v = some a := by
  refine ⟨hd.read_eq_ok, ?_⟩
  rintro ⟨v, hv, hdecode⟩
  obtain ⟨rest, hrun, hrest⟩ := readAll_eq_ok.mp hv
  exact readAll_eq_ok.mpr ⟨rest, ha.run_eq hrun hdecode, hrest⟩

end Reader

/-! ## Records -/

/-- Where an object of any values is read, its members are accepted one by one. -/
theorem members_accepts {member : σ → String → Except Cause (Reader σ)}
    {put : σ → String × Json → Option σ} {levels : Nat}
    (hmember : ∀ draft key v next, put draft (key, v) = some next →
      ∃ reader, member draft key = .ok reader ∧ reader.Accepts levels fun v => put draft (key, v))
    {first : Bool} {before all : List (String × Json)} {s rest : List Char}
    (h : members (gathered (Reader.value levels)) first before s = .ok (all, rest)) :
    ∃ ms : List (String × Json), all = ms.reverse ++ before ∧
      ∀ draft final, ms.foldlM put draft = some final →
        members member first draft s = .ok (final, rest) := by
  fun_induction members (gathered (Reader.value levels)) first before s with
  | case1 | case3 | case4 | case5 | case6 => cases h
  | case2 first before s t ht =>
    cases h
    refine ⟨[], rfl, fun draft final hfold => ?_⟩
    cases hfold
    exact members_close ht
  | case7 first before s t ht key u hk value hm v hc next rest' hv ih =>
    cases hm
    obtain ⟨w, hw, rfl⟩ := Reader.run_map_eq_ok.mp hv
    obtain ⟨ms, rfl, hms⟩ := ih h
    refine ⟨(key, w) :: ms, by rw [List.reverse_cons, List.append_assoc, List.singleton_append],
      fun draft final hfold => ?_⟩
    rw [List.foldlM_cons] at hfold
    obtain ⟨mid, hput, hfold⟩ := Option.bind_eq_some_iff.mp hfold
    obtain ⟨reader, hreader, haccepts⟩ := hmember draft key w mid hput
    rw [members_next ht hk hreader hc (haccepts.run_eq hw hput), hms mid final hfold]

namespace Record

variable {r : Record σ α} {field : String → σ → Json → Option σ} {carry : σ → String → Json → σ}
  {levels : Nat}

theorem member_accepts
    (hfield : ∀ f ∈ r.fields, ∀ draft, (f.read levels draft).Accepts levels (field f.key draft))
    (hcarry : ∀ draft key, (r.other levels draft key).Accepts levels fun v =>
      some (carry draft key v))
    (draft : σ) (key : String) (v : Json) (next : σ)
    (h : r.put field carry draft (key, v) = some next) :
    ∃ reader, r.member levels draft key = .ok reader ∧
      reader.Accepts levels fun v => r.put field carry draft (key, v) := by
  simp only [put] at h ⊢
  rw [member]
  cases hf : r.fields.find? fun f => f.key == key with
  | none => exact ⟨_, rfl, hcarry draft key⟩
  | some f =>
    simp only [hf] at h ⊢
    split at h
    · cases h
    · next hset =>
      simp only [if_neg hset]
      have hkey := List.find?_some hf
      obtain rfl : f.key = key := eq_of_beq hkey
      exact ⟨_, rfl, hfield f (List.mem_of_find?_eq_some hf) draft⟩

/-- The reader of a record accepts what the decoder takes. -/
theorem accepts
    (hfield : ∀ f ∈ r.fields, ∀ draft, (f.read levels draft).Accepts levels (field f.key draft))
    (hcarry : ∀ draft key, (r.other levels draft key).Accepts levels fun v =>
      some (carry draft key v)) :
    (r.reader (levels + 1)).Accepts (levels + 1) (r.decode field carry) where
  run_eq {s rest v a} hv hdecode := by
    rcases runValue_eq_ok hv with ⟨_, _, -, -, rfl⟩ | ⟨body, all, hs, hms, rfl⟩ | ⟨x, -, rfl⟩
    · cases hdecode
    · obtain ⟨ms, rfl, haccepts⟩ :=
        members_accepts (member_accepts hfield hcarry) (settled_eq_ok.mp hms)
      rw [List.append_nil, List.reverse_reverse] at hdecode
      obtain ⟨draft, hfold, hfinish⟩ := Option.bind_eq_some_iff.mp hdecode
      refine run_reader_eq_ok.mpr ⟨draft, ?_, ok_of_toOption_eq_some hfinish⟩
      rw [runDraft, hs]
      exact settled_eq_ok.mpr (haccepts r.start draft hfold)
    · cases x <;> cases hdecode

end Record

end CodeMap.Json
