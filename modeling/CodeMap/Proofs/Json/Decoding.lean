import CodeMap.Proofs.Json.Records

/-! # Readers as decoders

A reader of one kind of value accepts no more than the reader of any value does, and what it gives
can be told from the value alone: `Reader.Decodes` says so for a decoder of values. A reader that
fails early or late makes no difference here, and neither does the place of a fault.
-/

namespace CodeMap.Json

variable {α β σ : Type}

theorem Reader.run_map_eq_ok {r : Reader α} {f : α → β} {s rest : List Char} {b : β} :
    (r.map f).run s = .ok (b, rest) ↔ ∃ a, r.run s = .ok (a, rest) ∧ f a = b := by
  rw [run_map]
  constructor
  · intro h
    split at h
    · next hr =>
      cases h
      exact ⟨_, hr, rfl⟩
    · cases h
  · rintro ⟨a, hr, rfl⟩
    rw [hr]

/-! ## Levels of a value that was read -/

/-- Elements that a reader gives have what each of them has. -/
theorem forall_items {item : Reader α} {P : α → Prop}
    (hitem : ∀ {s a rest}, item.run s = .ok (a, rest) → P a) {first : Bool} {read as : List α}
    {s rest : List Char} (h : items item first read s = .ok (as, rest)) (hread : ∀ a ∈ read, P a) :
    ∀ a ∈ as, P a := by
  fun_induction items item first read s with
  | case1 | case3 => cases h
  | case2 =>
    cases h
    exact fun a ha => hread a (List.mem_reverse.mp ha)
  | case4 first read s t ht a rest' hr ih =>
    exact ih h (List.forall_mem_cons.mpr ⟨hitem hr, hread⟩)

/-- What every member preserves holds behind the last one. -/
theorem members_preserve {member : σ → String → Except Cause (Reader σ)} {P : σ → Prop}
    (hmember : ∀ {state key value s next rest}, P state → member state key = .ok value →
      value.run s = .ok (next, rest) → P next) {first : Bool} {state final : σ}
    {s rest : List Char} (h : members member first state s = .ok (final, rest)) (hs : P state) :
    P final := by
  fun_induction members member first state s with
  | case1 | case3 | case4 | case5 | case6 => cases h
  | case2 =>
    cases h
    exact hs
  | case7 first state s t ht key u hk value hm v hc next rest' hv ih =>
    exact ih h (hmember hs hm hv)

/-- A member of any object, gathered in front of those before. -/
abbrev gathered (r : Reader Json) (read : List (String × Json)) (key : String) :
    Except Cause (Reader (List (String × Json))) :=
  .ok (r.map fun v => (key, v) :: read)

/-- A value is an array, an object or a scalar. -/
theorem runValue_eq_ok {inner : Option (Reader Json)} {s rest : List Char} {v : Json}
    (h : runValue inner s = .ok (v, rest)) :
    (∃ body items, skipBlanks s = '[' :: body ∧
        runItems inner ('[' :: body) body = .ok (items, rest) ∧ v = .array items) ∨
      (∃ body ms, skipBlanks s = '\x7b' :: body ∧
        runMembers (inner.map gathered) [] ('\x7b' :: body) body = .ok (ms, rest) ∧
          v = .object ms.reverse) ∨
      ∃ x : Scalar, scalar? (skipBlanks s) = some (.ok (x, rest)) ∧ v = x.toJson := by
  unfold runValue at h
  split at h
  · cases h
  · next body hs =>
    obtain ⟨⟨items, _⟩, hi, hv⟩ := map_ok_iff.mp h
    cases hv
    exact .inl ⟨body, items, hs, hi, rfl⟩
  · next body hs =>
    obtain ⟨⟨ms, _⟩, hm, hv⟩ := map_ok_iff.mp h
    cases hv
    exact .inr (.inl ⟨body, ms, hs, hm, rfl⟩)
  · split at h
    · cases h
    · cases h
    · next hx =>
      cases h
      exact .inr (.inr ⟨_, hx, rfl⟩)

theorem runValue_array (inner : Reader Json) {s body rest : List Char} {items : List Json}
    (hs : skipBlanks s = '[' :: body)
    (h : runItems (some inner) ('[' :: body) body = .ok (items, rest)) :
    runValue (some inner) s = .ok (.array items, rest) := by
  rw [runValue, hs]
  simp only [h]
  rfl

theorem runValue_object (inner : Reader Json) {s body rest : List Char}
    {ms : List (String × Json)} (hs : skipBlanks s = '\x7b' :: body)
    (h : runMembers (some (gathered inner)) [] ('\x7b' :: body) body = .ok (ms, rest)) :
    runValue (some inner) s = .ok (.object ms.reverse, rest) := by
  rw [runValue, hs]
  simp only [Option.map_some, h]
  rfl

theorem runValue_of_scalar {inner : Option (Reader Json)} {s rest : List Char} {x : Scalar}
    (h : scalar? (skipBlanks s) = some (.ok (x, rest))) :
    runValue inner s = .ok (x.toJson, rest) := by
  unfold runValue
  split
  · next hs => rw [hs] at h; cases h
  · next hs => rw [hs] at h; cases h
  · next hs => rw [hs] at h; cases h
  · rw [h]

/-- A value that was read has no more levels of brackets than its reader. -/
theorem Reader.fits_of_value {levels : Nat} {s rest : List Char} {v : Json}
    (h : (Reader.value levels).run s = .ok (v, rest)) : v.fits levels := by
  induction levels generalizing s v rest with
  | zero =>
    rcases runValue_eq_ok h with ⟨body, items, -, hi, -⟩ | ⟨body, ms, -, hm, -⟩ | ⟨x, -, rfl⟩
    · cases hi
    · cases hm
    · cases x <;> rfl
  | succ levels ih =>
    rcases runValue_eq_ok h with ⟨body, items, -, hi, rfl⟩ | ⟨body, ms, -, hm, rfl⟩ | ⟨x, -, rfl⟩
    · have hitems := forall_items ih (settled_eq_ok.mp hi) nofun
      exact List.all_eq_true.mpr hitems
    · have hms : ∀ m ∈ ms, m.2.fits levels := by
        refine members_preserve (P := fun ms => ∀ m ∈ ms, m.2.fits levels) ?_
          (settled_eq_ok.mp hm) nofun
        intro read key value s next rest hread hvalue hrun
        cases hvalue
        obtain ⟨v, hv, rfl⟩ := run_map_eq_ok.mp hrun
        exact List.forall_mem_cons.mpr ⟨ih hv, hread⟩
      exact List.all_eq_true.mpr fun m hm => hms m (List.mem_reverse.mp hm)
    · cases x <;> rfl

theorem fits_of_read {text : String} {v : Json} (h : Json.read text = .ok v) :
    v.fits Reader.maxLevels := by
  obtain ⟨rest, hrun, -⟩ := Reader.readAll_eq_ok.mp h
  exact Reader.fits_of_value hrun

/-! ## Decoders -/

/-- What the reader accepts is a value that the decoder takes for the same. -/
structure Reader.Decodes (r : Reader α) (levels : Nat) (decode : Json → Option α) : Prop where
  exists_value {s rest : List Char} {a : α} : r.run s = .ok (a, rest) →
    ∃ v, (Reader.value levels).run s = .ok (v, rest) ∧ decode v = some a

/-- The decoder of values that may be null. -/
def nullable? (decode : Json → Option α) : Json → Option (Option α)
  | .null => some none
  | v => (decode v).map some

/-- The decoder of arrays. -/
def list? (decode : Json → Option α) : Json → Option (List α)
  | .array items => items.mapM decode
  | .null | .bool _ | .number _ | .string _ | .object _ => none

/-- What is decoded from an array is decoded from its elements. -/
theorem exists_of_mem_list? {decode : Json → Option α} {v : Json} {as : List α}
    (h : list? decode v = some as) {a : α} (ha : a ∈ as) :
    ∃ items, v = .array items ∧ ∃ w ∈ items, decode w = some a := by
  cases v with
  | array items =>
    refine ⟨items, rfl, ?_⟩
    replace h : items.mapM decode = some as := h
    induction items generalizing as with
    | nil =>
      cases h
      cases ha
    | cons w items ih =>
      rw [List.mapM_cons] at h
      obtain ⟨b, hb, h⟩ := Option.bind_eq_some_iff.mp h
      obtain ⟨bs, hbs, h⟩ := Option.bind_eq_some_iff.mp h
      cases h
      rcases List.mem_cons.mp ha with rfl | ha
      · exact ⟨w, List.mem_cons_self, hb⟩
      · obtain ⟨x, hx, hdecode⟩ := ih ha hbs
        exact ⟨x, List.mem_cons_of_mem _ hx, hdecode⟩
  | null | bool | number | string | object => cases h

/-- The decoder of natural numbers of a width. -/
def natural? (width : Width) : Json → Option Nat
  | .number (.natural n) => if n.toNat ≤ width.greatest then some n.toNat else none
  | _ => none

def word64? (v : Json) : Option UInt64 := (v.natural? .word64).map UInt64.ofNat

def word32? (v : Json) : Option UInt32 := (v.natural? .word32).map UInt32.ofNat

def string? : Json → Option String
  | .string s => some s
  | _ => none

def boolean? : Json → Option Bool
  | .bool b => some b
  | _ => none

namespace Reader

variable {levels : Nat}

theorem run_value (levels : Nat) (s : List Char) :
    ∃ inner, (value levels).run s = runValue inner s := by
  cases levels with
  | zero => exact ⟨none, rfl⟩
  | succ levels => exact ⟨some (value levels), rfl⟩

theorem decodes_value : (value levels).Decodes levels some :=
  ⟨fun h => ⟨_, h, rfl⟩⟩

theorem Decodes.map {r : Reader α} {decode : Json → Option α} (h : r.Decodes levels decode)
    (f : α → β) : (r.map f).Decodes levels fun v => (decode v).map f := by
  constructor
  intro s rest b hrun
  obtain ⟨a, ha, rfl⟩ := run_map_eq_ok.mp hrun
  obtain ⟨v, hv, hdecode⟩ := h.exists_value ha
  exact ⟨v, hv, congrArg (Option.map f) hdecode⟩

/-- A reader of scalars decodes a value if the scalars that it accepts are told from it. -/
theorem decodes_scalar {wanted : Wanted} {accept : Scalar → Option (Except Cause α)}
    {decode : Json → Option α}
    (h : ∀ {x a}, accept x = some (.ok a) → decode x.toJson = some a) :
    (scalar wanted accept).Decodes levels decode := by
  constructor
  intro s rest a hrun
  replace hrun : runScalar wanted accept s = .ok (a, rest) := hrun
  unfold runScalar at hrun
  split at hrun
  · next x _ hx =>
    split at hrun
    · next ha =>
      cases hrun
      obtain ⟨inner, hinner⟩ := run_value levels s
      exact ⟨x.toJson, hinner.trans (runValue_of_scalar hx), h ha⟩
    · cases hrun
    · cases hrun
  · cases hrun

theorem decodes_string : string.Decodes levels string? := by
  apply decodes_scalar
  intro x a h
  cases x <;> cases h
  rfl

theorem decodes_boolean : boolean.Decodes levels boolean? := by
  apply decodes_scalar
  intro x a h
  cases x <;> cases h
  rfl

theorem decodes_natural (width : Width) : (natural width).Decodes levels (natural? width) := by
  apply decodes_scalar
  intro x a h
  cases x with
  | number n =>
    cases n with
    | natural n =>
      by_cases hn : n.toNat ≤ width.greatest
      · cases (if_pos hn).symm.trans (Option.some.inj h)
        exact if_pos hn
      · cases (if_neg hn).symm.trans (Option.some.inj h)
    | negative n => cases h
    | real x => cases h
  | null | bool | string => cases h

theorem decodes_word64 : word64.Decodes levels word64? := (decodes_natural .word64).map UInt64.ofNat

theorem decodes_word32 : word32.Decodes levels word32? := (decodes_natural .word32).map UInt32.ofNat

theorem skipBlanks_skipBlanks (s : List Char) : skipBlanks (skipBlanks s) = skipBlanks s := by
  cases hs : skipBlanks s with
  | nil => rfl
  | cons c t =>
    refine skipBlanks_cons ?_ t
    have hhead := List.head?_dropWhile_not isSpace s
    rw [show s.dropWhile isSpace = c :: t from hs] at hhead
    exact hhead

theorem run_value_skipBlanks (levels : Nat) (s : List Char) :
    (value levels).run (skipBlanks s) = (value levels).run s := by
  have h (inner : Option (Reader Json)) : runValue inner (skipBlanks s) = runValue inner s := by
    unfold runValue
    rw [skipBlanks_skipBlanks]
  cases levels <;> exact h _

theorem Decodes.nullable {r : Reader α} {decode : Json → Option α} (h : r.Decodes levels decode)
    (hnull : decode .null = none) : r.nullable.Decodes levels (nullable? decode) := by
  constructor
  intro s rest a hrun
  dsimp only [Reader.nullable] at hrun
  split at hrun
  · next more hs =>
    obtain ⟨_, hk, ha⟩ := map_ok_iff.mp hrun
    cases ha
    obtain ⟨inner, hinner⟩ := run_value levels s
    have hx : scalar? (skipBlanks s) = some (.ok (.null, rest)) := by
      rw [hs, scalar?, hk]
      rfl
    exact ⟨.null, hinner.trans (runValue_of_scalar hx), rfl⟩
  · obtain ⟨⟨b, _⟩, hr, ha⟩ := map_ok_iff.mp hrun
    cases ha
    obtain ⟨v, hv, hdecode⟩ := h.exists_value hr
    rw [run_value_skipBlanks] at hv
    refine ⟨v, hv, ?_⟩
    cases v with
    | null => cases hnull.symm.trans hdecode
    | bool | number | string | array | object => exact congrArg (Option.map some) hdecode

/-- Elements that are decoded one by one are the elements of an array of any values. -/
theorem items_decodes {item : Reader α} {decode : Json → Option α}
    (hitem : item.Decodes levels decode) {first : Bool} {read as : List α} {s rest : List Char}
    (h : items item first read s = .ok (as, rest)) (before : List Json) :
    ∃ vs bs, items (value levels) first before s = .ok (before.reverse ++ vs, rest) ∧
      vs.mapM decode = some bs ∧ as = read.reverse ++ bs := by
  fun_induction items item first read s generalizing before with
  | case1 | case3 => cases h
  | case2 first read s t ht =>
    cases h
    refine ⟨[], [], ?_, rfl, (List.append_nil _).symm⟩
    rw [items_close ht, List.append_nil]
  | case4 first read s t ht a rest' hr ih =>
    obtain ⟨v, hv, hdecode⟩ := hitem.exists_value hr
    obtain ⟨vs, bs, hvs, hbs, rfl⟩ := ih h (v :: before)
    refine ⟨v :: vs, a :: bs, ?_, ?_, ?_⟩
    · rw [items_next ht hv, hvs, List.reverse_cons, List.append_assoc, List.singleton_append]
    · rw [List.mapM_cons, hdecode, hbs]
      rfl
    · rw [List.reverse_cons, List.append_assoc, List.singleton_append]

theorem decodes_list {item : Nat → Reader α} {decode : Json → Option α}
    (hitem : (item levels).Decodes levels decode) :
    (list (levels + 1) item).Decodes (levels + 1) (list? decode) := by
  constructor
  intro s rest as hrun
  dsimp only [Reader.list] at hrun
  split at hrun
  · next body hs =>
    obtain ⟨vs, bs, hvs, hbs, rfl⟩ := items_decodes hitem (settled_eq_ok.mp hrun) []
    exact ⟨.array vs, runValue_array (value levels) hs (settled_eq_ok.mpr hvs), hbs⟩
  · cases hrun

/-- A text that the reader accepts holds a value, and the decoder takes this value for the same. -/
theorem Decodes.read_eq_ok {r : Reader α} {decode : Json → Option α}
    (h : r.Decodes maxLevels decode) {text : String} {a : α} (hread : r.readAll text = .ok a) :
    ∃ v, Json.read text = .ok v ∧ decode v = some a := by
  obtain ⟨rest, hrun, hrest⟩ := readAll_eq_ok.mp hread
  obtain ⟨v, hv, hdecode⟩ := h.exists_value hrun
  exact ⟨v, readAll_eq_ok.mpr ⟨rest, hv, hrest⟩, hdecode⟩

end Reader

/-! ## Records -/

theorem ok_of_toOption_eq_some {ε : Type} {e : Except ε α} {a : α} (h : e.toOption = some a) :
    e = .ok a := by
  cases e <;> cases h
  rfl

/-- Members that are decoded one by one are the members of an object of any values. -/
theorem members_decodes {member : σ → String → Except Cause (Reader σ)}
    {put : σ → String × Json → Option σ} {levels : Nat}
    (hmember : ∀ state key value, member state key = .ok value →
      value.Decodes levels fun v => put state (key, v))
    {first : Bool} {state final : σ} {s rest : List Char}
    (h : members member first state s = .ok (final, rest)) (before : List (String × Json)) :
    ∃ ms : List (String × Json),
      members (gathered (Reader.value levels)) first before s = .ok (ms.reverse ++ before, rest) ∧
        ms.foldlM put state = some final := by
  fun_induction members member first state s generalizing before with
  | case1 | case3 | case4 | case5 | case6 => cases h
  | case2 first state s t ht =>
    cases h
    exact ⟨[], members_close ht, rfl⟩
  | case7 first state s t ht key u hk value hm v hc next rest' hv ih =>
    obtain ⟨w, hw, hput⟩ := (hmember state key value hm).exists_value hv
    obtain ⟨ms, hms, hfold⟩ := ih h ((key, w) :: before)
    refine ⟨(key, w) :: ms, ?_, ?_⟩
    · have hread : ((Reader.value levels).map fun w => (key, w) :: before).run v =
          .ok ((key, w) :: before, rest') := Reader.run_map_eq_ok.mpr ⟨w, hw, rfl⟩
      rw [members_next ht hk rfl hc hread, hms, List.reverse_cons, List.append_assoc,
        List.singleton_append]
    · rw [List.foldlM_cons, hput]
      exact hfold

namespace Record

/-- A member put into a draft. A field makes of its value what `field` says, a second time it is
refused; a member that the record does not know is carried along. -/
def put (r : Record σ α) (field : String → σ → Json → Option σ) (carry : σ → String → Json → σ)
    (draft : σ) (m : String × Json) : Option σ :=
  match r.fields.find? fun f => f.key == m.1 with
  | some f => if f.isSet draft then none else field m.1 draft m.2
  | none => some (carry draft m.1 m.2)

/-- The decoder of a record. -/
def decode (r : Record σ α) (field : String → σ → Json → Option σ)
    (carry : σ → String → Json → σ) : Json → Option α
  | .object ms =>
    (ms.foldlM (r.put field carry) r.start).bind fun draft => (r.finish draft).toOption
  | .null | .bool _ | .number _ | .string _ | .array _ => none

variable {r : Record σ α} {field : String → σ → Json → Option σ} {carry : σ → String → Json → σ}
  {levels : Nat}

theorem member_decodes
    (hfield : ∀ f ∈ r.fields, ∀ draft, (f.read levels draft).Decodes levels (field f.key draft))
    (hcarry : ∀ draft key, (r.other levels draft key).Decodes levels fun v =>
      some (carry draft key v))
    (draft : σ) (key : String) (value : Reader σ) (h : r.member levels draft key = .ok value) :
    value.Decodes levels fun v => r.put field carry draft (key, v) := by
  unfold member at h
  simp only [put]
  cases hf : r.fields.find? fun f => f.key == key with
  | none =>
    simp only [hf] at h ⊢
    cases h
    exact hcarry draft key
  | some f =>
    simp only [hf] at h ⊢
    split at h
    · cases h
    · next hset =>
      cases h
      have hkey := List.find?_some hf
      obtain rfl : f.key = key := eq_of_beq hkey
      simp only [if_neg hset]
      exact hfield f (List.mem_of_find?_eq_some hf) draft

/-- The reader of a record takes a value for what the decoder takes it for. -/
theorem decodes (ha : r.arrays = .refused)
    (hfield : ∀ f ∈ r.fields, ∀ draft, (f.read levels draft).Decodes levels (field f.key draft))
    (hcarry : ∀ draft key, (r.other levels draft key).Decodes levels fun v =>
      some (carry draft key v)) :
    (r.reader (levels + 1)).Decodes (levels + 1) (r.decode field carry) := by
  constructor
  intro s rest a hrun
  obtain ⟨draft, hdraft, hfinish⟩ := run_reader_eq_ok.mp hrun
  unfold runDraft at hdraft
  split at hdraft
  · next body hs =>
    have hmembers : members (r.member levels) true r.start body = .ok (draft, rest) :=
      settled_eq_ok.mp hdraft
    obtain ⟨ms, hms, hfold⟩ := members_decodes (member_decodes hfield hcarry) hmembers []
    refine ⟨.object ms, ?_, ?_⟩
    · have hvalue := runValue_object (Reader.value levels) hs (settled_eq_ok.mpr hms)
      rwa [List.append_nil, List.reverse_reverse] at hvalue
    · rw [decode, hfold, Option.bind_some, hfinish]
      rfl
  · rw [if_pos ha] at hdraft
    cases hdraft
  · cases hdraft

/-- A member that is put into a draft is a field's, or it is carried along. -/
theorem put_eq_some {draft next : σ} {m : String × Json}
    (h : r.put field carry draft m = some next) :
    field m.1 draft m.2 = some next ∨ m.1 ∉ r.keys ∧ carry draft m.1 m.2 = next := by
  unfold put at h
  split at h
  · split at h
    · cases h
    · exact .inl h
  · next hf =>
    refine .inr ⟨?_, Option.some.inj h⟩
    intro hmem
    obtain ⟨f, hmem, hkey⟩ := List.mem_map.mp hmem
    exact List.find?_eq_none.mp hf f hmem (beq_iff_eq.mpr hkey)

/-- What holds of a draft is kept by the members that are put into it. -/
theorem foldlM_put_preserves {P : σ → Prop} {Q : Json → Prop}
    (hfield : ∀ key draft v next, P draft → Q v → field key draft v = some next → P next)
    (hcarry : ∀ key draft v, P draft → Q v → key ∉ r.keys → P (carry draft key v))
    {ms : List (String × Json)} (hms : ∀ m ∈ ms, Q m.2) {draft final : σ} (hdraft : P draft)
    (h : ms.foldlM (r.put field carry) draft = some final) : P final := by
  induction ms generalizing draft with
  | nil =>
    cases h
    exact hdraft
  | cons m ms ih =>
    rw [List.foldlM_cons] at h
    obtain ⟨next, hput, hnext⟩ := Option.bind_eq_some_iff.mp h
    have hm : Q m.2 := hms m List.mem_cons_self
    refine ih (fun k hk => hms k (List.mem_cons_of_mem _ hk)) ?_ hnext
    rcases put_eq_some hput with hput | ⟨hkey, rfl⟩
    · exact hfield m.1 draft m.2 next hdraft hm hput
    · exact hcarry m.1 draft m.2 hdraft hm hkey

/-- A decoded record stems from a draft, of which all holds that the members of its value keep. -/
theorem exists_draft {P : σ → Prop} {Q : Json → Prop} {v : Json} {a : α}
    (h : r.decode field carry v = some a) (hv : ∀ ms, v = .object ms → ∀ m ∈ ms, Q m.2)
    (hstart : P r.start)
    (hfield : ∀ key draft v next, P draft → Q v → field key draft v = some next → P next)
    (hcarry : ∀ key draft v, P draft → Q v → key ∉ r.keys → P (carry draft key v)) :
    ∃ draft, P draft ∧ r.finish draft = .ok a := by
  cases v with
  | object ms =>
    obtain ⟨draft, hfold, hfinish⟩ := Option.bind_eq_some_iff.mp h
    exact ⟨draft, foldlM_put_preserves hfield hcarry (hv ms rfl) hstart hfold,
      ok_of_toOption_eq_some hfinish⟩
  | null | bool | number | string | array => cases h

end Record

end CodeMap.Json
