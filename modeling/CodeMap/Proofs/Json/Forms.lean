import CodeMap.Proofs.Json.Members

/-! # Forms of values

A form says of a value which kind of value it is. The form of an object names some keys: none of
them may come twice, some of them have to be there, and their values have forms of their own; all
other keys are free (`IsObject`). The decoder of a record takes the values of such a form and no
others (`Record.Fits.isSome_decode_iff`).
-/

namespace CodeMap.Json

variable {α β σ : Type}

/-! ## Forms -/

/-- The value is a natural number below a bound. -/
def IsBelow (bound : Nat) (v : Json) : Prop := ∃ n : UInt64, n.toNat < bound ∧ v = .natural n

def IsString (v : Json) : Prop := ∃ s, v = .string s

def IsBoolean (v : Json) : Prop := ∃ b, v = .bool b

/-- The value is null, or it has the form. -/
def IsNullOr (P : Json → Prop) (v : Json) : Prop := v = .null ∨ P v

/-- The value is an array of values with the form. -/
def IsArrayOf (P : Json → Prop) (v : Json) : Prop := ∃ vs, v = .array vs ∧ ∀ w ∈ vs, P w

/-- What the form of an object says about one key. -/
structure KeyForm where
  key : String
  needed : Bool
  form : Json → Prop

/-- None of the keys comes twice among those used. -/
def HasOnce (keys used : List String) : Prop := (used.filter (· ∈ keys)).Nodup

instance (keys used : List String) : Decidable (HasOnce keys used) :=
  inferInstanceAs (Decidable (List.Nodup _))

/-- The value is an object with these keys, each at most once and as its form says. -/
structure IsObject (forms : List KeyForm) (v : Json) : Prop where
  exists_members : ∃ ms, v = .object ms ∧ HasOnce (forms.map KeyForm.key) (ms.map Prod.fst) ∧
    ∀ f ∈ forms, (∀ w, (f.key, w) ∈ ms → f.form w) ∧ (f.needed → f.key ∈ ms.map Prod.fst)

theorem hasOnce_cons {keys used : List String} {key : String} :
    HasOnce keys (key :: used) ↔ (key ∈ keys → key ∉ used) ∧ HasOnce keys used := by
  by_cases h : key ∈ keys
  · rw [HasOnce, List.filter_cons_of_pos (by simpa using h), List.nodup_cons, List.mem_filter,
      HasOnce]
    simp [h]
  · rw [HasOnce, List.filter_cons_of_neg (by simpa using h), HasOnce]
    simp [h]

/-- The member is as one of the forms says, if one of them has its key. -/
def IsMember (forms : List KeyForm) (m : String × Json) : Prop :=
  ∀ f ∈ forms, f.key = m.1 → f.form m.2

/-! ## Decoders -/

theorem isSome_natural?_iff {width : Width} {v : Json} :
    (v.natural? width).isSome ↔ v.IsBelow (width.greatest + 1) := by
  constructor
  · intro h
    obtain ⟨n, hn⟩ := Option.isSome_iff_exists.mp h
    obtain ⟨hle, rfl⟩ := eq_natural_of_natural? hn
    have hgreatest : width.greatest < UInt64.size := by cases width <;> decide
    have hlt : n < UInt64.size := Nat.lt_of_le_of_lt hle hgreatest
    refine ⟨UInt64.ofNat n, ?_, rfl⟩
    rw [UInt64.toNat_ofNat_of_lt' hlt]
    exact Nat.lt_succ_of_le hle
  · rintro ⟨n, hn, rfl⟩
    have hle : n.toNat ≤ width.greatest := Nat.le_of_lt_succ hn
    simp [natural?, natural, hle]

theorem isSome_word64?_iff {v : Json} : v.word64?.isSome ↔ v.IsBelow UInt64.size := by
  rw [word64?, Option.isSome_map, isSome_natural?_iff]
  rfl

theorem isSome_word32?_iff {v : Json} : v.word32?.isSome ↔ v.IsBelow UInt32.size := by
  rw [word32?, Option.isSome_map, isSome_natural?_iff]
  rfl

theorem isSome_string?_iff {v : Json} : v.string?.isSome ↔ v.IsString := by
  cases v <;> simp [string?, IsString]

theorem isSome_boolean?_iff {v : Json} : v.boolean?.isSome ↔ v.IsBoolean := by
  cases v <;> simp [boolean?, IsBoolean]

section

variable {decode : Json → Option α} {P : Json → Prop}

theorem isSome_nullable?_iff (h : ∀ v, (decode v).isSome ↔ P v) {v : Json} :
    (nullable? decode v).isSome ↔ v.IsNullOr P := by
  rw [IsNullOr, ← h]
  cases v <;> simp [nullable?]

theorem isSome_mapM_iff (h : ∀ v, (decode v).isSome ↔ P v) {vs : List Json} :
    (vs.mapM decode).isSome ↔ ∀ v ∈ vs, P v := by
  induction vs with
  | nil => simp
  | cons v vs ih =>
    rw [List.mapM_cons, List.forall_mem_cons, ← ih, ← h]
    cases decode v <;> cases vs.mapM decode <;> simp

theorem isSome_list?_iff (h : ∀ v, (decode v).isSome ↔ P v) {v : Json} :
    (list? decode v).isSome ↔ v.IsArrayOf P := by
  cases v with
  | array vs =>
    rw [list?, isSome_mapM_iff h]
    simp [IsArrayOf]
  | null | bool | number | string | object => simp [list?, IsArrayOf]

end

/-! ## Records -/

namespace Record

/-- The field of the key, if there is one, is set in the draft. -/
def isSetAt (r : Record σ α) (draft : σ) (key : String) : Bool :=
  (r.fields.find? fun f => f.key == key).any fun f => f.isSet draft

/-- A record is decoded as its forms say: a field takes the values of its form and is set from then
on, and the draft is finished if all that is needed is set. -/
structure Fits (r : Record σ α) (field : String → σ → Json → Option σ)
    (carry : σ → String → Json → σ) (forms : List KeyForm) : Prop where
  keys_eq : r.keys = forms.map KeyForm.key
  isSet_start : ∀ f ∈ r.fields, f.isSet r.start = false
  isSome_iff : ∀ f ∈ forms, ∀ d v, (field f.key d v).isSome ↔ f.form v
  isSet_field : ∀ f ∈ r.fields, ∀ key d v next, field key d v = some next →
    f.isSet next = (f.isSet d || f.key == key)
  isSet_carry : ∀ f ∈ r.fields, ∀ d key v, f.isSet (carry d key v) = f.isSet d
  isSome_finish_iff : ∀ d, (r.finish d).toOption.isSome ↔
    ∀ f ∈ forms, f.needed → r.isSetAt d f.key

variable {r : Record σ α} {field : String → σ → Json → Option σ} {carry : σ → String → Json → σ}
  {forms : List KeyForm}

theorem exists_field {key : String} (h : key ∈ r.keys) :
    ∃ f ∈ r.fields, (r.fields.find? fun f => f.key == key) = some f ∧ f.key = key := by
  obtain ⟨f, hf, rfl⟩ := List.mem_map.mp h
  cases hfind : r.fields.find? fun g => g.key == f.key with
  | none => exact absurd (List.find?_eq_none.mp hfind f hf) (by simp)
  | some g =>
    have hkey := List.find?_some hfind
    exact ⟨g, List.mem_of_find?_eq_some hfind, rfl, eq_of_beq hkey⟩

namespace Fits

variable (h : r.Fits field carry forms)

include h

theorem isSetAt_start (key : String) : r.isSetAt r.start key = false := by
  rw [isSetAt]
  cases hfind : r.fields.find? fun f => f.key == key with
  | none => rfl
  | some f => exact h.isSet_start f (List.mem_of_find?_eq_some hfind)

theorem isSetAt_carry (d : σ) (key : String) (v : Json) (other : String) :
    r.isSetAt (carry d key v) other = r.isSetAt d other := by
  rw [isSetAt, isSetAt]
  cases hfind : r.fields.find? fun f => f.key == other with
  | none => rfl
  | some f => exact h.isSet_carry f (List.mem_of_find?_eq_some hfind) d key v

theorem isSetAt_field {key : String} {d next : σ} {v : Json} (hnext : field key d v = some next)
    {other : String} (hother : other ∈ r.keys) :
    r.isSetAt next other = (r.isSetAt d other || other == key) := by
  obtain ⟨f, hf, hfind, rfl⟩ := exists_field hother
  rw [isSetAt, isSetAt, hfind]
  exact h.isSet_field f hf key d v next hnext

/-- A member that is put into a draft sets its field, if it has one. -/
theorem isSetAt_put {d next : σ} {m : String × Json} (hnext : r.put field carry d m = some next)
    {key : String} (hkey : key ∈ r.keys) :
    r.isSetAt next key = (r.isSetAt d key || key == m.1) := by
  rcases put_eq_some hnext with hnext | ⟨hm, rfl⟩
  · exact h.isSetAt_field hnext hkey
  · have hne : key ≠ m.1 := fun he => hm (he ▸ hkey)
    rw [h.isSetAt_carry, beq_eq_false_iff_ne.mpr hne, Bool.or_false]

/-- A member is put into a draft, unless its field is set or does not take its value. -/
theorem isSome_put_iff (d : σ) (m : String × Json) :
    (r.put field carry d m).isSome ↔
      (m.1 ∈ r.keys → r.isSetAt d m.1 = false ∧ IsMember forms m) := by
  by_cases hm : m.1 ∈ r.keys
  · obtain ⟨f, hf, hkey⟩ := List.mem_map.mp (h.keys_eq ▸ hm)
    have hform : (field m.1 d m.2).isSome ↔ IsMember forms m := by
      constructor
      · intro hsome g hg hgm
        exact (h.isSome_iff g hg d m.2).mp (hgm ▸ hsome)
      · intro hall
        exact hkey ▸ (h.isSome_iff f hf d m.2).mpr (hall f hf hkey)
    obtain ⟨g, -, hfind, -⟩ := exists_field hm
    rw [put, isSetAt, hfind, ← hform]
    cases hset : g.isSet d <;> simp [hset, hm]
  · have hfind : (r.fields.find? fun f => f.key == m.1) = none := by
      refine List.find?_eq_none.mpr fun f hf he => hm ?_
      exact eq_of_beq he ▸ List.mem_map_of_mem hf
    simp [put, hfind, hm]

/-- Members are put into a draft one after another, unless a field is set twice or does not take a
value. -/
theorem isSome_foldlM_iff {ms : List (String × Json)} {d : σ} :
    (ms.foldlM (r.put field carry) d).isSome ↔ HasOnce r.keys (ms.map Prod.fst) ∧
      ∀ m ∈ ms, m.1 ∈ r.keys → r.isSetAt d m.1 = false ∧ IsMember forms m := by
  induction ms generalizing d with
  | nil => simp [HasOnce]
  | cons m ms ih =>
    have hput := h.isSome_put_iff d m
    rw [List.foldlM_cons, List.map_cons, hasOnce_cons, List.forall_mem_cons, ← hput]
    cases hnext : r.put field carry d m with
    | none => simp
    | some next =>
      have hunset : ∀ k ∈ ms, k.1 ∈ r.keys →
          (r.isSetAt next k.1 = false ↔ r.isSetAt d k.1 = false ∧ k.1 ≠ m.1) := by
        intro k _ hk
        rw [h.isSetAt_put hnext hk]
        simp
      rw [Option.bind_eq_bind, Option.bind_some, ih]
      grind

/-- The fields that are set behind some members: those that were set before, and theirs. -/
theorem isSetAt_foldlM {ms : List (String × Json)} {d final : σ}
    (hfold : ms.foldlM (r.put field carry) d = some final) {key : String} (hkey : key ∈ r.keys) :
    r.isSetAt final key = (r.isSetAt d key || decide (key ∈ ms.map Prod.fst)) := by
  induction ms generalizing d with
  | nil =>
    cases hfold
    simp
  | cons m ms ih =>
    rw [List.foldlM_cons] at hfold
    obtain ⟨next, hput, hfold⟩ := Option.bind_eq_some_iff.mp hfold
    rw [ih hfold, h.isSetAt_put hput hkey, List.map_cons]
    grind

/-- The decoder takes the objects of its form. -/
theorem isSome_decode_iff {v : Json} : (r.decode field carry v).isSome ↔ v.IsObject forms := by
  cases v with
  | object ms =>
    have hneeded : (∀ m ∈ ms, m.1 ∈ r.keys → r.isSetAt r.start m.1 = false ∧ IsMember forms m) ↔
        ∀ f ∈ forms, ∀ w, (f.key, w) ∈ ms → f.form w := by
      simp only [h.isSetAt_start, true_and]
      constructor
      · intro hall f hf w hw
        exact hall _ hw (h.keys_eq ▸ List.mem_map_of_mem hf) f hf rfl
      · rintro hall ⟨key, w⟩ hm - f hf rfl
        exact hall f hf w hm
    have hfold : (ms.foldlM (r.put field carry) r.start).isSome ↔ _ := h.isSome_foldlM_iff
    rw [hneeded] at hfold
    rw [decode]
    cases hfinal : ms.foldlM (r.put field carry) r.start with
    | none =>
      rw [hfinal] at hfold
      refine iff_of_false Bool.false_ne_true ?_
      rintro ⟨_, hms, honce, hall⟩
      cases hms
      exact absurd (hfold.mpr ⟨h.keys_eq ▸ honce, fun f hf => (hall f hf).1⟩) (by simp)
    | some final =>
      rw [hfinal] at hfold
      obtain ⟨honce, hall⟩ := hfold.mp rfl
      have hset : ∀ f ∈ forms, r.isSetAt final f.key ↔ f.key ∈ ms.map Prod.fst := by
        intro f hf
        rw [h.isSetAt_foldlM hfinal (h.keys_eq ▸ List.mem_map_of_mem hf), h.isSetAt_start]
        simp
      rw [Option.bind_some, h.isSome_finish_iff]
      constructor
      · intro hneeded
        exact ⟨ms, rfl, h.keys_eq ▸ honce, fun f hf =>
          ⟨hall f hf, fun hn => (hset f hf).mp (hneeded f hf hn)⟩⟩
      · rintro ⟨_, hms, -, hforms⟩ f hf hn
        cases hms
        exact (hset f hf).mpr ((hforms f hf).2 hn)
  | null | bool | number | string | array =>
    refine iff_of_false Bool.false_ne_true ?_
    rintro ⟨_, hms, -⟩
    cases hms

end Fits

end Record

end CodeMap.Json
