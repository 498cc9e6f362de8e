import CodeMap.Proofs.Json.Decoding
import Mathlib.Data.List.Forall2

/-! # Members of objects

Objects are compared by the values that they have for their keys (`Json.member?`), up to the order
of members in these. Of the value of a record, every key is either a field's, and its value is decoded
into a part of the draft, or it is carried along (`Json.Record.exists_tracked_draft`).
-/

namespace CodeMap

/-! ## Dictionaries of lists -/

namespace Dict

variable {α β : Type}

theorem get?_foldl_insert (d : Dict α) (es : List (String × α)) (key : String) :
    (es.foldl (fun d e => d.insert e.1 e.2) d).get? key =
      ((ofList es).get? key).or (d.get? key) := by
  induction es generalizing d with
  | nil => rfl
  | cons e rest ih =>
    rw [ofList, List.foldl_cons, List.foldl_cons, ih, ih, get?_insert, get?_insert, get?_empty]
    cases (ofList rest).get? key with
    | some a => rfl
    | none => by_cases h : key = e.1 <;> simp [h]

/-- Of two lists the later one decides. -/
theorem get?_ofList_append (es more : List (String × α)) (key : String) :
    (ofList (es ++ more)).get? key = ((ofList more).get? key).or ((ofList es).get? key) := by
  rw [ofList, List.foldl_append, get?_foldl_insert]
  rfl

theorem get?_ofList_cons (e : String × α) (rest : List (String × α)) (key : String) :
    (ofList (e :: rest)).get? key =
      ((ofList rest).get? key).or (if key = e.1 then some e.2 else none) := by
  rw [ofList, List.foldl_cons, get?_foldl_insert, get?_insert]
  rfl

theorem get?_ofList_eq_none {es : List (String × α)} {key : String} (h : ∀ e ∈ es, e.1 ≠ key) :
    (ofList es).get? key = none := by
  induction es with
  | nil => rfl
  | cons e rest ih =>
    obtain ⟨he, hrest⟩ := List.forall_mem_cons.mp h
    rw [get?_ofList_cons, ih hrest, if_neg he.symm]
    rfl

theorem get?_ofList_map (f : α → β) (es : List (String × α)) (key : String) :
    (ofList (es.map fun e => (e.1, f e.2))).get? key = ((ofList es).get? key).map f := by
  induction es with
  | nil => rfl
  | cons e rest ih =>
    rw [List.map_cons, get?_ofList_cons, get?_ofList_cons, ih]
    cases (ofList rest).get? key with
    | some a => rfl
    | none => by_cases h : key = e.1 <;> simp [h]

end Dict

namespace Json

/-- The value of a key in an object; of members with one key the last counts. -/
def member? (key : String) : Json → Option Json
  | .object ms => (Dict.ofList ms).get? key
  | .null | .bool _ | .number _ | .string _ | .array _ => none

/-- The value of a key, unless it is null. -/
def nonNull? (key : String) (v : Json) : Option Json := (v.member? key).filter (· != .null)

/-- Two objects have the same members, except for those of some keys. -/
structure AgreeBut (keys : List String) (v u : Json) : Prop where
  objects : ∃ ms ns, v = .object ms ∧ u = .object ns
  members : ∀ key ∉ keys, (u.member? key).map canonical = (v.member? key).map canonical

/-! ## Decoded values -/

/-- Whatever a natural number of a width is decoded from is this number. -/
theorem eq_natural_of_natural? {width : Width} {v : Json} {n : Nat}
    (h : v.natural? width = some n) : n ≤ width.greatest ∧ v = .natural (UInt64.ofNat n) := by
  unfold natural? at h
  split at h
  · next m =>
    split at h
    · next hle =>
      cases h
      exact ⟨hle, by rw [UInt64.ofNat_toNat]; rfl⟩
    · cases h
  · cases h

theorem eq_natural_of_word64? {v : Json} {n : UInt64} (h : v.word64? = some n) :
    v = .natural n := by
  obtain ⟨m, hm, rfl⟩ := Option.map_eq_some_iff.mp h
  exact (eq_natural_of_natural? hm).2

theorem eq_natural_of_word32? {v : Json} {n : UInt32} (h : v.word32? = some n) :
    v = .natural n.toUInt64 := by
  obtain ⟨m, hm, rfl⟩ := Option.map_eq_some_iff.mp h
  obtain ⟨hle, rfl⟩ := eq_natural_of_natural? hm
  have hlt : m < 2 ^ 32 := Nat.lt_succ_of_le hle
  congr 1
  apply UInt64.toNat_inj.mp
  rw [UInt32.toNat_toUInt64, UInt64.toNat_ofNat', UInt32.toNat_ofNat', Nat.mod_eq_of_lt hlt]
  exact Nat.mod_eq_of_lt (by omega)

theorem eq_string_of_string? {v : Json} {s : String} (h : v.string? = some s) :
    v = .string s := by
  unfold string? at h
  split at h
  · cases h
    rfl
  · cases h

/-- A value that may be null is null or stands for what it is decoded to. -/
theorem eq_elim_of_nullable? {α : Type} {decode : Json → Option α} {encode : α → Json}
    (hdecode : ∀ {v a}, decode v = some a → v = encode a) {v : Json} {o : Option α}
    (h : nullable? decode v = some o) : v = o.elim .null encode := by
  unfold nullable? at h
  split at h
  · cases h
    rfl
  · obtain ⟨a, ha, rfl⟩ := Option.map_eq_some_iff.mp h
    exact hdecode ha

/-- An array is decoded element by element. -/
theorem list?_eq_some {α : Type} {decode : Json → Option α} {v : Json} {as : List α}
    (h : list? decode v = some as) :
    ∃ vs, v = .array vs ∧ List.Forall₂ (fun v a => decode v = some a) vs as := by
  cases v with
  | array vs =>
    refine ⟨vs, rfl, ?_⟩
    replace h : vs.mapM decode = some as := h
    induction vs generalizing as with
    | nil =>
      cases h
      exact .nil
    | cons v vs ih =>
      rw [List.mapM_cons] at h
      obtain ⟨a, ha, h⟩ := Option.bind_eq_some_iff.mp h
      obtain ⟨rest, hrest, h⟩ := Option.bind_eq_some_iff.mp h
      cases h
      exact .cons ha (ih hrest)
  | null | bool | number | string | object => cases h

/-! ## Drafts -/

/-- A part of a draft has been decoded from a value, if there is one. -/
def Tracks {α : Type} (decode : Json → Option α) (part : Option α) (value : Option Json) : Prop :=
  value.map decode = part.map some

/-- A dictionary carries along what an object has for other keys than these. -/
def CarriesBut (keys : List String) (members extra : Dict Json) : Prop :=
  ∀ key, extra.get? key = if key ∈ keys then none else (members.get? key).map canonical

section

variable {α : Type} {decode : Json → Option α} {part : Option α} {members extra : Dict Json}
  {key : String} {v : Json} {keys : List String}

theorem Tracks.exists_value {a : α} {value : Option Json} (h : Tracks decode (some a) value) :
    ∃ v, value = some v ∧ decode v = some a := Option.map_eq_some_iff.mp h

theorem Tracks.eq_none {value : Option Json} (h : Tracks decode none value) : value = none :=
  Option.map_eq_none_iff.mp h

theorem Tracks.insert_self {a : α} (h : decode v = some a) :
    Tracks decode (some a) ((members.insert key v).get? key) := by
  rw [Dict.get?_insert, if_pos rfl]
  exact congrArg some h

theorem Tracks.insert_of_ne {other : String} (h : Tracks decode part (members.get? key))
    (hne : key ≠ other) : Tracks decode part ((members.insert other v).get? key) := by
  rwa [Dict.get?_insert, if_neg hne]

/-- A value that may be left out or null is one that its part of the draft stands for. -/
theorem Tracks.filter_eq {encode : α → Json} {part : Option (Option α)} {value : Option Json}
    (h : Tracks (nullable? decode) part value)
    (hdecode : ∀ {v a}, decode v = some a → v = encode a) (hne : ∀ a, encode a ≠ .null) :
    value.filter (· != .null) = (part.getD none).map encode := by
  cases part with
  | none =>
    rw [h.eq_none]
    rfl
  | some o =>
    obtain ⟨v, rfl, hv⟩ := h.exists_value
    rw [eq_elim_of_nullable? hdecode hv]
    cases o with
    | none => rfl
    | some a => simp [hne]

/-- An array that may be left out is decoded element by element. -/
theorem Tracks.exists_array {part : Option (List α)} {value : Option Json}
    (h : Tracks (list? decode) part value) :
    ∃ vs, value.getD (.array []) = .array vs ∧
      List.Forall₂ (fun v a => decode v = some a) vs (part.getD []) := by
  cases part with
  | none =>
    rw [h.eq_none]
    exact ⟨[], rfl, .nil⟩
  | some as =>
    obtain ⟨v, rfl, hv⟩ := h.exists_value
    exact list?_eq_some hv

theorem CarriesBut.empty (keys : List String) : CarriesBut keys .empty .empty := by
  intro key
  simp

theorem CarriesBut.insert_of_mem (h : CarriesBut keys members extra) (hkey : key ∈ keys) :
    CarriesBut keys (members.insert key v) extra := by
  intro other
  rw [h other, Dict.get?_insert]
  by_cases hother : other = key
  · rw [hother, if_pos hkey, if_pos hkey]
  · rw [if_neg hother]

theorem CarriesBut.insert_of_notMem (h : CarriesBut keys members extra) (hkey : key ∉ keys) :
    CarriesBut keys (members.insert key v) (extra.insert key v.canonical) := by
  intro other
  rw [Dict.get?_insert, Dict.get?_insert, h other]
  by_cases hother : other = key
  · rw [if_pos hother, if_pos hother, if_neg (hother ▸ hkey)]
    rfl
  · rw [if_neg hother, if_neg hother]

end

/-! ## What is carried along -/

/-- The value is an object, and what it has for other keys than these is carried along. -/
def Carries (keys : List String) (v : Json) (extra : Dict Json) : Prop :=
  ∃ ms, v = .object ms ∧ CarriesBut keys (Dict.ofList ms) extra

namespace Carries

variable {keys but : List String} {key : String} {v : Json} {extra : Dict Json}
  {ns : List (String × Json)}

/-- For the key of a field an object has what the field is written as. -/
theorem member?_append (h : v.Carries keys extra) (hkey : key ∈ keys) :
    (object (ns ++ extra.entries)).member? key = (object ns).member? key := by
  obtain ⟨ms, -, hcarries⟩ := h
  have hnone : extra.get? key = none := by rw [hcarries key, if_pos hkey]
  rw [member?, Dict.get?_ofList_append, Dict.ofList_entries, hnone]
  rfl

/-- Two objects that carry along the same agree, but for the fields that differ. -/
theorem agreeBut (h : v.Carries keys extra) (hns : ∀ m ∈ ns, m.1 ∈ keys)
    (hfields : ∀ key ∈ keys.filter (· ∉ but), (object ns).member? key = v.member? key) :
    AgreeBut but v (.object (ns ++ extra.entries)) := by
  refine ⟨?_, ?_⟩
  · obtain ⟨ms, rfl, -⟩ := h
    exact ⟨ms, _, rfl, rfl⟩
  · intro key hbut
    by_cases hkey : key ∈ keys
    · have hfield := hfields key (List.mem_filter.mpr ⟨hkey, decide_eq_true hbut⟩)
      rw [h.member?_append hkey, hfield]
    · have hnone : (Dict.ofList ns).get? key = none :=
        Dict.get?_ofList_eq_none fun m hm hm' => hkey (hm' ▸ hns m hm)
      obtain ⟨ms, rfl, hcarries⟩ := h
      rw [member?, Dict.get?_ofList_append, Dict.ofList_entries, hnone, Option.or_none,
        hcarries key, if_neg hkey, Option.map_map]
      exact congrArg (Option.map · _) (funext canonical_canonical)

end Carries

namespace Record

variable {σ α : Type} {r : Record σ α} {field : String → σ → Json → Option σ}
  {carry : σ → String → Json → σ}

/-- A decoded record stems from a draft that tracks the members of its value: what a draft and the
members so far have in common is kept by each member. -/
theorem exists_tracked_draft {P : Dict Json → σ → Prop} {v : Json} {a : α}
    (h : r.decode field carry v = some a) (hstart : P .empty r.start)
    (hfield : ∀ {key members d w next}, P members d → field key d w = some next →
      P (members.insert key w) next)
    (hcarry : ∀ {key members d w}, P members d → key ∉ r.keys →
      P (members.insert key w) (carry d key w)) :
    ∃ ms d, v = .object ms ∧ P (Dict.ofList ms) d ∧ r.finish d = .ok a := by
  have hfold : ∀ {ms : List (String × Json)} {members : Dict Json} {d final : σ}, P members d →
      ms.foldlM (r.put field carry) d = some final →
        P (ms.foldl (fun x m => x.insert m.1 m.2) members) final := by
    intro ms
    induction ms with
    | nil =>
      intro members d final hd h
      cases h
      exact hd
    | cons m ms ih =>
      intro members d final hd h
      rw [List.foldlM_cons] at h
      obtain ⟨next, hput, hnext⟩ := Option.bind_eq_some_iff.mp h
      refine ih ?_ hnext
      rcases put_eq_some hput with hput | ⟨hkey, rfl⟩
      · exact hfield hd hput
      · exact hcarry hd hkey
  cases v with
  | object ms =>
    obtain ⟨d, hd, hfinish⟩ := Option.bind_eq_some_iff.mp h
    exact ⟨ms, d, rfl, hfold hstart hd, ok_of_toOption_eq_some hfinish⟩
  | null | bool | number | string | array => cases h

end Record

end Json

end CodeMap
