import CodeMap.Proofs.Json.Values

/-! # Normal form

The normal form of a value is its own normal form. It has no more levels of brackets than the value.
-/

namespace CodeMap.Json

/-- A member of a normal form is the normal form of a member. -/
theorem exists_of_mem_canonicalMembers {members : List (String × Json)} {e : String × Json}
    (h : e ∈ (Dict.ofList (canonicalMembers members)).entries) :
    ∃ m ∈ members, e = (m.1, m.2.canonical) := by
  have hmem := Dict.mem_of_mem_ofList h
  rw [canonicalMembers_eq_map] at hmem
  obtain ⟨m, hm, he⟩ := List.mem_map.mp hmem
  exact ⟨m, hm, he.symm⟩

theorem fits_canonical {n : Nat} {v : Json} (h : v.fits n) : v.canonical.fits n := by
  induction n generalizing v with
  | zero => cases v <;> trivial
  | succ n ih =>
    cases v with
    | array items =>
      rw [canonical, canonicalItems_eq_map, fits, List.all_eq_true]
      intro v hv
      obtain ⟨w, hw, rfl⟩ := List.mem_map.mp hv
      exact ih (List.all_eq_true.mp h w hw)
    | object members =>
      rw [canonical, fits, List.all_eq_true]
      intro e he
      obtain ⟨m, hm, rfl⟩ := exists_of_mem_canonicalMembers he
      exact ih (List.all_eq_true.mp h m hm)
    | null | bool | string | number => rfl

/-- Members that are normal forms are left as they are. -/
theorem canonicalMembers_eq_self {members : List (String × Json)}
    (h : ∀ m ∈ members, m.2.canonical = m.2) : canonicalMembers members = members := by
  induction members with
  | nil => rfl
  | cons m rest ih =>
    have hm : m.2.canonical = m.2 := h m List.mem_cons_self
    rw [canonicalMembers, hm, ih fun e he => h e (List.mem_cons_of_mem _ he)]

mutual

theorem canonical_canonical : (v : Json) → v.canonical.canonical = v.canonical
  | .null | .bool _ | .number _ | .string _ => rfl
  | .array items => by
    rw [canonical, canonical, canonicalItems_canonicalItems items]
  | .object members => by
    have hmembers : ∀ e ∈ (Dict.ofList (canonicalMembers members)).entries,
        e.2.canonical = e.2 := fun e he =>
      canonical_of_mem_canonicalMembers members e (Dict.mem_of_mem_ofList he)
    rw [canonical, canonical, canonicalMembers_eq_self hmembers, Dict.ofList_entries]

theorem canonicalItems_canonicalItems : (items : List Json) →
    canonicalItems (canonicalItems items) = canonicalItems items
  | [] => rfl
  | v :: rest => by
    rw [canonicalItems, canonicalItems, canonical_canonical v, canonicalItems_canonicalItems rest]

theorem canonical_of_mem_canonicalMembers : (members : List (String × Json)) →
    ∀ e ∈ canonicalMembers members, e.2.canonical = e.2
  | [] => nofun
  | (k, v) :: rest => by
    rintro e he
    rcases List.mem_cons.mp he with rfl | he
    · exact canonical_canonical v
    · exact canonical_of_mem_canonicalMembers rest e he

end

end CodeMap.Json
