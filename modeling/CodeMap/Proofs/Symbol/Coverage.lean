import CodeMap.Placement.Report
import Mathlib.Data.List.Basic

/-! # Growing tables

A table only ever gains labels while rows are entered, though the addresses of labels may change.
`Covers` compares tables by their labels alone. What a table resolves, a table that covers it
resolves too.
-/

namespace CodeMap.SymbolTable

variable {t u v : SymbolTable}

/-- The table `u` has every label that the table `t` has, at whatever address. -/
def Covers (t u : SymbolTable) : Prop := ∀ label, t.contains label → u.contains label

theorem Covers.refl (t : SymbolTable) : t.Covers t := fun _ h => h

theorem Covers.trans (h₁ : t.Covers u) (h₂ : u.Covers v) : t.Covers v :=
  fun label h => h₂ label (h₁ label h)

theorem contains_iff {label : String} : t.contains label ↔ ∃ a, t.get? label = some a := by
  rw [contains_eq_isSome, Option.isSome_iff_exists]

theorem contains_insert {label other : String} {address : UInt64} :
    (t.insert label address).contains other ↔ t.contains other ∨ label = other := by
  rw [contains_iff, contains_iff, get?_insert]
  split <;> simp [*]

/-- The labels of a table that rows were entered into. -/
theorem contains_enter {rows : List SymbolRow} {label : String} :
    (t.enter rows).contains label ↔ t.contains label ∨ ∃ r ∈ rows, r.label = label := by
  induction rows generalizing t with
  | nil => simp
  | cons r rest ih =>
    rw [enter_cons, ih, contains_insert, or_assoc]
    simp

/-- Entering rows takes no label away. -/
theorem covers_enter (t : SymbolTable) (rows : List SymbolRow) : t.Covers (t.enter rows) := by
  intro label h
  exact contains_enter.mpr (.inl h)

/-- Reading a dump takes no label away. -/
theorem covers_extend (t : SymbolTable) (sections lines : List String) :
    t.Covers (t.extend sections lines) := t.covers_enter _

/-! ## Sizes -/

theorem size_insert_le (t : SymbolTable) (label : String) (address : UInt64) :
    (t.insert label address).size ≤ t.size + 1 := Std.ExtTreeMap.size_insert_le

/-- Every row brings in one label at most. -/
theorem size_enter_le (t : SymbolTable) (rows : List SymbolRow) :
    (t.enter rows).size ≤ t.size + rows.length := by
  induction rows generalizing t with
  | nil => exact Nat.le_refl _
  | cons r rest ih =>
    calc ((t.insert r.label r.address).enter rest).size
        ≤ (t.insert r.label r.address).size + rest.length := ih _
      _ ≤ t.size + 1 + rest.length := Nat.add_le_add_right (t.size_insert_le _ _) _
      _ = t.size + (rest.length + 1) := by omega

theorem insert_ne_empty (t : SymbolTable) (label : String) (address : UInt64) :
    t.insert label address ≠ empty := by
  intro h
  have hget := t.get?_insert label address label
  rw [h, get?_empty, if_pos rfl] at hget
  cases hget

/-- A table that rows were entered into is empty only if there were none. -/
theorem enter_eq_empty_iff (t : SymbolTable) (rows : List SymbolRow) :
    t.enter rows = empty ↔ t = empty ∧ rows = [] := by
  induction rows generalizing t with
  | nil => exact (and_iff_left rfl).symm
  | cons r rest ih =>
    rw [enter_cons, ih]
    constructor
    · exact fun h => absurd h.1 (t.insert_ne_empty _ _)
    · exact fun h => absurd h.2 (List.cons_ne_nil _ _)

theorem length_rows_le (lines : List String) : (rows lines).length ≤ lines.length :=
  List.length_filterMap_le ..

theorem length_accepted_le (sections lines : List String) :
    (accepted sections lines).length ≤ (rows lines).length := List.length_filter_le ..

/-! ## Functions -/

/-- What a table resolves, a table with more labels resolves. -/
theorem Covers.resolves (h : t.Covers u) {f : MachineFunction} (hf : t.resolves f) :
    u.resolves f := by
  obtain ⟨entry, he⟩ := Option.isSome_iff_exists.mp hf
  refine Option.isSome_iff_ne_none.mpr fun hnone => ?_
  obtain ⟨hl, hs⟩ := Option.or_eq_none_iff.mp hnone
  have hsome : ∀ {label a}, t.get? label = some a → u.get? label ≠ none := fun ha hu => by
    obtain ⟨b, hb⟩ := contains_iff.mp (h _ (contains_iff.mpr ⟨_, ha⟩))
    exact Option.some_ne_none b (hb.symm.trans hu)
  rcases Option.or_eq_some_iff.mp he with hlabel | ⟨-, hsymbol⟩
  · exact hsome hlabel hl
  · obtain ⟨symbol, hm, ha⟩ := Option.bind_eq_some_iff.mp hsymbol
    exact hsome ha (Option.bind_eq_none_iff.mp hs symbol hm)

/-! ## More sections -/

variable {sections wider : List String}

/-- A row that lies in one of the sections lies in one of more sections. -/
theorem accepted_sublist (h : sections ⊆ wider) (lines : List String) :
    (accepted sections lines).Sublist (accepted wider lines) := by
  apply List.monotone_filter_right
  intro r hr
  exact List.contains_iff_mem.mpr (h (List.contains_iff_mem.mp hr))

/-- With more sections a dump gives more labels, though perhaps other addresses for them. -/
theorem covers_ofLines (h : sections ⊆ wider) (lines : List String) :
    (ofLines sections lines).Covers (ofLines wider lines) := by
  intro label hlabel
  rcases contains_enter.mp hlabel with hempty | ⟨r, hr, hrow⟩
  · exact contains_enter.mpr (.inl hempty)
  · exact contains_enter.mpr (.inr ⟨r, (accepted_sublist h lines).subset hr, hrow⟩)

/-! ## Dumps in pieces -/

@[simp] theorem extend_nil (t : SymbolTable) (sections : List String) :
    t.extend sections [] = t := rfl

theorem extend_append (t : SymbolTable) (sections lines more : List String) :
    t.extend sections (lines ++ more) = (t.extend sections lines).extend sections more := by
  rw [extend, accepted_append, enter_append]
  rfl

end CodeMap.SymbolTable
