import CodeMap.Proofs.Placement.Unplaced
import Mathlib.Data.List.Forall2

/-! # Passes with several tables

A document may be placed by the table of one binary and later by that of another. For each function
the last table that names it decides: what is left is the function of the beginning, placed by this
table alone and with no address from before (`Program.placeAll_settled`). So one function never has
addresses of two binaries.
-/

namespace CodeMap

variable {t u : SymbolTable} {ts : List SymbolTable} {f g : MachineFunction}

/-! ## Names of functions -/

/-- The table has the entry label of the function or its symbol. -/
def SymbolTable.Names (t : SymbolTable) (f : MachineFunction) : Prop :=
  t.contains f.entryLabel ∨ ∃ symbol, f.mapsto = some symbol ∧ t.contains symbol

/-- A table resolves the functions that it names. -/
theorem SymbolTable.resolves_iff_names : t.resolves f ↔ t.Names f := by
  rw [resolves, entry?, Option.isSome_or, Bool.or_eq_true, ← contains_eq_isSome, Names]
  refine or_congr Iff.rfl ?_
  cases f.mapsto with
  | none => simp
  | some symbol => simp [contains_eq_isSome]

namespace MachineFunction

/-- What has the same form but for its addresses has the same names. -/
theorem names_of_unplaced_eq (h : g.unplaced = f.unplaced) : t.Names g ↔ t.Names f := by
  rw [← SymbolTable.resolves_iff_names, ← SymbolTable.resolves_iff_names, SymbolTable.resolves,
    SymbolTable.resolves, ← entry?_unplaced, h, entry?_unplaced]

theorem place?_eq_some (h : t.Names f) : f.place? t = some (f.place t) := by
  have hne : f.place? t ≠ none := by
    intro hnone
    have hentry := (place?_eq_none_iff t f).mp hnone
    have hresolves := SymbolTable.resolves_iff_names.mpr h
    rw [SymbolTable.resolves, hentry] at hresolves
    cases hresolves
  obtain ⟨g, hg⟩ := Option.ne_none_iff_exists'.mp hne
  rw [place, hg, Option.getD_some]

theorem place_of_not_names (h : ¬t.Names f) : f.place t = f := by
  apply place_eq_self
  rw [← SymbolTable.resolves_iff_names, SymbolTable.resolves] at h
  simpa using h

/-! ## Several placements -/

/-- The function placed by one table after another. -/
def placeAll (ts : List SymbolTable) (f : MachineFunction) : MachineFunction :=
  ts.foldl (fun g t => g.place t) f

/-- What placements by tables in this order leave of a function. -/
inductive Settled (ts : List SymbolTable) (f : MachineFunction) : MachineFunction → Prop where
  /-- No table names the function, so it is as it was. -/
  | untouched (unnamed : ∀ t ∈ ts, ¬t.Names f) : Settled ts f f
  /-- The table `t` names the function and no later one does. The function of the beginning is
  placed by it, and would be so too without the addresses that it had. -/
  | placed {before after : List SymbolTable} {t : SymbolTable} {g : MachineFunction}
    (split : ts = before ++ t :: after) (named : t.Names f) (last : ∀ u ∈ after, ¬u.Names f)
    (place : f.place? t = some g) (fresh : f.unplaced.place? t = some g) : Settled ts f g

theorem Settled.unplaced_eq (h : Settled ts f g) : g.unplaced = f.unplaced := by
  cases h with
  | untouched => rfl
  | @placed _ _ t _ _ _ _ place =>
    rw [← unplaced_place t f, MachineFunction.place, place, Option.getD_some]

/-- One more placement settles the function by its table, if this table names it, and otherwise
leaves it settled as it is. -/
theorem Settled.place (h : Settled ts f g) (t : SymbolTable) :
    Settled (ts ++ [t]) f (g.place t) := by
  by_cases hnamed : t.Names f
  · have hg : t.resolves g :=
      SymbolTable.resolves_iff_names.mpr ((names_of_unplaced_eq h.unplaced_eq).mpr hnamed)
    -- the addresses that `g` has from earlier tables do not count
    have hplace : g.place t = f.place t := by
      rw [← place_unplaced hg, h.unplaced_eq,
        place_unplaced (SymbolTable.resolves_iff_names.mpr hnamed)]
    rw [hplace]
    refine .placed rfl hnamed nofun (place?_eq_some hnamed) ?_
    rw [place?_unplaced, place?_eq_some hnamed]
  · rw [place_of_not_names fun hg => hnamed ((names_of_unplaced_eq h.unplaced_eq).mp hg)]
    cases h with
    | untouched unnamed =>
      apply Settled.untouched
      intro u hu
      rcases List.mem_append.mp hu with hu | hu
      · exact unnamed u hu
      · exact List.mem_singleton.mp hu ▸ hnamed
    | @placed before after v _ split named last place fresh =>
      have hsplit : ts ++ [t] = before ++ v :: (after ++ [t]) := by
        rw [split, List.append_assoc, List.cons_append]
      refine .placed hsplit named ?_ place fresh
      intro u hu
      rcases List.mem_append.mp hu with hu | hu
      · exact last u hu
      · exact List.mem_singleton.mp hu ▸ hnamed

/-- A function that some tables have settled is settled by all of them after the others. -/
theorem Settled.placeAll (h : Settled ts f g) (more : List SymbolTable) :
    Settled (ts ++ more) f (g.placeAll more) := by
  induction more generalizing ts g with
  | nil => rwa [List.append_nil]
  | cons t more ih =>
    have hnext := ih (h.place t)
    rwa [List.append_assoc, List.singleton_append] at hnext

end MachineFunction

namespace Program

/-- The program placed by one table after another. -/
def placeAll (ts : List SymbolTable) (p : Program) : Program := ts.foldl (fun q t => q.place t) p

theorem placeAll_eq (ts : List SymbolTable) (p : Program) :
    p.placeAll ts = ⟨p.functions.map (MachineFunction.placeAll ts), p.extra⟩ := by
  induction ts generalizing p with
  | nil =>
    rw [show MachineFunction.placeAll [] = id from rfl, List.map_id]
    rfl
  | cons t ts ih =>
    show (p.place t).placeAll ts = _
    rw [ih, functions_place, extra_place, List.map_map]
    rfl

/-- **The last table decides.** After passes with any tables, one after another, each function is
as the last table that names it places the function of the beginning, or as it was in the beginning
if no table names it. -/
theorem placeAll_settled (ts : List SymbolTable) (p : Program) :
    List.Forall₂ (MachineFunction.Settled ts) p.functions (p.placeAll ts).functions ∧
      (p.placeAll ts).extra = p.extra := by
  rw [placeAll_eq]
  refine ⟨List.forall₂_map_right_iff.mpr (List.forall₂_same.mpr fun f _ => ?_), rfl⟩
  have hstart : MachineFunction.Settled [] f f := .untouched nofun
  exact hstart.placeAll ts

end Program

end CodeMap
