import CodeMap.Proofs.Placement.Account
import Mathlib.Data.List.ReduceOption
import Mathlib.Data.List.FinRange

/-! # Functions one by one

A walk has one report and one log in its hands, from the first function of a program to the last.
Still nothing of one function shows in another: a program that is put together of two is walked as
each of them alone, and the reports are taken together (`Program.walk_append`). So the order of the
functions shows in nothing but the order of what is placed and of what is skipped
(`Program.walk_one_by_one`).
-/

namespace CodeMap

/-! ## Reports without bounds -/

namespace Tally

theorem zero_add (a : Tally) : zero.add a = a := by
  simp [add, zero]

theorem add_zero (a : Tally) : a.add zero = a := by
  simp [add, zero]

theorem add_assoc (a b c : Tally) : (a.add b).add c = a.add (b.add c) := by
  simp [add, Nat.add_assoc]

theorem add_left_comm (a b c : Tally) : a.add (b.add c) = b.add (a.add c) := by
  simp [add, Nat.add_left_comm]

theorem ofFunctions_append (t : SymbolTable) (fs gs : List MachineFunction) :
    ofFunctions t (fs ++ gs) = (ofFunctions t fs).add (ofFunctions t gs) := by
  induction fs with
  | nil => rw [List.nil_append, ofFunctions, ofFunctions, List.foldr_nil, zero_add]
  | cons f rest ih =>
    show (ofFunction t f).add (ofFunctions t (rest ++ gs)) =
      ((ofFunction t f).add (ofFunctions t rest)).add (ofFunctions t gs)
    rw [ih, add_assoc]

/-- The order of functions makes no difference to what is counted. -/
theorem ofFunctions_perm (t : SymbolTable) {fs gs : List MachineFunction} (h : fs.Perm gs) :
    ofFunctions t fs = ofFunctions t gs :=
  h.foldr_eq' (fun f _ g _ c => add_left_comm (ofFunction t g) (ofFunction t f) c) zero

end Tally

/-- A report whose counts are natural numbers. -/
structure ExactReport where
  tally : Tally
  skipped : List String

namespace ExactReport

/-- Nothing placed, nothing skipped. -/
def zero : ExactReport := ⟨.zero, []⟩

/-- Two reports together. -/
def merge (a b : ExactReport) : ExactReport := ⟨a.tally.add b.tally, a.skipped ++ b.skipped⟩

/-- The same counts in words. -/
def inWords (r : ExactReport) : Report := r.tally.report r.skipped

/-- What a table counts of functions, and which of them it skips. -/
def ofFunctions (t : SymbolTable) (fs : List MachineFunction) : ExactReport :=
  ⟨.ofFunctions t fs, t.unresolved fs⟩

theorem merge_assoc (a b c : ExactReport) : (a.merge b).merge c = a.merge (b.merge c) := by
  simp [merge, Tally.add_assoc]

theorem zero_merge (r : ExactReport) : zero.merge r = r := by
  simp [merge, zero, Tally.zero_add]

theorem merge_zero (r : ExactReport) : r.merge zero = r := by
  simp [merge, zero, Tally.add_zero]

theorem inWords_merge (a b : ExactReport) :
    (a.merge b).inWords = a.inWords.merge b.inWords := Tally.report_add ..

theorem ofFunctions_append (t : SymbolTable) (fs gs : List MachineFunction) :
    ofFunctions t (fs ++ gs) = (ofFunctions t fs).merge (ofFunctions t gs) := by
  rw [ofFunctions, Tally.ofFunctions_append, SymbolTable.unresolved, List.filter_append,
    List.map_append]
  rfl

end ExactReport

/-! ## Functions in another order -/

/-- The elements of a list in another order: at the place `i` stands the one from the place `σ i`.
-/
def permuted {α : Type} {n : Nat} (σ : Equiv.Perm (Fin n)) (xs : List α) : List α :=
  (List.finRange n).filterMap fun i => xs[(σ i).val]?

section

variable {α β : Type} {n : Nat}

theorem permuted_map (σ : Equiv.Perm (Fin n)) (f : α → β) (xs : List α) :
    permuted σ (xs.map f) = (permuted σ xs).map f := by
  rw [permuted, permuted, List.map_filterMap]
  simp only [List.getElem?_map]

theorem permuted_perm {xs : List α} (σ : Equiv.Perm (Fin xs.length)) : (permuted σ xs).Perm xs := by
  have hplaces : ((List.finRange xs.length).map σ).Perm (List.finRange xs.length) :=
    Equiv.Perm.map_finRange_perm σ
  have hall : (List.finRange xs.length).filterMap (fun i => xs[i.val]?) = xs := by
    conv_rhs => rw [← List.map_get_finRange xs, ← List.filterMap_eq_map]
    exact List.filterMap_congr fun i _ => List.getElem?_eq_getElem i.isLt
  have hperm := hplaces.filterMap fun i => xs[i.val]?
  rwa [List.filterMap_map, hall] at hperm

end

/-- The descriptor of a function, if the table skips it. -/
def SymbolTable.skipped? (t : SymbolTable) (f : MachineFunction) : Option String :=
  if t.resolves f then none else some f.descriptor

theorem SymbolTable.unresolved_eq (t : SymbolTable) (fs : List MachineFunction) :
    t.unresolved fs = (fs.map t.skipped?).reduceOption := by
  induction fs with
  | nil => rfl
  | cons f rest ih =>
    rw [t.unresolved_cons, ih, List.map_cons, skipped?]
    split <;> rfl

namespace Program

variable (t : SymbolTable) (fs gs : List MachineFunction) (extra : Dict Json)

/-- The report of a walk has the counts of its functions in words. -/
theorem report_walk_eq (fs : List MachineFunction) (extra : Dict Json) :
    ((Program.mk fs extra).walk t).2.1 = (ExactReport.ofFunctions t fs).inWords := by
  rw [walk_eq]
  exact Report.ofProgram_eq t ⟨fs, extra⟩

/-- A program is walked as its parts. -/
theorem walk_append :
    let a := (Program.mk fs extra).walk t
    let b := (Program.mk gs extra).walk t
    (Program.mk (fs ++ gs) extra).walk t =
      (⟨a.1.functions ++ b.1.functions, extra⟩, a.2.1.merge b.2.1, a.2.2 ++ b.2.2) := by
  intro a b
  have hreport : ((Program.mk (fs ++ gs) extra).walk t).2.1 = a.2.1.merge b.2.1 := by
    rw [report_walk_eq, report_walk_eq, report_walk_eq, ExactReport.ofFunctions_append,
      ExactReport.inWords_merge]
  have hprogram : (Program.mk (fs ++ gs) extra).place t =
      ⟨a.1.functions ++ b.1.functions, extra⟩ := by
    rw [show a = _ from walk_eq .., show b = _ from walk_eq ..]
    exact congrArg (Program.mk · extra) List.map_append
  have hevents : (Program.mk (fs ++ gs) extra).placementEvents t = a.2.2 ++ b.2.2 := by
    rw [show a = _ from walk_eq .., show b = _ from walk_eq ..]
    exact List.flatMap_append
  rw [walk_eq] at hreport ⊢
  rw [← hreport, ← hprogram, ← hevents]

/-- **Functions one by one.** A program is walked as its parts: what becomes of their functions
stands one behind the other, what the document carries along stays, and the report is that of the
parts together. Reports are taken together in any grouping, and the empty one adds nothing; this
holds of counts as natural numbers, and of words. The report has these counts in words, and it has
them as they are unless the program has more parts than there are words. So the order of the
functions does not matter: with the functions in another order the walk leaves the same ones placed
in this order, with the same counts, and it skips those that it skipped, again in this order. -/
theorem walk_one_by_one (σ : Equiv.Perm (Fin fs.length)) :
    let run := fun fs => (Program.mk fs extra).walk t
    let exact := ExactReport.ofFunctions t
    (run (fs ++ gs) = (⟨(run fs).1.functions ++ (run gs).1.functions, extra⟩,
        (run fs).2.1.merge (run gs).2.1, (run fs).2.2 ++ (run gs).2.2) ∧
      exact (fs ++ gs) = (exact fs).merge (exact gs)) ∧
    ((∀ a b c : ExactReport, (a.merge b).merge c = a.merge (b.merge c) ∧
        ExactReport.zero.merge a = a ∧ a.merge .zero = a) ∧
      ∀ a b c : Report, (a.merge b).merge c = a.merge (b.merge c) ∧
        Report.zero.merge a = a ∧ a.merge .zero = a) ∧
    (∀ fs, (run fs).2.1 = (exact fs).inWords ∧
      ((Program.mk fs extra).parts < UInt64.size → (run fs).2.1.tally = (exact fs).tally)) ∧
    ((run (permuted σ fs)).1 = ⟨permuted σ (run fs).1.functions, extra⟩ ∧
      (run (permuted σ fs)).2.1 =
        { (run fs).2.1 with skipped := (run (permuted σ fs)).2.1.skipped } ∧
      (exact (permuted σ fs)).tally = (exact fs).tally ∧
      (run fs).2.1.skipped = (fs.map t.skipped?).reduceOption ∧
      (run (permuted σ fs)).2.1.skipped = (permuted σ (fs.map t.skipped?)).reduceOption) := by
  intro run exact
  have hreport (fs) : (run fs).2.1 = (exact fs).inWords := report_walk_eq t fs extra
  have hskipped (fs) : (run fs).2.1.skipped = (fs.map t.skipped?).reduceOption := by
    rw [hreport]
    exact t.unresolved_eq fs
  have hcounts : (exact (permuted σ fs)).tally = (exact fs).tally :=
    Tally.ofFunctions_perm t (permuted_perm σ)
  refine ⟨⟨walk_append t fs gs extra, ExactReport.ofFunctions_append t fs gs⟩,
    ⟨fun a b c => ⟨a.merge_assoc b c, a.zero_merge, a.merge_zero⟩,
      fun a b c => ⟨a.merge_assoc b c, a.zero_merge, a.merge_zero⟩⟩,
    fun fs => ⟨hreport fs, fun hparts => ?_⟩, ?_, ?_, hcounts, hskipped fs, ?_⟩
  · have hle := Tally.ofProgram_le_parts t ⟨fs, extra⟩
    rw [hreport]
    exact hle.tally_report hparts _
  · have hrun (fs) : (run fs).1 = ⟨fs.map (MachineFunction.place t), extra⟩ :=
      congrArg Prod.fst (walk_eq t ⟨fs, extra⟩)
    rw [hrun, hrun, permuted_map]
  · rw [hreport, hreport, ExactReport.inWords, hcounts]
    rfl
  · rw [hskipped, permuted_map]

end Program

end CodeMap
