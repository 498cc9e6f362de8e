import CodeMap.Proofs.Json.Records
import CodeMap.Proofs.Placement.Unplaced

/-! # What a document carries along

The objects of a document may have members without a meaning, at each of four levels. `extras` lists
them all, level by level. A placement leaves them as they are, and so they stay such as come back
from their printed form (`Program.IsStorable`).
-/

namespace CodeMap

/-- The objects of a document that have a meaning. -/
inductive DocumentPart where
  | program
  | function
  | block
  | instruction
deriving DecidableEq, Repr

namespace DocumentPart

/-- The keys of the members that have a meaning. -/
def keys : DocumentPart → List String
  | .program => Program.record.keys
  | .function => MachineFunction.record.keys
  | .block => Block.record.keys
  | .instruction => Instruction.record.keys

/-- The levels of brackets that are left for the values in such an object. -/
def levels : DocumentPart → Nat
  | .program => 126
  | .function => 124
  | .block => 122
  | .instruction => 120

end DocumentPart

/-! ## Extras -/

/-- What a part of a document carries along. -/
abbrev Extra := DocumentPart × Dict Json

namespace Extra

/-- The members are carried along as a reader gives them. -/
def IsCarried (e : Extra) : Prop := Json.Carried e.1.keys e.1.levels e.2

/-- Every number in the members is an integer of 64 bits. -/
def isIntegral (e : Extra) : Bool := e.2.entries.all fun m => m.2.isIntegral

/-- The members come back from their printed form. -/
def IsStorable (e : Extra) : Prop := e.IsCarried ∧ e.isIntegral

/-- A draft of the part gathers members that come back as they are. -/
theorem IsStorable.fills {part : DocumentPart} {extra : Dict Json} (h : IsStorable (part, extra))
    {σ α : Type} {r : Json.Record σ α} (hkeys : r.keys = part.keys) (draft : Dict Json → σ)
    (hother : ∀ x key, r.other part.levels (draft x) key =
      (Json.Reader.value part.levels).map fun v => draft (x.insert key v.canonical)) :
    Json.Fills (r.member part.levels) (draft .empty) extra.entries (draft extra) := by
  have hcarried : Json.Carried r.keys part.levels extra := hkeys ▸ h.1
  exact Json.Record.fills_carried hcarried (List.all_eq_true.mp h.2) draft hother

end Extra

namespace Instruction

def extras (i : Instruction) : List Extra := [(.instruction, i.extra)]

@[simp] theorem extras_unplaced (i : Instruction) : i.unplaced.extras = i.extras := rfl

end Instruction

namespace Block

def extras (b : Block) : List Extra :=
  (.block, b.extra) :: b.instructions.flatMap Instruction.extras

@[simp] theorem extras_unplaced (b : Block) : b.unplaced.extras = b.extras := by
  simp [extras, unplaced, List.flatMap_map]

end Block

namespace MachineFunction

def extras (f : MachineFunction) : List Extra :=
  (.function, f.extra) :: f.blocks.flatMap Block.extras

@[simp] theorem extras_unplaced (f : MachineFunction) : f.unplaced.extras = f.extras := by
  simp [extras, unplaced, List.flatMap_map]

end MachineFunction

namespace Program

def extras (p : Program) : List Extra :=
  (.program, p.extra) :: p.functions.flatMap MachineFunction.extras

@[simp] theorem extras_unplaced (p : Program) : p.unplaced.extras = p.extras := by
  simp [extras, unplaced, List.flatMap_map]

/-- A placement leaves all that is carried along as it is. -/
@[simp] theorem extras_place (p : Program) (t : SymbolTable) : (p.place t).extras = p.extras := by
  rw [← extras_unplaced, unplaced_place, extras_unplaced]

/-- Every number that the program carries along is an integer of 64 bits. -/
def isIntegral (p : Program) : Bool := p.extras.all Extra.isIntegral

/-- All that the program carries along comes back from its printed form. -/
def IsStorable (p : Program) : Prop := ∀ e ∈ p.extras, e.IsStorable

theorem IsStorable.place {p : Program} (h : p.IsStorable) (t : SymbolTable) :
    (p.place t).IsStorable := by
  intro e he
  exact h e (p.extras_place t ▸ he)

end Program

end CodeMap
