import CodeMap.Proofs.Document.Extras
import CodeMap.Session

/-! # Documents read back

A program is read back from the text of its document, if all that it carries along comes back: each
record is read from its written form, from instructions up to whole programs. The levels of brackets
that are left go down by two from one kind of record to the next, one for the object and one for the
array around it.
-/

namespace CodeMap

open Json

theorem Name.reads_toJson (levels : Nat) (n : Name) : (Name.reader levels).Reads n.toJson n where
  isReal_eq := by cases n <;> rfl
  run_eq style depth blanks rest hb hr := by
    have hv : (Reader.value levels).Reads n.toJson n.toJson := by
      cases n <;> exact Reader.reads_value_scalar levels rfl rfl
    rw [reader]
    simp only [hv.run_eq style depth blanks rest hb hr, ofJson?_toJson]

/-- What a member that may be left out leaves in a draft stands for what it was written from. -/
theorem getD_map_some {α : Type} (o : Option α) : (o.map some).getD none = o := by
  cases o <;> rfl

namespace Instruction

theorem reads_toJson {i : Instruction} (h : ∀ e ∈ i.extras, e.IsStorable) :
    (record.reader 121).Reads i.toJson i := by
  let draft (address : Option (Option UInt64)) (extra : Dict Json) : Draft :=
    ⟨some i.index, some i.size, address, extra⟩
  have haddress : Fills (record.member 120) (draft none .empty) (addressMember i.address)
      (draft (i.address.map some) .empty) := by
    cases i.address with
    | none => exact .nil
    | some a => exact .cons rfl (((Reader.reads_word64 a).nullable nofun).map _) .nil
  have hextra : Fills (record.member 120) (draft (i.address.map some) .empty) i.extra.entries
      (draft (i.address.map some) i.extra) :=
    (h _ List.mem_cons_self).fills rfl (draft (i.address.map some)) fun _ _ => rfl
  have hfinish : record.finish (draft (i.address.map some) i.extra) = .ok i := by
    show Except.ok (Instruction.mk i.index i.size ((i.address.map some).getD none) i.extra) = _
    rw [getD_map_some]
  refine Record.reads ?_ hfinish
  refine .cons rfl ((Reader.reads_word32 i.index).map _) ?_
  refine .cons rfl ((Reader.reads_word64 i.size).map _) ?_
  exact haddress.append hextra

end Instruction

namespace Block

theorem reads_toJson {b : Block} (h : ∀ e ∈ b.extras, e.IsStorable) :
    (record.reader 123).Reads b.toJson b := by
  let draft (address : Option (Option UInt64)) (instructions : Option (List Instruction))
      (extra : Dict Json) : Draft := ⟨some b.name, address, instructions, extra⟩
  have haddress : Fills (record.member 122) (draft none none .empty)
      (Instruction.addressMember b.address) (draft (b.address.map some) none .empty) := by
    cases b.address with
    | none => exact .nil
    | some a => exact .cons rfl (((Reader.reads_word64 a).nullable nofun).map _) .nil
  have hinstructions : (Reader.list 122 Instruction.record.reader).Reads
      (.array (b.instructions.map Instruction.toJson)) b.instructions :=
    Reader.reads_list fun i hi => Instruction.reads_toJson fun e he =>
      h e (List.mem_cons_of_mem _ (List.mem_flatMap_of_mem hi he))
  have hextra : Fills (record.member 122)
      (draft (b.address.map some) (some b.instructions) .empty) b.extra.entries
      (draft (b.address.map some) (some b.instructions) b.extra) :=
    (h _ List.mem_cons_self).fills rfl (draft (b.address.map some) (some b.instructions))
      fun _ _ => rfl
  have hfinish : record.finish (draft (b.address.map some) (some b.instructions) b.extra) =
      .ok b := by
    show Except.ok (Block.mk b.name ((b.address.map some).getD none) b.instructions b.extra) = _
    rw [getD_map_some]
  refine Record.reads ?_ hfinish
  refine .cons rfl ((Name.reads_toJson _ b.name).map _) (haddress.append ?_)
  exact .cons rfl (hinstructions.map _) hextra

end Block

namespace MachineFunction

theorem reads_toJson {f : MachineFunction} (h : ∀ e ∈ f.extras, e.IsStorable) :
    (record.reader 125).Reads f.toJson f := by
  let draft (mapsto : Option (Option String)) (blocks : Option (List Block))
      (extra : Dict Json) : Draft := ⟨some f.name, mapsto, blocks, extra⟩
  have hsymbol : Fills (record.member 124) (draft none none .empty)
      (symbolMember f.mapsto) (draft (f.mapsto.map some) none .empty) := by
    cases f.mapsto with
    | none => exact .nil
    | some s => exact .cons rfl (((Reader.reads_string s).nullable (by simp)).map _) .nil
  have hblocks : (Reader.list 124 Block.record.reader).Reads
      (.array (f.blocks.map Block.toJson)) f.blocks :=
    Reader.reads_list fun b hb => Block.reads_toJson fun e he =>
      h e (List.mem_cons_of_mem _ (List.mem_flatMap_of_mem hb he))
  have hextra : Fills (record.member 124)
      (draft (f.mapsto.map some) (some f.blocks) .empty) f.extra.entries
      (draft (f.mapsto.map some) (some f.blocks) f.extra) :=
    (h _ List.mem_cons_self).fills rfl (draft (f.mapsto.map some) (some f.blocks))
      fun _ _ => rfl
  have hfinish : record.finish (draft (f.mapsto.map some) (some f.blocks) f.extra) = .ok f := by
    show Except.ok (MachineFunction.mk f.name ((f.mapsto.map some).getD none) f.blocks f.extra) = _
    rw [getD_map_some]
  refine Record.reads ?_ hfinish
  refine .cons rfl ((Name.reads_toJson _ f.name).map _) (hsymbol.append ?_)
  exact .cons rfl (hblocks.map _) hextra

end MachineFunction

namespace Program

theorem reads_toJson {p : Program} (h : p.IsStorable) :
    (record.reader Reader.maxLevels).Reads p.toJson p := by
  have hfunctions : (Reader.list 126 MachineFunction.record.reader).Reads
      (.array (p.functions.map MachineFunction.toJson)) p.functions :=
    Reader.reads_list fun f hf => MachineFunction.reads_toJson fun e he =>
      h e (List.mem_cons_of_mem _ (List.mem_flatMap_of_mem hf he))
  have hextra : Fills (record.member 126) ⟨some p.functions, .empty⟩ p.extra.entries
      ⟨some p.functions, p.extra⟩ :=
    (h _ List.mem_cons_self).fills rfl (Draft.mk (some p.functions)) fun _ _ => rfl
  refine Record.reads (.cons rfl (hfunctions.map _) hextra) ?_
  rfl

/-- A storable program is read back from its text. -/
theorem read_write {p : Program} (h : p.IsStorable) : read p.write = .ok p :=
  (reads_toJson h).readAll_pretty

/-- The line feed at the end of a document file makes no difference. -/
theorem read_fileText {p : Program} (h : p.IsStorable) : read p.fileText = .ok p := by
  have htail : "\n".toList = ['\n'] := rfl
  show (record.reader Reader.maxLevels).readAll (p.toJson.pretty ++ "\n") = .ok p
  refine (reads_toJson h).readAll_append ?_ ?_
  · rw [htail]
    rfl
  · rw [htail]
    exact endsNumber_cons (by decide)

end Program

end CodeMap
