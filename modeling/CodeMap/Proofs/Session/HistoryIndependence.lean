import CodeMap.Proofs.Placement.Unplaced
import CodeMap.Proofs.Session.Steps
import CodeMap.Proofs.Symbol.Coverage

/-! # A history leaves only its lines behind

However a session came by its lines and whenever the program was placed on the way, a last placement
gives what one placement by the table of all these lines gives (`history_independent`). The program
at hand may hold addresses from tables that knew less; it still stands for the program of the
beginning (`Workspace.StandsFor`), since every table that is yet to come covers those tables and so
writes over what they wrote.
-/

namespace CodeMap

/-! ## The session -/

namespace Session

theorem ingest_ingest (s : Session) (lines more : List String) :
    (s.ingest lines).ingest more = s.ingest (lines ++ more) := by
  rw [ingest, ingest, ingest, SymbolTable.extend_append, DumpCounts.ofLines_append,
    ← DumpCounts.add_assoc]

theorem ingest_start (settings : Settings) (lines : List String) :
    (start settings).ingest lines = ⟨settings, .ofLines settings.sections lines,
      .ofLines settings.sections lines⟩ := by
  rw [ingest, start, DumpCounts.zero_add]
  rfl

end Session

namespace Workspace

/-- The session after a history has the lines of all its steps. -/
theorem session_after (w : Workspace) (history : List Step) :
    (w.after history).session =
      w.session.ingest (history.flatMap (Step.lines w.session.settings)) := by
  induction history generalizing w with
  | nil => exact w.session.ingest_nil.symm
  | cons step rest ih =>
    rw [after_cons, ih, settings_after, step.session_after, Session.ingest_ingest,
      List.flatMap_cons]

/-! ## The program -/

/-- The program at hand is as good as the program `p`: whatever addresses it has, a table that
covers the one of the session places both alike. -/
structure StandsFor (w : Workspace) (p : Program) : Prop where
  place_eq : ∀ t, w.session.table.Covers t → w.program.place t = p.place t
  report_eq : ∀ t, Report.ofProgram t w.program = Report.ofProgram t p

theorem standsFor_self (w : Workspace) : w.StandsFor w.program := ⟨fun _ _ => rfl, fun _ => rfl⟩

/-- A step changes nothing of what the program at hand stands for. -/
theorem StandsFor.step {w : Workspace} {p : Program} (h : w.StandsFor p) (step : Step) :
    (step.after w).StandsFor p := by
  have hgrow : w.session.table.Covers (step.after w).session.table := by
    rw [step.session_after]
    exact w.session.table.covers_extend _ _
  rcases step.program_after w with hp | hp
  · refine ⟨fun t ht => ?_, fun t => ?_⟩
    · rw [hp, h.place_eq t (hgrow.trans ht)]
    · rw [hp, h.report_eq t]
  · refine ⟨fun t ht => ?_, fun t => ?_⟩
    · rw [hp, Program.place_place _ fun f _ => ht.resolves, h.place_eq t (hgrow.trans ht)]
    · rw [hp, Report.ofProgram_place, h.report_eq t]

/-- Nor does a history. -/
theorem StandsFor.after {w : Workspace} {p : Program} (h : w.StandsFor p)
    (history : List Step) : (w.after history).StandsFor p := by
  induction history generalizing w with
  | nil => exact h
  | cons step rest ih => exact ih (h.step step)

/-- **History independence.** Whatever steps come before it, in whatever order, a last placement
leaves the program and gives the report that the table of all lines read on the way gives for the
program of the beginning; and the session counts as if these lines were one dump. -/
theorem history_independent (settings : Settings) (p : Program) (history : List Step) :
    let w : Workspace := ⟨.start settings, p⟩
    let lines := history.flatMap (Step.lines settings)
    let t := SymbolTable.ofLines settings.sections lines
    (w.after (history ++ [.update])).program = p.place t ∧
      (w.answers (history ++ [.update])).getLast? =
        some (.ok (.placed (Report.ofProgram t p))) ∧
      (w.after (history ++ [.update])).session =
        ⟨settings, t, DumpCounts.ofLines settings.sections lines⟩ := by
  intro w lines t
  have hsession : (w.after history).session =
      ⟨settings, t, DumpCounts.ofLines settings.sections lines⟩ :=
    (w.session_after history).trans (Session.ingest_start settings lines)
  have hstands : (w.after history).StandsFor p := w.standsFor_self.after history
  have htable : (w.after history).session.table = t := congrArg Session.table hsession
  refine ⟨?_, ?_, ?_⟩
  · rw [after_append]
    show (w.after history).program.place (w.after history).session.table = p.place t
    rw [htable, hstands.place_eq t (htable ▸ SymbolTable.Covers.refl _)]
  · rw [answers_append, List.getLast?_append]
    show some (Except.ok (Answer.placed (Report.ofProgram (w.after history).session.table
      (w.after history).program))) = _
    rw [htable, hstands.report_eq t]
  · rw [after_append]
    exact hsession

end Workspace

end CodeMap
