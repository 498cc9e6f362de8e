import CodeMap.Session.History

/-! # What a step does

A step of a history brings in lines (`Step.lines`): those that it is given, or those of a dump that
it reads under valid settings. A step that fails brings in none. These lines alone decide what
becomes of the session (`Workspace.session_after`), and a program only ever changes by being placed
with the table that the session then has (`Step.program_after`).
-/

namespace CodeMap

/-- The lines of a dump that is read under settings. -/
def DumpSource.linesUnder (settings : Settings) (source : DumpSource) (binary : String) :
    Except Failure (List String) := do
  settings.validate
  (source.read binary).result

/-- Of settings it matters whether they are valid, and of a source how it ends. -/
theorem DumpSource.linesUnder_congr {settings other : Settings} {first second : DumpSource}
    {binary path : String} (hvalidate : settings.validate = other.validate)
    (h : (first.read binary).result = (second.read path).result) :
    first.linesUnder settings binary = second.linesUnder other path := by
  rw [linesUnder, linesUnder, hvalidate, h]

namespace Session

variable (s : Session)

/-- The session after one dump, if there are lines of it. -/
theorem result_analyze (source : DumpSource) (binary : String) :
    (s.analyze source binary).result =
      (source.linesUnder s.settings binary).map s.ingest := by
  rw [analyze, DumpSource.linesUnder]
  cases hv : s.settings.validate with
  | error e => rfl
  | ok u =>
    cases hr : (source.read binary).result with
    | error e => simp [Traced.ofExcept, hr, bind, Except.bind, Except.map]
    | ok lines =>
      simp [Traced.ofExcept, Traced.record, hr, bind, Except.bind, Except.map]

/-- The program is placed by the table that the session has with the lines of the dump. -/
theorem result_extract (source : DumpSource) (binary : String) (p : Program) :
    (s.extract source binary p).result =
      (source.linesUnder s.settings binary).map fun lines =>
        let t := (s.ingest lines).table
        ⟨s.ingest lines, p.place t, Report.ofProgram t p⟩ := by
  rw [extract, Traced.result_bind, result_analyze]
  cases source.linesUnder s.settings binary <;> rfl

@[simp] theorem settings_ingest (lines : List String) :
    (s.ingest lines).settings = s.settings := rfl

@[simp] theorem ingest_nil : s.ingest [] = s := by
  have hc : s.counts.add (.ofLines s.settings.sections []) = s.counts := rfl
  rw [ingest, hc]
  rfl

end Session

namespace Step

/-- The lines that a step brings in under settings; none if it fails. -/
def lines (settings : Settings) : Step → List String
  | ingest lines => lines
  | update => []
  | analyze source binary | extract source binary =>
    match source.linesUnder settings binary with
    | .ok lines => lines
    | .error _ => []

/-- The lines of a step are all that the session takes from it. -/
theorem session_after (step : Step) (w : Workspace) :
    (step.after w).session = w.session.ingest (step.lines w.session.settings) := by
  cases step with
  | ingest lines => rfl
  | update => exact w.session.ingest_nil.symm
  | analyze source binary =>
    rw [after, attempt, Traced.result_bind, Session.result_analyze, lines]
    cases source.linesUnder w.session.settings binary with
    | error e => exact w.session.ingest_nil.symm
    | ok lines => rfl
  | extract source binary =>
    rw [after, attempt, Traced.result_bind, Session.result_extract, lines]
    cases source.linesUnder w.session.settings binary with
    | error e => exact w.session.ingest_nil.symm
    | ok lines => rfl

/-- A step leaves the program as it is or places it by the table that the session has then. -/
theorem program_after (step : Step) (w : Workspace) :
    (step.after w).program = w.program ∨
      (step.after w).program = w.program.place (step.after w).session.table := by
  cases step with
  | ingest lines => exact .inl rfl
  | update => exact .inr rfl
  | analyze source binary =>
    rw [after, attempt, Traced.result_bind, Session.result_analyze]
    cases source.linesUnder w.session.settings binary <;> exact .inl rfl
  | extract source binary =>
    rw [after, attempt, Traced.result_bind, Session.result_extract]
    cases source.linesUnder w.session.settings binary with
    | error e => exact .inl rfl
    | ok lines => exact .inr rfl

end Step

namespace Workspace

/-- No step changes the settings. -/
@[simp] theorem settings_after (w : Workspace) (step : Step) :
    (step.after w).session.settings = w.session.settings := by
  rw [step.session_after, Session.settings_ingest]

/-- Nor does a history. -/
theorem settings_after_history (w : Workspace) (history : List Step) :
    (w.after history).session.settings = w.session.settings := by
  induction history generalizing w with
  | nil => rfl
  | cons step rest ih => rw [after_cons, ih, settings_after]

end Workspace

end CodeMap
