import CodeMap.Proofs.InPlace
import CodeMap.Proofs.Session.Steps
import CodeMap.Session.Process

/-! # Steps that fail leave no trace

A step that is carried out in place ends where `Step.after` says (`Process.carryOut_eq`): all that
can fail comes before the first action that changes the workspace. Hence the steps of a history that
have failed can be left out of it. The others answer as before, and the session and the program
become the same (`Process.failures_leave_no_trace`).
-/

namespace CodeMap

open InPlace

/-! ## Actions -/

namespace Action

theorem run_validate (m : Process) :
    validate.run m = (m.workspace.session.settings.validate, m) := by
  show (m.workspace.session.settings.validate,
    Process.mk m.workspace m.asked (m.events ++ [])) = _
  rw [List.append_nil]

theorem run_ask (source : DumpSource) (binary : String) (m : Process) :
    (ask source binary).run m = ((source.read binary).result,
      ⟨m.workspace, m.asked + 1, m.events ++ (source.read binary).events⟩) := rfl

/-- Lines are taken as one: there is nothing in `ingest` that can fail. -/
theorem run_ingest (lines : List String) (m : Process) :
    (ingest lines).run m = (.ok (m.workspace.session.ingest lines).counts,
      ⟨{ m.workspace with session := m.workspace.session.ingest lines }, m.asked,
        m.events ++ m.workspace.session.ingestEvents lines⟩) := rfl

/-- Reading a dump changes the workspace if there are lines of it, and not otherwise. Under invalid
settings the source is not asked. -/
theorem run_analyze (source : DumpSource) (binary : String) (m : Process) :
    ∃ n, (m.workspace.session.settings.validate ≠ .ok () → n.asked = m.asked) ∧
      match source.linesUnder m.workspace.session.settings binary with
      | .error e => (analyze source binary).run m = (.error e, n) ∧ n.workspace = m.workspace
      | .ok lines =>
        let s := m.workspace.session.ingest lines
        (analyze source binary).run m = (.ok s.counts, n) ∧
          n.workspace = { m.workspace with session := s } := by
  have hvalidate := run_validate m
  rw [DumpSource.linesUnder]
  cases hv : m.workspace.session.settings.validate with
  | error e =>
    rw [hv] at hvalidate
    exact ⟨m, fun _ => rfl, run_bind_of_error hvalidate, rfl⟩
  | ok u =>
    rw [hv] at hvalidate
    have hask := run_ask source binary m
    show ∃ n, _ ∧ match (source.read binary).result with
      | .error e => _
      | .ok lines => _
    rw [analyze, run_bind_of_ok hvalidate]
    cases hr : (source.read binary).result with
    | error e =>
      rw [hr] at hask
      exact ⟨_, fun h => absurd rfl h, run_bind_of_error hask, rfl⟩
    | ok lines =>
      rw [hr] at hask
      exact ⟨_, fun h => absurd rfl h, (run_bind_of_ok hask).trans (run_ingest lines _), rfl⟩

theorem run_place (m : Process) :
    let t := m.workspace.session.table
    let p := m.workspace.program
    place.run m = (.ok (.ofProgram t p), ⟨{ m.workspace with program := p.place t }, m.asked,
      m.events ++ m.workspace.session.updateEvents p⟩) := rfl

end Action

/-! ## Steps -/

/-- Settings are refused as an invalid input. -/
theorem Settings.exists_text_of_validate {s : Settings} (h : s.validate ≠ .ok ()) :
    ∃ text, s.validate = .error (.invalidInput text) := by
  rw [validate] at h ⊢
  cases hd : s.defect? with
  | none =>
    rw [hd] at h
    exact absurd rfl h
  | some d => exact ⟨d.text, rfl⟩

namespace Step

/-- The step reads a dump. -/
def readsDump : Step → Bool
  | analyze .. | extract .. => true
  | ingest _ | update => false

/-- A step that reads a dump fails under invalid settings for the reason why they are invalid. -/
theorem answer_of_invalid {step : Step} {w : Workspace} {e : Failure}
    (hv : w.session.settings.validate = .error e) (h : step.readsDump) :
    step.answer w = .error e := by
  cases step with
  | ingest | update => cases h
  | analyze source binary =>
    rw [answer, attempt, Traced.result_bind, Session.result_analyze, DumpSource.linesUnder, hv]
    rfl
  | extract source binary =>
    rw [answer, attempt, Traced.result_bind, Session.result_extract, DumpSource.linesUnder, hv]
    rfl

/-- The workspace is left as it was by a step that fails. -/
theorem after_of_error {step : Step} {w : Workspace} {e : Failure}
    (h : step.answer w = .error e) : step.after w = w := by
  rw [answer] at h
  rw [after]
  cases hr : (step.attempt w).result with
  | error => rfl
  | ok x =>
    rw [hr] at h
    cases h

end Step

namespace Process

/-- A step carried out in place answers as it does in a history and leaves the same workspace. So
one that fails has changed nothing of it. -/
theorem carryOut_eq (m : Process) (step : Step) :
    (m.carryOut step).1 = step.answer m.workspace ∧
      (m.carryOut step).2.workspace = step.after m.workspace := by
  cases step with
  | ingest lines => exact ⟨rfl, rfl⟩
  | update => exact ⟨rfl, rfl⟩
  | analyze source binary =>
    obtain ⟨n, -, h⟩ := Action.run_analyze source binary m
    rw [Step.answer, Step.after, Step.attempt, Traced.result_bind, Session.result_analyze,
      carryOut, Step.action]
    cases hlines : source.linesUnder m.workspace.session.settings binary with
    | error e =>
      rw [hlines] at h
      rw [run_bind_of_error h.1]
      exact ⟨rfl, h.2⟩
    | ok lines =>
      rw [hlines] at h
      rw [run_bind_of_ok h.1]
      exact ⟨rfl, h.2⟩
  | extract source binary =>
    obtain ⟨n, -, h⟩ := Action.run_analyze source binary m
    rw [Step.answer, Step.after, Step.attempt, Traced.result_bind, Session.result_extract,
      carryOut, Step.action]
    cases hlines : source.linesUnder m.workspace.session.settings binary with
    | error e =>
      rw [hlines] at h
      rw [run_bind_of_error h.1]
      exact ⟨rfl, h.2⟩
    | ok lines =>
      rw [hlines] at h
      rw [run_bind_of_ok h.1, run_bind_of_ok (Action.run_place n), h.2]
      exact ⟨rfl, rfl⟩

/-- Under invalid settings no source is asked. -/
theorem asked_carryOut {m : Process} (hv : m.workspace.session.settings.validate ≠ .ok ())
    (step : Step) : (m.carryOut step).2.asked = m.asked := by
  cases step with
  | ingest | update => rfl
  | analyze source binary | extract source binary =>
    obtain ⟨n, hasked, h⟩ := Action.run_analyze source binary m
    rw [DumpSource.linesUnder] at h
    cases hvalidate : m.workspace.session.settings.validate with
    | ok u => exact absurd hvalidate hv
    | error e =>
      rw [hvalidate] at h
      rw [carryOut, Step.action, run_bind_of_error h.1]
      exact hasked hv

/-! ## Histories -/

theorem answers_eq (m : Process) (history : List Step) :
    m.answers history = m.workspace.answers history := by
  induction history generalizing m with
  | nil => rfl
  | cons step rest ih =>
    obtain ⟨hanswer, hafter⟩ := m.carryOut_eq step
    rw [answers, Workspace.answers, ih, hanswer, hafter]

theorem workspace_after (m : Process) (history : List Step) :
    (m.after history).workspace = m.workspace.after history := by
  induction history generalizing m with
  | nil => rfl
  | cons step rest ih => rw [after_cons, Workspace.after_cons, ih, (m.carryOut_eq step).2]

theorem asked_after {m : Process} (hv : m.workspace.session.settings.validate ≠ .ok ())
    (history : List Step) : (m.after history).asked = m.asked := by
  induction history generalizing m with
  | nil => rfl
  | cons step rest ih =>
    have hsettings : (m.carryOut step).2.workspace.session.settings =
        m.workspace.session.settings := by
      rw [(m.carryOut_eq step).2, Workspace.settings_after]
    rw [after_cons, ih (hsettings ▸ hv), asked_carryOut hv]

end Process

namespace Workspace

/-- The steps of a history whose answers are no failures. -/
def succeeded (history : List Step) (answers : List (Except Failure Answer)) : List Step :=
  ((history.zip answers).filter fun x => x.2.isOk).map Prod.fst

/-- A history without its failures answers as before and leaves the same workspace. -/
theorem after_succeeded (w : Workspace) (history : List Step) :
    w.answers (succeeded history (w.answers history)) = (w.answers history).filter Except.isOk ∧
      w.after (succeeded history (w.answers history)) = w.after history := by
  induction history generalizing w with
  | nil => exact ⟨rfl, rfl⟩
  | cons step rest ih =>
    obtain ⟨hanswers, hafter⟩ := ih (step.after w)
    cases h : step.answer w with
    | error e =>
      have hstay := Step.after_of_error h
      rw [hstay] at hanswers hafter
      simp only [answers, succeeded, h, hstay]
      exact ⟨hanswers, hafter.trans (by rw [after_cons, hstay])⟩
    | ok a =>
      have hkeep : succeeded (step :: rest) (w.answers (step :: rest)) =
          step :: succeeded rest ((step.after w).answers rest) := by
        simp [answers, succeeded, h, Except.isOk, Except.toBool]
      rw [hkeep, answers, answers, hanswers, after_cons, hafter, h]
      exact ⟨rfl, rfl⟩

theorem eq_error_of_mem_answers {w : Workspace} {e : Failure}
    (hv : w.session.settings.validate = .error e) {history : List Step} {step : Step}
    {answer : Except Failure Answer} (h : (step, answer) ∈ history.zip (w.answers history))
    (hreads : step.readsDump) : answer = .error e := by
  induction history generalizing w with
  | nil => cases h
  | cons first rest ih =>
    rw [answers, List.zip_cons_cons] at h
    rcases List.mem_cons.mp h with h | h
    · cases h
      exact Step.answer_of_invalid hv hreads
    · refine ih ?_ h
      rwa [settings_after]

end Workspace

namespace Process

/-- **Failures leave no trace.** A history without the steps that failed, carried out in place,
leaves the same table, counts and program, and the other steps answer as before. Under settings that
are invalid every step that reads a dump fails for this reason, and no source is asked. -/
theorem failures_leave_no_trace (m : Process) (history : List Step) :
    let kept := Workspace.succeeded history (m.answers history)
    (m.after kept).workspace = (m.after history).workspace ∧
      m.answers kept = (m.answers history).filter Except.isOk ∧
      (m.workspace.session.settings.validate ≠ .ok () →
        (m.after history).asked = m.asked ∧
          ∃ text, ∀ step answer, (step, answer) ∈ history.zip (m.answers history) →
            step.readsDump → answer = .error (.invalidInput text)) := by
  intro kept
  obtain ⟨hanswers, hafter⟩ := m.workspace.after_succeeded history
  refine ⟨?_, ?_, fun hv => ⟨asked_after hv history, ?_⟩⟩
  · rw [workspace_after, workspace_after]
    simp only [kept, answers_eq, hafter]
  · simp only [kept, answers_eq, hanswers]
  · obtain ⟨text, htext⟩ := Settings.exists_text_of_validate hv
    rw [answers_eq]
    exact ⟨text, fun step answer h hreads => Workspace.eq_error_of_mem_answers htext h hreads⟩

/-- Without a section of code, lines are taken and the program is placed, but neither a dump at hand
nor a dumper is asked. -/
theorem failures_leave_no_trace_without_section :
    let settings : Settings := ⟨"objdump", [], false, false, 10⟩
    let row := "00001040 g     F .text\t00000010 main"
    let p : Program := ⟨[.ofBlocks (.number 7) (some "main") [.ofSizes 0 [4]]], .empty⟩
    let m := Process.start ⟨.start settings, p⟩
    let run : DumperRun settings.timeLimit := .ended (some 0) (Text.encode row)
    let extract := Step.extract (.dumper settings.dumper settings.timeLimit run) "main"
    let history := [.ingest [row], .analyze (.given [row]) "main", extract, .update]
    let kept := Workspace.succeeded history (m.answers history)
    settings.validate ≠ .ok () ∧ extract.readsDump ∧
      (m.answers history).map Except.isOk = [true, false, false, true] ∧
      (m.after kept).workspace = (m.after history).workspace ∧
      m.answers kept = (m.answers history).filter Except.isOk ∧
      (m.after history).asked = 0 ∧
      ∃ text, ((m.after (history.take 2)).carryOut extract).1 = .error (.invalidInput text) := by
  have hinvalid : (⟨"objdump", [], false, false, 10⟩ : Settings).validate =
      .error (.invalidInput "no text sections configured") := by rfl
  intro settings row p m run extract history kept
  have hv : settings.validate ≠ .ok () := by
    rw [hinvalid]
    nofun
  have hmem : (extract, ((m.after (history.take 2)).carryOut extract).1) ∈
      history.zip (m.answers history) := .tail _ (.tail _ (.head _))
  obtain ⟨hworkspace, hanswers, hrefused⟩ := m.failures_leave_no_trace history
  obtain ⟨hasked, text, htext⟩ := hrefused hv
  refine ⟨hv, rfl, ?_, hworkspace, hanswers, hasked, text, htext _ _ hmem rfl⟩
  decide +kernel

end Process

end CodeMap
