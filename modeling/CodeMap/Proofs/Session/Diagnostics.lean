import CodeMap.Proofs.Session.Atomicity
import Mathlib.Data.List.Forall2

/-! # Settings that make no difference

Of the settings a session uses the sections, and it asks whether they are valid; the rest is for the
dumper and for the log. So two workspaces that agree in what remains (`Workspace.Agree`) go through
steps with the same lines in step (`Workspace.Agree.history`), however different the events are that
they record.
-/

namespace CodeMap

/-- Steps of one kind, with the same lines or with sources that end alike. -/
inductive Step.Alike : Step → Step → Prop where
  | ingest (lines : List String) : Alike (.ingest lines) (.ingest lines)
  | analyze {first second : DumpSource} {binary other : String}
    (h : (first.read binary).result = (second.read other).result) :
    Alike (.analyze first binary) (.analyze second other)
  | update : Alike .update .update
  | extract {first second : DumpSource} {binary other : String}
    (h : (first.read binary).result = (second.read other).result) :
    Alike (.extract first binary) (.extract second other)

/-- The sessions name the same sections, are both valid or invalid for one reason, and know the
same. -/
structure Session.Agree (s u : Session) : Prop where
  sections : s.settings.sections = u.settings.sections
  validate : s.settings.validate = u.settings.validate
  table : s.table = u.table
  counts : s.counts = u.counts

structure Workspace.Agree (w u : Workspace) : Prop where
  session : w.session.Agree u.session
  program : w.program = u.program

theorem Session.Agree.ingest {s u : Session} (h : s.Agree u) (lines : List String) :
    (s.ingest lines).Agree (u.ingest lines) where
  sections := h.sections
  validate := h.validate
  table := by rw [Session.ingest, Session.ingest, h.table, h.sections]
  counts := by rw [Session.ingest, Session.ingest, h.counts, h.sections]

theorem Session.Agree.placed {s u : Session} (h : s.Agree u) (p : Program) :
    Answer.placed (Report.ofProgram s.table p) = .placed (Report.ofProgram u.table p) ∧
      p.place s.table = p.place u.table := by
  rw [h.table]
  exact ⟨rfl, rfl⟩

namespace Workspace.Agree

variable {w u : Workspace}

/-- Alike steps answer the same, and the workspaces still agree. -/
theorem step {first second : Step} (h : w.Agree u) (hstep : first.Alike second) :
    first.answer w = second.answer u ∧ (first.after w).Agree (second.after u) := by
  obtain ⟨s, p⟩ := w
  obtain ⟨r, q⟩ := u
  obtain ⟨hsession, rfl⟩ : s.Agree r ∧ p = q := ⟨h.session, h.program⟩
  cases hstep with
  | ingest lines =>
    have hnext := hsession.ingest lines
    exact ⟨congrArg (Except.ok ∘ Answer.counts) hnext.counts, hnext, rfl⟩
  | update =>
    obtain ⟨hreport, hprogram⟩ := hsession.placed p
    exact ⟨congrArg Except.ok hreport, hsession, hprogram⟩
  | @analyze first second binary other hread =>
    have hlines := DumpSource.linesUnder_congr hsession.validate hread
    simp only [Step.answer, Step.after, Step.attempt, Traced.result_bind, Session.result_analyze,
      hlines]
    cases second.linesUnder r.settings other with
    | error e => exact ⟨rfl, hsession, rfl⟩
    | ok lines =>
      have hnext := hsession.ingest lines
      exact ⟨congrArg (Except.ok ∘ Answer.counts) hnext.counts, hnext, rfl⟩
  | @extract first second binary other hread =>
    have hlines := DumpSource.linesUnder_congr hsession.validate hread
    simp only [Step.answer, Step.after, Step.attempt, Traced.result_bind, Session.result_extract,
      hlines]
    cases second.linesUnder r.settings other with
    | error e => exact ⟨rfl, hsession, rfl⟩
    | ok lines =>
      obtain ⟨hreport, hprogram⟩ := (hsession.ingest lines).placed p
      exact ⟨congrArg Except.ok hreport, hsession.ingest lines, hprogram⟩

/-- So do histories of alike steps. -/
theorem history {history more : List Step} (h : w.Agree u)
    (hsteps : List.Forall₂ Step.Alike history more) :
    w.answers history = u.answers more ∧ (w.after history).Agree (u.after more) := by
  induction hsteps generalizing w u with
  | nil => exact ⟨rfl, h⟩
  | cons hstep _ ih =>
    obtain ⟨hanswer, hnext⟩ := h.step hstep
    obtain ⟨hanswers, hafter⟩ := ih hnext
    refine ⟨?_, hafter⟩
    rw [answers, answers, hanswer, hanswers]

end Workspace.Agree

end CodeMap
