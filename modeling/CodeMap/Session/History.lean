import CodeMap.Session

/-! # Histories of a session

A session and a program at hand go through steps: lines are ingested, dumps are read, the program
is placed. A step that fails changes nothing, so a history is a list of steps of which each one
begins where the one before has left off.
-/

namespace CodeMap

/-- A session and the program at hand. -/
structure Workspace where
  session : Session
  program : Program
deriving DecidableEq

/-- What can be done with a session and a program. -/
inductive Step where
  | ingest (lines : List String)
  | analyze (source : DumpSource) (binary : String)
  /-- The program is placed by the table of the session. -/
  | update
  /-- A dump is read, and then the program is placed. -/
  | extract (source : DumpSource) (binary : String)

/-- What a step answers. -/
inductive Answer where
  /-- The counts of all dumps read so far. -/
  | counts (c : DumpCounts)
  | placed (r : Report)
deriving DecidableEq, Repr

namespace Step

/-- What a step answers, and the workspace that it leaves if it succeeds. -/
def attempt (step : Step) (w : Workspace) : Attempted (Answer × Workspace) :=
  match step with
  | ingest lines => do
    Traced.record (w.session.ingestEvents lines)
    let s := w.session.ingest lines
    return (.counts s.counts, { w with session := s })
  | analyze source binary => do
    let s ← w.session.analyze source binary
    return (.counts s.counts, { w with session := s })
  | update => do
    Traced.record (w.session.updateEvents w.program)
    let t := w.session.table
    return (.placed (.ofProgram t w.program), { w with program := w.program.place t })
  | extract source binary => do
    let x ← w.session.extract source binary w.program
    return (.placed x.report, ⟨x.session, x.program⟩)

/-- The answer of a step, or why it has failed. -/
def answer (step : Step) (w : Workspace) : Except Failure Answer :=
  (step.attempt w).result.map Prod.fst

/-- The workspace after a step. -/
def after (step : Step) (w : Workspace) : Workspace :=
  match (step.attempt w).result with
  | .ok (_, next) => next
  | .error _ => w

end Step

namespace Workspace

/-- The workspace after a history. -/
def after (w : Workspace) (history : List Step) : Workspace :=
  history.foldl (fun w step => step.after w) w

/-- The answers of a history. -/
def answers (w : Workspace) : List Step → List (Except Failure Answer)
  | [] => []
  | step :: rest => step.answer w :: answers (step.after w) rest

@[simp] theorem after_nil (w : Workspace) : w.after [] = w := rfl

@[simp] theorem after_cons (w : Workspace) (step : Step) (rest : List Step) :
    w.after (step :: rest) = (step.after w).after rest := rfl

theorem after_append (w : Workspace) (history more : List Step) :
    w.after (history ++ more) = (w.after history).after more := List.foldl_append ..

theorem answers_append (w : Workspace) (history more : List Step) :
    w.answers (history ++ more) = w.answers history ++ (w.after history).answers more := by
  induction history generalizing w with
  | nil => rfl
  | cons step rest ih => simp [answers, ih]

end Workspace

end CodeMap
