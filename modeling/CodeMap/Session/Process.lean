import CodeMap.Session.History

/-! # Steps carried out in place

A step is carried out action by action on a state that every action may change. What an action has
changed remains when a later one fails: nothing is put back. So whether a step that fails leaves a
trace depends on the order of its actions alone. The state also counts how often a source has been
asked for the lines of a dump.
-/

namespace CodeMap

/-- A workspace at work. -/
structure Process where
  workspace : Workspace
  /-- How often a source has been asked for lines. -/
  asked : Nat
  /-- All events so far. -/
  events : List Event

/-- An action on a process. If it fails, the process stays as the action has left it. -/
abbrev Action (α : Type) := ExceptT Failure (StateM Process) α

namespace Action

variable {α : Type}

/-- Carries out a traced computation. Its events are recorded even if it fails. -/
def trace (x : Attempted α) : Action α := do
  modify fun m => { m with events := m.events ++ x.events }
  ExceptT.mk (pure x.result)

/-- Refuses invalid settings. -/
def validate : Action Unit := do
  let m ← get
  trace (Traced.ofExcept m.workspace.session.settings.validate)

/-- Asks a source for the lines of a dump. -/
def ask (source : DumpSource) (binary : String) : Action (List String) := do
  modify fun m => { m with asked := m.asked + 1 }
  trace (source.read binary)

/-- Takes lines into the session. -/
def ingest (lines : List String) : Action DumpCounts := do
  let m ← get
  let s := m.workspace.session
  trace (Traced.record (s.ingestEvents lines))
  modify fun m => { m with workspace := { m.workspace with session := s.ingest lines } }
  return (s.ingest lines).counts

/-- Reads a dump into the session. -/
def analyze (source : DumpSource) (binary : String) : Action DumpCounts := do
  validate
  let lines ← ask source binary
  ingest lines

/-- Places the program by the table of the session. -/
def place : Action Report := do
  let m ← get
  let t := m.workspace.session.table
  let p := m.workspace.program
  trace (Traced.record (m.workspace.session.updateEvents p))
  modify fun m => { m with workspace := { m.workspace with program := p.place t } }
  return Report.ofProgram t p

end Action

/-- The actions of a step. -/
def Step.action : Step → Action Answer
  | .ingest lines => return .counts (← Action.ingest lines)
  | .analyze source binary => return .counts (← Action.analyze source binary)
  | .update => return .placed (← Action.place)
  | .extract source binary => do
    let _ ← Action.analyze source binary
    return .placed (← Action.place)

namespace Process

/-- A workspace before its first step. -/
def start (w : Workspace) : Process := ⟨w, 0, []⟩

/-- The answer of a step, and the process behind it. -/
def carryOut (m : Process) (step : Step) : Except Failure Answer × Process := step.action.run m

/-- The process after a history. -/
def after (m : Process) (history : List Step) : Process :=
  history.foldl (fun m step => (m.carryOut step).2) m

/-- The answers of a history. -/
def answers (m : Process) : List Step → List (Except Failure Answer)
  | [] => []
  | step :: rest => (m.carryOut step).1 :: answers (m.carryOut step).2 rest

@[simp] theorem after_nil (m : Process) : m.after [] = m := rfl

@[simp] theorem after_cons (m : Process) (step : Step) (rest : List Step) :
    m.after (step :: rest) = (m.carryOut step).2.after rest := rfl

end Process

end CodeMap
