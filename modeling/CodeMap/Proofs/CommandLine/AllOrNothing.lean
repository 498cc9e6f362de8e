import CodeMap.CommandLine.System
import CodeMap.Proofs.InPlace

/-! # All or nothing

Up to the delivery of the document the calls of a run do nothing but print a log: each of them does
what a traced computation says of the world that it finds (`Call.Traces`), and the world stays the
same. The delivery is one call, the last one, and nothing can fail behind it: a file that refuses to
be written is as it was, and the standard output is taken to accept what is printed. So a run in
place ends as `run` says, and one that ends with another exit code than zero has printed nothing and
has left all files as they were (`all_or_nothing`).
-/

namespace CodeMap.CommandLine

open InPlace

variable {α β : Type} {around : FileTree → World} {m next : System}

/-- The log of events one after another. -/
theorem logText_append (filter : LogFilter) (json : Bool) (events more : List Event) :
    logText filter json (events ++ more) =
      logText filter json events ++ logText filter json more := by
  rw [logText, logLines, List.filter_append, List.map_append, List.map_append, String.join_append]
  rfl

namespace System

@[simp] theorem files_printError (m : System) (text : String) :
    (m.printError text).files = m.files := rfl

@[simp] theorem printError_empty (m : System) : m.printError "" = m := by
  rw [printError, String.append_empty]

theorem printError_printError (m : System) (text more : String) :
    (m.printError text).printError more = m.printError (text ++ more) := by
  rw [printError, printError, printError, String.append_assoc]

/-- The system after a run has ended. -/
def after (m : System) (e : Ending) : System :=
  ⟨e.files m.files, m.stdout ++ e.stdout, m.stderr ++ e.stderr⟩

theorem after_of_error (m : System) (code : UInt32) (text : String) :
    m.after ⟨code, "", text, none⟩ = m.printError text := by
  rw [after, String.append_empty]
  rfl

theorem after_of_text (m : System) (code : UInt32) (text : String) :
    m.after ⟨code, text, "", none⟩ = m.print text := by
  rw [after, String.append_empty]
  rfl

theorem after_of_file (m : System) (code : UInt32) (path text : String) :
    m.after ⟨code, "", "", some (path, text)⟩ =
      { m with files := m.files.write path (Text.encode text) } := by
  rw [after, String.append_empty, String.append_empty]
  rfl

theorem printError_after (m : System) (code : UInt32) (stdout log : String)
    (written : Option (String × String)) :
    (m.printError log).after ⟨code, stdout, "", written⟩ =
      m.after ⟨code, stdout, log, written⟩ := by
  rw [after, String.append_empty]
  rfl

end System

/-! ## Calls -/

namespace Call

variable {x : Call α} {f : α → Call β} {w : World} {filter : LogFilter} {json : Bool}
  {y : Traced Complaint α} {g : α → Traced Complaint β}

/-- In this world the calls do what the traced computation says: they end with its result and print
its log, and they do nothing else. -/
def Traces (filter : LogFilter) (json : Bool) (around : FileTree → World) (w : World) (x : Call α)
    (y : Traced Complaint α) : Prop :=
  ∀ m, around m.files = w → x.run m = (y.result, m.printError (logText filter json y.events))

theorem traces_trace (y : Traced Complaint α) :
    Traces filter json around w (trace filter json y) y := fun _ _ => rfl

theorem traces_pure (a : α) : Traces filter json around w (pure a) (pure a) := by
  intro m _
  show _ = (Except.ok a, m.printError "")
  rw [System.printError_empty]
  rfl

/-- A look at the world shows this world. -/
theorem Traces.look {k : World → Call α} (h : Traces filter json around w (k w) y) :
    Traces filter json around w (look around >>= k) y := by
  rintro m rfl
  exact (run_bind_of_ok rfl).trans (h m rfl)

/-- The world is still the same for the calls that follow. -/
theorem Traces.bind (hx : Traces filter json around w x y)
    (hf : ∀ a, Traces filter json around w (f a) (g a)) :
    Traces filter json around w (x >>= f) (y >>= g) := by
  intro m hm
  have hrun := hx m hm
  rw [Traced.bind_eq]
  cases hy : y.result with
  | error c =>
    rw [hy] at hrun
    exact run_bind_of_error hrun
  | ok a =>
    rw [hy] at hrun
    have hnext := hf a (m.printError (logText filter json y.events)) hm
    rw [run_bind_of_ok hrun, hnext, System.printError_printError, ← logText_append]

end Call

/-! ## The calls of a run -/

namespace Arguments

variable {a : Arguments} {s : Settings} {p : Program} {w : World}

/-- Until the document is delivered there is nothing but a log. -/
theorem traces_callExtract (filter : LogFilter) :
    Call.Traces filter a.jsonLog around w (a.callExtract around s filter) (a.extract w s) := by
  refine .bind (Call.traces_trace _) fun _ => .look ?_
  refine .bind (Call.traces_trace _) fun p => .look ?_
  refine .bind (Call.traces_trace _) fun x => ?_
  exact .bind (Call.traces_trace _) fun _ => Call.traces_pure _

theorem run_callSettings (a : Arguments) (around : FileTree → World) (m : System) :
    (a.callSettings around).run m = (a.settings (around m.files), m) := rfl

/-- A document that is not delivered leaves the system as it was. -/
theorem run_callDeliver (m : System) :
    (a.callDeliver around p).run m =
      match a.deliver (around m.files) p with
      | .ok (stdout, written) => (.ok (), m.after ⟨0, stdout, "", written⟩)
      | .error complaint => (.error complaint, m) := by
  rw [callDeliver, deliver]
  cases a.output with
  | none => exact congrArg (Prod.mk _) (m.after_of_text 0 p.fileText).symm
  | some path =>
    have hwrite : (Call.write around path p.fileText).run m = _ := run_bind_of_ok rfl
    dsimp only
    rw [hwrite]
    cases (around m.files).refusal? path with
    | some reason => rfl
    | none => exact congrArg (Prod.mk _) (m.after_of_file 0 path p.fileText).symm

/-- What the calls behind the settings do. A failure has only left its log. -/
theorem run_callExtract_callDeliver (filter : LogFilter) (m : System) :
    let x := a.extract (around m.files) s
    let log := logText filter a.jsonLog x.events
    (a.callExtract around s filter >>= a.callDeliver around).run m =
      match x.result.bind (a.deliver (around m.files)) with
      | .ok (stdout, written) => (.ok (), m.after ⟨0, stdout, log, written⟩)
      | .error complaint => (.error complaint, m.printError log) := by
  intro x log
  have hextract : (a.callExtract around s filter).run m = (x.result, m.printError log) :=
    traces_callExtract filter m rfl
  cases hx : x.result with
  | error complaint =>
    rw [hx] at hextract
    exact run_bind_of_error hextract
  | ok p =>
    rw [hx] at hextract
    rw [run_bind_of_ok hextract, run_callDeliver, System.files_printError, Except.bind]
    cases a.deliver (around m.files) p with
    | error complaint => rfl
    | ok delivered => exact congrArg (Prod.mk _) (m.printError_after 0 delivered.1 log delivered.2)

/-- The calls of a run end where the run ends. -/
theorem run_calls (a : Arguments) (environment : Option String) (m : System) :
    let e := a.run environment (around m.files)
    ((a.calls around environment).run >>= close).run m = (e.code, m.after e) := by
  intro e
  have hclose {r : Except Complaint Unit} {next : System}
      (h : (a.calls around environment).run m = (r, next)) :
      ((a.calls around environment).run >>= close).run m = (close r).run next := by
    rw [StateT.run_bind, StateT.run, h]
    rfl
  have hsettings := a.run_callSettings around m
  cases hs : a.settings (around m.files) with
  | error complaint =>
    have he : e = ⟨1, "", complaint.text, none⟩ := by simp only [e, run, hs]
    rw [hs] at hsettings
    rw [hclose (run_bind_of_error hsettings), he, m.after_of_error]
    rfl
  | ok s =>
    rw [hs] at hsettings
    have hcalls := hclose <| (run_bind_of_ok hsettings).trans <|
      run_callExtract_callDeliver (LogFilter.choose environment s.debug) m
    rw [hcalls]
    simp only [e, run, hs]
    cases (a.extract (around m.files) s).result.bind (a.deliver (around m.files)) with
    | error complaint =>
      rw [m.after_of_error, logText, ← System.printError_printError]
      rfl
    | ok delivered => rfl

end Arguments

/-- A run that fails ends with exit code one and delivers nothing. -/
theorem Arguments.run_of_failure {a : Arguments} {environment : Option String} {w : World}
    (h : (a.run environment w).code ≠ 0) :
    ∃ stderr, a.run environment w = ⟨1, "", stderr, none⟩ := by
  rw [run] at h ⊢
  cases hs : a.settings w with
  | error complaint => exact ⟨_, rfl⟩
  | ok s =>
    simp only [hs] at h
    cases hr : (a.extract w s).result.bind (a.deliver w) with
    | error complaint =>
      simp only [hr]
      exact ⟨_, rfl⟩
    | ok delivered =>
      rw [hr] at h
      exact absurd rfl h

/-! ## The command line -/

/-- A command line that is carried out ends as `run` says of the world that it has found. -/
theorem run_carryOut (args : List String) (environment : Option String) (m : System) :
    let e := run args environment (around m.files)
    (carryOut args environment around).run m = (e.code, m.after e) := by
  rw [run, carryOut]
  cases Arguments.parse args with
  | error refusal =>
    cases refusal with
    | usage => exact congrArg (Prod.mk _) (m.after_of_error _ _).symm
    | help => exact congrArg (Prod.mk _) (m.after_of_text _ _).symm
  | ok a => exact a.run_calls environment m

theorem delivers_nothing {args : List String} {environment : Option String} {w : World}
    (h : (run args environment w).code ≠ 0) :
    (run args environment w).stdout = "" ∧ (run args environment w).written = none := by
  rw [run] at h ⊢
  cases hargs : Arguments.parse args with
  | error refusal =>
    cases refusal with
    | usage => exact ⟨rfl, rfl⟩
    | help =>
      rw [hargs] at h
      exact absurd rfl h
  | ok a =>
    rw [hargs] at h
    obtain ⟨stderr, hrun⟩ := Arguments.run_of_failure h
    exact ⟨congrArg Ending.stdout hrun, congrArg Ending.written hrun⟩

/-- **All or nothing.** A command line that is carried out in place, whatever files there are and
whatever reads, writes and the dumper make of them, ends as its run does. If its exit code is not
zero, it has printed nothing on the standard output, and all files are as they were. -/
theorem all_or_nothing (args : List String) (environment : Option String)
    (around : FileTree → World) (t : FileTree) :
    let e := run args environment (around t)
    let (code, m) := (carryOut args environment around).run ⟨t, "", ""⟩
    (code = e.code ∧ m = ⟨e.files t, e.stdout, e.stderr⟩) ∧
      (code ≠ 0 → m.stdout = "" ∧ m.files = t) := by
  intro e
  rw [run_carryOut]
  refine ⟨⟨rfl, ?_⟩, fun hcode => ?_⟩
  · simp only [System.after, String.empty_append]
    rfl
  · obtain ⟨hstdout, hwritten⟩ := delivers_nothing hcode
    simp only [System.after, Ending.files, hstdout, hwritten, String.append_empty, and_self]

/-- The output is the input, and the dumper ends with a status other than zero after it has printed
a row. -/
theorem all_or_nothing_of_failing_dumper :
    let args := ["main.elf", "-imain.pml", "-o", "main.pml"]
    let document := "\x7b\"machine-functions\":[\x7b\"name\":7,\"mapsto\":\"main\"\x7d]\x7d"
    let t := FileTree.ofFiles [("main.pml", Text.encode document)] []
    let around := fun t => World.ofTree t fun _ _ _ =>
      .ended (some 3) (Text.encode "00010000 g     F .text\t00000010 main\n")
    let (code, m) := (carryOut args none around).run ⟨t, "", ""⟩
    code = 1 ∧ m.stdout = "" ∧ m.files = t := by
  intro args document t around
  have hcode : ((carryOut args none around).run ⟨t, "", ""⟩).1 = 1 := by decide +kernel
  obtain ⟨-, hfails⟩ := all_or_nothing args none around t
  obtain ⟨hstdout, hfiles⟩ := hfails (hcode ▸ by decide)
  exact ⟨hcode, hstdout, hfiles⟩

end CodeMap.CommandLine
