import CodeMap.CommandLine.Run
import CodeMap.Proofs.Document.StoreLoad
import CodeMap.Proofs.Dump.Source
import CodeMap.Proofs.Session.Steps

/-! # What comes of a command line

The arguments of a command line and the world around it say which text is due (`Arguments.Emits`):
the document with the addresses of the dump, under the settings of the configuration with what the
arguments put in their place. A run ends well exactly if a text is due, and then delivers this text
in one place (`run_outcome`): on the standard output, or in the file that the arguments name.
-/

namespace CodeMap.CommandLine

namespace Arguments

/-- The settings `s` are `base` with what the arguments put in its place. A flag can only be
raised. -/
structure Overrides (a : Arguments) (base s : Settings) : Prop where
  dumper : s.dumper = a.dumper.getD base.dumper
  sections : s.sections = (a.sections.map Sections.parse).getD base.sections
  timeout : s.timeoutSeconds = a.timeout.getD base.timeoutSeconds
  debug : s.debug ↔ base.debug ∨ a.debug
  stats : s.stats ↔ base.stats ∨ a.stats

/-- The settings of a run: those of the configuration file, or else the standard ones, as far as
the arguments do not override them. -/
inductive Configures (a : Arguments) (w : World) (s : Settings) : Prop where
  | standard (file : a.config = none) (overrides : a.Overrides .standard s)
  | loaded {path : String} {base : Settings} (file : a.config = some path)
    (loads : Settings.ofFile (w.read path) = .ok base) (overrides : a.Overrides base s)

/-- The lines of the dump: those of the captured file, or else those that the dumper prints before
it ends with status zero. -/
inductive Dumps (a : Arguments) (w : World) (s : Settings) : List String → Prop where
  | captured {path : String} {text : List Char} (file : a.symbolDump = some path)
    (reads : (w.read path).text = .ok text) : Dumps a w s (Text.lines text)
  | printed {output : Text.Bytes} (file : a.symbolDump = none)
    (callable : DumpSource.callable s.dumper)
    (ends : w.dumper s.dumper a.binary s.timeLimit = .ended (some 0) output) :
    Dumps a w s (Text.lines (Text.decodeLossy output))

/-- The text that is due: the document placed by the table of the dump, and a line break. -/
inductive Emits (a : Arguments) (w : World) : String → Prop where
  | intro {s : Settings} {p : Program} {lines : List String} (configures : a.Configures w s)
    (loads : (w.read a.input).parse Program.read = .ok p) (valid : s.validate = .ok ())
    (dumps : a.Dumps w s lines) (writes : ∀ path ∈ a.output, w.refusal? path = none) :
    Emits a w ((p.place (.ofLines s.sections lines)).write ++ "\n")

variable {a : Arguments} {w : World} {base s : Settings} {p q : Program} {lines : List String}
  {text : String}

/-! ## Settings -/

theorem overrides_iff : a.Overrides base s ↔ a.adjust base = s := by
  constructor
  · rintro ⟨dumper, sections, timeout, debug, stats⟩
    rw [← Bool.or_eq_true, Bool.coe_iff_coe] at debug stats
    rw [adjust, ← dumper, ← sections, ← timeout, ← debug, ← stats]
  · rintro rfl
    exact ⟨rfl, rfl, rfl, by simp [adjust], by simp [adjust]⟩

theorem settings_eq_ok : a.settings w = .ok s ↔ a.Configures w s := by
  constructor
  · intro h
    rw [settings] at h
    cases hfile : a.config with
    | none =>
      rw [hfile] at h
      cases h
      exact .standard hfile (overrides_iff.mpr rfl)
    | some path =>
      simp only [hfile] at h
      cases hload : Settings.ofFile (w.read path) with
      | error e =>
        rw [hload] at h
        cases h
      | ok base =>
        rw [hload] at h
        cases h
        exact .loaded hfile hload (overrides_iff.mpr rfl)
  · rintro (⟨file, overrides⟩ | ⟨file, loads, overrides⟩)
    · rw [settings, file]
      exact congrArg Except.ok (overrides_iff.mp overrides)
    · simp only [settings, file, loads, overrides_iff.mp overrides]

/-! ## Dumps -/

theorem result_read_source :
    ((a.source w s).read a.binary).result = .ok lines ↔ a.Dumps w s lines := by
  constructor
  · intro h
    cases hfile : a.symbolDump with
    | some path =>
      rw [source, hfile] at h
      obtain ⟨text, reads, rfl⟩ := DumpSource.result_read_file.mp h
      exact .captured hfile reads
    | none =>
      rw [source, hfile] at h
      obtain ⟨callable, output, ends, rfl⟩ := DumpSource.result_read_dumper.mp h
      exact .printed hfile callable ends
  · rintro (⟨file, reads⟩ | ⟨file, callable, ends⟩) <;> rw [source, file]
    · exact DumpSource.result_read_file.mpr ⟨_, reads, rfl⟩
    · exact DumpSource.result_read_dumper.mpr ⟨callable, _, ends, rfl⟩

/-- A dump is read under valid settings only. -/
theorem linesUnder_source :
    (a.source w s).linesUnder s a.binary = .ok lines ↔
      s.validate = .ok () ∧ a.Dumps w s lines := by
  rw [← result_read_source, DumpSource.linesUnder]
  cases s.validate with
  | error e =>
    constructor
    · intro h
      cases h
    · rintro ⟨h, -⟩
      cases h
  | ok u => exact ⟨fun h => ⟨rfl, h⟩, fun h => h.2⟩

/-! ## Runs -/

/-- The program that a run extracts is the one of the input, placed by the table of the dump. -/
theorem result_extract :
    (a.extract w s).result = .ok q ↔
      ∃ p lines, (w.read a.input).parse Program.read = .ok p ∧ s.validate = .ok () ∧
        a.Dumps w s lines ∧ p.place (.ofLines s.sections lines) = q := by
  simp only [extract, Traced.result_bind_eq_ok, Traced.result_mapError_eq_ok,
    Program.result_ofFile, Session.result_extract, Json.map_ok_iff, Traced.result_record,
    Traced.result_pure]
  constructor
  · rintro ⟨_, -, p, hload, _, ⟨lines, hlines, rfl⟩, _, -, hq⟩
    obtain ⟨valid, dumps⟩ := linesUnder_source.mp hlines
    exact ⟨p, lines, hload, valid, dumps, Except.ok.inj hq⟩
  · rintro ⟨p, lines, hload, valid, dumps, rfl⟩
    have hlines := linesUnder_source.mpr ⟨valid, dumps⟩
    exact ⟨(), trivial, p, hload, _, ⟨lines, hlines, rfl⟩, (), trivial, rfl⟩

/-- What is printed of a text that is delivered, and what is written. -/
def delivery (a : Arguments) (text : String) : String × Option (String × String) :=
  a.output.elim (text, none) fun path => ("", some (path, text))

theorem deliver_eq_ok {delivered : String × Option (String × String)} :
    a.deliver w q = .ok delivered ↔
      (∀ path ∈ a.output, w.refusal? path = none) ∧ a.delivery q.fileText = delivered := by
  rw [deliver, delivery]
  cases a.output with
  | none => simp
  | some path => cases hw : w.refusal? path <;> simp [hw]

/-- A run delivers the text that is due. -/
theorem run_of_emits (h : a.Emits w text) (environment : Option String) :
    ∃ log, a.run environment w = ⟨0, (a.delivery text).1, log, (a.delivery text).2⟩ := by
  obtain @⟨s, p, lines, configures, loads, valid, dumps, writes⟩ := h
  have hsettings := settings_eq_ok.mpr configures
  have hextract := result_extract.mpr ⟨_, _, loads, valid, dumps, rfl⟩
  have hdeliver : a.deliver w (p.place (.ofLines s.sections lines)) = .ok (a.delivery _) :=
    deliver_eq_ok.mpr ⟨writes, rfl⟩
  simp only [run, hsettings, hextract, Except.bind, hdeliver]
  exact ⟨_, rfl⟩

/-- A run that ends well has had a text to deliver. -/
theorem emits_of_run {environment : Option String} (h : (a.run environment w).code = 0) :
    ∃ text, a.Emits w text := by
  rw [run] at h
  cases hs : a.settings w with
  | error e =>
    rw [hs] at h
    cases h
  | ok s =>
    simp only [hs] at h
    cases hx : (a.extract w s).result with
    | error e =>
      rw [hx] at h
      cases h
    | ok q =>
      cases hd : a.deliver w q with
      | error e =>
        rw [hx, Except.bind, hd] at h
        cases h
      | ok delivered =>
        obtain ⟨p, lines, loads, valid, dumps, -⟩ := result_extract.mp hx
        exact ⟨_, settings_eq_ok.mp hs, loads, valid, dumps, (deliver_eq_ok.mp hd).1⟩

end Arguments

/-- **What a command line does.** In any world, a run ends with exit code zero exactly if a text is
due: the configuration and the document load, the settings are valid, the dump has lines and the
file of the output, if there is one, can be written. This text is then all that the run delivers. It
is printed and nothing is written; or nothing is printed and it is written at the path of the output
and nowhere else, so that in any tree where this can be done the file holds it and no other file
changes. A device keeps nothing of what is written to it. -/
theorem run_outcome {args : List String} {a : Arguments} (h : Arguments.parse args = .ok a)
    (environment : Option String) (w : World) :
    let e := run args environment w
    (∀ s, a.settings w = .ok s ↔ a.Configures w s) ∧
      (e.code = 0 ↔ ∃ text, a.Emits w text) ∧
      ∀ text, a.Emits w text →
        match a.output with
        | none => e.stdout = text ∧ e.written = none ∧ ∀ t, e.files t = t
        | some path => e.stdout = "" ∧ e.written = some (path, text) ∧
            ∀ t : FileTree, t.refusal? path = none → ∃ place, t.target path = .ok place ∧
              (t.device? place = none → (e.files t).read path = .ok (Text.encode text)) ∧
              ∀ q ≠ place, (e.files t).file? q = t.file? q := by
  intro e
  have he : e = a.run environment w := by simp only [e, run, h]
  refine ⟨fun s => Arguments.settings_eq_ok, ⟨?_, ?_⟩, ?_⟩
  · intro hcode
    rw [he] at hcode
    exact Arguments.emits_of_run hcode
  · rintro ⟨text, hemits⟩
    obtain ⟨log, hrun⟩ := Arguments.run_of_emits hemits environment
    rw [he, hrun]
  · intro text hemits
    obtain ⟨log, hrun⟩ := Arguments.run_of_emits hemits environment
    rw [he, hrun, Arguments.delivery]
    cases houtput : a.output with
    | none => exact ⟨rfl, rfl, fun t => rfl⟩
    | some path =>
      refine ⟨rfl, rfl, fun t hwrites => ?_⟩
      obtain ⟨place, htarget⟩ := FileTree.refusal?_eq_none.mp hwrites
      refine ⟨place, htarget, ?_, ?_⟩
      · intro hdevice
        show (t.write path (Text.encode text)).read path = _
        rw [FileTree.write_eq_put htarget hdevice, FileTree.read_put htarget hdevice]
      · intro q hq
        exact FileTree.file?_write_of_ne htarget hq _

/-- The output lies in an empty folder elsewhere. -/
theorem run_outcome_of_captured_dump :
    let args := ["main.elf", "-i", "main.pml", "-o/tmp/run/placed.pml", "--config=main.conf",
      "--symbol-dump", "main.dump", "--text-sections= .text , .init"]
    let a : Arguments := ⟨"main.elf", "main.pml", some "/tmp/run/placed.pml", some "main.conf", none,
      some " .text , .init", some "main.dump", none, false, false, false⟩
    let document := "\x7b\"machine-functions\":[\x7b\"name\":7,\"mapsto\":\"main\"\x7d]\x7d"
    let p : Program := ⟨[⟨.number 7, some "main", [], .empty⟩], .empty⟩
    let row := "00010000 g     F .init\t00000010 main"
    let files := FileTree.ofFiles [("main.pml", Text.encode document),
      ("main.dump", Text.encode row),
      ("main.conf", Text.encode "\x7b\"text_sections\":[],\"timeout_seconds\":7\x7d")] []
    let t := files.addFolder "/tmp/run"
    let w := World.ofTree t fun _ _ _ => .notStarted "there is no dumper"
    let text := (p.place (.ofLines [".text", ".init"] [row])).write ++ "\n"
    Arguments.parse args = .ok a ∧ a.Emits w text ∧
      let e := run args none w
      e.code = 0 ∧ e.stdout = "" ∧ e.written = some ("/tmp/run/placed.pml", text) ∧
        (e.files t).read "/tmp/run/placed.pml" = .ok (Text.encode text) ∧
        (e.files t).file? ["main.pml"] = t.file? ["main.pml"] := by
  intro args a document p row files t w text
  let base : Settings := ⟨"patmos-llvm-objdump", [], false, false, 7⟩
  let s : Settings := ⟨"patmos-llvm-objdump", [".text", ".init"], false, false, 7⟩
  have hargs : Arguments.parse args = .ok a :=
    Json.ok_of_toOption_eq_some (by decide +kernel)
  have hbase : Settings.ofFile (w.read "main.conf") = .ok base :=
    Json.ok_of_toOption_eq_some (by decide +kernel)
  have hoverrides : a.Overrides base s := ⟨rfl, by decide +kernel, rfl, by decide, by decide⟩
  have hload : (w.read a.input).parse Program.read = .ok p :=
    Json.ok_of_toOption_eq_some (by decide +kernel)
  have hvalid : s.validate = .ok () := by
    show Settings.validate ⟨"patmos-llvm-objdump", [".text", ".init"], false, false, 7⟩ = _
    rfl
  have hlines : (w.read "main.dump").text.map Text.lines = .ok [row] :=
    Json.ok_of_toOption_eq_some (by decide +kernel)
  obtain ⟨lines, htext, hlines⟩ := Json.map_ok_iff.mp hlines
  have htarget : t.target "/tmp/run/placed.pml" = .ok ["/", "tmp", "run", "placed.pml"] :=
    Json.ok_of_toOption_eq_some (by decide +kernel)
  have hwrites : t.refusal? "/tmp/run/placed.pml" = none := FileTree.refusal?_eq_none.mpr ⟨_, htarget⟩
  have hdump : a.Dumps w s [row] := hlines ▸ .captured rfl htext
  have hemits : a.Emits w ((p.place (.ofLines s.sections [row])).write ++ "\n") :=
    .intro (.loaded rfl hbase hoverrides) hload hvalid hdump fun path hpath => by
      cases hpath
      exact hwrites
  obtain ⟨-, hcode, hdelivers⟩ := run_outcome hargs none w
  obtain ⟨hstdout, hwritten, hfiles⟩ := hdelivers _ hemits
  obtain ⟨place, hplace, hread, hothers⟩ := hfiles t hwrites
  obtain rfl := Except.ok.inj (htarget.symm.trans hplace)
  exact ⟨hargs, hemits, hcode.mpr ⟨_, hemits⟩, hstdout, hwritten, hread rfl, hothers _ (by decide)⟩

end CodeMap.CommandLine
