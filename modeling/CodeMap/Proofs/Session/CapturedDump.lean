import CodeMap.Proofs.Dump.Source
import CodeMap.Proofs.Session.Atomicity

/-! # Captured dumps and live ones

A dump is read from a file, which must be UTF-8 throughout, or from a dumper, whose output is mended
where it is not. A text has nothing to mend (`Text.decodeLossy_encode`), so a dumper that prints it
gives the lines of a file that holds it. A session only sees the lines: it cannot tell the two apart
(`DumpSource.captured_dump_equals_live`). Of a dumper that fails it sees nothing.
-/

namespace CodeMap

/-! ## Steps -/

namespace Step

variable {w : Workspace} {first second source : DumpSource} {binary other : String} {e : Failure}

/-- Of a source nothing matters but its lines, or its failure. -/
theorem extract_congr (h : (first.read binary).result = (second.read other).result)
    (w : Workspace) :
    (extract first binary).answer w = (extract second other).answer w ∧
      (extract first binary).after w = (extract second other).after w := by
  have hlines : first.linesUnder w.session.settings binary =
      second.linesUnder w.session.settings other := DumpSource.linesUnder_congr rfl h
  simp only [answer, after, attempt, Traced.result_bind, Session.result_extract, hlines, and_self]

/-- Under valid settings a step fails for the reason why its source has failed. -/
theorem answer_extract_of_error (hv : w.session.settings.validate = .ok ())
    (h : (source.read binary).result = .error e) : (extract source binary).answer w = .error e := by
  rw [answer, attempt, Traced.result_bind, Session.result_extract, DumpSource.linesUnder, hv, h]
  rfl

/-- A source that has failed leaves nothing behind, be the settings valid or not. -/
theorem after_extract_of_error (h : (source.read binary).result = .error e) :
    (extract source binary).after w = w := by
  cases hv : w.session.settings.validate with
  | error => exact after_of_error (answer_of_invalid hv rfl)
  | ok => exact after_of_error (answer_extract_of_error hv h)

end Step

/-- **A captured dump equals a live one.** A dumper that can be called, prints a text and ends with
status zero gives the lines of a file that holds the text, under every limit of time. So an extraction
from either, carried out in place, gives the same report and leaves the same table, counts and program.
If the dumper ends with another status, or with none, it has failed with this status, and whatever it
has printed leaves no trace. -/
theorem DumpSource.captured_dump_equals_live {command : String} (hcallable : callable command)
    (limit : TimeLimit) (path binary other text : String) :
    let captured := file path (.ok (Text.encode text))
    let live := fun status output => dumper command limit (.ended status output)
    ((captured.read binary).result = .ok (Text.lines text.toList) ∧
        ((live (some 0) (Text.encode text)).read other).result = .ok (Text.lines text.toList)) ∧
      (∀ m : Process,
        let x := m.carryOut (.extract captured binary)
        let y := m.carryOut (.extract (live (some 0) (Text.encode text)) other)
        x.1 = y.1 ∧ x.2.workspace = y.2.workspace) ∧
      ∀ status output, status ≠ some 0 →
        ((live status output).read other).result = .error (.dumperFailed command status) ∧
          ∀ m : Process,
            let x := m.carryOut (.extract (live status output) other)
            x.2.workspace = m.workspace ∧
              (m.workspace.session.settings.validate = .ok () →
                x.1 = .error (.dumperFailed command status)) := by
  intro captured live
  have hcaptured : (captured.read binary).result = .ok (Text.lines text.toList) :=
    result_read_encode path binary text
  have hlive : ((live (some 0) (Text.encode text)).read other).result =
      .ok (Text.lines text.toList) := by
    rw [result_read_dumper, ← Text.decodeLossy_encode text]
    exact ⟨hcallable, _, rfl, rfl⟩
  refine ⟨⟨hcaptured, hlive⟩, ?_, ?_⟩
  · intro m x y
    obtain ⟨hanswer, hafter⟩ := Step.extract_congr (hcaptured.trans hlive.symm) m.workspace
    obtain ⟨hx, hx'⟩ := m.carryOut_eq (.extract captured binary)
    obtain ⟨hy, hy'⟩ := m.carryOut_eq (.extract (live (some 0) (Text.encode text)) other)
    exact ⟨hx.trans (hanswer.trans hy.symm), hx'.trans (hafter.trans hy'.symm)⟩
  · intro status output hstatus
    have hfailed : ((live status output).read other).result = .error (.dumperFailed command status) :=
      result_read_of_failed hcallable hstatus output other
    refine ⟨hfailed, ?_⟩
    intro m x
    obtain ⟨hx, hx'⟩ := m.carryOut_eq (.extract (live status output) other)
    refine ⟨hx'.trans (Step.after_extract_of_error hfailed), fun hv => ?_⟩
    exact hx.trans (Step.answer_extract_of_error hv hfailed)

/-- A dump with both line ends, with letters that are not ASCII, and with a replacement character of its
own behind the last line end; and the same printed by a dumper that something kills. -/
theorem DumpSource.captured_dump_equals_live_of_two_line_ends :
    let row := "00001040 g     F .text\t00000010 größe"
    let text := "SYMBOL TABLE:\r\n\n" ++ row ++ "\n\uFFFD"
    let settings := Settings.standard
    let p : Program := ⟨[.ofBlocks (.number 7) (some "größe") [.ofSizes 0 [4]]], .empty⟩
    let m := Process.start ⟨.start settings, p⟩
    let captured := DumpSource.file "main.dump" (.ok (Text.encode text))
    let live := fun status => DumpSource.dumper settings.dumper settings.timeLimit
      (.ended status (Text.encode text))
    let x := m.carryOut (.extract (live (some 0)) "main.elf")
    let y := m.carryOut (.extract (live none) "main.elf")
    DumpSource.callable settings.dumper ∧ (none : Option Int) ≠ some 0 ∧
      settings.validate = .ok () ∧
      ((live (some 0)).read "main.elf").result = .ok ["SYMBOL TABLE:", "", row, "\uFFFD"] ∧
      x.1 = (m.carryOut (.extract captured "main.elf")).1 ∧
      x.1.toOption = some (.placed ⟨1, [], 1, 0, 1⟩) ∧
      y.1 = .error (.dumperFailed settings.dumper none) ∧ y.2.workspace = ⟨.start settings, p⟩ := by
  intro row text settings p m captured live x y
  have hcallable : callable settings.dumper := by decide +kernel
  have hvalid : settings.validate = .ok () := by
    show Settings.standard.validate = _
    rfl
  have hlines : Text.lines text.toList = ["SYMBOL TABLE:", "", row, "\uFFFD"] := by decide +kernel
  obtain ⟨⟨-, hread⟩, hsame, hfailed⟩ := captured_dump_equals_live hcallable settings.timeLimit
    "main.dump" "main.elf" "main.elf" text
  obtain ⟨-, hfailed⟩ := hfailed none (Text.encode text) nofun
  refine ⟨hcallable, nofun, hvalid, hlines ▸ hread, (hsame m).1.symm, ?_, (hfailed m).2 hvalid,
    (hfailed m).1⟩
  decide +kernel

end CodeMap
