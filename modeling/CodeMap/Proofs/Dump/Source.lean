import CodeMap.Dump.Source
import CodeMap.Proofs.Text.Utf8

/-! # When a dump has lines

A captured dump has the lines of its text. A dumper has lines only if it can be called and ends with
status zero, and then all that it has printed counts.
-/

namespace CodeMap

/-- Only a dumper that ends with status zero has lines, and all that it has printed counts. -/
theorem DumperRun.result_await {limit : TimeLimit} {run : DumperRun limit} {command name : String}
    {lines : List String} :
    ((run.operation command).await name).result = .ok lines ↔
      ∃ output, run = .ended (some 0) output ∧ Text.lines (Text.decodeLossy output) = lines := by
  cases run with
  | notStarted | interrupted | overdue => exact ⟨nofun, nofun⟩
  | ended status output =>
    rw [operation]
    split
    · next hzero =>
      constructor
      · intro h
        exact ⟨output, by rw [hzero], Except.ok.inj h⟩
      · rintro ⟨_, hends, rfl⟩
        cases hends
        rfl
    · next hstatus =>
      constructor
      · nofun
      · rintro ⟨_, hends, -⟩
        cases hends
        exact absurd rfl hstatus

namespace DumpSource

theorem result_read_file {path binary : String} {contents : FileRead} {lines : List String} :
    ((file path contents).read binary).result = .ok lines ↔
      ∃ text, contents.text = .ok text ∧ Text.lines text = lines := by
  simp [read, Traced.result_bind_eq_ok]

/-- A file that holds a text has its lines. -/
theorem result_read_encode (path binary text : String) :
    ((file path (.ok (Text.encode text))).read binary).result = .ok (Text.lines text.toList) :=
  result_read_file.mpr ⟨text.toList, FileRead.text_encode text, rfl⟩

theorem result_read_dumper {command binary : String} {limit : TimeLimit} {run : DumperRun limit}
    {lines : List String} :
    ((dumper command limit run).read binary).result = .ok lines ↔
      callable command ∧
        ∃ output, run = .ended (some 0) output ∧ Text.lines (Text.decodeLossy output) = lines := by
  simp only [read, Traced.result_bind_eq_ok, DumperRun.result_await, Traced.result_record,
    Traced.result_pure]
  by_cases hcallable : callable command <;> simp [hcallable]

/-- A dumper that ends with another status than zero has failed, whatever it has printed. -/
theorem result_read_of_failed {command : String} {limit : TimeLimit} {status : Option Int}
    (hcallable : callable command) (hstatus : status ≠ some 0) (output : Text.Bytes)
    (binary : String) :
    ((dumper command limit (.ended status output)).read binary).result =
      .error (.dumperFailed command status) := by
  simp only [read, Traced.result_bind, Traced.result_record, hcallable, if_true,
    DumperRun.operation, if_neg hstatus, Operation.await]

end DumpSource

end CodeMap
