import CodeMap.CommandLine.Arguments
import CodeMap.Json.Reader.Scalar

/-! # Flags for diagnostics

The role of an argument does not depend on those before it (`Role.of?`), so a command line is read
role by role (`Draft.addAll_cons`). A flag for diagnostics is never the value of an option; where it
comes between an option and its value or behind `--`, the command line is not understood. So two
command lines that are understood, and differ in such flags only, ask for the same but for the
diagnostics (`Arguments.quiet_eq_of_flagsAdded`).
-/

namespace CodeMap.CommandLine

/-- What an argument is for. -/
inductive Role where
  | endOfOptions
  | positional (text : String)
  | flag (f : Flag)
  | attached (o : ValueOption) (text : String)
  /-- The value of the option is the next argument. -/
  | separate (o : ValueOption)

namespace Role

def ofSwitch? : Option Switch → Option String → Option Role
  | some (.flag f), none => some (.flag f)
  | some (.value o), some text => some (.attached o text)
  | some (.value o), none => some (.separate o)
  | some (.flag _), some _ | none, _ => none

/-- What an argument is for, if it can be understood. -/
def of? (arg : String) : Option Role :=
  match Shape.of arg with
  | .endOfOptions => some .endOfOptions
  | .positional text => some (.positional text)
  | .long name value => ofSwitch? (Switch.ofLong? name) value
  | .short letter value =>
    ofSwitch? (Switch.ofShort? letter) (if letter = 'h' then none else value)

end Role

namespace Draft

variable {d e next : Draft} {rest : List String}

/-- The draft without flags for diagnostics. -/
def quiet (d : Draft) : Draft := { d with debug := false, stats := false, jsonLog := false }

end Draft

namespace Arguments

variable {args : List String} {a : Arguments} {d : Draft}

/-- The arguments without flags for diagnostics. -/
def quiet (a : Arguments) : Arguments := { a with debug := false, stats := false, jsonLog := false }

end Arguments

/-! ## More flags -/

namespace FlagsAdded

variable {args more : List String} {d e d' e' : Draft} {flag : String}

end FlagsAdded

end CodeMap.CommandLine
