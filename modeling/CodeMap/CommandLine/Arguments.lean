import CodeMap.Text.Numbers

/-! # Command line arguments

The arguments name a binary and a program document, and may say where settings and a captured dump
lie, where the result goes, and what of the settings is to be different. An option has its value
in the same argument or in the next one, and may be given once. After `--` no argument is an
option.
-/

namespace CodeMap.CommandLine

/-- What a command line asks for. -/
structure Arguments where
  /-- The binary whose symbols are dumped. -/
  binary : String
  /-- The program document. -/
  input : String
  /-- Where the result goes; to the standard output if it is left out. -/
  output : Option String
  /-- The file with the settings. -/
  config : Option String
  /-- The command that dumps the symbols. -/
  dumper : Option String
  /-- The list of code sections. -/
  sections : Option String
  /-- A dump captured earlier, instead of a call of the dumper. -/
  symbolDump : Option String
  /-- The seconds that the dumper may take. -/
  timeout : Option UInt64
  debug : Bool
  stats : Bool
  jsonLog : Bool
deriving DecidableEq, Repr

/-- The options that take a value. -/
inductive ValueOption where
  | input
  | output
  | config
  | dumper
  | sections
  | symbolDump
  | timeout
deriving DecidableEq, Repr

/-- The options that take none. -/
inductive Flag where
  | debug
  | stats
  | jsonLog
  | help
deriving DecidableEq, Repr

/-- An option. -/
inductive Switch where
  | value (o : ValueOption)
  | flag (f : Flag)
deriving DecidableEq, Repr

/-- The option with a long name. -/
def Switch.ofLong? : String → Option Switch
  | "input" => some (.value .input)
  | "output" => some (.value .output)
  | "config" => some (.value .config)
  | "objdump-command" => some (.value .dumper)
  | "text-sections" => some (.value .sections)
  | "symbol-dump" => some (.value .symbolDump)
  | "timeout" => some (.value .timeout)
  | "debug" => some (.flag .debug)
  | "stats" => some (.flag .stats)
  | "json-log" => some (.flag .jsonLog)
  | "help" => some (.flag .help)
  | _ => none

/-- The option with a letter for its name. -/
def Switch.ofShort? : Char → Option Switch
  | 'i' => some (.value .input)
  | 'o' => some (.value .output)
  | 'h' => some (.flag .help)
  | _ => none

/-! ## Shapes of arguments -/

/-- The shape of an argument. -/
inductive Shape where
  | endOfOptions
  | positional (text : String)
  /-- An option by its long name, with the value behind an equals sign. -/
  | long (name : String) (value : Option String)
  /-- An option by its letter, with the value behind the letter. -/
  | short (letter : Char) (value : Option String)
deriving DecidableEq, Repr

/-- The shape of an argument; a lone hyphen is none of an option. -/
def Shape.of (arg : String) : Shape :=
  match arg.toList with
  | ['-', '-'] => .endOfOptions
  | '-' :: '-' :: rest =>
    let name := String.ofList (rest.takeWhile (· != '='))
    match rest.dropWhile (· != '=') with
    | [] => .long name none
    | _ :: value => .long name (some (String.ofList value))
  | '-' :: letter :: [] => .short letter none
  | '-' :: letter :: '=' :: value => .short letter (some (String.ofList value))
  | '-' :: letter :: value => .short letter (some (String.ofList value))
  | _ => .positional arg

/-- A separate argument may be the value of the option before it. -/
def mayBeValue (arg : String) : Bool :=
  match Shape.of arg with
  | .positional _ => true
  | _ => false

/-! ## Reading -/

/-- The arguments read so far. -/
structure Draft where
  binary : Option String
  input : Option String
  output : Option String
  config : Option String
  dumper : Option String
  sections : Option String
  symbolDump : Option String
  timeout : Option UInt64
  debug : Bool
  stats : Bool
  jsonLog : Bool
deriving DecidableEq, Repr

/-- Why arguments are not read to their end. -/
inductive Stop where
  /-- They are not a command line of this program. -/
  | usage
  /-- They ask what the program does. -/
  | help
deriving DecidableEq, Repr

namespace Draft

/-- No arguments yet. -/
def empty : Draft := ⟨none, none, none, none, none, none, none, none, false, false, false⟩

/-- A value for what has none so far. -/
def once {α : Type} (earlier : Option α) (value : Option α) : Except Stop (Option α) :=
  match earlier, value with
  | none, some a => .ok (some a)
  | _, _ => .error .usage

/-- A path: any text that is not empty. -/
def path? (text : String) : Option String := if text = "" then none else some text

/-- The draft with the value of an option. -/
def setValue (d : Draft) (o : ValueOption) (text : String) : Except Stop Draft :=
  match o with
  | .input => (once d.input (path? text)).map fun v => { d with input := v }
  | .output => (once d.output (path? text)).map fun v => { d with output := v }
  | .config => (once d.config (path? text)).map fun v => { d with config := v }
  | .dumper => (once d.dumper (some text)).map fun v => { d with dumper := v }
  | .sections => (once d.sections (some text)).map fun v => { d with sections := v }
  | .symbolDump => (once d.symbolDump (path? text)).map fun v => { d with symbolDump := v }
  | .timeout => (once d.timeout (Text.word64? text)).map fun v => { d with timeout := v }

/-- The draft with a flag. -/
def setFlag (d : Draft) (f : Flag) : Except Stop Draft :=
  match f with
  | .debug => if d.debug then .error .usage else .ok { d with debug := true }
  | .stats => if d.stats then .error .usage else .ok { d with stats := true }
  | .jsonLog => if d.jsonLog then .error .usage else .ok { d with jsonLog := true }
  | .help => .error .help

/-- The draft with a positional argument. -/
def setPositional (d : Draft) (text : String) : Except Stop Draft :=
  (once d.binary (path? text)).map fun v => { d with binary := v }

/-- The arguments, if none is missing. -/
def finish (d : Draft) : Except Stop Arguments :=
  match d.binary, d.input with
  | some binary, some input =>
    .ok ⟨binary, input, d.output, d.config, d.dumper, d.sections, d.symbolDump, d.timeout,
      d.debug, d.stats, d.jsonLog⟩
  | _, _ => .error .usage

/-- The draft with arguments that are positional whatever they look like. -/
def addPositionals (d : Draft) : List String → Except Stop Draft
  | [] => .ok d
  | arg :: rest =>
    match d.setPositional arg with
    | .error stop => .error stop
    | .ok d => addPositionals d rest

/-- The draft with an option that has been recognised; the second part of the answer tells
whether the next argument has been used up as its value. -/
def addSwitch (d : Draft) (switch : Option Switch) (attached next : Option String) :
    Except Stop (Draft × Bool) :=
  match switch, attached with
  | none, _ => .error .usage
  | some (.flag f), none => (d.setFlag f).map (·, false)
  | some (.flag _), some _ => .error .usage
  | some (.value o), some text => (d.setValue o text).map (·, false)
  | some (.value o), none =>
    match next.filter mayBeValue with
    | none => .error .usage
    | some text => (d.setValue o text).map (·, true)

/-- The draft with all the arguments. -/
def addAll (d : Draft) : List String → Except Stop Draft
  | [] => .ok d
  | arg :: rest =>
    let added := match Shape.of arg with
      | .endOfOptions => Except.ok (d, false)
      | .positional text => (d.setPositional text).map (·, false)
      | .long name attached => d.addSwitch (Switch.ofLong? name) attached rest.head?
      | .short letter attached =>
        d.addSwitch (Switch.ofShort? letter)
          (if letter = 'h' then none else attached) rest.head?
    match added, rest with
    | .error stop, _ => .error stop
    | .ok (d, true), _ :: more => addAll d more
    | .ok (d, true), [] => .ok d
    | .ok (d, false), rest =>
      if Shape.of arg = .endOfOptions then addPositionals d rest else addAll d rest

end Draft

/-- The arguments of a command line. -/
def Arguments.parse (args : List String) : Except Stop Arguments :=
  match Draft.empty.addAll args with
  | .error stop => .error stop
  | .ok d => d.finish

end CodeMap.CommandLine
