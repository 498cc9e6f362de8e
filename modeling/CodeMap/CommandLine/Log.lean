import CodeMap.Event
import CodeMap.Json.Printer
import CodeMap.Pattern
import CodeMap.Text.Numbers
import CodeMap.Text.Utf8

/-! # The log

The lines of a log, one for an event that its filter lets through: as text, or as JSON objects.

A filter decides which events a log shows. It is a list of directives with commas between them:
a level for all events, or the beginning of a target with a level behind an equals sign. Brackets
before the equals sign may name a span, and within them braces a field; the directive speaks of
what is there alone. Of the directives that fit an event the most specific one decides. Where none
fits, nothing is shown.
-/

namespace CodeMap.CommandLine

/-! ## Filters -/

/-- The events that a directive speaks of, among those of its targets. -/
inductive Scope where
  | all
  /-- The events that have a field. -/
  | field (name : String)
  /-- The events within certain spans. No event of this program lies within a span. -/
  | spans
deriving DecidableEq, Repr

/-- The least grave rank that is shown of some events. -/
structure Directive where
  /-- How the targets of the events begin; any target will do without it. -/
  target : Option String
  scope : Scope
  rank : Nat
deriving DecidableEq, Repr

/-- Which events are shown. -/
structure LogFilter where
  directives : List Directive
deriving DecidableEq, Repr

/-! ## Reading -/

/-- The rank of a level by its name, in any case, or by its number. -/
def rank? (level : String) : Option Nat :=
  match Text.word64? level with
  | some n => if n ≤ 5 then some n.toNat else none
  | none =>
    match String.ofList (level.toList.map Char.toLower) with
    | "off" => some 0
    | "error" => some 1
    | "warn" => some 2
    | "info" => some 3
    | "debug" => some 4
    | "trace" => some 5
    | _ => none

/-- The text is a value of a field: a number or a pattern. -/
def isFieldValue (text : List Char) : Bool := Text.isNumber text || Pattern.isWellFormed text

/-- Some bytes of a text, by their place in it. -/
structure Stretch where
  start : Nat
  length : Nat
deriving DecidableEq, Repr

namespace Stretch

/-- The characters in a stretch of a text, if it neither begins nor ends within one. -/
def cut? (bytes : Text.Bytes) (s : Stretch) : Option (List Char) :=
  Text.decode? ((bytes.drop s.start).take s.length)

/-- The place behind a stretch and the character that ends it. -/
def behind (s : Stretch) : Nat := s.start + s.length + 1

end Stretch

/-- The parts of a directive, by their places. An empty target is absent, and so is an empty name
of a span before braces. -/
structure DirectiveParts where
  target : Option Stretch
  span : Option Stretch
  field : Option Stretch
  /-- Where the level begins, behind the equals sign. -/
  level : Option Nat
deriving DecidableEq, Repr

namespace DirectiveParts

/-- The parts of a name alone, which is a target or a level as a whole. -/
def nameOnly : DirectiveParts := ⟨none, none, none, none⟩

/-- A directive may begin with a character of a target or with a bracket. -/
def mayBegin (c : Char) : Bool :=
  Text.isAlphanumeric c || c == '-' || c == ':' || c == '_' || c == '['

/-- What follows the brackets: nothing, or a level. -/
def close? (target span field : Option Stretch) (start : Nat) :
    List Char → Option DirectiveParts
  | [] => some ⟨target, span, field, none⟩
  | c :: _ => if c = '=' then some ⟨target, span, field, some (start + 1)⟩ else none

/-- The parts of a directive with brackets, whose inside begins at a place. -/
def ofBrackets? (target : Option Stretch) (start : Nat) (text : List Char) :
    Option DirectiveParts :=
  let name := text.takeWhile fun c => c != ']' && c != '\x7b'
  let span : Stretch := ⟨start, Text.size name⟩
  match text.drop name.length with
  | ']' :: rest => close? target (some span) none span.behind rest
  | '\x7b' :: braced =>
    let content := braced.takeWhile (· != '\x7d')
    let field : Stretch := ⟨span.behind, Text.size content⟩
    match braced.drop content.length with
    | '\x7d' :: ']' :: rest =>
      if content = [] then none
      else close? target (if name = [] then none else some span) (some field)
        (field.behind + 1) rest
    | _ => none
  | _ => none

/-- The parts of a directive without blanks around it. -/
def of? (text : List Char) : Option DirectiveParts :=
  let name := text.takeWhile fun c => c != '=' && c != '['
  let target : Stretch := ⟨0, Text.size name⟩
  if text.head?.any mayBegin then
    match text.drop name.length with
    | [] => some nameOnly
    | c :: rest =>
      if c = '=' then some ⟨some target, none, none, some target.behind⟩
      else ofBrackets? (if name = [] then none else some target) target.behind rest
  else none

end DirectiveParts

/-- The scope that a span and a field in the brackets name. A field may have a value behind an
equals sign; it is then one of a span. -/
def Scope.of? (span field : Option (List Char)) : Option Scope :=
  match field.map (·.splitOn '=') with
  | some (_ :: value :: _) => if isFieldValue value then some .spans else none
  | some [name] => some (if span = none then .field (String.ofList name) else .spans)
  | _ => some (if span = none then .all else .spans)

/-- A directive. It is taken apart without the blanks around it, and its parts are what stands at
their places in the text with these blanks, the level as far as the text goes. Everything is shown
where the level is left out or empty. A name alone is a level or the beginning of a target. -/
def Directive.parse? (text : List Char) : Option Directive := do
  let parts ← DirectiveParts.of? (Text.trim text)
  let bytes := Text.encode (String.ofList text)
  if parts = .nameOnly then
    match rank? (String.ofList text) with
    | some rank => return ⟨none, .all, rank⟩
    | none => return ⟨some (String.ofList text), .all, 5⟩
  let target ← parts.target.mapM (·.cut? bytes)
  let span ← parts.span.mapM (·.cut? bytes)
  let field ← parts.field.mapM (·.cut? bytes)
  let scope ← Scope.of? span field
  let level ← parts.level.mapM fun start => Stretch.cut? bytes ⟨start, bytes.length⟩
  let rank ← match level with
    | none | some [] => some 5
    | some level => rank? (String.ofList level)
  return ⟨target.map String.ofList, scope, rank⟩

/-! ## Deciding -/

/-- The event has a field; its message is one. -/
def hasField (e : Event) (name : String) : Bool :=
  name == "message" || e.fields.any (·.1 == name)

/-- The event is in a scope. -/
def Scope.holds (e : Event) : Scope → Bool
  | .all => true
  | .field name => hasField e name
  | .spans => false

/-- The field that a scope names; none has the empty name. -/
def Scope.fieldName : Scope → String
  | .field name => name
  | .all | .spans => ""

namespace Directive

/-- The directive speaks of an event. -/
def fits (d : Directive) (e : Event) : Bool :=
  d.scope.holds e &&
    match d.target with
    | none => true
    | some beginning => beginning.toList.isPrefixOf e.target.toList

/-- How much of a target the directive names. -/
def weight (d : Directive) : Nat :=
  match d.target with
  | none => 0
  | some beginning => beginning.toList.length + 1

/-- The second directive is as specific as the first: by their targets, and where these are of one
length by their fields, a field before none and a later name before an earlier one. -/
def yieldsTo (d e : Directive) : Bool :=
  d.weight < e.weight || (d.weight == e.weight && d.scope.fieldName ≤ e.scope.fieldName)

end Directive

namespace LogFilter

/-- The filter with one directive for all events. -/
def all (level : Level) : LogFilter := ⟨[⟨none, .all, level.rank⟩]⟩

/-- The filter with a directive in place of an earlier one for the same events. -/
def add (f : LogFilter) (d : Directive) : LogFilter :=
  ⟨f.directives.filter (fun e => e.target != d.target || e.scope != d.scope) ++ [d]⟩

/-- The filter of directives with commas between them. If there is none, it shows nothing. -/
def parse? (text : String) : Option LogFilter :=
  let parts := (text.toList.splitOn ',').filter (· != [])
  (parts.mapM Directive.parse?).map (·.foldl add ⟨[]⟩)

/-- The directive that decides about an event. -/
def decisive? (f : LogFilter) (e : Event) : Option Directive :=
  (f.directives.filter (·.fits e)).foldl (fun best d =>
    match best with
    | none => some d
    | some b => if b.yieldsTo d then some d else some b) none

/-- The filter lets an event through. -/
def shows (f : LogFilter) (e : Event) : Bool :=
  match f.decisive? e with
  | none => false
  | some d => e.level.rank ≤ d.rank

/-- The filter of a run: the text that the environment gives, if it is one of a filter, and else
everything down to debugging or to information. -/
def choose (environment : Option String) (debug : Bool) : LogFilter :=
  (environment.bind parse?).getD (all (if debug then .debug else .info))

end LogFilter

/-! ## Lines -/

/-- The spelling of one character of a message in a line of text. The controls that a terminal
obeys are shown by their numbers; tabs, line ends and all else stand for themselves. -/
def messageChar (c : Char) : List Char :=
  let n := c.toNat
  if n == 0x07 || n == 0x08 || n == 0x0C || n == 0x1B || n == 0x7F then
    let digits := Nat.toDigits 16 n
    '\\' :: 'x' :: (if digits.length < 2 then '0' :: digits else digits)
  else if 0x80 ≤ n && n ≤ 0x9F then ['\\', 'u', '\x7b'] ++ Nat.toDigits 16 n ++ ['\x7d']
  else [c]

/-- The message of an event in a line of text. -/
def messageText (e : Event) : String := String.ofList (e.message.toList.flatMap messageChar)

/-- The line of an event: level, target, message, fields. -/
def plainLine (e : Event) : String :=
  e.level.text ++ " " ++ e.target ++ ": " ++ messageText e ++
    String.join (e.fields.map fun f => " " ++ f.1 ++ "=" ++ f.2.toText)

/-- The value of a field in a line of JSON. -/
def fieldJson : Event.Value → Json
  | .text s => .string s
  | .number n => .count n

/-- The line of an event as a JSON object. -/
def jsonLine (e : Event) : String :=
  Json.compact <| .object [("level", .string e.level.text),
    ("fields", .object (("message", .string e.message) ::
      e.fields.map fun f => (f.1, fieldJson f.2))),
    ("target", .string e.target)]

/-- The lines of a log. -/
def logLines (filter : LogFilter) (json : Bool) (events : List Event) : List String :=
  (events.filter filter.shows).map (if json then jsonLine else plainLine)

end CodeMap.CommandLine
