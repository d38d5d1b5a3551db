import Asm65.Assembly
import Asm65.Command.Address
import Asm65.Command.ControlSequence
import Asm65.Command.Style

namespace Asm65.Command

/-! Reading the arguments of a command. They are read from left to right; a parameter with a
separate value is looked at when the next one begins, so a fault in it is noticed only then. -/

/-- What an argument can set. -/
inductive Parameter where
  | input
  | output
  | origin
  | trace
  | listing
  | logLevel
  | help
  | version
deriving DecidableEq, Repr

namespace Parameter

/-- The parameter as messages show it. -/
def display : Parameter → String
  | input => "<INPUT>"
  | output => "--output <OUTPUT>"
  | origin => "--origin <ORIGIN>"
  | trace => "--trace"
  | listing => "--listing <LISTING>"
  | logLevel => "--log-level <LOG_LEVEL>"
  | help => "--help"
  | version => "--version"

def takesValue : Parameter → Bool
  | trace | help | version => false
  | _ => true

/-- The parameter of a single letter after one dash. -/
def ofLetter? : Char → Option Parameter
  | 'o' => some output
  | 't' => some trace
  | 'l' => some listing
  | 'h' => some help
  | 'V' => some version
  | _ => none

/-- The words that follow two dashes. -/
def words : List (Text × Parameter) :=
  [("output".toList, output), ("origin".toList, origin), ("trace".toList, trace),
    ("listing".toList, listing), ("log-level".toList, logLevel), ("help".toList, help),
    ("version".toList, version)]

def ofWord? (word : Text) : Option Parameter :=
  words.lookup word

end Parameter

/-- Why the arguments are refused. -/
inductive UsageError where
  | missingInput
  | unexpectedArgument (argument : Text)
  | missingValue (parameter : Parameter)
  | repeated (parameter : Parameter)
  | unneededValue (parameter : Parameter) (value : Text)
  | invalidAddress (value : Text) (reason : AddressError)
  | invalidLevel (value : Text)
deriving DecidableEq, Repr

namespace UsageError

/-- The part of a message that repeats what was given. -/
def marked (text : Text) : String :=
  Style.paint [.yellow] (String.ofList text)

/-- The part of a message that names a parameter. -/
def named (parameter : Parameter) : String :=
  Style.paint [.bold] parameter.display

def message : UsageError → String
  | missingInput =>
      s!"the following required arguments were not provided:\n  {named .input}"
  | unexpectedArgument argument => s!"unexpected argument '{marked argument}' found"
  | missingValue parameter => s!"a value is required for '{named parameter}' but none was supplied"
  | repeated parameter => s!"the argument '{named parameter}' cannot be used multiple times"
  | unneededValue parameter value =>
      s!"unexpected value '{marked value}' for '{named parameter}' found; no more were expected"
  | invalidAddress value reason =>
      s!"invalid value '{marked value}' for '{named .origin}': " ++
        s!"invalid address `{String.ofList value}`: {reason.message}"
  | invalidLevel value =>
      s!"invalid value '{marked value}' for '{named .logLevel}': " ++
        "error parsing level: expected one of \"error\", \"warn\", \"info\", \"debug\", " ++
        "\"trace\", or a number 1-5"

/-- What the command prints about the arguments. It is plain text, whatever codes the arguments
hold; a code that an argument leaves unfinished takes in what follows it up to the next style. -/
def report (error : UsageError) : String :=
  plainText (Style.paint [.red, .bold] "error:" ++ s!" {error.message}\n\n" ++
    s!"For more information, try '{named .help}'.\n")

end UsageError

/-- Why reading the arguments ends without a job to do. -/
inductive Halt where
  | usage (error : UsageError)
  | help
  | version
deriving DecidableEq, Repr

/-- A level by its rank or by its name in letters of either case. -/
def readLevel? (text : Text) : Option Level :=
  let digits := match text with
    | '+' :: digits => digits
    | digits => digits
  if digits ≠ [] ∧ digits.all isDecimalDigit then
    Level.all.find? (·.rank == positional 10 digits)
  else Level.all.find? (·.name == text.map Char.toUpper)

/-- What the arguments have set so far. -/
structure Given where
  input : Option Text
  output : Option Text
  origin : Option UInt16
  trace : Option Unit
  listing : Option Text
  logLevel : Option Level

namespace Given

def nothing : Given :=
  { input := none, output := none, origin := none, trace := none, listing := none,
    logLevel := none }

def readPath (parameter : Parameter) (value : Text) : Except UsageError Text :=
  if value = [] then .error (.missingValue parameter) else .ok value

def readOrigin (value : Text) : Except UsageError UInt16 :=
  (readAddress value).mapError (.invalidAddress value)

def readLogLevel (value : Text) : Except UsageError Level :=
  match readLevel? value with
  | some level => .ok level
  | none => .error (.invalidLevel value)

/-- Takes a value for a parameter. A missing value is noticed before a second one, and a second
one before a value that cannot be read. -/
def take {α : Type} (parameter : Parameter) (held : Option α) (value : Option Text)
    (read : Text → Except UsageError α) : Except Halt (Option α) :=
  match value, held with
  | none, _ => .error (.usage (.missingValue parameter))
  | some _, some _ => .error (.usage (.repeated parameter))
  | some text, none => ((read text).map some).mapError .usage

/-- Sets a parameter, with the value that came with it. -/
def set (given : Given) (parameter : Parameter) (value : Option Text) : Except Halt Given :=
  match parameter with
  | .input => do
      return { given with input := ← take .input given.input value (readPath .input) }
  | .output => do
      return { given with output := ← take .output given.output value (readPath .output) }
  | .origin => do
      return { given with origin := ← take .origin given.origin value readOrigin }
  | .listing => do
      return { given with listing := ← take .listing given.listing value (readPath .listing) }
  | .logLevel => do
      return { given with logLevel := ← take .logLevel given.logLevel value readLogLevel }
  | .trace =>
      match given.trace with
      | some () => .error (.usage (.repeated .trace))
      | none => .ok { given with trace := some () }
  | .help => .error .help
  | .version => .error .version

end Given

/-- A parameter that was named, and the value it came with, before they are looked at. -/
structure Pending where
  parameter : Parameter
  value : Option Text

/-- The state of reading arguments from left to right. -/
structure Scan where
  given : Given
  pending : Option Pending

namespace Scan

def start : Scan := { given := .nothing, pending := none }

/-- Looks at the pending parameter. -/
def settle (scan : Scan) : Except Halt Given :=
  match scan.pending with
  | some pending => scan.given.set pending.parameter pending.value
  | none => .ok scan.given

/-- A parameter that is complete as it stands. -/
def complete (scan : Scan) (parameter : Parameter) (value : Option Text) : Except Halt Scan := do
  let given ← scan.settle
  return { given := ← given.set parameter value, pending := none }

/-- A parameter whose value may still come. -/
def await (scan : Scan) (parameter : Parameter) (value : Option Text) : Except Halt Scan := do
  return { given := ← scan.settle, pending := some { parameter, value } }

def hasInput (scan : Scan) : Bool :=
  scan.given.input.isSome || scan.pending.any (·.parameter == .input)

/-- An argument that names no parameter: the input, once. -/
def positional (scan : Scan) (argument : Text) : Except Halt Scan :=
  if scan.hasInput then .error (.usage (.unexpectedArgument argument))
  else scan.await .input (some argument)

/-- Letters after one dash. A letter that takes a value takes the rest as its value, without an
equals sign in front, or waits for the next argument if nothing is left. -/
def letters (scan : Scan) : Text → Except Halt Scan
  | [] => .ok scan
  | c :: rest =>
      match Parameter.ofLetter? c with
      | none => .error (.usage (.unexpectedArgument ['-', c]))
      | some parameter =>
          if parameter.takesValue then
            match rest with
            | [] => scan.await parameter none
            | '=' :: value => scan.complete parameter (some value)
            | value => scan.complete parameter (some value)
          else do
            letters (← scan.complete parameter none) rest

/-- A word after two dashes, with a value behind an equals sign if there is one. -/
def word (scan : Scan) (body : Text) : Except Halt Scan :=
  let name := body.takeWhile (· != '=')
  match Parameter.ofWord? name, (body.dropWhile (· != '=')).tail? with
  | none, _ => .error (.usage (.unexpectedArgument ('-' :: '-' :: name)))
  | some parameter, some value =>
      if parameter.takesValue then scan.complete parameter (some value)
      else .error (.usage (.unneededValue parameter value))
  | some parameter, none =>
      if parameter.takesValue then scan.await parameter none else scan.complete parameter none

/-- An argument that is neither a word nor letters is the value of the parameter that waits for
one, or stands by itself. -/
def plain (scan : Scan) (argument : Text) : Except Halt Scan :=
  match scan.pending with
  | some { parameter, value := none } =>
      .ok { scan with pending := some { parameter, value := some argument } }
  | _ => scan.positional argument

def argument (scan : Scan) : Text → Except Halt Scan
  | '-' :: '-' :: body => scan.word body
  | '-' :: c :: rest => scan.letters (c :: rest)
  | argument => scan.plain argument

/-- Reads all arguments. After two dashes alone, no argument names a parameter. -/
def arguments (scan : Scan) : List Text → Except Halt Scan
  | [] => .ok scan
  | ['-', '-'] :: rest => rest.foldlM positional scan
  | argument :: rest => do arguments (← scan.argument argument) rest

end Scan

/-- The job that the arguments describe. -/
structure Options where
  /-- Where the source comes from; a single dash stands for standard input. -/
  input : Text
  output : Text
  config : Config
  listing : Option Text
  logLevel : Level

def defaultOutput : Text := "a.out.bin".toList

def Options.ofGiven (given : Given) : Except Halt Options :=
  match given.input with
  | none => .error (.usage .missingInput)
  | some input => .ok {
      input
      output := given.output.getD defaultOutput
      config := { origin := given.origin.getD defaultOrigin, trace := given.trace.isSome }
      listing := given.listing
      logLevel := given.logLevel.getD .info }

def Options.parse (arguments : List Text) : Except Halt Options := do
  let scan ← Scan.start.arguments arguments
  Options.ofGiven (← scan.settle)

end Asm65.Command
