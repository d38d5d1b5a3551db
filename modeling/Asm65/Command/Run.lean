import Asm65.Command.FileSystem
import Asm65.Command.Options
import Asm65.Listing

namespace Asm65.Command

/-! What a command does: read the source, assemble it, write the image and the listing, and tell
how it went. -/

open Style in
/-- Tells a failure, and shows the line of a source that is refused. -/
def diagnosis (input : Text) (failure : Failure) : List String :=
  let heading := paint [red, bold] "error" ++ s!": {failure.message}"
  match failure with
  | .storage _ => [heading]
  | .source error =>
      let number := String.ofList (Text.padLeft 4 (toString error.line).toList)
      let place := s!"{String.ofList input}:{error.line}"
      [heading,
        "     " ++ paint [blue] "-->" ++ " " ++ paint [underline] place,
        "      " ++ paint [blue] "|",
        " " ++ paint [blue] s!"{number} |" ++ " " ++ String.ofList error.text,
        "      " ++ paint [blue] "|"]

namespace Options

/-- The lines of the log that the chosen level shows. -/
def logLines (options : Options) (events : List Event) : List String :=
  (events.filter (·.level.shownAt options.logLevel)).map fun event =>
    String.ofList event.terminalLine

open Style in
/-- The line that tells a success. -/
def successLine (options : Options) (assembly : Assembly) : String :=
  let origin := String.ofList (dollarWord assembly.origin)
  let output := String.ofList options.output
  paint [green, bold] "assembled" ++ s!" {assembly.bytes.length} bytes at {origin} -> {output}"

end Options

/-- Lines as one text, each with its end. -/
def joinLines (lines : List String) : String :=
  String.join (lines.map (· ++ "\n"))

section

variable {m : Type → Type} [Monad m] [Host m]

open Host

/-- Tells the log, as far as the chosen level shows it. -/
def tell (options : Options) (events : List Event) : m Unit :=
  report (joinLines (options.logLines events))

def fail (options : Options) (failure : Failure) : m UInt8 := do
  report (joinLines (diagnosis options.input failure))
  return 1

def succeed (options : Options) (assembly : Assembly) : m UInt8 := do
  print (joinLines [options.successLine assembly])
  return 0

def readSource (input : Text) : m (Except StorageError Text) := do
  let bytes ← if input = ['-'] then readInput else readFile input
  return bytes.bind Text.ofBytes

/-- Writes the image, and then the listing if one is wanted. -/
def store (options : Options) (assembly : Assembly) : m UInt8 := do
  match ← writeFile options.output assembly.bytes with
  | .error error => fail options (.storage error)
  | .ok () =>
      match options.listing with
      | none => succeed options assembly
      | some path =>
          match ← writeFile path (Text.toBytes assembly.listing) with
          | .error error => fail options (.storage error)
          | .ok () =>
              tell options [.listingWritten path]
              succeed options assembly

/-- Does the job: nothing is written before the whole source has been assembled. -/
def execute (options : Options) : m UInt8 := do
  match ← readSource options.input with
  | .error error => fail options (.storage error)
  | .ok source =>
      let run := assemble options.config source
      tell options run.events
      match run.outcome with
      | .error error => fail options (.source error)
      | .ok assembly => store options assembly

def versionText : String := "asm6502-lite-cli 1.0.0\n"

def helpText : String :=
  "Usage: asm6502 [OPTIONS] <INPUT>\n\n" ++
  "  -o, --output <OUTPUT>        Output file for the raw image\n" ++
  "      --origin <ORIGIN>        Address assembly starts at, until the source sets `* =`\n" ++
  "  -t, --trace                  Print every emitted instruction\n" ++
  "  -l, --listing <LISTING>      Write a listing file\n" ++
  "      --log-level <LOG_LEVEL>  One of `TRACE`, `DEBUG`, `INFO`, `WARN`, or `ERROR`\n" ++
  "  -h, --help                   Print help\n" ++
  "  -V, --version                Print version\n"

/-- Runs the command, and gives the code it exits with. -/
def run (arguments : List Text) : m UInt8 := do
  match Options.parse arguments with
  | .ok options => execute options
  | .error .version =>
      print versionText
      return 0
  | .error .help =>
      print helpText
      return 0
  | .error (.usage error) =>
      report error.report
      return 2

end

/-- Runs the command on a system, and tells what it exits with and what the system is then. -/
def runIn (system : FileSystem) (arguments : List Text) : UInt8 × FileSystem :=
  (run arguments : StateM FileSystem UInt8).run system

end Asm65.Command
