import Asm65.Encoding
import Asm65.Logged

namespace Asm65

/-! One walk over the lines of a source. Both passes of an assembly are runs of the same walk;
they differ in the labels that operands may name and in the check of the labels they bind. -/

/-- A line of source with its number, counted from one. -/
structure Line where
  number : Nat
  text : Text
deriving DecidableEq, Repr

def Line.ofSource (source : Text) : List Line :=
  (Text.lines source).zipIdx 1 |>.map fun (text, number) => { number, text }

/-- A fault found on this line. -/
def Line.refuse (line : Line) (fault : Fault) : SourceError :=
  { line := line.number, text := Text.trim line.text, fault }

/-- An instruction in its place. -/
structure Entry where
  line : Nat
  address : UInt16
  label : Option Text
  text : Text
  bytes : List UInt8
deriving DecidableEq, Repr

/-- How far a pass has come. -/
structure Progress where
  /-- The next free address; one past the top of memory when the last byte is taken. -/
  pc : Nat
  labels : LabelTable

/-- The first pass finds the labels, guessing the size of what refers to later ones. The final
pass knows them all and checks that they stay where they were found. -/
inductive Pass where
  | survey
  | final (known : LabelTable)

namespace Pass

def isFinal : Pass → Bool
  | survey => false
  | final _ => true

/-- What an operand may name, when the pass itself has seen `seen`. -/
def view (pass : Pass) (seen : LabelTable) : LabelView :=
  match pass with
  | survey => .growing seen
  | final known => .complete known

/-- A label of the final pass is where the survey found it. -/
def confirm (pass : Pass) (name : Text) (here : UInt16) : Except Fault Unit :=
  match pass with
  | survey => .ok ()
  | final known =>
      match known.get? name with
      | some found => if found = here then .ok () else .error (.labelMoved name found here)
      | none => .ok ()

/-- Binds a label at `here`. -/
def bindLabel (pass : Pass) (labels : LabelTable) (name : Text) (here : UInt16) :
    Logged Fault LabelTable := do
  let labels ← .ofExcept (labels.insert name here)
  .ofExcept (pass.confirm name here)
  .tell (.labelBound name here)
  return labels

def bindLabel? (pass : Pass) (labels : LabelTable) (name : Option Text) (here : UInt16) :
    Logged Fault LabelTable :=
  match name with
  | some name => pass.bindLabel labels name here
  | none => pure labels

/-- Tells where an instruction of the final pass went, when tracing is on. -/
def report (pass : Pass) (trace : Bool) (here : UInt16) (text : Text) (bytes : List UInt8) :
    Logged Fault Unit :=
  if pass.isFinal && trace then .tell (.placed here text bytes) else pure ()

/-- Puts an instruction at the next free address. All its bytes have to lie in memory. -/
def place (pass : Pass) (trace : Bool) (progress : Progress) (number : Nat) (label : Option Text)
    (instruction : Instruction) : Logged Fault (Entry × Progress) := do
  let here ← .ofExcept (Width.word.fit progress.pc)
  let labels ← pass.bindLabel? progress.labels label here
  let bytes ← .ofExcept (instruction.encode (pass.view labels) here)
  .tell (.encoded here instruction.text bytes)
  let next := progress.pc + bytes.length
  let _ ← .ofExcept (Width.word.fit (next - 1))
  pass.report trace here instruction.text bytes
  return ({ line := number, address := here, label, text := instruction.text, bytes },
    { pc := next, labels })

/-- What a statement does. -/
def perform (pass : Pass) (trace : Bool) (progress : Progress) (number : Nat) :
    Statement → Logged Fault (Option Entry × Progress)
  | .origin value => do
      let origin ← .ofExcept (valueOf value .word (.complete .empty) 0)
      .tell (.originSet origin)
      return (none, { progress with pc := origin.toNat })
  | .label name => do
      let here ← .ofExcept (Width.word.fit progress.pc)
      let labels ← pass.bindLabel progress.labels name here
      return (none, { progress with labels })
  | .instruction label body => do
      let (entry, progress) ← pass.place trace progress number label body
      return (some entry, progress)

/-- Reads a line and does what it says. -/
def step (pass : Pass) (trace : Bool) (progress : Progress) (line : Line) :
    Logged Fault (Option Entry × Progress) := do
  match ← .ofExcept (Statement.parse line.text) with
  | none => return (none, progress)
  | some statement => pass.perform trace progress line.number statement

/-- Walks over the lines. The first fault ends the walk. -/
def run (pass : Pass) (trace : Bool) :
    List Line → Progress → Logged SourceError (List Entry × Progress)
  | [], progress => pure ([], progress)
  | line :: rest, progress => do
      let (entry, progress) ← (pass.step trace progress line).mapError line.refuse
      (fun (entries, progress) => (entry.toList ++ entries, progress)) <$>
        pass.run trace rest progress

end Pass

end Asm65
