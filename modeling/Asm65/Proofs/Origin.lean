import Asm65.Proofs.Composition
import Asm65.Proofs.Numerals

namespace Asm65

open Outcome

/-- An origin directive, with its number as it is written. -/
def directive (value : Text) : Text :=
  "* = ".toList ++ value

def SourceError.renumber (more : Nat) (error : SourceError) : SourceError :=
  { error with line := error.line + more }

/-- The same program, one line further down in its source. A program without entries has the origin of its
settings, which may be another. -/
structure Assembly.OneLineDown (assembly other : Assembly) : Prop where
  bytes : other.bytes = assembly.bytes
  labels : other.labels = assembly.labels
  entries : other.entries = assembly.entries.map (Entry.renumber 1)
  origin : assembly.entries ≠ [] → other.origin = assembly.origin

namespace Pass

variable {pass : Pass} {trace : Bool} {progress next : Progress} {line : Line} {lines : List Line}
  {more : Nat}

theorem Advances.renumbered {number : Nat} {statement : Option Statement} {entry : Option Entry}
    (advances : pass.Advances number progress statement entry next) (more : Nat) :
    pass.Advances (number + more) progress statement (entry.map (Entry.renumber more)) next := by
  cases advances with
  | blank => exact .blank
  | origin read => exact .origin read
  | label placed binds => exact .label placed binds
  | instruction placed binds encoded room => exact .instruction placed binds encoded room

/-- The number of a line shows in its entry and in nothing else that the line does. -/
theorem step_renumber_alike :
    Alike Eq
      (fun taken also => taken.2 = also.2 ∧
        List.Forall₂ (fun entry other => other = Entry.renumber more entry) taken.1.toList also.1.toList)
      (pass.step trace progress line).outcome (pass.step trace progress (line.renumber more)).outcome := by
  cases stepped : (pass.step trace progress line).outcome with
  | error fault =>
      have refused : (pass.step trace progress (line.renumber more)).outcome = .error fault := by
        rw [step_eq_error_iff] at stepped ⊢
        exact stepped
      rw [refused]
      exact .error rfl
  | ok taken =>
      obtain ⟨statement, read, advances⟩ := step_eq_ok_iff.mp stepped
      have takenToo : (pass.step trace progress (line.renumber more)).outcome =
          .ok (taken.1.map (Entry.renumber more), taken.2) := by
        rw [step_eq_ok_iff]
        exact ⟨statement, read, advances.renumbered more⟩
      rw [takenToo]
      refine .ok ⟨rfl, ?_⟩
      cases taken.1 with
      | none => exact .nil
      | some entry => exact .cons rfl .nil

theorem run_renumber_alike :
    Alike (fun error other => other = SourceError.renumber more error)
      (fun done also => also = (done.1.map (Entry.renumber more), done.2))
      (pass.run trace lines progress).outcome
      (pass.run trace (lines.map (Line.renumber more)) progress).outcome := by
  have read : List.Forall₂ (fun line other => Line.renumber more line = other) lines
      (lines.map (Line.renumber more)) :=
    List.forall₂_map_right_iff.mpr (List.forall₂_same.mpr fun _ _ => rfl)
  refine (@run_alike pass pass trace progress progress lines _ Eq _
    (fun entry other => other = Entry.renumber more entry) (fun _ _ => Eq) read rfl ?_).imp ?_ ?_
  · rintro line _ now _ rfl rfl
    exact step_renumber_alike
  · rintro _ _ ⟨line, _, fault, _, rfl, rfl, rfl, rfl⟩
    rfl
  · rintro ⟨entries, last⟩ ⟨made, _⟩ ⟨rfl, makes⟩
    have renumbered : made = entries.map (Entry.renumber more) := by
      rw [← List.forall₂_eq_eq_eq, List.forall₂_map_right_iff]
      exact makes.flip
    rw [renumbered]

/-- A line that makes no entry only moves the rest of the run. -/
theorem run_cons_of_silent (stepped : (pass.step trace progress line).outcome = .ok (none, next)) :
    (pass.run trace (line :: lines) progress).outcome = (pass.run trace lines next).outcome := by
  cases finished : (pass.run trace lines next).outcome with
  | ok done => exact run_cons_eq_ok_iff.mpr ⟨none, next, done.1, stepped, finished, rfl⟩
  | error error => exact run_cons_eq_error_iff.mpr (.inr ⟨none, next, stepped, finished⟩)

end Pass

namespace Literal

variable {text : Text} {number : Nat}

theorem numeral (literal : Literal text number) : text.IsDollarNumeral ∨ text.IsRun isHexDigit := by
  cases literal with
  | hexadecimal run => exact .inl ⟨_, rfl, run⟩
  | decimal run => exact .inr (run.imp fun c => isHexDigit_of_isDecimalDigit)

theorem newline_not_mem_directive (literal : Literal text number) : '\n' ∉ directive text := by
  have single : '\n' ∉ text := by
    rcases literal.numeral with ⟨digits, rfl, run⟩ | run
    · have digits := run.not_mem (by decide : isHexDigit '\n' = false)
      simpa using digits
    · exact run.not_mem (by decide)
  simpa [directive] using single

theorem ofSource_directive (literal : Literal text number) (source : Text) :
    Line.ofSource (directive text ++ '\n' :: source) =
      { number := 1, text := directive text } :: (Line.ofSource source).map (Line.renumber 1) := by
  rw [Line.ofSource_eq_numbered, Line.ofSource_eq_numbered,
    Text.lines_append literal.newline_not_mem_directive, ← Line.numbered_add]
  rfl

/-- After the directive a pass stands where it would start with that origin. -/
theorem walk_directive_alike (literal : Literal text number) {address : UInt16}
    (value : address.toNat = number) (pass : Pass) (config : Config) (source : Text) :
    Alike (fun error other => other = SourceError.renumber 1 error)
      (fun done also => also = (done.1.map (Entry.renumber 1), done.2))
      (pass.walk { config with origin := address } source).outcome
      (pass.walk config (directive text ++ '\n' :: source)).outcome := by
  have bound := address.toNat_lt
  have valued : valueOf text .word (.complete .empty) 0 = .ok address :=
    literal.valueOf_eq_ok_iff.mpr ⟨value, by simp only [Width.limit]; omega⟩
  have directed := @Pass.step_directive pass (.start config) config.trace
    { number := 1, text := directive text } text address literal.numeral valued rfl
  rw [Pass.walk, Pass.walk, literal.ofSource_directive, Pass.run_cons_of_silent directed]
  exact Pass.run_renumber_alike

theorem assemble_directive_alike (literal : Literal text number) {address : UInt16}
    (value : address.toNat = number) (config : Config) (source : Text) :
    Alike (fun error other => other = SourceError.renumber 1 error) Assembly.OneLineDown
      (assemble { config with origin := address } source).outcome
      (assemble config (directive text ++ '\n' :: source)).outcome := by
  rw [assemble_eq_assembleLines, assemble_eq_assembleLines]
  refine (literal.walk_directive_alike value .survey config source).bind ?_
  rintro ⟨_, found⟩ _ rfl
  refine (literal.walk_directive_alike value (.final found.labels) config source).bind ?_
  rintro ⟨entries, last⟩ _ rfl
  refine .ok ⟨?_, rfl, rfl, fun filled => ?_⟩
  · simp [Assembly.ofEntries, List.flatMap_map, Entry.renumber]
  · obtain ⟨first, rest, rfl⟩ := List.exists_cons_of_ne_nil filled
    rfl

end Literal

/-- An argument and a directive say the same. A text that is read as a number is an address just if its
number is one, in an argument as in a source. A program that starts at the address is the program that
follows a directive with the text, whatever the settings say: it has the same bytes, labels and entries,
one line further down, or fails one line further down in the same way. -/
theorem argument_agrees_with_directive {text : Text} {value : Nat} (read : literalValue? text = some value) :
    ∃ number, Literal text number ∧
      (∀ address, Command.readAddress text = .ok address ↔ address.toNat = number) ∧
      (∀ address view here, valueOf text .word view here = .ok address ↔ address.toNat = number) ∧
      ∀ address, Command.readAddress text = .ok address → ∀ (config : Config) (source : Text),
        Alike (fun error other => other = { error with line := error.line + 1 }) Assembly.OneLineDown
          (assemble { config with origin := address } source).outcome
          (assemble config (directive text ++ '\n' :: source)).outcome := by
  obtain ⟨number, literal, _⟩ := literalValue?_eq_some_iff.mp read
  refine ⟨number, literal, fun address => Command.readAddress_eq_ok_iff literal, fun address view here => ?_,
    fun address named config source => ?_⟩
  · have bound := address.toNat_lt
    rw [literal.valueOf_eq_ok_iff]
    simp only [Width.limit]
    omega
  · exact literal.assemble_directive_alike ((Command.readAddress_eq_ok_iff literal).mp named) config source

theorem argument_agrees_with_directive_countingDown :
    literalValue? "000512".toList = some 512 ∧ Command.readAddress "000512".toList = .ok 0x0200 ∧
    (assemble { origin := 0x0200, trace := false } countingDown).outcome = .ok countingDownAssembly ∧
    ∃ other, (assemble .default ("* = 000512\n".toList ++ countingDown)).outcome = .ok other ∧
      countingDownAssembly.OneLineDown other := by
  have read : literalValue? "000512".toList = some 512 := by decide
  have named : Command.readAddress "000512".toList = .ok 0x0200 := by decide
  obtain ⟨_, _, _, _, agrees⟩ := argument_agrees_with_directive read
  exact ⟨read, named, assemble_countingDown,
    (agrees 0x0200 named .default countingDown).of_ok assemble_countingDown⟩

end Asm65
