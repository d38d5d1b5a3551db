import Mathlib.Logic.Equiv.Basic
import Asm65.Proofs.Lines
import Asm65.Proofs.Literal
import Asm65.Proofs.Rewording

namespace Asm65

/-! Other names for the labels of a program. A name is only ever compared with names, so an assembly
depends on which names are equal and on nothing else about them. -/

open Outcome

/-- A word of the source. It names a label, unless it is a number. -/
@[ext]
structure Word where
  text : Text
  run : text.IsRun isNameChar
deriving DecidableEq

def Word.IsNumber (word : Word) : Prop :=
  word.text.IsRun isDecimalDigit

instance (word : Word) : Decidable word.IsNumber :=
  inferInstanceAs (Decidable (word.text.IsRun isDecimalDigit))

/-- Another word for each word. Numbers stay, and no other word becomes one. -/
structure Renaming where
  word : Word → Word
  injective : Function.Injective word
  number : ∀ name, name.IsNumber → word name = name
  ofNumber : ∀ name, (word name).IsNumber → name.IsNumber

def Operand.map (f : Text → Text) : Operand → Operand
  | implied => implied
  | accumulator => accumulator
  | immediate text => immediate (f text)
  | absolute text => absolute (f text)
  | indexed text index => indexed (f text) index
  | indirect text => indirect (f text)
  | indexedIndirect text => indexedIndirect (f text)
  | indirectIndexed text => indirectIndexed (f text)

def Fault.rename (f : Text → Text) : Fault → Fault
  | unresolvedOperand text => unresolvedOperand (f text)
  | duplicateLabel name => duplicateLabel (f name)
  | labelMoved name first second => labelMoved (f name) first second
  | fault => fault

namespace Renaming

variable {names : Renaming} {text other : Text}

/-- What becomes of an operand's text: a word changes, a dollar numeral is none. -/
def apply (names : Renaming) (text : Text) : Text :=
  if run : text.IsRun isNameChar then (names.word ⟨text, run⟩).text else text

theorem apply_of_run (run : text.IsRun isNameChar) : names.apply text = (names.word ⟨text, run⟩).text :=
  dif_pos run

theorem apply_of_not_run (other : ¬ text.IsRun isNameChar) : names.apply text = text :=
  dif_neg other

theorem apply_isRun_iff : (names.apply text).IsRun isNameChar ↔ text.IsRun isNameChar := by
  by_cases run : text.IsRun isNameChar
  · rw [apply_of_run run]
    exact ⟨fun _ => run, fun _ => (names.word ⟨text, run⟩).run⟩
  · rw [apply_of_not_run run]

theorem apply_injective (names : Renaming) : Function.Injective names.apply := by
  intro first second same
  by_cases run : first.IsRun isNameChar
  · have runToo : second.IsRun isNameChar := by
      rw [← @apply_isRun_iff names, ← same, apply_isRun_iff]
      exact run
    rw [apply_of_run run, apply_of_run runToo] at same
    exact congrArg Word.text (names.injective (Word.ext same))
  · have otherToo : ¬ second.IsRun isNameChar := by
      rw [← @apply_isRun_iff names, ← same, apply_isRun_iff]
      exact run
    rwa [apply_of_not_run run, apply_of_not_run otherToo] at same

theorem literalValue?_of_name (run : text.IsRun isNameChar) (name : ¬ text.IsRun isDecimalDigit) :
    literalValue? text = none := by
  refine Option.eq_none_iff_forall_ne_some.mpr fun value read => ?_
  obtain ⟨_, literal, _⟩ := literalValue?_eq_some_iff.mp read
  cases literal with
  | hexadecimal => exact absurd (run.2 '$' (by simp)) (by decide)
  | decimal digits => exact name digits

/-- A renamed operand is the same number as before, or the new name of its label. -/
theorem sameValue_apply (names : Renaming) (text : Text) :
    Rewording.SameValue names.apply text (names.apply text) := by
  refine ⟨?_, fun _ => rfl⟩
  by_cases run : text.IsRun isNameChar
  · by_cases digits : text.IsRun isDecimalDigit
    · rw [apply_of_run run, names.number ⟨text, run⟩ digits]
    · have name : ¬ (names.apply text).IsRun isDecimalDigit := by
        rw [apply_of_run run]
        exact mt (names.ofNumber ⟨text, run⟩) digits
      rw [literalValue?_of_name run digits, literalValue?_of_name (apply_isRun_iff.mpr run) name]
  · rw [apply_of_not_run run]

def rewording (names : Renaming) : Rewording where
  rename := names.apply
  injective := names.apply_injective
  Spells := Eq
  names_eq := by
    rintro mnemonic _ rfl
    rfl

/-- The statement with other names, on a line written in any way. -/
inductive Renames (names : Renaming) : Statement → Statement → Prop where
  | origin (value : Text) : Renames names (.origin value) (.origin value)
  | label (name : Text) : Renames names (.label name) (.label (names.apply name))
  | instruction (label : Option Text) (mnemonic : Text) (operand : Operand) (text other : Text) :
      Renames names (.instruction label { mnemonic, operand, text })
        (.instruction (label.map names.apply) { mnemonic, operand := operand.map names.apply, text := other })

/-- Two lines that can be read, the second with other names. -/
def RenamesLine (names : Renaming) (line other : Text) : Prop :=
  ∃ statement again, Statement.parse line = .ok statement ∧ Statement.parse other = .ok again ∧
    Option.Rel names.Renames statement again

theorem sameOperand_map (operand : Operand) :
    (operand.map names.apply).mode = operand.mode ∧
      Option.Rel (Rewording.SameValue names.apply) operand.text? (operand.map names.apply).text? := by
  cases operand with
  | implied | accumulator => exact ⟨rfl, .none⟩
  | indexed text index => cases index <;> exact ⟨rfl, .some (names.sameValue_apply text)⟩
  | immediate text | absolute text | indirect text | indexedIndirect text | indirectIndexed text =>
      exact ⟨rfl, .some (names.sameValue_apply text)⟩

theorem Renames.rewords {statement again : Statement} (renames : names.Renames statement again) :
    names.rewording.Says statement again := by
  cases renames with
  | origin value => exact .origin ⟨rfl, fun _ => rfl⟩
  | label name => exact .label name
  | instruction label mnemonic operand text other =>
      obtain ⟨mode, value⟩ := @sameOperand_map names operand
      exact .instruction label ⟨rfl, mode, value⟩

theorem RenamesLine.rewords {line again : Line} (renames : names.RenamesLine line.text again.text) :
    names.rewording.Reads line again := by
  obtain ⟨_, _, first, second, same⟩ := renames
  cases same with
  | none => exact .blank first second
  | some same => exact .stated first second same.rewords

theorem fault_eq_of_sameFault {fault cause : Fault} (same : names.rewording.SameFault fault cause) :
    cause = fault.rename names.apply := by
  cases same with
  | unknownMnemonic spells =>
      cases spells
      rfl
  | unsupportedMode | unresolvedOperand | valueOutOfRange | duplicateLabel | branchOutOfRange
  | labelMoved => rfl

structure RenamesAssembly (names : Renaming) (assembly other : Assembly) : Prop where
  origin : other.origin = assembly.origin
  bytes : other.bytes = assembly.bytes
  labels : other.labels.entries = assembly.labels.entries.map (Prod.map names.apply id)
  entries : List.Forall₂
    (fun entry again => again.line = entry.line ∧ again.address = entry.address ∧
      again.label = entry.label.map names.apply ∧ again.bytes = entry.bytes)
    assembly.entries other.entries

/-- The error of a renamed program. The names in it are the new ones, except in an origin directive, which
names no label. -/
structure RenamesError (names : Renaming) (source : Text) (error other : SourceError) : Prop where
  line : other.line = error.line
  fault : ∃ line ∈ Line.ofSource source, line.number = error.line ∧
    other.fault = if line.isOrigin then error.fault else error.fault.rename names.apply

end Renaming

theorem Line.forall₂_numbered {R : Text → Text → Prop} {texts others : List Text}
    (related : List.Forall₂ R texts others) (number : Nat) :
    List.Forall₂ (fun line other => other.number = line.number ∧ R line.text other.text)
      (numbered number texts) (numbered number others) := by
  induction related generalizing number with
  | nil => exact .nil
  | cons first _ ih => exact .cons ⟨rfl, first⟩ (ih (number + 1))

namespace Renaming

/-- Label names are only names. A program whose labels have other names, however its lines are written,
assembles to the same bytes at the same places, or fails for the same reason at the same line. -/
theorem assembly_renamed (names : Renaming) {source other : Text}
    (renamed : List.Forall₂ names.RenamesLine (Text.lines source) (Text.lines other)) (config : Config) :
    (∃ assembly again, (assemble config source).outcome = .ok assembly ∧
      (assemble config other).outcome = .ok again ∧ names.RenamesAssembly assembly again) ∨
    (∃ error again, (assemble config source).outcome = .error error ∧
      (assemble config other).outcome = .error again ∧ names.RenamesError source error again) := by
  have lines := Line.forall₂_numbered renamed 1
  rw [← Line.ofSource_eq_numbered, ← Line.ofSource_eq_numbered] at lines
  obtain ⟨_, each⟩ := List.forall₂_iff_zip.mp lines
  have read : List.Forall₂ names.rewording.Reads (Line.ofSource source) (Line.ofSource other) :=
    lines.imp fun _ _ related => related.2.rewords
  have alike := @Rewording.assembleLines_alike names.rewording _ _ config read
  rw [← assemble_eq_assembleLines, ← assemble_eq_assembleLines] at alike
  cases assembled : (assemble config source).outcome with
  | ok assembly =>
      obtain ⟨again, assembledToo, same⟩ := alike.of_ok assembled
      refine .inl ⟨assembly, again, rfl, assembledToo, same.origin, same.bytes, ?_, ?_⟩
      · rw [same.labels]
        rfl
      · refine same.entries.imp ?_
        rintro entry made ⟨pair, member, sameEntry⟩
        obtain ⟨number, numberToo⟩ := sameEntry.number
        exact ⟨by rw [number, numberToo, (each member).1], sameEntry.address, sameEntry.label,
          sameEntry.bytes⟩
  | error error =>
      obtain ⟨again, assembledToo, pair, member, fault, cause, faults, rfl, rfl⟩ := alike.of_error assembled
      obtain ⟨number, _, _, first, _, _⟩ := each member
      refine .inr ⟨_, _, rfl, assembledToo, number, pair.1, (List.of_mem_zip member).1, rfl, ?_⟩
      cases faults with
      | unread unread => simp [first] at unread
      | origin directs => simp [Line.refuse, directs]
      | named occupies same => simp [Line.refuse, occupies, fault_eq_of_sameFault same]

/-- Two names take each other's place. -/
def exchange (first second : Word) (named : ¬ first.IsNumber) (namedToo : ¬ second.IsNumber) : Renaming where
  word := Equiv.swap first second
  injective := (Equiv.swap first second).injective
  number := by
    intro name digits
    apply Equiv.swap_apply_of_ne_of_ne
    · rintro rfl
      exact named digits
    · rintro rfl
      exact namedToo digits
  ofNumber := by
    intro name digits
    by_cases same : name = first
    · rw [same, Equiv.swap_apply_left] at digits
      exact absurd digits namedToo
    · by_cases sameToo : name = second
      · rw [sameToo, Equiv.swap_apply_right] at digits
        exact absurd digits named
      · rwa [Equiv.swap_apply_of_ne_of_ne same sameToo] at digits

def mainAndData : Renaming :=
  exchange ⟨"main".toList, by decide⟩ ⟨"data".toList, by decide⟩ (by decide) (by decide)

/-- A number that is also the name of a label stays a number. -/
def numbering : Text :=
  "main: LDA data,X ; forward\n\n10: JMP 10\nBNE main\ndata: RTS".toList

def numberingRenamed : Text :=
  "data:  LDA main, X\n;\n10: JMP 10\nBNE data\nmain:RTS".toList

def numberingAssembly : Assembly where
  origin := 0xC000
  bytes := [0xBD, 0x08, 0xC0, 0x4C, 0x0A, 0x00, 0xD0, 0xF8, 0x60]
  labels := ⟨[("main".toList, 0xC000), ("10".toList, 0xC003), ("data".toList, 0xC008)], by decide⟩
  entries := [
    ⟨1, 0xC000, some "main".toList, "LDA data,X".toList, [0xBD, 0x08, 0xC0]⟩,
    ⟨3, 0xC003, some "10".toList, "JMP 10".toList, [0x4C, 0x0A, 0x00]⟩,
    ⟨4, 0xC006, none, "BNE main".toList, [0xD0, 0xF8]⟩,
    ⟨5, 0xC008, some "data".toList, "RTS".toList, [0x60]⟩]

theorem assembly_renamed_numbering :
    List.Forall₂ mainAndData.RenamesLine (Text.lines numbering) (Text.lines numberingRenamed) ∧
    (assemble .default numbering).outcome = .ok numberingAssembly ∧
    ∃ again, (assemble .default numberingRenamed).outcome = .ok again ∧
      mainAndData.RenamesAssembly numberingAssembly again := by
  have renamed : List.Forall₂ mainAndData.RenamesLine (Text.lines numbering)
      (Text.lines numberingRenamed) := by
    refine .cons ⟨_, _, rfl, rfl, .some (.instruction (some "main".toList) _ _ _ _)⟩ ?_
    refine .cons ⟨_, _, rfl, rfl, .none⟩ ?_
    refine .cons ⟨_, _, rfl, rfl, .some (.instruction (some "10".toList) _ _ _ _)⟩ ?_
    refine .cons ⟨_, _, rfl, rfl, .some (.instruction none _ _ _ _)⟩ ?_
    exact .cons ⟨_, _, rfl, rfl, .some (.instruction (some "data".toList) _ _ _ _)⟩ .nil
  have assembled : (assemble .default numbering).outcome = .ok numberingAssembly := by decide +kernel
  refine ⟨renamed, assembled, ?_⟩
  rcases assembly_renamed mainAndData renamed .default with
    ⟨assembly, again, first, second, same⟩ | ⟨error, again, failed, _⟩
  · cases assembled.symm.trans first
    exact ⟨again, second, same⟩
  · cases assembled.symm.trans failed

end Renaming

end Asm65
