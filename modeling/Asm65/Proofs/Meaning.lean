import Mathlib.Data.List.Forall2
import Asm65.Proofs.Agreement
import Asm65.Proofs.Decoding

namespace Asm65

structure WrittenInstruction where
  number : Nat
  label : Option Text
  body : Instruction

def Line.instruction? (line : Line) : Option WrittenInstruction :=
  match line.statement? with
  | some (.instruction label body) => some { number := line.number, label, body }
  | _ => none

/-- The entry stands for the written instruction: same line, label and text, and bytes that are
read back as its operation, in its mode or the short form of that, with its operand's meaning. -/
structure Entry.StandsFor (labels : LabelTable) (written : WrittenInstruction) (entry : Entry) :
    Prop where
  line : entry.line = written.number
  label : entry.label = written.label
  text : entry.text = written.body.text
  code : ∃ mnemonic mode operand, Mnemonic.ofText? written.body.mnemonic = some mnemonic ∧
    (mode = written.body.operand.mode ∨ written.body.operand.mode.shortForm? = some mode) ∧
    written.body.operand.meaning? labels = some operand ∧
    decode? entry.address entry.bytes = some { mnemonic, mode, operand }

variable {known : LabelTable} {progress next last : Progress} {trace : Bool} {lines : List Line}
  {entries : List Entry} {config : Config} {source : Text} {assembly : Assembly}

theorem Pass.Advances.instruction_entry {Holds : WrittenInstruction → Entry → Prop} {pass : Pass} {line : Line}
    {statement : Option Statement} {entry : Option Entry} (read : line.statement? = statement)
    (advances : pass.Advances line.number progress statement entry next)
    (encoded : ∀ label (body : Instruction) here labels bytes,
      body.encode (pass.view labels) here = .ok bytes →
      Holds { number := line.number, label, body }
        { line := line.number, address := here, label, text := body.text, bytes }) :
    List.Forall₂ Holds line.instruction?.toList entry.toList := by
  cases advances with
  | blank | origin | label => simp [Line.instruction?, read]
  | instruction placed binds made room =>
      simp only [Line.instruction?, read, Option.toList_some, List.forall₂_cons, List.Forall₂.nil,
        and_true]
      exact encoded _ _ _ _ _ made

/-- A pass makes one entry for each instruction, in the order of the source. What encoding says of each
entry holds along the whole run. -/
theorem Pass.run_instructions {Holds : WrittenInstruction → Entry → Prop} {pass : Pass}
    (finished : (pass.run trace lines progress).outcome = .ok (entries, last))
    (encoded : ∀ number label (body : Instruction) here labels bytes,
      body.encode (pass.view labels) here = .ok bytes →
      Holds { number, label, body } { line := number, address := here, label, text := body.text, bytes }) :
    List.Forall₂ Holds (lines.filterMap Line.instruction?) entries := by
  induction lines generalizing progress entries with
  | nil =>
      obtain ⟨rfl, _⟩ := run_nil_eq_ok_iff.mp finished
      exact .nil
  | cons line rest ih =>
      obtain ⟨entry, next, tail, stepped, remaining, rfl⟩ := run_cons_eq_ok_iff.mp finished
      obtain ⟨statement, read, advances⟩ := step_eq_ok_iff.mp stepped
      have first := advances.instruction_entry (Line.statement?_of_parse read) (encoded line.number)
      have split : (line :: rest).filterMap Line.instruction? =
          line.instruction?.toList ++ rest.filterMap Line.instruction? := by
        cases found : line.instruction? <;> simp [found]
      rw [split]
      exact List.rel_append first (ih remaining)

theorem Pass.run_standsFor
    (finished : ((Pass.final known).run trace lines progress).outcome = .ok (entries, last)) :
    List.Forall₂ (Entry.StandsFor known) (lines.filterMap Line.instruction?) entries :=
  Pass.run_instructions finished fun _ _ _ _ _ _ encoded =>
    ⟨rfl, rfl, rfl, Instruction.decode?_encode encoded⟩

/-- Assembly preserves meaning: entry by entry, the machine code of an assembly stands for the
instructions of its source, with names read as the assembly's own labels. -/
theorem assemble_preserves_meaning
    (assembled : (assemble config source).outcome = .ok assembly) :
    List.Forall₂ (Entry.StandsFor assembly.labels)
      ((Line.ofSource source).filterMap Line.instruction?) assembly.entries := by
  obtain ⟨_, _, _, passes⟩ := passes_of_assemble assembled
  exact Pass.run_standsFor passes.final

theorem assemble_preserves_meaning_drifting :
    (assemble .default drifting).outcome = .ok driftingAssembly ∧
      List.Forall₂ (Entry.StandsFor driftingAssembly.labels)
        ((Line.ofSource drifting).filterMap Line.instruction?) driftingAssembly.entries :=
  ⟨assemble_drifting, assemble_preserves_meaning assemble_drifting⟩

end Asm65
