import Asm65.Proofs.Trail
import Asm65.Proofs.Grammar
import Asm65.Proofs.Literal

namespace Asm65

/-! Programs whose references all go backward. The survey guesses only at names that are not bound
yet, so on such a program it already does what the final pass does. -/

open Outcome

def Line.reference? (line : Line) : Option Text :=
  match line.statement? with
  | some (.instruction _ body) => body.operand.text?.filter fun text => (literalValue? text).isNone
  | _ => none

/-- Every name that an instruction refers to is bound on an earlier line, or by the label before the
instruction. -/
def RefersBack (source : Text) : Prop :=
  ∀ index < (Line.ofSource source).length,
    ∀ name ∈ (Line.ofSource source)[index]?.bind Line.reference?,
      name ∈ ((Line.ofSource source).take (index + 1)).filterMap Line.label?

instance (source : Text) : Decidable (RefersBack source) :=
  inferInstanceAs (Decidable (∀ index < _, ∀ name ∈ _, _))

theorem valueOf_eq_unresolved_iff {text name : Text} {width : Width} {view : LabelView}
    {here : UInt16} :
    valueOf text width view here = .error (.unresolvedOperand name) ↔
      name = text ∧ literalValue? text = none ∧
        ∃ known, view = .complete known ∧ text ∉ known.names := by
  cases literal : literalValue? text with
  | some number => simp [valueOf_literal literal, Width.fit_eq_error_iff]
  | none =>
      cases view with
      | growing seen =>
          cases bound : seen.get? text with
          | some address => simp [valueOf, literal, bound, Width.fit_eq_error_iff]
          | none => simp [valueOf, literal, bound]
      | complete known =>
          cases bound : known.get? text with
          | some address =>
              have named := LabelTable.mem_names_iff.mpr ⟨address, bound⟩
              simp [valueOf, literal, bound, Width.fit_eq_error_iff, named]
          | none =>
              have free := LabelTable.get?_eq_none_iff.mp bound
              simp [valueOf, literal, bound, free, eq_comm]

theorem Operand.Written.literalValue?_isSome {value text : Text}
    (written : (Operand.immediate value).Written text) : ∃ number, literalValue? value = some number := by
  cases written with
  | immediate literal =>
      rcases literal with ⟨digits, rfl, run⟩ | run
      · exact ⟨_, literalValue?_eq_some_iff.mpr ⟨_, .hexadecimal run, rfl⟩⟩
      · exact ⟨_, literalValue?_eq_some_iff.mpr ⟨_, .decimal run, rfl⟩⟩

namespace Instruction

variable {body : Instruction} {view other : LabelView} {seen known : LabelTable} {here : UInt16}

/-- Two views give an instruction the same encoding, if they give its operand the same value. -/
theorem encode_congr
    (same : ∀ text, body.operand.text? = some text →
      valueOf text body.operand.width (body.operand.sees view) here =
        valueOf text body.operand.width (body.operand.sees other) here) :
    body.encode view here = body.encode other here := by
  obtain ⟨mnemonic, operand, written⟩ := body
  cases operand with
  | implied | accumulator => rfl
  | immediate | absolute | indexed | indirect | indexedIndirect | indirectIndexed =>
      have value := same _ rfl
      simp only [Operand.width, Operand.sees] at value
      simp only [encode, value]

theorem encode_complete_eq_growing (before : seen.Before known)
    (bound : ∀ text, body.operand.text? = some text → literalValue? text = none → text ∈ seen.names) :
    body.encode (.complete known) here = body.encode (.growing seen) here := by
  refine encode_congr fun text takes => ?_
  have same : ∀ width, valueOf text width (.complete known) here =
      valueOf text width (.growing seen) here := by
    intro width
    cases literal : literalValue? text with
    | some number => rw [valueOf_literal literal, valueOf_literal literal]
    | none =>
        obtain ⟨address, found⟩ := LabelTable.mem_names_iff.mp (bound text takes literal)
        simp [valueOf, literal, found, before.get? found]
  cases written : body.operand with
  | immediate => rfl
  | implied | accumulator | absolute | indexed | indirect | indexedIndirect | indirectIndexed =>
      exact same _

/-- An instruction that is read from a line has an unresolved operand only where all labels are in
view and none has its name. -/
theorem Written.encode_unresolved {name : Text} (written : body.Written)
    (failed : body.encode view here = .error (.unresolvedOperand name)) :
    body.operand.text? = some name ∧ literalValue? name = none ∧
      ∃ known, view = .complete known ∧ name ∉ known.names := by
  rcases encode_eq_error_iff.mp failed with
    ⟨_, unknown⟩ | ⟨_, _, _, unsupported⟩ | ⟨_, _, text, _, takes, failed⟩
  · cases unknown
  · cases unsupported
  rcases bind_eq_error_iff.mp failed with unresolved | ⟨value, _, unreached⟩
  · obtain ⟨rfl, named, known, sees, free⟩ := valueOf_eq_unresolved_iff.mp unresolved
    refine ⟨takes, named, known, ?_, free⟩
    cases written with
    | alone => cases takes
    | applied _ _ _ writtenOperand =>
        cases writtenOperand with
        | immediate literal =>
            cases takes
            obtain ⟨number, read⟩ := (Operand.Written.immediate literal).literalValue?_isSome
            simp [named] at read
        | accumulator | absolute | indexed | indirect | indexedIndirect | indirectIndexed =>
            exact sees
  · cases (Encoding.emit_eq_error_iff.mp unreached).2.2.2

end Instruction

variable {config : Config} {source : Text} {known : LabelTable} {progress next last found : Progress}
  {line : Line} {lines : List Line} {entries surveyed : List Entry} {trace : Bool} {visit : Visit}
  {error : SourceError}

theorem Line.reference?_eq_some_iff {name : Text} :
    line.reference? = some name ↔
      ∃ label body, line.statement? = some (.instruction label body) ∧
        body.operand.text? = some name ∧ literalValue? name = none := by
  unfold reference?
  constructor
  · intro refers
    split at refers
    next label body stated =>
        rw [Option.filter_eq_some_iff, Option.isNone_iff_eq_none] at refers
        exact ⟨label, body, stated, refers⟩
    next => contradiction
  · rintro ⟨label, body, stated, refers⟩
    simpa only [stated, Option.filter_eq_some_iff, Option.isNone_iff_eq_none] using refers

namespace Pass

/-- A pass stops for an unresolved operand at an origin with a bad value, or in the final pass at a
reference to a name that is no label. -/
theorem step_unresolved {pass : Pass} {name : Text}
    (stopped : (pass.step trace progress line).outcome = .error (.unresolvedOperand name)) :
    (line.statement? = some (.origin name) ∧ literalValue? name = none) ∨
      line.reference? = some name ∧ ∃ known, pass = .final known ∧ name ∉ known.names := by
  rcases step_eq_error_iff.mp stopped with unread | ⟨statement, read, refuses⟩
  · obtain ⟨_, fault⟩ := Statement.fault_of_parse unread
    cases fault
  have stated := Line.statement?_of_parse read
  cases refuses with
  | origin unread =>
      obtain ⟨rfl, named, _⟩ := valueOf_eq_unresolved_iff.mp unread
      exact .inl ⟨stated, named⟩
  | label _ _ unbound =>
      obtain ⟨_, _, ⟨_, fault⟩ | ⟨_, moved⟩⟩ := bindLabel?_eq_error_iff.mp unbound
      · cases fault
      · obtain ⟨_, _, _, _, _, fault⟩ := confirm_eq_error_iff.mp moved
        cases fault
  | @encoding label body here labels _ _ _ unencoded =>
      have written := (Statement.written_of_parse read).of_instruction.1
      obtain ⟨takes, named, known, sees, free⟩ := written.encode_unresolved unencoded
      refine .inr ⟨Line.reference?_eq_some_iff.mpr ⟨label, body, stated, takes, named⟩, known, ?_, free⟩
      cases pass with
      | survey => cases sees
      | final all =>
          cases sees
          rfl

/-- What the survey does with a line that refers back, the final pass does too. -/
theorem Advances.settled {statement : Option Statement} {entry : Option Entry}
    (read : line.statement? = statement) (before : next.labels.Before known)
    (back : ∀ name, line.reference? = some name → name ∈ next.labels.names)
    (surveys : Pass.survey.Advances line.number progress statement entry next) :
    (Pass.final known).Advances line.number progress statement entry next := by
  have confirms : ∀ {label here labels}, labels.Before known →
      (Pass.survey.bindLabel? progress.labels label here).outcome = .ok labels →
      ((Pass.final known).bindLabel? progress.labels label here).outcome = .ok labels := by
    intro label here labels before binds
    obtain ⟨entries, fresh⟩ := bindLabel?_eq_ok_iff.mp binds
    refine bindLabel?_eq_ok_iff.mpr ⟨entries, fun name named => ⟨(fresh name named).1, ?_⟩⟩
    have bound : labels.get? name = some here := by
      rw [LabelTable.get?_eq_some_iff, entries, named]
      simp
    -- the known table has the label where the survey has just put it
    refine confirm_eq_ok_iff.mpr ?_
    rintro _ ⟨⟩ address found
    exact Option.some.inj (found.symm.trans (before.get? bound))
  cases surveys with
  | blank => exact .blank
  | origin valued => exact .origin valued
  | label placed binds => exact .label placed (confirms before binds)
  | @instruction label body here labels bytes placed binds encoded room =>
      refine .instruction placed (confirms before binds) ?_ room
      have same : body.encode (.complete known) here = body.encode (.growing labels) here :=
        Instruction.encode_complete_eq_growing before fun text takes literal =>
          back text (Line.reference?_eq_some_iff.mpr ⟨label, body, read, takes, literal⟩)
      exact same.trans encoded

/-- The final pass goes the way of the survey, line by line, if every line refers back. -/
theorem final_follows
    (surveyed : (Pass.survey.run trace lines progress).outcome = .ok (entries, last))
    (before : last.labels.Before known)
    (back : ∀ visit ∈ Pass.survey.trail lines progress, ∀ name,
      visit.line.reference? = some name →
        name ∈ visit.progress.labels.names ++ visit.line.label?.toList) :
    ((Pass.final known).run trace lines progress).outcome = .ok (entries, last) := by
  induction lines generalizing progress entries with
  | nil =>
      obtain ⟨rfl, rfl⟩ := run_nil_eq_ok_iff.mp surveyed
      exact run_nil_eq_ok_iff.mpr ⟨rfl, rfl⟩
  | cons line rest ih =>
      obtain ⟨entry, next, tail, stepped, remaining, rfl⟩ := run_cons_eq_ok_iff.mp surveyed
      rw [trail_cons_of_ok stepped] at back
      obtain ⟨first, later⟩ := List.forall_mem_cons.mp back
      obtain ⟨statement, read, surveys⟩ := step_eq_ok_iff.mp stepped
      have stated := Line.statement?_of_parse read
      have names : next.labels.names = progress.labels.names ++ line.label?.toList := by
        rw [surveys.names, Line.label?, stated]
      -- what is bound after this line stays bound to the end of the survey
      have settles := surveys.settled stated ((run_before remaining).trans before)
        fun name refers => names ▸ first name refers
      exact run_cons_eq_ok_iff.mpr ⟨entry, next, tail, step_eq_ok_iff.mpr ⟨statement, read, settles⟩,
        ih remaining later, rfl⟩

end Pass

theorem RefersBack.visits (back : RefersBack source) {pass : Pass}
    (member : visit ∈ pass.visits config source) {name : Text}
    (refers : visit.line.reference? = some name) :
    name ∈ visit.progress.labels.names ++ visit.line.label?.toList := by
  obtain ⟨index, reached⟩ := List.mem_iff_getElem?.mp member
  have line := Pass.trail_line reached
  have bound := back index (List.getElem?_eq_some_iff.mp line).1 name (by simp [line, refers])
  rw [Pass.trail_names reached, Progress.start, LabelTable.names_empty, List.nil_append]
  rw [List.take_add_one, line, List.filterMap_append] at bound
  cases named : visit.line.label? <;> simpa [named] using bound

theorem RefersBack.final_walk (back : RefersBack source)
    (finished : (Pass.survey.walk config source).outcome = .ok (surveyed, found)) :
    ((Pass.final found.labels).walk config source).outcome = .ok (surveyed, found) :=
  Pass.final_follows finished (.refl _) fun _ member _ refers => back.visits member refers

theorem RefersBack.assemble_eq_error_iff (back : RefersBack source) :
    (assemble config source).outcome = .error error ↔
      (Pass.survey.walk config source).outcome = .error error := by
  rw [Asm65.assemble_eq_error_iff]
  constructor
  · rintro (failed | ⟨surveyed, found, first, second⟩)
    · exact failed
    · rw [back.final_walk first] at second
      cases second
  · exact .inl

/-- A program whose references all go backward is settled by the survey: the assembly has the bytes and the
labels that the survey found, or fails with the survey's error. No label moves, and no operand of an
instruction is left unresolved. -/
theorem survey_settles_backward (back : RefersBack source) :
    ((∃ assembly, (assemble config source).outcome = .ok assembly) ↔
      ∃ surveyed found, (Pass.survey.walk config source).outcome = .ok (surveyed, found)) ∧
    (∀ surveyed found, (Pass.survey.walk config source).outcome = .ok (surveyed, found) →
      ∃ assembly, (assemble config source).outcome = .ok assembly ∧
        assembly.bytes = surveyed.flatMap Entry.bytes ∧ assembly.labels = found.labels ∧
        assembly.entries = surveyed ∧
        assembly.origin = (surveyed.head?.map Entry.address).getD config.origin) ∧
    (∀ error, (Pass.survey.walk config source).outcome = .error error →
      (assemble config source).outcome = .error error) ∧
    (∀ error, (assemble config source).outcome = .error error →
      (∀ name first second, error.fault ≠ .labelMoved name first second) ∧
      ∀ text, error.fault = .unresolvedOperand text →
        ∃ line ∈ Line.ofSource source, line.number = error.line ∧
          line.statement? = some (.origin text)) := by
  have settles : ∀ {surveyed found},
      (Pass.survey.walk config source).outcome = .ok (surveyed, found) →
      (assemble config source).outcome = .ok (.ofEntries config surveyed found.labels) :=
    fun finished => assemble_eq_ok_iff.mpr ⟨_, _, _, _, finished, back.final_walk finished, rfl⟩
  refine ⟨⟨?_, ?_⟩, fun surveyed found finished => ⟨_, settles finished, rfl, rfl, rfl, rfl⟩,
    fun error => back.assemble_eq_error_iff.mpr, fun error failed => ?_⟩
  · rintro ⟨assembly, assembled⟩
    obtain ⟨surveyed, found, _, _, first, _⟩ := assemble_eq_ok_iff.mp assembled
    exact ⟨surveyed, found, first⟩
  · rintro ⟨surveyed, found, first⟩
    exact ⟨_, settles first⟩
  · have first := back.assemble_eq_error_iff.mp failed
    refine ⟨fun _ _ _ => survey_ne_labelMoved first, fun text unresolved => ?_⟩
    obtain ⟨visit, member, fault, stopped, rfl⟩ := Pass.run_eq_error_iff.mp first
    change fault = _ at unresolved
    subst unresolved
    refine ⟨visit.line, Pass.line_of_mem_trail member, rfl, ?_⟩
    rcases Pass.step_unresolved stopped with ⟨stated, _⟩ | ⟨_, _, final, _⟩
    · exact stated
    · cases final

/-- References backward, to the same line and to earlier ones, on both sides of address `0x100`. -/
def lookingBack : Text :=
  "* = $FE\nstart: LDA start\nmore: LDX more\nSTA start,Y\nBNE start\nJMP more".toList

def lookingBackEntries : List Entry := [
  ⟨2, 0xFE, some "start".toList, "LDA start".toList, [0xA5, 0xFE]⟩,
  ⟨3, 0x100, some "more".toList, "LDX more".toList, [0xAE, 0x00, 0x01]⟩,
  ⟨4, 0x103, none, "STA start,Y".toList, [0x99, 0xFE, 0x00]⟩,
  ⟨5, 0x106, none, "BNE start".toList, [0xD0, 0xF6]⟩,
  ⟨6, 0x108, none, "JMP more".toList, [0x4C, 0x00, 0x01]⟩]

def lookingBackLabels : LabelTable :=
  ⟨[("start".toList, 0xFE), ("more".toList, 0x100)], by decide⟩

theorem survey_settles_lookingBack :
    RefersBack lookingBack ∧
      (Pass.survey.walk .default lookingBack).outcome =
        .ok (lookingBackEntries, ⟨0x10B, lookingBackLabels⟩) ∧
      ∃ assembly, (assemble .default lookingBack).outcome = .ok assembly ∧
        assembly.bytes = [0xA5, 0xFE, 0xAE, 0x00, 0x01, 0x99, 0xFE, 0x00, 0xD0, 0xF6, 0x4C, 0x00, 0x01] ∧
        assembly.labels.entries = [("start".toList, 0xFE), ("more".toList, 0x100)] ∧
        assembly.entries = lookingBackEntries ∧ assembly.origin = 0xFE := by
  have back : RefersBack lookingBack := by decide +kernel
  have surveyed : (Pass.survey.walk .default lookingBack).outcome =
      .ok (lookingBackEntries, ⟨0x10B, lookingBackLabels⟩) := by rfl
  obtain ⟨assembly, assembled, bytes, labels, entries, origin⟩ :=
    (survey_settles_backward back).2.1 _ _ surveyed
  exact ⟨back, surveyed, assembly, assembled, bytes, labels ▸ rfl, entries, origin⟩

end Asm65
