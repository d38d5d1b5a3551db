import Asm65.Proofs.Diagnosis
import Asm65.Proofs.Lines

namespace Asm65

/-! Which pass refuses what. How a line is written, what its literals are worth and which names are bound
before it is the same in both passes, so the survey has the last word on that. What is left to the final
pass are names that no line binds, and all that depends on where labels and lines come to lie. -/

open Outcome Encoding

/-- A fault for which nothing after the line matters: it is found before any address is looked at. -/
def Fault.isEarly : Fault → Bool
  | unreadableLine _ | unknownMnemonic _ | unsupportedMode .. | duplicateLabel _ => true
  | unresolvedOperand _ | valueOutOfRange .. | branchOutOfRange .. | labelMoved .. => false

/-- The faults that the final pass may still find in a line which the survey has taken. The line is not
an origin directive, and no literal on it is to blame. -/
inductive Visit.LateFault (known : LabelTable) (visit : Visit) : Fault → Prop where
  | undefinedName {label : Option Text} {body : Instruction} {name : Text}
      (stated : visit.line.statement? = some (.instruction label body))
      (takes : body.operand.text? = some name) (named : literalValue? name = none)
      (undefined : name ∉ known.names) : LateFault known visit (.unresolvedOperand name)
  | farBranch {label : Option Text} {body : Instruction} {text : Text} {here target : UInt16}
      (stated : visit.line.statement? = some (.instruction label body))
      (branches : body.isBranch = true) (operand : body.operand = .absolute text)
      (placed : here.toNat = visit.progress.pc) (means : known.meaning? text = some target.toNat)
      (far : ¬ InReach target here) :
      LateFault known visit (.branchOutOfRange target (distance target here))
  | movedLabel {name : Text} {first here : UInt16} (named : visit.line.label? = some name)
      (bound : known.get? name = some first) (placed : here.toNat = visit.progress.pc)
      (moved : first ≠ here) : LateFault known visit (.labelMoved name first here)
  | outside {statement : Statement} (stated : visit.line.statement? = some statement)
      (occupies : statement.isOrigin = false) (full : visit.progress.pc = 0x10000) :
      LateFault known visit (.valueOutOfRange 0x10000 0x10000)
  | overrun {label : Option Text} {body : Instruction} {value : UInt16} {address : Nat}
      (stated : visit.line.statement? = some (.instruction label body))
      (takes : ∀ text, body.operand.text? = some text → known.meaning? text = some value.toNat)
      (ends : address + 1 = visit.progress.pc + body.size value)
      (past : address = 0x10000 ∨ address = 0x10001) :
      LateFault known visit (.valueOutOfRange address 0x10000)

variable {known seen : LabelTable} {line : Line} {fault : Fault} {config : Config} {source other : Text}
  {error : SourceError}

theorem Visit.LateFault.isEarly_eq {visit : Visit} (late : visit.LateFault known fault) :
    fault.isEarly = false := by
  cases late <;> rfl

/-- An operand that had a value in the survey lacks one in the final pass only if it is a name that
nothing binds. -/
theorem Operand.unresolved_of_surveyed {operand : Operand} {text : Text} {here there value : UInt16}
    (surveyed : valueOf text operand.width (operand.sees (.growing seen)) there = .ok value)
    (unvalued : valueOf text operand.width (operand.sees (.complete known)) here = .error fault) :
    fault = .unresolvedOperand text ∧ literalValue? text = none ∧ text ∉ known.names := by
  cases literal : literalValue? text with
  | some number =>
      rw [valueOf_literal literal] at surveyed unvalued
      simp [surveyed] at unvalued
  | none =>
      cases operand with
      | immediate => simp [sees, valueOf_complete_free literal LabelTable.get?_empty] at surveyed
      | implied | accumulator | absolute | indexed | indirect | indexedIndirect | indirectIndexed =>
          cases bound : known.get? text with
          | some address => simp [sees, width, valueOf_complete_bound literal bound] at unvalued
          | none =>
              simp only [sees, valueOf_complete_free literal bound] at unvalued
              cases unvalued
              exact ⟨rfl, rfl, LabelTable.get?_eq_none_iff.mp bound⟩

namespace Pass

variable {first second next : Progress} {entry : Option Entry}

theorem late_of_unencoded {label : Option Text} {body : Instruction} {labels : LabelTable}
    {here there : UInt16} {bytes : List UInt8}
    (stated : line.statement? = some (.instruction label body)) (placed : here.toNat = second.pc)
    (surveyed : body.encode (.growing seen) there = .ok bytes)
    (unencoded : body.encode ((Pass.final known).view labels) here = .error fault) :
    Visit.LateFault known { progress := second, line } fault := by
  obtain ⟨mnemonic, opcode, supported⟩ := Instruction.supported_of_encode surveyed
  obtain ⟨guess, _, guessed⟩ := Instruction.encode_length surveyed
  rcases Instruction.encode_eq_error_iff.mp unencoded with
    ⟨unknown, _⟩ | ⟨other, named, unlisted, _⟩ | ⟨other, code, text, again, takes, failed⟩
  · simp [supported.names] at unknown
  · cases supported.names.symm.trans named
    simp [supported.allows] at unlisted
  rcases bind_eq_error_iff.mp failed with unvalued | ⟨target, valued, unreached⟩
  · obtain ⟨rfl, named, undefined⟩ := Operand.unresolved_of_surveyed (guessed text takes) unvalued
    exact .undefinedName stated takes named undefined
  · obtain ⟨_, branches, far, rfl⟩ := emit_eq_error_iff.mp unreached
    have branching : body.isBranch = true := again.isBranch_eq.trans branches
    obtain ⟨name, operand⟩ := again.operand_of_isBranch branching
    have means := (Operand.means_of_valueOf valued).1
    rw [operand] at takes
    cases takes
    exact .farBranch stated branching operand placed means far

/-- What the final pass refuses of a statement that the survey has taken. -/
theorem Refuses.late {statement : Statement} (stated : line.statement? = some statement)
    (surveys : Pass.survey.Advances line.number first (some statement) entry next)
    (refuses : (Pass.final known).Refuses second statement fault)
    (fresh : ∀ name, line.label? = some name → name ∉ second.labels.names)
    (inMemory : second.pc ≤ 0x10000) :
    Visit.LateFault known { progress := second, line } fault := by
  cases refuses with
  | origin unread =>
      cases surveys with
      | origin read => simp [read] at unread
  | outside occupies past =>
      have full : second.pc = 0x10000 := Nat.le_antisymm inMemory past
      rw [full]
      exact .outside stated occupies full
  | label _ placed unbound =>
      obtain ⟨name, named, ⟨taken, _⟩ | ⟨_, unconfirmed⟩⟩ := bindLabel?_eq_error_iff.mp unbound
      · have binds : line.label? = some name := by simp [Line.label?, stated, named]
        exact absurd taken (fresh name binds)
      · obtain ⟨_, found, ⟨⟩, bound, moved, rfl⟩ := confirm_eq_error_iff.mp unconfirmed
        exact .movedLabel (by simp [Line.label?, stated, named]) bound placed moved
  | encoding placed binds unencoded =>
      cases surveys with
      | instruction _ _ surveyed _ => exact late_of_unencoded stated placed surveyed unencoded
  | @room _ body here _ bytes placed binds encoded past =>
      obtain ⟨value, length, takes⟩ := Instruction.encode_length encoded
      have below := here.toNat_lt
      have short := body.size_le value
      have means : ∀ text, body.operand.text? = some text → known.meaning? text = some value.toNat :=
        fun text written => (Operand.means_of_valueOf (takes text written)).1
      rw [length] at past ⊢
      refine .overrun stated means ?_ ?_
      · change _ = second.pc + _
        omega
      · omega

/-- An error of the final pass, once the survey has got through. -/
theorem late_of_walk {surveyed : List Entry} {found : Progress}
    (finished : (Pass.survey.walk config source).outcome = .ok (surveyed, found))
    (failed : ((Pass.final known).walk config source).outcome = .error error) :
    ∃ visit ∈ (Pass.final known).visits config source, ∃ fault, visit.LateFault known fault ∧
      error = visit.line.refuse fault := by
  obtain ⟨visit, member, fault, refused, rfl⟩ := run_eq_error_iff.mp failed
  refine ⟨visit, member, fault, ?_, rfl⟩
  obtain ⟨index, reached⟩ := List.mem_iff_getElem?.mp member
  -- the survey has been at this line too, and gone on
  obtain ⟨before, reachedFirst, sameLine⟩ := reaches_of_walk finished reached
  obtain ⟨entry, next, stepped⟩ := step_of_mem_trail finished (List.mem_of_getElem? reachedFirst)
  obtain ⟨statement, read, surveys⟩ := step_eq_ok_iff.mp stepped
  rw [sameLine] at read surveys
  rcases step_eq_error_iff.mp refused with unread | ⟨other, readAgain, refuses⟩
  · simp [read] at unread
  · cases read.symm.trans readAgain
    exact refuses.late (Line.statement?_of_parse read) surveys
      (fun name named => fresh_of_reached (walk_nodup finished) reached named) (visits_pc_le member)

end Pass

theorem survey_error (failed : (Pass.survey.walk config source).outcome = .error error) :
    (∀ name first second, error.fault ≠ .labelMoved name first second) ∧
    ∀ text, error.fault = .unresolvedOperand text →
      ∃ line ∈ Line.ofSource source, line.number = error.line ∧ line.statement? = some (.origin text) := by
  refine ⟨fun _ _ _ => survey_ne_labelMoved failed, fun text unresolved => ?_⟩
  obtain ⟨visit, member, fault, stopped, rfl⟩ := Pass.run_eq_error_iff.mp failed
  change fault = _ at unresolved
  subst unresolved
  refine ⟨visit.line, Pass.line_of_mem_trail member, rfl, ?_⟩
  rcases Pass.step_unresolved stopped with ⟨stated, _⟩ | ⟨_, _, final, _⟩
  · exact stated
  · cases final

namespace Pass

variable {pass : Pass} {trace : Bool} {progress : Progress}

/-- An error stays the same whatever follows its line, and whatever blanks the lines end with. -/
theorem run_error_of_same_start
    (failed : (pass.run trace (Line.ofSource source) progress).outcome = .error error)
    (same : ((Text.lines source).take error.line).map Text.trim =
      ((Text.lines other).take error.line).map Text.trim) :
    (pass.run trace (Line.ofSource other) progress).outcome = .error error := by
  -- both runs fail within the lines up to that of the error
  have upTo : (pass.run trace ((Line.ofSource source).take error.line) progress).outcome = .error error := by
    obtain ⟨front, line, back, entries, middle, fault, split, taken, refused, rfl⟩ :=
      run_eq_error_iff_split.mp failed
    have found : (Line.ofSource source)[front.length]? = some line := by simp [split]
    have start : (Line.ofSource source).take line.number = front ++ [line] := by
      rw [Line.ofSource_number found, split, List.take_length_add_append]
      rfl
    change (pass.run trace ((Line.ofSource source).take line.number) progress).outcome = _
    rw [start]
    exact run_eq_error_iff_split.mpr ⟨front, line, [], entries, middle, fault, rfl, taken, refused, rfl⟩
  have starts : ((Line.ofSource source).take error.line).map Line.trimmed =
      ((Line.ofSource other).take error.line).map Line.trimmed := by
    simp only [Line.ofSource_eq_numbered, ← Line.numbered_take, Line.numbered_trimmed, same]
  rw [← run_trimmed, starts, run_trimmed] at upTo
  obtain ⟨front, line, back, entries, middle, fault, split, taken, refused, located⟩ :=
    run_eq_error_iff_split.mp upTo
  refine run_eq_error_iff_split.mpr ⟨front, line, back ++ (Line.ofSource other).drop error.line, entries,
    middle, fault, ?_, taken, refused, located⟩
  rw [← List.cons_append, ← List.append_assoc, ← split, List.take_append_drop]

end Pass

variable (config source) in
/-- The passes refuse for different reasons. Once the survey has got through, the final pass fails only
with a late fault of a line it reaches. The survey never reports a moved label, nor an operand of an
instruction as unresolved. Hence an early fault is reported by the survey, and so for every source that
begins with the same lines. -/
theorem passes_refuse_apart :
    (∀ surveyed found error, (Pass.survey.walk config source).outcome = .ok (surveyed, found) →
      ((Pass.final found.labels).walk config source).outcome = .error error →
      error.fault.isEarly = false ∧
      ∃ visit ∈ (Pass.final found.labels).visits config source, ∃ fault,
        visit.LateFault found.labels fault ∧ error = visit.line.refuse fault) ∧
    (∀ error, (Pass.survey.walk config source).outcome = .error error →
      (∀ name first second, error.fault ≠ .labelMoved name first second) ∧
      ∀ text, error.fault = .unresolvedOperand text →
        ∃ line ∈ Line.ofSource source, line.number = error.line ∧
          line.statement? = some (.origin text)) ∧
    ∀ error other, (assemble config source).outcome = .error error → error.fault.isEarly = true →
      ((Text.lines source).take error.line).map Text.trim =
        ((Text.lines other).take error.line).map Text.trim →
      (assemble config other).outcome = .error error := by
  have late : ∀ surveyed found error, (Pass.survey.walk config source).outcome = .ok (surveyed, found) →
      ((Pass.final found.labels).walk config source).outcome = .error error →
      error.fault.isEarly = false ∧
      ∃ visit ∈ (Pass.final found.labels).visits config source, ∃ fault,
        visit.LateFault found.labels fault ∧ error = visit.line.refuse fault := by
    intro surveyed found error finished failed
    obtain ⟨visit, member, fault, late, rfl⟩ := Pass.late_of_walk finished failed
    exact ⟨late.isEarly_eq, visit, member, fault, late, rfl⟩
  refine ⟨late, fun error => survey_error, fun error other failed early same => ?_⟩
  rcases assemble_eq_error_iff.mp failed with first | ⟨surveyed, found, first, second⟩
  · exact assemble_eq_error_iff.mpr (.inl (Pass.run_error_of_same_start first same))
  · have notEarly := (late surveyed found error first second).1
    simp [early] at notEarly

/-- Begins like `misspelt`, but for blanks, and goes on otherwise. -/
def misspeltAgain : Text :=
  "start: LDA #1\r\n\tXYZ start ; no such operation \r\nXYZ\n* = nowhere".toList

/-- Jumps to a name that no line binds. -/
def dangling : Text := "loop: BNE loop\nJMP nowhere".toList

theorem passes_refuse_apart_misspelt :
    (assemble .default misspelt).outcome = .error misspeltError ∧
    misspeltError.fault.isEarly = true ∧
    (assemble .default misspeltAgain).outcome = .error misspeltError ∧
    ∃ surveyed found, ∃ visit : Visit,
      (Pass.survey.walk .default dangling).outcome = .ok (surveyed, found) ∧
      visit.line.number = 2 ∧ visit.LateFault found.labels (.unresolvedOperand "nowhere".toList) := by
  have failed : (assemble .default misspelt).outcome = .error misspeltError := by decide +kernel
  have same : ((Text.lines misspelt).take 2).map Text.trim =
      ((Text.lines misspeltAgain).take 2).map Text.trim := by decide +kernel
  obtain ⟨surveyed, found, first, second⟩ : ∃ surveyed found,
      (Pass.survey.walk .default dangling).outcome = .ok (surveyed, found) ∧
      ((Pass.final found.labels).walk .default dangling).outcome =
        .error ⟨2, "JMP nowhere".toList, .unresolvedOperand "nowhere".toList⟩ := ⟨_, _, rfl, rfl⟩
  obtain ⟨_, visit, _, fault, late, located⟩ :=
    (passes_refuse_apart .default dangling).1 surveyed found _ first second
  cases congrArg SourceError.fault located
  exact ⟨failed, rfl, (passes_refuse_apart .default misspelt).2.2 _ _ failed rfl same, surveyed, found,
    visit, first, (congrArg SourceError.line located).symm, late⟩

end Asm65
