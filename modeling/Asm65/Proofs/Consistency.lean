import Asm65.Proofs.Drift

namespace Asm65

/-! Programs that have a layout in which everything fits. The assembler looks for it from the
addresses of the survey, where sizes are guessed. What is in reach and in memory in the layout need
not be so at those addresses. -/

open Encoding

def LabelView.Covers : LabelView → LabelTable → Prop
  | growing _, _ => True
  | complete known, layout => ∀ name ∈ layout.names, name ∈ known.names

theorem valueOf_of_covers {text : Text} {view : LabelView} {layout : LabelTable}
    {here there other : UInt16} (covers : view.Covers layout)
    (resolved : valueOf text .word (.complete layout) there = .ok other) :
    ∃ value, valueOf text .word view here = .ok value := by
  cases literal : literalValue? text with
  | some number =>
      rw [valueOf_literal literal] at resolved ⊢
      exact ⟨other, resolved⟩
  | none =>
      cases view with
      | growing seen =>
          cases bound : seen.get? text with
          | some address => exact ⟨address, valueOf_growing_bound literal bound⟩
          | none => exact ⟨here, valueOf_growing_free literal bound⟩
      | complete known =>
          have named : text ∈ layout.names := by
            by_contra free
            simp [valueOf_complete_free literal (LabelTable.get?_eq_none_iff.mpr free)] at resolved
          obtain ⟨address, bound⟩ := LabelTable.mem_names_iff.mp (covers text named)
          exact ⟨address, valueOf_complete_bound literal bound⟩

namespace Instruction

variable {body : Instruction} {view : LabelView} {layout : LabelTable} {here there other : UInt16}

/-- An operand that has a value in a layout has one in every view with the same names. -/
theorem takes_of_covers (covers : view.Covers layout)
    (settled : body.Takes (.complete layout) there other) (here : UInt16) :
    ∃ value, body.Takes view here value := by
  cases written : body.operand with
  | implied | accumulator => exact ⟨0, by simp [Takes, written, Operand.text?]⟩
  | immediate text =>
      refine ⟨other, ?_⟩
      simpa [Takes, written, Operand.text?, Operand.width, Operand.sees, valueOf_complete_eq_ok_iff]
        using settled
  | absolute text | indexed text _ | indirect text | indexedIndirect text | indirectIndexed text =>
      simp only [Takes, written, Operand.text?, Operand.width, Operand.sees, Option.some.injEq,
        forall_eq'] at settled ⊢
      exact valueOf_of_covers covers settled

/-- An instruction that has an encoding in a layout has one for the survey, at the same address and
with the labels up to there. -/
theorem encode_growing {seen : LabelTable} {bytes : List UInt8} (before : seen.Before layout)
    (encoded : body.encode (.complete layout) here = .ok bytes) :
    ∃ made, body.encode (.growing seen) here = .ok made := by
  obtain ⟨mnemonic, opcode, supported⟩ := supported_of_encode encoded
  obtain ⟨value, _, settled⟩ := encode_length encoded
  have covers : LabelView.Covers (.growing seen) layout := trivial
  obtain ⟨guess, takes⟩ := takes_of_covers covers settled here
  rcases encode_of_takes supported takes with ⟨branches, away, _⟩ | ⟨_, made, surveyed, _⟩
  · -- the guess is the layout's value, which is in reach, or the address of the branch itself
    exfalso
    obtain ⟨text, written⟩ := supported.operand_of_isBranch branches
    have near := inReach_of_encode encoded settled branches
    simp only [Takes, written, Operand.text?, Operand.width, Operand.sees, Option.some.injEq,
      forall_eq'] at takes settled
    by_cases known : literalValue? text ≠ none ∨ text ∈ seen.names
    · have same := value_eq_of_bound before known takes settled
      exact away (same ▸ near)
    · obtain ⟨literal, free⟩ := not_or.mp known
      rw [not_not] at literal
      rw [valueOf_growing_free literal (LabelTable.get?_eq_none_iff.mpr free)] at takes
      cases takes
      exact away (inReach_self here)
  · exact ⟨made, surveyed⟩

end Instruction

/-- A table is a consistent layout of a source: the final pass that knows it gets through, and finds
it again. -/
def Consistent (config : Config) (source : Text) (layout : LabelTable) : Prop :=
  ∃ entries last, ((Pass.final layout).walk config source).outcome = .ok (entries, last) ∧
    last.labels = layout

instance (config : Config) (source : Text) (layout : LabelTable) :
    Decidable (Consistent config source layout) :=
  match finished : ((Pass.final layout).walk config source).outcome with
  | .ok (_, last) =>
      decidable_of_iff (last.labels = layout) (by simp [Consistent, finished])
  | .error _ => isFalse (by simp [Consistent, finished])

/-- A line does not fit at the address at which a pass reaches it: the address is past the top of
memory, or the instruction with the operand's value of this pass ends there or branches too far. -/
inductive Visit.Misfits (pass : Pass) (visit : Visit) : Prop where
  | outside {statement : Statement} (stated : visit.line.statement? = some statement)
      (occupies : statement.isOrigin = false) (past : 0x10000 ≤ visit.progress.pc)
  | instruction {label : Option Text} {body : Instruction} {here value : UInt16}
      {labels : LabelTable} (stated : visit.line.statement? = some (.instruction label body))
      (placed : here.toNat = visit.progress.pc)
      (binds : (pass.bindLabel? visit.progress.labels label here).outcome = .ok labels)
      (takes : body.Takes (pass.view labels) here value)
      (unfit : 0x10000 < visit.progress.pc + body.size value ∨
        body.isBranch = true ∧ ¬ InReach value here)

section Rejection

variable {config : Config} {source : Text} {layout : LabelTable} {pass : Pass} {visit : Visit}
  {fault : Fault}

theorem Consistent.advances (consistent : Consistent config source layout)
    (member : visit ∈ pass.visits config source) :
    ∃ statement progress entry next, Statement.parse visit.line.text = .ok statement ∧
      (Pass.final layout).Advances visit.line.number progress statement entry next := by
  obtain ⟨entries, last, finished, _⟩ := consistent
  obtain ⟨index, reached⟩ := List.mem_iff_getElem?.mp member
  obtain ⟨settled, reachedToo, line⟩ := Pass.reaches_of_walk finished reached
  obtain ⟨entry, next, stepped⟩ := Pass.step_of_mem_trail finished (List.mem_of_getElem? reachedToo)
  obtain ⟨statement, read, advances⟩ := Pass.step_eq_ok_iff.mp stepped
  rw [line] at read advances
  exact ⟨statement, settled.progress, entry, next, read, advances⟩

theorem Consistent.takes {label : Option Text} {body : Instruction} {labels : LabelTable}
    (consistent : Consistent config source layout) (member : visit ∈ pass.visits config source)
    (covers : (pass.view labels).Covers layout)
    (stated : visit.line.statement? = some (.instruction label body)) (here : UInt16) :
    ∃ mnemonic opcode value, body.Supported mnemonic opcode ∧
      body.Takes (pass.view labels) here value := by
  obtain ⟨statement, _, _, _, read, advances⟩ := consistent.advances member
  cases (Line.statement?_of_parse read).symm.trans stated
  cases advances with
  | instruction _ _ encoded _ =>
      obtain ⟨mnemonic, opcode, supported⟩ := Instruction.supported_of_encode encoded
      obtain ⟨_, _, settled⟩ := Instruction.encode_length encoded
      obtain ⟨value, takes⟩ := Instruction.takes_of_covers covers settled here
      exact ⟨mnemonic, opcode, value, supported, takes⟩

/-- A pass refuses a line of a program with a consistent layout only because a label has moved, or
because the line does not fit where the pass has come to. -/
theorem Consistent.refused (consistent : Consistent config source layout)
    (covers : ∀ labels, (pass.view labels).Covers layout)
    (member : visit ∈ pass.visits config source)
    (refused : (pass.step false visit.progress visit.line).outcome = .error fault) :
    (∃ name before here, fault = .labelMoved name before here) ∨
      visit.Misfits pass ∧
        ((∃ target away, fault = .branchOutOfRange target away) ∨
          ∃ number, fault = .valueOutOfRange number 0x10000 ∧
            (number = 0x10000 ∨ number = 0x10001)) := by
  obtain ⟨settled, _, _, _, readSettled, advances⟩ := consistent.advances member
  obtain ⟨index, reached⟩ := List.mem_iff_getElem?.mp member
  have low : visit.progress.pc ≤ 0x10000 :=
    Pass.trail_pc_le (Nat.le_of_lt config.origin.toNat_lt) reached
  rcases Pass.step_eq_error_iff.mp refused with unread | ⟨statement, read, refuses⟩
  · simp [readSettled] at unread
  cases readSettled.symm.trans read
  have stated := Line.statement?_of_parse read
  cases refuses with
  | origin unread =>
      cases advances with
      | origin read => simp [read] at unread
  | outside occupies past =>
      exact .inr ⟨.outside stated occupies past, .inr ⟨_, rfl, by omega⟩⟩
  | label occupies placed unbound =>
      obtain ⟨name, named, ⟨taken, _⟩ | ⟨_, moved⟩⟩ := Pass.bindLabel?_eq_error_iff.mp unbound
      · obtain ⟨_, _, finished, _⟩ := consistent
        have binds : visit.line.label? = some name := by simp [Line.label?, stated, named]
        exact absurd taken (Pass.fresh_of_reached (Pass.walk_nodup finished) reached binds)
      · obtain ⟨_, found, _, _, _, rfl⟩ := Pass.confirm_eq_error_iff.mp moved
        exact .inl ⟨name, found, _, rfl⟩
  | @encoding _ _ here labels _ placed binds unencoded =>
      obtain ⟨_, _, value, supported, takes⟩ := consistent.takes member (covers labels) stated here
      rcases Instruction.encode_of_takes supported takes with
        ⟨branches, away, failed⟩ | ⟨_, _, encoded, _⟩
      · cases unencoded.symm.trans failed
        exact .inr ⟨.instruction stated placed binds takes (.inr ⟨branches, away⟩),
          .inl ⟨_, _, rfl⟩⟩
      · simp [encoded] at unencoded
  | @room _ body here _ _ placed binds encoded past =>
      have inMemory := here.toNat_lt
      obtain ⟨value, length, takes⟩ := Instruction.encode_length encoded
      have short := body.size_le value
      rw [length] at past
      refine .inr ⟨.instruction stated placed binds takes (.inl past), .inr ⟨_, rfl, ?_⟩⟩
      omega

theorem Consistent.refuses (consistent : Consistent config source layout)
    (covers : ∀ labels, (pass.view labels).Covers layout)
    (member : visit ∈ pass.visits config source) (misfits : visit.Misfits pass) :
    ∃ fault, (pass.step false visit.progress visit.line).outcome = .error fault ∧
      ∀ name before here, fault ≠ .labelMoved name before here := by
  cases misfits with
  | outside stated occupies past =>
      refine ⟨_, Pass.step_eq_error_iff.mpr (.inr ⟨_, Line.parse_of_statement? stated,
        .outside occupies past⟩), ?_⟩
      intros
      simp
  | @instruction _ body here value labels stated placed binds takes unfit =>
      have read := Line.parse_of_statement? stated
      obtain ⟨_, _, _, supported, _⟩ := consistent.takes member (covers labels) stated here
      rcases Instruction.encode_of_takes supported takes with
        ⟨_, _, failed⟩ | ⟨near, _, encoded, length⟩
      · refine ⟨_, Pass.step_eq_error_iff.mpr (.inr ⟨_, read, .encoding placed binds failed⟩), ?_⟩
        intros
        simp
      · have past := unfit.resolve_right fun ⟨branches, away⟩ => away (near branches)
        rw [← length] at past
        refine ⟨_, Pass.step_eq_error_iff.mpr (.inr ⟨_, read, .room placed binds encoded past⟩), ?_⟩
        intros
        simp

end Rejection

section Simulation

variable {layout : LabelTable} {progress next last : Progress} {line : Line} {lines : List Line}
  {entries : List Entry} {trace : Bool}

/-- A line that does not grow is taken by the survey as in the layout. -/
theorem Pass.Advances.surveyed {statement : Option Statement} {entry : Option Entry}
    (read : line.statement? = statement) (before : next.labels.Before layout)
    (settles : (Pass.final layout).Advances line.number progress statement entry next)
    (still : Visit.growth layout { progress, line } = 0) :
    ∃ made, Pass.survey.Advances line.number progress statement made next := by
  have bound : ∀ {label here labels},
      ((Pass.final layout).bindLabel? progress.labels label here).outcome = .ok labels →
      (Pass.survey.bindLabel? progress.labels label here).outcome = .ok labels := by
    intro label here labels binds
    obtain ⟨entries, fresh⟩ := bindLabel?_eq_ok_iff.mp binds
    exact bindLabel?_eq_ok_iff.mpr ⟨entries, fun name named => ⟨(fresh name named).1, rfl⟩⟩
  cases settles with
  | blank => exact ⟨none, .blank⟩
  | origin valued => exact ⟨none, .origin valued⟩
  | label placed binds => exact ⟨none, .label placed (bound binds)⟩
  | @instruction label body here labels bytes placed binds encoded room =>
      obtain ⟨made, surveyed⟩ := Instruction.encode_growing before encoded
      have names : labels.names = progress.labels.names ++ label.toList :=
        (Pass.Advances.instruction placed binds encoded room : (Pass.final layout).Advances
          line.number progress (some (.instruction label body)) _ _).names
      have grown : (bytes.length : Int) - made.length = body.growth labels.names here.toNat layout :=
        Instruction.length_sub_length before surveyed encoded
      rw [Visit.growth, read] at still
      simp only [← names, ← placed] at still
      have same : bytes.length = made.length := by omega
      rw [same] at room ⊢
      exact ⟨_, .instruction placed (bound binds) surveyed room⟩

/-- If no line grows, the survey goes the way of the layout. -/
theorem Pass.survey_follows
    (finished : ((Pass.final layout).run trace lines progress).outcome = .ok (entries, last))
    (before : last.labels.Before layout)
    (still : ∀ visit ∈ Pass.survey.trail lines progress, visit.growth layout = 0) :
    ∃ surveyed, (Pass.survey.run trace lines progress).outcome = .ok (surveyed, last) := by
  -- both passes are at the same progress before every line
  induction lines generalizing progress entries with
  | nil =>
      obtain ⟨_, rfl⟩ := run_nil_eq_ok_iff.mp finished
      exact ⟨[], run_nil_eq_ok_iff.mpr ⟨rfl, rfl⟩⟩
  | cons line rest ih =>
      obtain ⟨entry, next, tail, stepped, remaining, _⟩ := run_cons_eq_ok_iff.mp finished
      obtain ⟨statement, read, settles⟩ := step_eq_ok_iff.mp stepped
      have reached := still { progress, line } (by simp [trail])
      obtain ⟨made, advances⟩ := Pass.Advances.surveyed (Line.statement?_of_parse read)
        ((run_before remaining).trans before) settles reached
      have surveys : (Pass.survey.step trace progress line).outcome = .ok (made, next) :=
        step_eq_ok_iff.mpr ⟨statement, read, advances⟩
      rw [trail_cons_of_ok surveys] at still
      obtain ⟨surveyed, followed⟩ := ih remaining fun visit member =>
        still visit (List.mem_cons_of_mem _ member)
      exact ⟨_, run_cons_eq_ok_iff.mpr ⟨made, next, surveyed, surveys, followed, rfl⟩⟩

end Simulation

section Acceptance

variable {config : Config} {source : Text} {layout : LabelTable} {surveyed : List Entry}
  {found : Progress} {error : SourceError}

theorem Consistent.covers (consistent : Consistent config source layout)
    (finished : (Pass.survey.walk config source).outcome = .ok (surveyed, found))
    (labels : LabelTable) : ((Pass.final found.labels).view labels).Covers layout := by
  obtain ⟨_, last, settled, rfl⟩ := consistent
  intro name member
  rwa [Pass.walk_names finished, ← Pass.walk_names settled]

theorem Consistent.walk_error {pass : Pass} (consistent : Consistent config source layout)
    (covers : ∀ labels, (pass.view labels).Covers layout)
    (failed : (pass.walk config source).outcome = .error error) :
    (∃ name before here, error.fault = .labelMoved name before here) ∨
      (∃ visit ∈ pass.visits config source, visit.Misfits pass) ∧
        ((∃ target away, error.fault = .branchOutOfRange target away) ∨
          ∃ number, error.fault = .valueOutOfRange number 0x10000 ∧
            (number = 0x10000 ∨ number = 0x10001)) := by
  obtain ⟨visit, member, fault, refused, rfl⟩ := Pass.run_eq_error_iff.mp failed
  exact (consistent.refused covers member refused).imp_right fun ⟨misfits, kind⟩ =>
    ⟨⟨visit, member, misfits⟩, kind⟩

/-- Every line fits where a pass has reached it, if the pass gets through or fails for a label that
has moved. -/
theorem Consistent.fits {pass : Pass} {visit : Visit} (consistent : Consistent config source layout)
    (covers : ∀ labels, (pass.view labels).Covers layout)
    (moved : ∀ error, (pass.walk config source).outcome = .error error →
      ∃ name before here, error.fault = .labelMoved name before here)
    (member : visit ∈ pass.visits config source) : ¬ visit.Misfits pass := by
  intro misfits
  obtain ⟨fault, refused, other⟩ := consistent.refuses covers member misfits
  have failed : (pass.walk config source).outcome = .error (visit.line.refuse fault) :=
    Pass.run_eq_error_iff.mpr ⟨visit, member, fault, refused, rfl⟩
  obtain ⟨name, before, here, same⟩ := moved _ failed
  exact other name before here same

/-- An assembly succeeds or reports a moved label exactly if the survey gets through and the final
pass stops at nothing but moved labels. -/
theorem accepted_iff_passes :
    ((∃ assembly, (assemble config source).outcome = .ok assembly) ∨
        ∃ error name before here, (assemble config source).outcome = .error error ∧
          error.fault = .labelMoved name before here) ↔
      ∃ surveyed found, (Pass.survey.walk config source).outcome = .ok (surveyed, found) ∧
        ∀ error, ((Pass.final found.labels).walk config source).outcome = .error error →
          ∃ name before here, error.fault = .labelMoved name before here := by
  constructor
  · intro accepted
    rcases accepted with ⟨assembly, assembled⟩ | ⟨error, name, before, here, failed, moved⟩
    · obtain ⟨surveyed, found, _, _, first, second, _⟩ := assemble_eq_ok_iff.mp assembled
      exact ⟨surveyed, found, first, by simp [second]⟩
    · rcases assemble_eq_error_iff.mp failed with first | ⟨surveyed, found, first, second⟩
      · exact absurd moved (survey_ne_labelMoved first)
      · refine ⟨surveyed, found, first, fun other again => ?_⟩
        cases second.symm.trans again
        exact ⟨name, before, here, moved⟩
  · intro passes
    obtain ⟨surveyed, found, first, moved⟩ := passes
    cases second : ((Pass.final found.labels).walk config source).outcome with
    | ok result =>
        exact .inl ⟨_, assemble_eq_ok_iff.mpr ⟨surveyed, found, result.1, result.2, first, second, rfl⟩⟩
    | error error =>
        obtain ⟨name, before, here, same⟩ := moved error second
        exact .inr ⟨error, name, before, here,
          assemble_eq_error_iff.mpr (.inr ⟨surveyed, found, first, second⟩), same⟩

/-- A program with a consistent layout is assembled, or has a label reported as moved, exactly if
every line fits where the survey and then the final pass reach it. Otherwise a branch is reported as
out of range, or one of the first two addresses past the top of memory. If no line has another size
in the survey than in the layout, the program is assembled to that layout. -/
theorem accepted_iff_fits (consistent : Consistent config source layout) :
    (((∃ assembly, (assemble config source).outcome = .ok assembly) ∨
        ∃ error name before here, (assemble config source).outcome = .error error ∧
          error.fault = .labelMoved name before here) ↔
      (∀ visit ∈ Pass.survey.visits config source, ¬ visit.Misfits .survey) ∧
        ∀ surveyed found, (Pass.survey.walk config source).outcome = .ok (surveyed, found) →
          ∀ visit ∈ (Pass.final found.labels).visits config source,
            ¬ visit.Misfits (.final found.labels)) ∧
    (∀ error, (assemble config source).outcome = .error error →
      (∃ name before here, error.fault = .labelMoved name before here) ∨
      (∃ target away, error.fault = .branchOutOfRange target away) ∨
      ∃ number, error.fault = .valueOutOfRange number 0x10000 ∧
        (number = 0x10000 ∨ number = 0x10001)) ∧
    ((∀ visit ∈ Pass.survey.visits config source, visit.growth layout = 0) →
      ∃ assembly, (assemble config source).outcome = .ok assembly ∧ assembly.labels = layout) := by
  have surveyCovers : ∀ labels, (Pass.survey.view labels).Covers layout := fun _ => trivial
  refine ⟨?_, fun error failed => ?_, fun still => ?_⟩
  · rw [accepted_iff_passes]
    constructor
    · intro passes
      obtain ⟨surveyed, found, first, moved⟩ := passes
      refine ⟨fun visit => consistent.fits surveyCovers (by simp [first]), ?_⟩
      intro others same again visit
      cases first.symm.trans again
      exact consistent.fits (consistent.covers first) moved
    · intro fit
      obtain ⟨fits, fitsFinal⟩ := fit
      cases first : (Pass.survey.walk config source).outcome with
      | error error =>
          rcases consistent.walk_error surveyCovers first with
            ⟨_, _, _, moved⟩ | ⟨⟨visit, member, misfits⟩, _⟩
          · exact absurd moved (survey_ne_labelMoved first)
          · exact absurd misfits (fits visit member)
      | ok result =>
          refine ⟨result.1, result.2, rfl, fun error second => ?_⟩
          rcases consistent.walk_error (consistent.covers first) second with
            moved | ⟨⟨visit, member, misfits⟩, _⟩
          · exact moved
          · exact absurd misfits (fitsFinal _ _ first visit member)
  · rcases assemble_eq_error_iff.mp failed with first | ⟨surveyed, found, first, second⟩
    · exact (consistent.walk_error surveyCovers first).imp_right And.right
    · exact (consistent.walk_error (consistent.covers first) second).imp_right And.right
  · obtain ⟨entries, last, settled, rfl⟩ := consistent
    obtain ⟨surveyed, first⟩ := Pass.survey_follows settled (.refl _) still
    exact ⟨_, assemble_eq_ok_iff.mpr ⟨surveyed, last, entries, last, first, settled, rfl⟩, rfl⟩

end Acceptance

theorem accepted_iff_fits_drifting :
    Consistent .default drifting driftingAssembly.labels ∧
      ∀ visit ∈ Pass.survey.visits .default drifting, ¬ visit.Misfits .survey := by
  have consistent : Consistent .default drifting driftingAssembly.labels := by decide +kernel
  have accepted := (accepted_iff_fits consistent).1.mp (.inl ⟨driftingAssembly, assemble_drifting⟩)
  exact ⟨consistent, accepted.1⟩

/-- An instruction that ends at the top of memory, and takes three bytes while its label is not
bound. -/
def topmost : Text := "* = $FFFE\nLDA zp\n* = $10\nzp:".toList

def topmostLabels : LabelTable := ⟨[("zp".toList, 0x10)], by decide⟩

/-- A loop of 43 instructions that all take three bytes while their label is not bound. -/
def wideLoop : Text :=
  "* = $C000\nloop:\n".toList ++ (List.replicate 43 "LDA zp\n".toList).flatten ++
    "BNE loop\n* = $10\nzp:".toList

def wideLoopLabels : LabelTable := ⟨[("loop".toList, 0xC000), ("zp".toList, 0x10)], by decide⟩

/-- Two programs with consistent layouts that are refused, and not for a label that has moved. -/
theorem consistent_refused :
    (Consistent .default topmost topmostLabels ∧
      (assemble .default topmost).outcome =
        .error ⟨2, "LDA zp".toList, .valueOutOfRange 0x10000 0x10000⟩) ∧
    (Consistent .default wideLoop wideLoopLabels ∧
      (assemble .default wideLoop).outcome =
        .error ⟨46, "BNE loop".toList, .branchOutOfRange 0xC000 (-131)⟩) := by
  decide +kernel

end Asm65
