import Mathlib.Data.List.Nodup
import Mathlib.Data.Option.Basic
import Asm65.Proofs.Simulation

namespace Asm65

/-! Sources that say the same in other words. Where labels have other names, mnemonics another spelling
and numbers other digits, but each line still says the same, every pass does the same. -/

open Outcome Encoding

/-- Other words for what a source says: another name for each label and other spellings of mnemonics. -/
structure Rewording where
  rename : Text → Text
  injective : Function.Injective rename
  Spells : Text → Text → Prop
  names_eq : ∀ {mnemonic other : Text}, Spells mnemonic other →
    Mnemonic.ofText? other = Mnemonic.ofText? mnemonic

namespace Rewording

variable {via : Rewording}

/-- Operand texts of the same meaning: literals of one number, or a name and its other name. -/
structure SameValue (rename : Text → Text) (text other : Text) : Prop where
  literal : literalValue? other = literalValue? text
  named : literalValue? text = none → other = rename text

structure SameBody (via : Rewording) (body other : Instruction) : Prop where
  mnemonic : via.Spells body.mnemonic other.mnemonic
  mode : other.operand.mode = body.operand.mode
  value : Option.Rel (SameValue via.rename) body.operand.text? other.operand.text?

/-- No label is in view of an origin directive, so a word that is no number stays as it is. -/
inductive Says (via : Rewording) : Statement → Statement → Prop where
  | origin {value other : Text} (same : SameValue id value other) : Says via (.origin value) (.origin other)
  | label (name : Text) : Says via (.label name) (.label (via.rename name))
  | instruction (label : Option Text) {body other : Instruction} (same : via.SameBody body other) :
      Says via (.instruction label body) (.instruction (label.map via.rename) other)

/-- Lines that say the same, say nothing, or cannot be read. -/
inductive Reads (via : Rewording) (line other : Line) : Prop where
  | unread {fault again : Fault} (first : Statement.parse line.text = .error fault)
      (second : Statement.parse other.text = .error again) : Reads via line other
  | blank (first : Statement.parse line.text = .ok none) (second : Statement.parse other.text = .ok none) :
      Reads via line other
  | stated {statement again : Statement} (first : Statement.parse line.text = .ok (some statement))
      (second : Statement.parse other.text = .ok (some again)) (same : via.Says statement again) :
      Reads via line other

/-- The same fault, in the words of each source. -/
inductive SameFault (via : Rewording) : Fault → Fault → Prop where
  | unknownMnemonic {text other : Text} (spells : via.Spells text other) :
      SameFault via (.unknownMnemonic text) (.unknownMnemonic other)
  | unsupportedMode (mnemonic : Mnemonic) (mode : Mode) :
      SameFault via (.unsupportedMode mnemonic mode) (.unsupportedMode mnemonic mode)
  | unresolvedOperand (text : Text) :
      SameFault via (.unresolvedOperand text) (.unresolvedOperand (via.rename text))
  | valueOutOfRange (value bound : Nat) :
      SameFault via (.valueOutOfRange value bound) (.valueOutOfRange value bound)
  | duplicateLabel (name : Text) : SameFault via (.duplicateLabel name) (.duplicateLabel (via.rename name))
  | branchOutOfRange (target : UInt16) (away : Int) :
      SameFault via (.branchOutOfRange target away) (.branchOutOfRange target away)
  | labelMoved (name : Text) (first second : UInt16) :
      SameFault via (.labelMoved name first second) (.labelMoved (via.rename name) first second)

def table (via : Rewording) (labels : LabelTable) : LabelTable where
  entries := labels.entries.map (Prod.map via.rename id)
  nodup := by
    have renamed : (labels.entries.map (Prod.map via.rename id)).map Prod.fst =
        (labels.entries.map Prod.fst).map via.rename := by
      simp [Function.comp_def]
    rw [renamed]
    exact List.Nodup.map via.injective labels.nodup

def view (via : Rewording) : LabelView → LabelView
  | .growing labels => .growing (via.table labels)
  | .complete labels => .complete (via.table labels)

def pass (via : Rewording) : Pass → Pass
  | .survey => .survey
  | .final known => .final (via.table known)

section Tables

variable {labels bound : LabelTable} {name : Text} {here : UInt16} {label : Option Text} {pass : Pass}

theorem get?_table : (via.table labels).get? (via.rename name) = labels.get? name := by
  simp only [LabelTable.get?, table]
  induction labels.entries with
  | nil => rfl
  | cons row rest ih =>
      have same : (via.rename name == via.rename row.1) = (name == row.1) := by
        rw [Bool.eq_iff_iff, beq_iff_eq, beq_iff_eq, via.injective.eq_iff]
      rw [List.map_cons, List.lookup_cons, List.lookup_cons, ih]
      simp only [Prod.map_fst, Prod.map_snd, id_eq, same]

theorem mem_names_table : via.rename name ∈ (via.table labels).names ↔ name ∈ labels.names := by
  rw [LabelTable.mem_names_iff, LabelTable.mem_names_iff, get?_table]

theorem table_empty : via.table .empty = .empty := rfl

theorem view_pass : via.view (pass.view labels) = (via.pass pass).view (via.table labels) := by
  cases pass <;> rfl

theorem confirm_alike :
    Alike via.SameFault Eq (pass.confirm name here) ((via.pass pass).confirm (via.rename name) here) := by
  cases pass with
  | survey => exact .ok rfl
  | final known =>
      simp only [Pass.confirm, Rewording.pass, get?_table]
      cases known.get? name with
      | none => exact .ok rfl
      | some found =>
          by_cases same : found = here
          · simp only [same, if_true]
            exact .ok rfl
          · simp only [same, if_false]
            exact .error (.labelMoved name found here)

theorem bindLabel?_alike :
    Alike via.SameFault (fun bound other => other = via.table bound)
      (pass.bindLabel? labels label here).outcome
      ((via.pass pass).bindLabel? (via.table labels) (label.map via.rename) here).outcome := by
  cases binds : (pass.bindLabel? labels label here).outcome with
  | ok bound =>
      obtain ⟨grown, fresh⟩ := Pass.bindLabel?_eq_ok_iff.mp binds
      have bindsToo : ((via.pass pass).bindLabel? (via.table labels) (label.map via.rename) here).outcome =
          .ok (via.table bound) := by
        refine Pass.bindLabel?_eq_ok_iff.mpr ⟨?_, ?_⟩
        · simp only [table, grown, List.map_append]
          cases label <;> rfl
        · intro other named
          obtain ⟨name, rfl, rfl⟩ := Option.map_eq_some_iff.mp named
          obtain ⟨free, confirmed⟩ := fresh name rfl
          obtain ⟨_, confirmedToo, rfl⟩ := confirm_alike.of_ok confirmed
          exact ⟨mt mem_names_table.mp free, confirmedToo⟩
      rw [bindsToo]
      exact .ok rfl
  | error fault =>
      obtain ⟨name, rfl, ⟨taken, rfl⟩ | ⟨free, moved⟩⟩ := Pass.bindLabel?_eq_error_iff.mp binds
      all_goals rw [Option.map_some]
      · rw [Pass.bindLabel?_eq_error_iff.mpr ⟨_, rfl, .inl ⟨mem_names_table.mpr taken, rfl⟩⟩]
        exact .error (.duplicateLabel name)
      · obtain ⟨again, movedToo, same⟩ := (@confirm_alike via name here pass).of_error moved
        rw [Pass.bindLabel?_eq_error_iff.mpr ⟨_, rfl, .inr ⟨mt mem_names_table.mp free, movedToo⟩⟩]
        exact .error same

end Tables

section Encoding

variable {text other : Text} {width : Width} {labels : LabelView} {here : UInt16} {body again : Instruction}

theorem fit_alike (number : Nat) : Alike via.SameFault Eq (width.fit number) (width.fit number) := by
  unfold Width.fit
  split
  · exact .ok rfl
  · exact .error (.valueOutOfRange number width.limit)

theorem valueOf_alike (same : SameValue via.rename text other) :
    Alike via.SameFault Eq (valueOf text width labels here) (valueOf other width (via.view labels) here) := by
  cases literal : literalValue? text with
  | some number =>
      rw [valueOf_literal literal, valueOf_literal (same.literal.trans literal)]
      exact fit_alike number
  | none =>
      have named := same.literal.trans literal
      cases same.named literal
      cases labels with
      | growing seen =>
          simp only [valueOf, literal, named, view, get?_table]
          cases seen.get? text with
          | some address => exact fit_alike address.toNat
          | none => exact .ok rfl
      | complete known =>
          simp only [valueOf, literal, named, view, get?_table]
          cases known.get? text with
          | some address => exact fit_alike address.toNat
          | none => exact .error (.unresolvedOperand text)

theorem emit_alike {mnemonic : Mnemonic} {mode : Mode} {opcode : UInt8} (value : UInt16) :
    Alike via.SameFault Eq (emit mnemonic mode opcode value here) (emit mnemonic mode opcode value here) := by
  cases emitted : emit mnemonic mode opcode value here with
  | ok bytes => exact .ok rfl
  | error fault =>
      obtain ⟨_, _, _, rfl⟩ := emit_eq_error_iff.mp emitted
      exact .error (.branchOutOfRange value _)

theorem sees_eq {operand other : Operand} (mode : other.mode = operand.mode) :
    other.width = operand.width ∧ other.sees (via.view labels) = via.view (operand.sees labels) := by
  cases operand with
  | indexed text index =>
      cases index <;> cases other with
      | indexed => exact ⟨rfl, rfl⟩
      | implied | accumulator | immediate | absolute | indirect | indexedIndirect | indirectIndexed =>
          cases mode
  | implied | accumulator | immediate | absolute | indirect | indexedIndirect | indirectIndexed =>
      cases other with
      | indexed text index => cases index <;> cases mode
      | implied | accumulator | immediate | absolute | indirect | indexedIndirect | indirectIndexed =>
          first
            | exact ⟨rfl, rfl⟩
            | cases mode

theorem encode_alike (same : via.SameBody body again) :
    Alike via.SameFault Eq (body.encode labels here) (again.encode (via.view labels) here) := by
  have names := via.names_eq same.mnemonic
  cases named : Mnemonic.ofText? body.mnemonic with
  | none =>
      rw [Instruction.encode_eq_error_iff.mpr (.inl ⟨named, rfl⟩),
        Instruction.encode_eq_error_iff.mpr (.inl ⟨names.trans named, rfl⟩)]
      exact .error (.unknownMnemonic same.mnemonic)
  | some mnemonic =>
      cases allowed : mnemonic.opcode? body.operand.mode with
      | none =>
          have unsupported : mnemonic.opcode? again.operand.mode = none := by rw [same.mode, allowed]
          rw [Instruction.encode_eq_error_iff.mpr (.inr (.inl ⟨mnemonic, named, allowed, rfl⟩)),
            Instruction.encode_eq_error_iff.mpr
              (.inr (.inl ⟨mnemonic, names.trans named, unsupported, rfl⟩)), same.mode]
          exact .error (.unsupportedMode mnemonic _)
      | some opcode =>
          have supported : again.Supported mnemonic opcode := by
            refine ⟨names.trans named, ?_⟩
            rw [same.mode, allowed]
          obtain ⟨width, sees⟩ := @sees_eq via labels _ _ same.mode
          rw [Instruction.encode_of_supported ⟨named, allowed⟩, Instruction.encode_of_supported supported,
            width, sees, same.mode]
          have value := same.value
          generalize body.operand.text? = text at value ⊢
          generalize again.operand.text? = other at value ⊢
          cases value with
          | none => exact .ok rfl
          | some same =>
              apply (valueOf_alike same).bind
              rintro value _ rfl
              exact emit_alike value

end Encoding

structure Beside (via : Rewording) (progress other : Progress) : Prop where
  pc : other.pc = progress.pc
  labels : other.labels = via.table progress.labels

/-- The entry of an instruction in two sources, each with the number of its own line. -/
structure SameEntry (via : Rewording) (line again : Line) (entry other : Entry) : Prop where
  number : entry.line = line.number ∧ other.line = again.number
  address : other.address = entry.address
  label : other.label = entry.label.map via.rename
  bytes : other.bytes = entry.bytes

/-- The faults of a line and of its other wording. An origin directive knows no labels, so its fault stays
as it is. -/
inductive FaultAt (via : Rewording) (line : Line) : Fault → Fault → Prop where
  | unread {fault : Fault} (unread : Statement.parse line.text = .error fault) (text other : Text) :
      FaultAt via line (.unreadableLine text) (.unreadableLine other)
  | origin (directs : line.isOrigin = true) (fault : Fault) : FaultAt via line fault fault
  | named {fault cause : Fault} (occupies : line.isOrigin = false) (same : via.SameFault fault cause) :
      FaultAt via line fault cause

section Step

variable {pass : Pass} {progress after next : Progress} {line other : Line} {statement again : Statement}
  {entry : Option Entry} {fault : Fault} {trace : Bool}

theorem valueOf_origin {value other : Text} (same : SameValue id value other) {width : Width}
    {view : LabelView} {here : UInt16} : valueOf other width view here = valueOf value width view here := by
  cases literal : literalValue? value with
  | some number => rw [valueOf_literal literal, valueOf_literal (same.literal.trans literal)]
  | none => rw [same.named literal, id_eq]

theorem Says.advances (stated : via.Says statement again) (beside : via.Beside progress after)
    (advances : pass.Advances line.number progress (some statement) entry next) :
    ∃ made later, (via.pass pass).Advances other.number after (some again) made later ∧
      via.Beside next later ∧ List.Forall₂ (via.SameEntry line other) entry.toList made.toList := by
  obtain ⟨pc, labels⟩ := after
  obtain ⟨rfl, rfl⟩ := beside
  cases stated with
  | origin same =>
      cases advances with
      | origin read =>
          rw [← valueOf_origin same] at read
          exact ⟨none, _, .origin read, ⟨rfl, rfl⟩, .nil⟩
  | label name =>
      cases advances with
      | label placed binds =>
          obtain ⟨_, bindsToo, rfl⟩ := bindLabel?_alike.of_ok binds
          exact ⟨none, _, .label placed bindsToo, ⟨rfl, rfl⟩, .nil⟩
  | instruction label same =>
      cases advances with
      | instruction placed binds encoded room =>
          obtain ⟨_, bindsToo, rfl⟩ := bindLabel?_alike.of_ok binds
          obtain ⟨_, encodedToo, rfl⟩ := (encode_alike same).of_ok encoded
          rw [view_pass] at encodedToo
          exact ⟨_, _, .instruction placed bindsToo encodedToo room, ⟨rfl, rfl⟩,
            .cons ⟨⟨rfl, rfl⟩, rfl, rfl, rfl⟩ .nil⟩

theorem Says.refuses (stated : via.Says statement again) (beside : via.Beside progress after)
    (refuses : pass.Refuses progress statement fault) :
    ∃ cause, (via.pass pass).Refuses after again cause ∧
      (statement.isOrigin = true ∧ cause = fault ∨
        statement.isOrigin = false ∧ via.SameFault fault cause) := by
  obtain ⟨pc, labels⟩ := after
  obtain ⟨rfl, rfl⟩ := beside
  have occupies : again.isOrigin = statement.isOrigin := by cases stated <;> rfl
  have named : statement.isOrigin = false → again.label? = statement.label?.map via.rename := by
    cases stated <;> simp [Statement.isOrigin, Statement.label?]
  cases refuses with
  | origin unread =>
      cases stated with
      | origin same => exact ⟨fault, .origin (valueOf_origin same ▸ unread), .inl ⟨rfl, rfl⟩⟩
  | outside place past =>
      exact ⟨_, .outside (occupies.trans place) past, .inr ⟨place, .valueOutOfRange _ _⟩⟩
  | label place placed unbound =>
      obtain ⟨cause, unboundToo, same⟩ := (@bindLabel?_alike via _ _ _ _).of_error unbound
      rw [← named place] at unboundToo
      exact ⟨cause, .label (occupies.trans place) placed unboundToo, .inr ⟨place, same⟩⟩
  | encoding placed binds unencoded =>
      cases stated with
      | instruction label same =>
          obtain ⟨_, bindsToo, rfl⟩ := (@bindLabel?_alike via _ _ _ _).of_ok binds
          obtain ⟨cause, unencodedToo, sameFault⟩ := (encode_alike same).of_error unencoded
          rw [view_pass] at unencodedToo
          exact ⟨cause, .encoding placed bindsToo unencodedToo, .inr ⟨rfl, sameFault⟩⟩
  | room placed binds encoded past =>
      cases stated with
      | instruction label same =>
          obtain ⟨_, bindsToo, rfl⟩ := (@bindLabel?_alike via _ _ _ _).of_ok binds
          obtain ⟨_, encodedToo, rfl⟩ := (encode_alike same).of_ok encoded
          rw [view_pass] at encodedToo
          exact ⟨_, .room placed bindsToo encodedToo past, .inr ⟨rfl, .valueOutOfRange _ _⟩⟩

theorem step_alike (read : via.Reads line other) (beside : via.Beside progress after) :
    Alike (via.FaultAt line)
      (fun taken also => via.Beside taken.2 also.2 ∧
        List.Forall₂ (via.SameEntry line other) taken.1.toList also.1.toList)
      (pass.step trace progress line).outcome ((via.pass pass).step trace after other).outcome := by
  cases read with
  | unread first second =>
      rw [Pass.step_eq_error_iff.mpr (.inl first), Pass.step_eq_error_iff.mpr (.inl second)]
      obtain ⟨text, rfl⟩ := Statement.fault_of_parse first
      obtain ⟨again, rfl⟩ := Statement.fault_of_parse second
      exact .error (.unread first text again)
  | blank first second =>
      rw [Pass.step_eq_ok_iff.mpr ⟨none, first, .blank⟩, Pass.step_eq_ok_iff.mpr ⟨none, second, .blank⟩]
      exact .ok ⟨beside, .nil⟩
  | @stated statement again first second same =>
      cases stepped : (pass.step trace progress line).outcome with
      | ok taken =>
          obtain ⟨_, parsed, advances⟩ := Pass.step_eq_ok_iff.mp stepped
          cases first.symm.trans parsed
          obtain ⟨made, later, advancesToo, besideNext, makes⟩ := same.advances beside advances
          rw [Pass.step_eq_ok_iff.mpr ⟨_, second, advancesToo⟩]
          exact .ok ⟨besideNext, makes⟩
      | error fault =>
          have directs : line.isOrigin = statement.isOrigin := by
            simp [Line.isOrigin, Line.statement?_of_parse first]
          rcases Pass.step_eq_error_iff.mp stepped with unread | ⟨_, parsed, refuses⟩
          · cases first.symm.trans unread
          · cases first.symm.trans parsed
            obtain ⟨cause, refusesToo, ⟨directive, rfl⟩ | ⟨place, sameFault⟩⟩ := same.refuses beside refuses
            · rw [Pass.step_eq_error_iff.mpr (.inr ⟨_, second, refusesToo⟩)]
              exact .error (.origin (directs.trans directive) cause)
            · rw [Pass.step_eq_error_iff.mpr (.inr ⟨_, second, refusesToo⟩)]
              exact .error (.named (directs.trans place) sameFault)

end Step

section Run

variable {pairs : List (Line × Line)} {lines others : List Line} {config : Config}

/-- An error at a line and the same one at the line paired with it. -/
def SameError (via : Rewording) (pairs : List (Line × Line)) (error other : SourceError) : Prop :=
  ∃ pair ∈ pairs, ∃ fault cause, via.FaultAt pair.1 fault cause ∧
    error = pair.1.refuse fault ∧ other = pair.2.refuse cause

def SameEntries (via : Rewording) (pairs : List (Line × Line)) : List Entry → List Entry → Prop :=
  List.Forall₂ fun entry other => ∃ pair ∈ pairs, via.SameEntry pair.1 pair.2 entry other

structure SameAssembly (via : Rewording) (pairs : List (Line × Line)) (assembly other : Assembly) : Prop where
  origin : other.origin = assembly.origin
  bytes : other.bytes = assembly.bytes
  labels : other.labels = via.table assembly.labels
  entries : via.SameEntries pairs assembly.entries other.entries

theorem SameEntries.bytes_eq {entries again : List Entry} (same : via.SameEntries pairs entries again) :
    again.flatMap Entry.bytes = entries.flatMap Entry.bytes := by
  induction same with
  | nil => rfl
  | cons first _ ih =>
      obtain ⟨_, _, same⟩ := first
      rw [List.flatMap_cons, List.flatMap_cons, ih, same.bytes]

theorem SameEntries.origin_eq {entries again : List Entry} (same : via.SameEntries pairs entries again) :
    again.head?.map Entry.address = entries.head?.map Entry.address := by
  cases same with
  | nil => rfl
  | cons first _ =>
      obtain ⟨_, _, same⟩ := first
      simp only [List.head?_cons, Option.map_some, same.address]

theorem run_alike {pass : Pass} {trace : Bool} {progress after : Progress}
    (read : List.Forall₂ via.Reads lines others) (beside : via.Beside progress after) :
    Alike (via.SameError (lines.zip others))
      (fun done also => via.Beside done.2 also.2 ∧ via.SameEntries (lines.zip others) done.1 also.1)
      (pass.run trace lines progress).outcome ((via.pass pass).run trace others after).outcome := by
  obtain ⟨length, each⟩ := List.forall₂_iff_zip.mp read
  have paired : List.Forall₂ (fun line other => (line, other) ∈ lines.zip others ∧ via.Reads line other)
      lines others :=
    List.forall₂_iff_zip.mpr ⟨length, fun member => ⟨member, each member⟩⟩
  have along := @Pass.run_alike pass (via.pass pass) trace progress after lines others via.Beside _
    (fun entry other => ∃ pair ∈ lines.zip others, via.SameEntry pair.1 pair.2 entry other)
    (fun line _ => via.FaultAt line) paired beside
  refine (along ?_).imp ?_ ?_
  · rintro line other now later ⟨member, reads⟩ besideHere
    refine (step_alike reads besideHere).imp (fun _ _ => id) ?_
    rintro taken also ⟨besideNext, makes⟩
    exact ⟨besideNext, makes.imp fun _ _ same => ⟨(line, other), member, same⟩⟩
  · rintro error also ⟨line, other, fault, cause, ⟨member, _⟩, same, rfl, rfl⟩
    exact ⟨(line, other), member, fault, cause, same, rfl, rfl⟩
  · exact fun _ _ => id

theorem assembleLines_alike (read : List.Forall₂ via.Reads lines others) :
    Alike (via.SameError (lines.zip others)) (via.SameAssembly (lines.zip others))
      (assembleLines config lines) (assembleLines config others) := by
  have start : via.Beside (.start config) (.start config) := ⟨rfl, table_empty.symm⟩
  have surveyed := @run_alike via lines others .survey config.trace _ _ read start
  refine surveyed.bind ?_
  rintro ⟨_, found⟩ ⟨_, again⟩ ⟨besideFound, _⟩
  have known : Pass.final again.labels = via.pass (.final found.labels) := by
    rw [besideFound.labels]
    rfl
  simp only [known]
  refine (run_alike read start).bind ?_
  rintro ⟨entries, last⟩ ⟨made, later⟩ ⟨besideLast, makes⟩
  refine .ok ⟨?_, makes.bytes_eq, besideLast.labels, makes⟩
  simp only [Assembly.ofEntries, makes.origin_eq]

end Run

end Rewording

end Asm65
