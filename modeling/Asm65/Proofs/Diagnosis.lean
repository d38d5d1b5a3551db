import Asm65.Proofs.Backward
import Asm65.Proofs.Decoding
import Asm65.Proofs.Drift

namespace Asm65

open Outcome Encoding

/-- The line is written as the grammar says for this statement. -/
def Line.States (line : Line) (statement : Statement) : Prop :=
  statement.Written (codeOf line.text)

def Line.Defines (line : Line) (name : Text) : Prop :=
  ∃ statement, line.States statement ∧ statement.label? = some name

/-- A pass that assembling a source makes: the survey, and with the labels it finds the final
pass. -/
inductive Pass.Occurs (config : Config) (source : Text) : Pass → Prop where
  | survey : Occurs config source .survey
  | final {surveyed : List Entry} {found : Progress}
      (finished : (Pass.survey.walk config source).outcome = .ok (surveyed, found)) :
      Occurs config source (.final found.labels)

structure Line.Reached (config : Config) (source : Text) (line : Line) (pass : Pass)
    (progress : Progress) : Prop where
  occurs : pass.Occurs config source
  visited : { progress, line } ∈ pass.visits config source

/-- What an operand stands for where a pass has come to. The survey takes the address itself for a
name that is not bound yet. -/
def Progress.meaning? (pass : Pass) (progress : Progress) (text : Text) : Option Nat :=
  match pass with
  | .survey => some ((progress.labels.meaning? text).getD progress.pc)
  | .final known => known.meaning? text

/-- The value that a statement asks for, with the width it has to fit in. -/
def Statement.value? : Statement → Option (Text × Width)
  | origin text => some (text, .word)
  | label _ => none
  | instruction _ body => body.operand.text?.map (·, body.operand.width)

inductive Line.Faulty (config : Config) (source : Text) (line : Line) : Fault → Prop where
  | unreadable {label text : Text} (outside : ∀ statement, ¬ line.States statement)
      (code : codeOf line.text = label ++ text) (filled : text ≠ [])
      (labelled : label = [] ∨
        ∃ name gap : Text, name.IsRun isNameChar ∧ gap.IsGap ∧ label = name ++ ':' :: gap) :
      Faulty config source line (.unreadableLine text)
  | unknownMnemonic {label : Option Text} {body : Instruction}
      (states : line.States (.instruction label body))
      (unknown : ∀ mnemonic : Mnemonic, mnemonic.name ≠ body.mnemonic.map Char.toUpper) :
      Faulty config source line (.unknownMnemonic body.mnemonic)
  | unsupportedMode {label : Option Text} {body : Instruction} {mnemonic : Mnemonic}
      (states : line.States (.instruction label body))
      (named : mnemonic.name = body.mnemonic.map Char.toUpper)
      (unlisted : ∀ opcode, (body.operand.mode, opcode) ∉ mnemonic.encodings) :
      Faulty config source line (.unsupportedMode mnemonic body.operand.mode)
  | duplicateLabel {name : Text} {earlier : Line} (member : earlier ∈ Line.ofSource source)
      (before : earlier.number < line.number) (first : earlier.Defines name)
      (again : line.Defines name) :
      Faulty config source line (.duplicateLabel name)
  /-- An origin is a hexadecimal numeral with a letter in it, but without the dollar sign. -/
  | bareOrigin {value : Text} (states : line.States (.origin value)) (digits : value.IsRun isHexDigit)
      (letter : ∃ c ∈ value, isDecimalDigit c = false) :
      Faulty config source line (.unresolvedOperand value)
  | undefinedName {label : Option Text} {body : Instruction} {name : Text}
      (states : line.States (.instruction label body)) (takes : body.operand.text? = some name)
      (named : ∀ number, ¬ Literal name number)
      (undefined : ∀ other ∈ Line.ofSource source, ¬ other.Defines name) :
      Faulty config source line (.unresolvedOperand name)
  | largeLiteral {statement : Statement} {text : Text} {width : Width} {number value : Nat}
      (states : line.States statement) (takes : statement.value? = some (text, width))
      (literal : Literal text number) (saturated : value = min number literalLimit)
      (large : width.limit ≤ value) :
      Faulty config source line (.valueOutOfRange value width.limit)
  /-- Memory is full when a pass comes to the line. -/
  | outside {statement : Statement} {pass : Pass} {progress : Progress} (states : line.States statement)
      (occupies : statement.isOrigin = false) (reached : line.Reached config source pass progress)
      (full : progress.pc = 0x10000) :
      Faulty config source line (.valueOutOfRange 0x10000 0x10000)
  /-- The last byte of the instruction lies one or two past the top of memory. -/
  | overrun {label : Option Text} {body : Instruction} {pass : Pass} {progress : Progress}
      {value : UInt16} {address : Nat} (states : line.States (.instruction label body))
      (reached : line.Reached config source pass progress)
      (takes : ∀ text, body.operand.text? = some text →
        progress.meaning? pass text = some value.toNat)
      (ends : address + 1 = progress.pc + body.size value)
      (past : address = 0x10000 ∨ address = 0x10001) :
      Faulty config source line (.valueOutOfRange address 0x10000)
  | farBranch {label : Option Text} {body : Instruction} {text : Text} {pass : Pass}
      {progress : Progress} {here target : UInt16} (states : line.States (.instruction label body))
      (branches : body.isBranch = true) (operand : body.operand = .absolute text)
      (reached : line.Reached config source pass progress) (placed : here.toNat = progress.pc)
      (means : progress.meaning? pass text = some target.toNat) (far : ¬ InReach target here) :
      Faulty config source line (.branchOutOfRange target (distance target here))
  | movedLabel {name : Text} {known : LabelTable} {surveyed settled : Progress}
      {first second : UInt16} (defines : line.Defines name)
      (before : line.Reached config source .survey surveyed) (found : first.toNat = surveyed.pc)
      (after : line.Reached config source (.final known) settled) (here : second.toNat = settled.pc)
      (moved : first ≠ second) :
      Faulty config source line (.labelMoved name first second)

variable {config : Config} {source text : Text} {line : Line} {pass : Pass} {progress : Progress}
  {fault : Fault} {assembly : Assembly}

theorem Line.states_iff {statement : Statement} :
    line.States statement ↔ Statement.parse line.text = .ok (some statement) :=
  Statement.parse_eq_ok_some_iff.symm

theorem Line.defines_iff {name : Text} : line.Defines name ↔ line.label? = some name := by
  rw [label?, Option.bind_eq_some_iff]
  refine exists_congr fun statement => and_congr_left fun _ => ?_
  rw [states_iff]
  exact ⟨statement?_of_parse, parse_of_statement?⟩

theorem Mnemonic.ofName?_name (mnemonic : Mnemonic) : ofName? mnemonic.name = some mnemonic := by
  cases mnemonic <;> rfl

theorem Mnemonic.ofText?_eq_some_iff {mnemonic : Mnemonic} :
    ofText? text = some mnemonic ↔ mnemonic.name = text.map Char.toUpper := by
  constructor
  · intro found
    simpa using List.find?_some found
  · intro named
    rw [ofText?, ← named, ofName?_name]

/-- What the view of a pass gives for an operand, once the line's own label is bound. -/
theorem valueOf_view_eq_ok_iff {label : Option Text} {labels : LabelTable} {here value : UInt16}
    (placed : here.toNat = progress.pc)
    (binds : (pass.bindLabel? progress.labels label here).outcome = .ok labels) :
    valueOf text .word (pass.view labels) here = .ok value ↔
      progress.meaning? pass text = some value.toNat := by
  have inMemory := value.toNat_lt
  cases pass with
  | final known =>
      simp only [Pass.view, valueOf_complete_eq_ok_iff, Progress.meaning?, Width.limit]
      exact and_iff_left inMemory
  | survey =>
      obtain ⟨entries, _⟩ := Pass.bindLabel?_eq_ok_iff.mp binds
      cases literal : literalValue? text with
      | some number =>
          simp only [valueOf_literal literal, Width.word_fit_eq_ok_iff, Progress.meaning?,
            LabelTable.meaning?, literal, Option.getD_some, Option.some.injEq]
          exact eq_comm
      | none =>
          simp only [Pass.view, Progress.meaning?, LabelTable.meaning?, literal, Option.some.injEq]
          cases before : progress.labels.get? text with
          | some address =>
              have bound : labels.get? text = some address := by
                rw [LabelTable.get?_eq_some_iff, entries]
                exact List.mem_append_left _ (LabelTable.get?_eq_some_iff.mp before)
              rw [valueOf_growing_bound literal bound, Option.map_some, Option.getD_some,
                Except.ok.injEq, UInt16.toNat_inj]
          | none =>
              -- a name that is not bound yet, or bound to this very address by the line's label
              have guessed : valueOf text .word (.growing labels) here = .ok here := by
                cases bound : labels.get? text with
                | none => exact valueOf_growing_free literal bound
                | some address =>
                    rw [valueOf_growing_bound literal bound]
                    rw [LabelTable.get?_eq_some_iff, entries] at bound
                    rcases List.mem_append.mp bound with old | own
                    · simp [LabelTable.get?_eq_some_iff.mpr old] at before
                    · obtain ⟨_, _, same⟩ := Option.map_eq_some_iff.mp (Option.mem_toList.mp own)
                      cases same
                      rfl
              rw [guessed, Except.ok.injEq, Option.map_none, Option.getD_none, ← placed, UInt16.toNat_inj]

theorem Progress.meaning?_of_literal {number : Nat} (literal : literalValue? text = some number) :
    progress.meaning? pass text = some number := by
  cases pass <;> simp [Progress.meaning?, LabelTable.meaning?, literal]

/-- The value with which an instruction is encoded is what its operand stands for. -/
theorem Instruction.Takes.meaning? {body : Instruction} {label : Option Text} {labels : LabelTable}
    {here value : UInt16} (takes : body.Takes (pass.view labels) here value)
    (placed : here.toNat = progress.pc)
    (binds : (pass.bindLabel? progress.labels label here).outcome = .ok labels)
    (written : body.operand.text? = some text) :
    progress.meaning? pass text = some value.toNat ∧ value.toNat < body.operand.width.limit := by
  have valued := takes text written
  cases operand : body.operand with
  | immediate =>
      rw [operand] at valued
      obtain ⟨means, fits⟩ := valueOf_complete_eq_ok_iff.mp valued
      cases pass with
      | survey => exact ⟨by simp [Progress.meaning?, LabelTable.meaning?_of_empty means], fits⟩
      | final known => exact ⟨LabelTable.meaning?_of_empty means, fits⟩
  | implied | accumulator | absolute | indexed | indirect | indexedIndirect | indirectIndexed =>
      rw [operand] at valued
      exact ⟨(valueOf_view_eq_ok_iff placed binds).mp valued, value.toNat_lt⟩

theorem Pass.occurs_final_iff {known : LabelTable} :
    (Pass.final known).Occurs config source ↔
      ∃ surveyed found, (Pass.survey.walk config source).outcome = .ok (surveyed, found) ∧
        known = found.labels := by
  constructor
  · intro occurs
    cases occurs with
    | final finished => exact ⟨_, _, finished, rfl⟩
  · rintro ⟨_, _, finished, rfl⟩
    exact .final finished

namespace Line

/-- The labels that a pass brings to a line are those of the lines before it. -/
theorem Reached.mem_names_iff {name : Text} (reached : line.Reached config source pass progress) :
    name ∈ progress.labels.names ↔
      ∃ earlier ∈ Line.ofSource source, earlier.number < line.number ∧ earlier.Defines name := by
  obtain ⟨index, found⟩ := List.mem_iff_getElem?.mp reached.visited
  have number : line.number = index + 1 := ofSource_number (Pass.trail_line found)
  rw [Pass.trail_names found, Progress.start, LabelTable.names_empty, List.nil_append,
    List.mem_filterMap]
  constructor
  · rintro ⟨earlier, before, binds⟩
    obtain ⟨position, inFront, rfl⟩ := List.mem_take_iff_getElem.mp before
    refine ⟨_, List.getElem_mem _, ?_, defines_iff.mpr binds⟩
    rw [ofSource_number (List.getElem?_eq_getElem (by omega)), number]
    omega
  · rintro ⟨earlier, member, before, defines⟩
    obtain ⟨position, within, rfl⟩ := List.mem_iff_getElem.mp member
    refine ⟨_, List.mem_take_iff_getElem.mpr ⟨position, ?_, rfl⟩, defines_iff.mp defines⟩
    rw [ofSource_number (List.getElem?_eq_getElem within), number] at before
    omega

end Line

section Accepted

variable {known : LabelTable} {statement : Statement}

theorem Pass.Occurs.finished (assembled : (assemble config source).outcome = .ok assembly)
    (occurs : pass.Occurs config source) :
    ∃ entries last, (pass.walk config source).outcome = .ok (entries, last) := by
  obtain ⟨_, _, _, passes⟩ := passes_of_assemble assembled
  cases occurs with
  | survey => exact ⟨_, _, passes.survey⟩
  | final finished =>
      cases passes.survey.symm.trans finished
      exact ⟨_, _, passes.foundLabels ▸ passes.final⟩

namespace Line

/-- A line of an accepted source is taken by every pass that comes to it. -/
theorem Reached.taken (assembled : (assemble config source).outcome = .ok assembly)
    (reached : line.Reached config source pass progress) :
    ∃ statement entry next, Statement.parse line.text = .ok statement ∧
      pass.Advances line.number progress statement entry next := by
  obtain ⟨_, _, finished⟩ := reached.occurs.finished assembled
  obtain ⟨entry, next, stepped⟩ := Pass.step_of_mem_trail finished reached.visited
  obtain ⟨statement, read, advances⟩ := Pass.step_eq_ok_iff.mp stepped
  exact ⟨statement, entry, next, read, advances⟩

theorem Reached.advances (assembled : (assemble config source).outcome = .ok assembly)
    (reached : line.Reached config source pass progress) (states : line.States statement) :
    ∃ entry next, pass.Advances line.number progress (some statement) entry next := by
  obtain ⟨_, entry, next, read, advances⟩ := reached.taken assembled
  cases (states_iff.mp states).symm.trans read
  exact ⟨entry, next, advances⟩

theorem exists_reached (assembled : (assemble config source).outcome = .ok assembly)
    (member : line ∈ Line.ofSource source) :
    ∃ progress, line.Reached config source (.final assembly.labels) progress := by
  obtain ⟨surveyed, found, _, passes⟩ := passes_of_assemble assembled
  rw [← Pass.trail_lines_of_ok passes.final] at member
  obtain ⟨⟨progress, _⟩, visited, rfl⟩ := List.mem_map.mp member
  exact ⟨progress, Pass.occurs_final_iff.mpr ⟨surveyed, found, passes.survey, passes.foundLabels.symm⟩, visited⟩

/-- An instruction of an accepted source, at the address at which a pass comes to it: it exists, its
operand has a value that fits, and with that value it ends in memory and is in reach. -/
theorem Reached.encodes {label : Option Text} {body : Instruction}
    (assembled : (assemble config source).outcome = .ok assembly)
    (reached : line.Reached config source pass progress)
    (states : line.States (.instruction label body)) :
    ∃ mnemonic opcode here value, body.Supported mnemonic opcode ∧ here.toNat = progress.pc ∧
      progress.pc + body.size value ≤ 0x10000 ∧ (body.isBranch = true → InReach value here) ∧
      ∀ text, body.operand.text? = some text →
        progress.meaning? pass text = some value.toNat ∧ value.toNat < body.operand.width.limit := by
  obtain ⟨_, _, advances⟩ := reached.advances assembled states
  cases advances with
  | @instruction _ _ here labels bytes placed binds encoded room =>
      obtain ⟨mnemonic, opcode, supported⟩ := Instruction.supported_of_encode encoded
      obtain ⟨value, length, takes⟩ := Instruction.encode_length encoded
      refine ⟨mnemonic, opcode, here, value, supported, placed, length ▸ room,
        Instruction.inReach_of_encode encoded takes, fun text => takes.meaning? placed binds⟩

theorem Reached.origin_literal {value : Text}
    (assembled : (assemble config source).outcome = .ok assembly)
    (reached : line.Reached config source pass progress) (states : line.States (.origin value)) :
    ∃ number, literalValue? value = some number ∧ number < 0x10000 := by
  obtain ⟨_, _, advances⟩ := reached.advances assembled states
  cases advances with
  | @origin _ address read =>
      cases literal : literalValue? value with
      | none => simp [valueOf_complete_free literal LabelTable.get?_empty] at read
      | some number =>
          rw [valueOf_literal literal, Width.word_fit_eq_ok_iff] at read
          exact ⟨number, rfl, read ▸ address.toNat_lt⟩

theorem Reached.pc_lt (assembled : (assemble config source).outcome = .ok assembly)
    (reached : line.Reached config source pass progress) (states : line.States statement)
    (occupies : statement.isOrigin = false) : progress.pc < 0x10000 := by
  obtain ⟨_, _, advances⟩ := reached.advances assembled states
  cases advances with
  | origin => cases occupies
  | @label _ here _ placed => exact placed ▸ here.toNat_lt
  | @instruction _ _ here _ _ placed => exact placed ▸ here.toNat_lt

theorem Reached.fresh {name : Text} (assembled : (assemble config source).outcome = .ok assembly)
    (reached : line.Reached config source pass progress) (defines : line.Defines name) :
    name ∉ progress.labels.names := by
  obtain ⟨_, _, finished⟩ := reached.occurs.finished assembled
  obtain ⟨index, found⟩ := List.mem_iff_getElem?.mp reached.visited
  exact Pass.fresh_of_reached (Pass.walk_nodup finished) found (defines_iff.mp defines)

/-- A name that means something in the final pass is defined in the source. -/
theorem Reached.name_of_meaning? {name : Text} {number : Nat}
    (reached : line.Reached config source (.final known) progress) (named : literalValue? name = none)
    (means : progress.meaning? (.final known) name = some number) :
    ∃ other ∈ Line.ofSource source, other.Defines name := by
  obtain ⟨_, _, finished, rfl⟩ := Pass.occurs_final_iff.mp reached.occurs
  simp only [Progress.meaning?, LabelTable.meaning?, named, Option.map_eq_some_iff] at means
  obtain ⟨address, bound, _⟩ := means
  have listed := LabelTable.mem_names_iff.mpr ⟨address, bound⟩
  rw [Pass.walk_names finished] at listed
  obtain ⟨other, member, binds⟩ := List.mem_filterMap.mp listed
  exact ⟨other, member, defines_iff.mpr binds⟩

theorem Reached.readable (assembled : (assemble config source).outcome = .ok assembly)
    (reached : line.Reached config source pass progress) :
    codeOf line.text = [] ∨ ∃ statement, line.States statement := by
  obtain ⟨statement, _, _, read, _⟩ := reached.taken assembled
  cases statement with
  | none => exact .inl (Statement.parse_eq_ok_none_iff.mp read)
  | some statement => exact .inr ⟨statement, states_iff.mpr read⟩

theorem Reached.mnemonic_known {label : Option Text} {body : Instruction}
    (assembled : (assemble config source).outcome = .ok assembly)
    (reached : line.Reached config source pass progress)
    (states : line.States (.instruction label body)) :
    ∃ mnemonic : Mnemonic, mnemonic.name = body.mnemonic.map Char.toUpper := by
  obtain ⟨mnemonic, _, _, _, supported, _⟩ := reached.encodes assembled states
  exact ⟨mnemonic, Mnemonic.ofText?_eq_some_iff.mp supported.names⟩

theorem Reached.mode_listed {label : Option Text} {body : Instruction} {mnemonic : Mnemonic}
    (assembled : (assemble config source).outcome = .ok assembly)
    (reached : line.Reached config source pass progress)
    (states : line.States (.instruction label body)) (named : mnemonic.name = body.mnemonic.map Char.toUpper) :
    ∃ opcode, (body.operand.mode, opcode) ∈ mnemonic.encodings := by
  obtain ⟨_, opcode, _, _, supported, _⟩ := reached.encodes assembled states
  cases (Mnemonic.ofText?_eq_some_iff.mpr named).symm.trans supported.names
  exact ⟨opcode, Mnemonic.opcode?_eq_some_iff.mp supported.allows⟩

/-- An origin in hexadecimal digits without a dollar sign is read as a decimal one. -/
theorem Reached.origin_decimal {value : Text} (assembled : (assemble config source).outcome = .ok assembly)
    (reached : line.Reached config source pass progress) (states : line.States (.origin value))
    (digits : value.IsRun isHexDigit) : value.IsRun isDecimalDigit := by
  obtain ⟨_, read, _⟩ := reached.origin_literal assembled states
  obtain ⟨_, literal, _⟩ := literalValue?_eq_some_iff.mp read
  cases literal with
  | hexadecimal => exact absurd (digits.2 '$' List.mem_cons_self) (by decide)
  | decimal run => exact run

theorem Reached.name_defined {label : Option Text} {body : Instruction} {name : Text}
    (assembled : (assemble config source).outcome = .ok assembly)
    (reached : line.Reached config source (.final known) progress)
    (states : line.States (.instruction label body)) (takes : body.operand.text? = some name)
    (named : ∀ number, ¬ Literal name number) : ∃ other ∈ Line.ofSource source, other.Defines name := by
  obtain ⟨_, _, _, _, _, _, _, _, valued⟩ := reached.encodes assembled states
  exact reached.name_of_meaning? (literalValue?_eq_none_iff.mpr named) (valued _ takes).1

theorem Reached.literal_fits {text : Text} {width : Width} {value : Nat}
    (assembled : (assemble config source).outcome = .ok assembly)
    (reached : line.Reached config source pass progress) (states : line.States statement)
    (takes : statement.value? = some (text, width)) (read : literalValue? text = some value) :
    value < width.limit := by
  cases statement with
  | origin =>
      cases takes
      obtain ⟨_, same, small⟩ := reached.origin_literal assembled states
      cases read.symm.trans same
      exact small
  | label => cases takes
  | instruction =>
      obtain ⟨_, written, same⟩ := Option.map_eq_some_iff.mp takes
      cases same
      obtain ⟨_, _, _, _, _, _, _, _, valued⟩ := reached.encodes assembled states
      obtain ⟨means, small⟩ := valued text written
      cases (Progress.meaning?_of_literal read).symm.trans means
      exact small

theorem Reached.ends_within {label : Option Text} {body : Instruction} {value : UInt16}
    (assembled : (assemble config source).outcome = .ok assembly)
    (reached : line.Reached config source pass progress)
    (states : line.States (.instruction label body))
    (takes : ∀ text, body.operand.text? = some text → progress.meaning? pass text = some value.toNat) :
    progress.pc + body.size value ≤ 0x10000 := by
  obtain ⟨_, _, _, other, _, _, room, _, valued⟩ := reached.encodes assembled states
  -- without an operand the size does not depend on the value
  have same : body.size value = body.size other := by
    cases written : body.operand.text? with
    | none => cases operand : body.operand <;> simp_all [Operand.text?, Instruction.size]
    | some text =>
        have means := (takes text written).symm.trans (valued text written).1
        rw [UInt16.toNat_inj.mp (Option.some.inj means)]
  rw [same]
  exact room

theorem Reached.branch_near {label : Option Text} {body : Instruction} {text : Text} {here target : UInt16}
    (assembled : (assemble config source).outcome = .ok assembly)
    (reached : line.Reached config source pass progress)
    (states : line.States (.instruction label body)) (branches : body.isBranch = true)
    (operand : body.operand = .absolute text) (placed : here.toNat = progress.pc)
    (means : progress.meaning? pass text = some target.toNat) : InReach target here := by
  obtain ⟨_, _, _, _, _, placedToo, _, near, valued⟩ := reached.encodes assembled states
  have written : body.operand.text? = some text := by rw [operand, Operand.text?]
  cases UInt16.toNat_inj.mp (placed.trans placedToo.symm)
  cases UInt16.toNat_inj.mp (Option.some.inj (means.symm.trans (valued text written).1))
  exact near branches

/-- The final pass comes to a label where the survey came to it. -/
theorem Reached.label_settled {name : Text} {surveyed settled : Progress}
    (assembled : (assemble config source).outcome = .ok assembly) (defines : line.Defines name)
    (before : line.Reached config source .survey surveyed)
    (after : line.Reached config source (.final known) settled) : surveyed.pc = settled.pc := by
  obtain ⟨statement, states, named⟩ := defines
  obtain ⟨_, _, advances⟩ := after.advances assembled states
  obtain ⟨_, _, finished, rfl⟩ := Pass.occurs_final_iff.mp after.occurs
  obtain ⟨index, surveyedAt⟩ := List.mem_iff_getElem?.mp before.visited
  obtain ⟨address, bound, place⟩ :=
    survey_binds finished surveyedAt (defines_iff.mp ⟨statement, states, named⟩)
  exact place.symm.trans (advances.confirmed named bound)

theorem Faulty.refused (member : line ∈ Line.ofSource source)
    (faulty : line.Faulty config source fault) :
    (assemble config source).outcome ≠ .ok assembly := by
  intro assembled
  obtain ⟨settled, final⟩ := exists_reached assembled member
  cases faulty with
  | unreadable outside code filled =>
      rcases final.readable assembled with blank | ⟨statement, states⟩
      · simp [blank, filled] at code
      · exact outside statement states
  | unknownMnemonic states unknown =>
      obtain ⟨mnemonic, named⟩ := final.mnemonic_known assembled states
      exact unknown mnemonic named
  | unsupportedMode states named unlisted =>
      obtain ⟨opcode, listed⟩ := final.mode_listed assembled states named
      exact unlisted opcode listed
  | duplicateLabel earlier before first again =>
      exact final.fresh assembled again (final.mem_names_iff.mpr ⟨_, earlier, before, first⟩)
  | bareOrigin states digits letter =>
      obtain ⟨c, inside, letter⟩ := letter
      simp [(final.origin_decimal assembled states digits).2 c inside] at letter
  | undefinedName states takes named undefined =>
      obtain ⟨other, among, defines⟩ := final.name_defined assembled states takes named
      exact undefined other among defines
  | largeLiteral states takes literal saturated large =>
      have read := literalValue?_eq_some_iff.mpr ⟨_, literal, saturated⟩
      exact Nat.not_lt.mpr large (final.literal_fits assembled states takes read)
  | outside states occupies reached full =>
      exact absurd full (Nat.ne_of_lt (reached.pc_lt assembled states occupies))
  | overrun states reached takes ends past =>
      have within := reached.ends_within assembled states takes
      omega
  | farBranch states branches operand reached placed means far =>
      exact far (reached.branch_near assembled states branches operand placed means)
  | movedLabel defines before found after here moved =>
      have same := before.label_settled assembled defines after
      exact moved (UInt16.toNat_inj.mp (by rw [found, here, same]))

end Line

end Accepted

/-- Names an operation that does not exist, and on a later line a label that does not exist. -/
def misspelt : Text :=
  "start: LDA #1\n  XYZ start ; no such operation\nJMP nowhere".toList

def misspeltError : SourceError where
  line := 2
  text := "XYZ start ; no such operation".toList
  fault := .unknownMnemonic "XYZ".toList

end Asm65
