import Asm65.Proofs.Meaning

namespace Asm65

/-! Nothing in an image marks where an instruction begins. It does not have to: an opcode says how many
bytes follow it, so the image is cut back into its entries from the first byte on. -/

def Layout.width : Layout → Nat
  | none => 0
  | byte | distance => 1
  | word => 2

structure Chunk where
  mnemonic : Mnemonic
  mode : Mode
  bytes : List UInt8
deriving DecidableEq, Repr

def Chunk.operation (chunk : Chunk) : Mnemonic × Mode :=
  (chunk.mnemonic, chunk.mode)

/-- Cuts an image into instructions. It fails at a byte that is no opcode, and where the image ends
inside an instruction. -/
def disassemble? : List UInt8 → Option (List Chunk)
  | [] => some []
  | opcode :: rest =>
      match Mnemonic.ofOpcode? opcode with
      | none => none
      | some (mnemonic, mode) =>
          let width := (mnemonic.layout mode).width
          if width ≤ rest.length then
            (disassemble? (rest.drop width)).map
              ({ mnemonic, mode, bytes := opcode :: rest.take width } :: ·)
          else none
termination_by image => image.length
decreasing_by simp only [List.length_drop, List.length_cons]; omega

/-- The mode in which an instruction stands in the image: the written one, or the short form of it if
the operation has one and the operand lies in the zero page. -/
def Instruction.codeMode (labels : LabelTable) (body : Instruction) : Mode :=
  if body.narrows && (body.operand.text?.bind labels.meaning?).any (· < 0x100) then
    body.operand.mode.shortForm?.getD body.operand.mode
  else body.operand.mode

def WrittenInstruction.operation? (labels : LabelTable) (written : WrittenInstruction) :
    Option (Mnemonic × Mode) :=
  (Mnemonic.ofText? written.body.mnemonic).map (·, written.body.codeMode labels)

section Chunks

variable {here : UInt16} {bytes rest : List UInt8} {mnemonic : Mnemonic} {mode : Mode}

theorem Layout.length_of_read? {layout : Layout} {operand : Option Int}
    (read : layout.read? here rest = some operand) : rest.length = layout.width := by
  unfold read? at read
  split at read
  all_goals first
    | rfl
    | contradiction

def IsCode (mnemonic : Mnemonic) (mode : Mode) (bytes : List UInt8) : Prop :=
  ∃ opcode rest, bytes = opcode :: rest ∧ mnemonic.opcode? mode = some opcode ∧
    rest.length = (mnemonic.layout mode).width

theorem isCode_of_decode? {decoded : Decoded} (read : decode? here bytes = some decoded) :
    IsCode decoded.mnemonic decoded.mode bytes := by
  cases bytes with
  | nil => cases read
  | cons opcode rest =>
      obtain ⟨⟨mnemonic, mode⟩, found, mapped⟩ := Option.bind_eq_some_iff.mp read
      obtain ⟨operand, operandRead, rfl⟩ := Option.map_eq_some_iff.mp mapped
      exact ⟨opcode, rest, rfl, Mnemonic.ofOpcode?_eq_some_iff.mp found,
        Layout.length_of_read? operandRead⟩

/-- The first instruction of an image is cut off, whatever follows it. -/
theorem IsCode.disassemble?_append (code : IsCode mnemonic mode bytes) (image : List UInt8) :
    disassemble? (bytes ++ image) = (disassemble? image).map ({ mnemonic, mode, bytes } :: ·) := by
  obtain ⟨opcode, rest, rfl, allows, length⟩ := code
  have found := Mnemonic.ofOpcode?_eq_some_iff.mpr allows
  rw [List.cons_append, disassemble?, found]
  simp [← length]

end Chunks

namespace Instruction

variable {body : Instruction} {known : LabelTable} {here value : UInt16} {bytes : List UInt8}
  {mnemonic : Mnemonic} {mode : Mode}

/-- A short form that the table lists is one that the instruction narrows to. -/
theorem narrows_of_short (named : Mnemonic.ofText? body.mnemonic = some mnemonic)
    (short : body.operand.mode.shortForm? = some mode) {opcode : UInt8}
    (allows : mnemonic.opcode? mode = some opcode) : body.narrows = true := by
  have plain : mnemonic.isBranch = false := by
    apply Bool.eq_false_iff.mpr
    intro branches
    rw [Mnemonic.mode_of_isBranch branches allows] at short
    cases written : body.operand.mode <;> simp [written, Mode.shortForm?] at short
  simp [narrows, named, plain, short, allows]

theorem width_of_short {written : Mode} (short : written.shortForm? = some mode)
    (plain : mnemonic.isBranch = false) :
    (mnemonic.layout mode).width = 1 ∧ (mnemonic.layout written).width = 2 := by
  cases written <;> simp only [Mode.shortForm?, Option.some.injEq, reduceCtorEq] at short <;>
    simp [Mnemonic.layout, plain, ← short, Layout.width]

/-- Of the written mode and its short form, the size of the code tells which one was taken. -/
theorem codeMode_of_isCode (named : Mnemonic.ofText? body.mnemonic = some mnemonic)
    (form : mode = body.operand.mode ∨ body.operand.mode.shortForm? = some mode)
    (code : IsCode mnemonic mode bytes) (length : bytes.length = body.size value)
    (takes : body.Takes (.complete known) here value) : body.codeMode known = mode := by
  obtain ⟨opcode, rest, rfl, allows, width⟩ := code
  rw [List.length_cons, width] at length
  by_cases narrow : body.narrows = true
  · obtain ⟨plain, text, written⟩ := operand_of_narrows narrow
    obtain ⟨short, shortens⟩ : ∃ short, body.operand.mode.shortForm? = some short := by
      rcases written with written | ⟨_ | _, written⟩ <;> simp [written, Operand.mode, Mode.shortForm?]
    have operand : body.operand.text? = some text := by
      rcases written with written | ⟨_, written⟩ <;> simp [written, Operand.text?]
    have means := (Operand.means_of_valueOf (takes text operand)).1
    have straight : mnemonic.isBranch = false := by simpa [isBranch, named] using plain
    have widths := width_of_short shortens straight
    rw [size_of_narrows narrow] at length
    simp only [codeMode, narrow, operand, means, shortens, Option.bind_some, Option.any_some,
      Option.getD_some, Bool.true_and, decide_eq_true_eq]
    rcases form with rfl | chosen
    · rw [if_neg]
      intro low
      rw [if_pos low, widths.2] at length
      omega
    · cases shortens.symm.trans chosen
      rw [if_pos]
      apply Decidable.byContradiction
      intro high
      rw [if_neg high, widths.1] at length
      omega
  · rcases form with rfl | chosen
    · simp [codeMode, narrow]
    · exact absurd (narrows_of_short named chosen allows) narrow

theorem isCode_of_encode (encoded : body.encode (.complete known) here = .ok bytes) :
    ∃ mnemonic, Mnemonic.ofText? body.mnemonic = some mnemonic ∧
      IsCode mnemonic (body.codeMode known) bytes := by
  obtain ⟨mnemonic, mode, operand, named, form, _, read⟩ := decode?_encode encoded
  obtain ⟨value, length, takes⟩ := encode_length encoded
  have code : IsCode mnemonic mode bytes := isCode_of_decode? read
  rw [codeMode_of_isCode named form code length takes]
  exact ⟨mnemonic, named, code⟩

end Instruction

/-- What an entry has to do with its instruction, as far as the bytes alone show it. -/
def Entry.Holds (labels : LabelTable) (written : WrittenInstruction) (entry : Entry) : Prop :=
  ∃ mnemonic mode, written.operation? labels = some (mnemonic, mode) ∧
    IsCode mnemonic mode entry.bytes

theorem disassemble?_entries {labels : LabelTable} {instructions : List WrittenInstruction}
    {entries : List Entry} (hold : List.Forall₂ (Entry.Holds labels) instructions entries) :
    ∃ chunks, disassemble? (entries.flatMap Entry.bytes) = some chunks ∧
      chunks.map Chunk.bytes = entries.map Entry.bytes ∧
      chunks.map (some ∘ Chunk.operation) = instructions.map (·.operation? labels) := by
  induction hold with
  | nil =>
      refine ⟨[], ?_, rfl, rfl⟩
      rw [List.flatMap_nil, disassemble?]
  | @cons written entry _ _ first _ ih =>
      obtain ⟨mnemonic, mode, operation, code⟩ := first
      obtain ⟨chunks, cut, bytes, operations⟩ := ih
      refine ⟨{ mnemonic, mode, bytes := entry.bytes } :: chunks, ?_, ?_, ?_⟩
      · rw [List.flatMap_cons, code.disassemble?_append, cut, Option.map_some]
      · rw [List.map_cons, List.map_cons, bytes]
      · rw [List.map_cons, List.map_cons, operations, operation]
        rfl

variable {config : Config} {source : Text} {assembly : Assembly}

theorem disassemble?_assemble (assembled : (assemble config source).outcome = .ok assembly) :
    ∃ chunks, disassemble? assembly.bytes = some chunks ∧
      chunks.map Chunk.bytes = assembly.entries.map Entry.bytes ∧
      chunks.map (some ∘ Chunk.operation) =
        ((Line.ofSource source).filterMap Line.instruction?).map (·.operation? assembly.labels) := by
  obtain ⟨_, _, _, passes⟩ := passes_of_assemble assembled
  rw [passes.bytes]
  apply disassemble?_entries
  apply Pass.run_instructions passes.final
  intro number label body here labels bytes encoded
  obtain ⟨mnemonic, named, code⟩ := Instruction.isCode_of_encode encoded
  exact ⟨mnemonic, _, by simp [WrittenInstruction.operation?, named], code⟩

/-- An image is uniquely decodable. Cut by its opcodes it falls into the bytes of the entries, each with
the operation of its instruction and the mode in which that is encoded. Hence assemblies with the same
bytes have the same entries, as far as bytes go, and the same operations in the same modes. -/
theorem image_uniquely_decodable (assembled : (assemble config source).outcome = .ok assembly) :
    (∃ chunks, disassemble? assembly.bytes = some chunks ∧
      chunks.map Chunk.bytes = assembly.entries.map Entry.bytes ∧
      chunks.map (some ∘ Chunk.operation) =
        ((Line.ofSource source).filterMap Line.instruction?).map (·.operation? assembly.labels)) ∧
    ∀ otherConfig otherSource other, (assemble otherConfig otherSource).outcome = .ok other →
      assembly.bytes = other.bytes →
      assembly.entries.length = other.entries.length ∧
      assembly.entries.map Entry.bytes = other.entries.map Entry.bytes ∧
      ((Line.ofSource source).filterMap Line.instruction?).map (·.operation? assembly.labels) =
        ((Line.ofSource otherSource).filterMap Line.instruction?).map (·.operation? other.labels) := by
  have decoded := disassemble?_assemble assembled
  refine ⟨decoded, fun otherConfig otherSource other assembledOther same => ?_⟩
  obtain ⟨chunks, cut, bytes, operations⟩ := decoded
  obtain ⟨others, cutOther, bytesOther, operationsOther⟩ := disassemble?_assemble assembledOther
  rw [same, cutOther] at cut
  cases cut
  have entries := bytes.symm.trans bytesOther
  refine ⟨?_, entries, operations.symm.trans operationsOther⟩
  simpa using congrArg List.length entries

/-- Names the place of its own first instruction: short, far and by distance. -/
def selfish : Text :=
  "* = $10\nown: LDA own\nSTA own,Y\nBNE own\nASL a".toList

/-- The same image with numbers in the place of the name, and from another line on. -/
def numeric : Text :=
  "* = 16\n\nlda $0010 ; the first instruction\nsta 16, y\nbne $10\nasl A".toList

def selfishAssembly : Assembly where
  origin := 0x10
  bytes := [0xA5, 0x10, 0x99, 0x10, 0x00, 0xD0, 0xF9, 0x0A]
  labels := ⟨[("own".toList, 0x10)], by decide⟩
  entries := [
    ⟨2, 0x10, some "own".toList, "LDA own".toList, [0xA5, 0x10]⟩,
    ⟨3, 0x12, none, "STA own,Y".toList, [0x99, 0x10, 0x00]⟩,
    ⟨4, 0x15, none, "BNE own".toList, [0xD0, 0xF9]⟩,
    ⟨5, 0x17, none, "ASL a".toList, [0x0A]⟩]

theorem image_uniquely_decodable_selfish :
    (assemble .default selfish).outcome = .ok selfishAssembly ∧
    (∃ chunks, disassemble? selfishAssembly.bytes = some chunks ∧
      chunks.map Chunk.bytes = [[0xA5, 0x10], [0x99, 0x10, 0x00], [0xD0, 0xF9], [0x0A]] ∧
      chunks.map (some ∘ Chunk.operation) = [some (.lda, .zeroPage), some (.sta, .absoluteY),
        some (.bne, .absolute), some (.asl, .accumulator)]) ∧
    ∃ other, (assemble .default numeric).outcome = .ok other ∧ selfishAssembly.bytes = other.bytes ∧
      selfishAssembly.entries.map Entry.bytes = other.entries.map Entry.bytes := by
  have assembled : (assemble .default selfish).outcome = .ok selfishAssembly := by decide +kernel
  obtain ⟨other, assembledOther, same⟩ : ∃ other, (assemble .default numeric).outcome = .ok other ∧
      selfishAssembly.bytes = other.bytes := ⟨_, rfl, by decide +kernel⟩
  obtain ⟨⟨chunks, cut, bytes, operations⟩, unique⟩ := image_uniquely_decodable assembled
  refine ⟨assembled, ⟨chunks, cut, bytes, operations.trans (by decide +kernel)⟩, other, assembledOther,
    same, (unique _ _ other assembledOther same).2.1⟩

end Asm65
