import Asm65.Proofs.Encoding

namespace Asm65

open Outcome Encoding

namespace Mnemonic

def rows : List (Mnemonic × Mode × UInt8) :=
  all.flatMap fun mnemonic => mnemonic.encodings.map fun (mode, opcode) => (mnemonic, mode, opcode)

def ofOpcode? (opcode : UInt8) : Option (Mnemonic × Mode) :=
  (rows.find? fun row => row.2.2 == opcode).map fun row => (row.1, row.2.1)

theorem mem_all (mnemonic : Mnemonic) : mnemonic ∈ all := by
  cases mnemonic <;> decide

theorem opcodes_nodup : (rows.map fun row => row.2.2).Nodup := by
  -- compared as numbers, which is what the kernel does fast
  have numbers : ((rows.map fun row => row.2.2).map UInt8.toNat).Nodup := by decide +kernel
  exact List.Pairwise.of_map UInt8.toNat (fun _ _ differ same => differ (same ▸ rfl)) numbers

theorem mem_rows_iff {mnemonic : Mnemonic} {mode : Mode} {opcode : UInt8} :
    (mnemonic, mode, opcode) ∈ rows ↔ mnemonic.opcode? mode = some opcode := by
  simp only [rows, opcode?_eq_some_iff, List.mem_flatMap, List.mem_map, Prod.mk.injEq, Prod.exists]
  constructor
  · intro listed
    obtain ⟨_, _, _, _, member, rfl, rfl, rfl⟩ := listed
    exact member
  · intro member
    exact ⟨mnemonic, mem_all mnemonic, mode, opcode, member, rfl, rfl, rfl⟩

/-- No two rows have the same opcode, so the table can be read backwards. -/
theorem ofOpcode?_eq_some_iff {mnemonic : Mnemonic} {mode : Mode} {opcode : UInt8} :
    ofOpcode? opcode = some (mnemonic, mode) ↔ mnemonic.opcode? mode = some opcode := by
  rw [← mem_rows_iff, ofOpcode?, Option.map_eq_some_iff]
  constructor
  · intro read
    obtain ⟨⟨_, _, code⟩, found, ⟨⟩⟩ := read
    have same : code = opcode := by simpa using List.find?_some found
    exact same ▸ List.mem_of_find?_eq_some found
  · intro member
    refine ⟨(mnemonic, mode, opcode), ?_, rfl⟩
    obtain ⟨before, after, split⟩ := List.append_of_mem member
    refine List.find?_eq_some_iff_append.mpr ⟨by simp, before, after, split, fun row earlier => ?_⟩
    have distinct := opcodes_nodup
    rw [split, List.map_append, List.map_cons, List.nodup_append] at distinct
    have differs := distinct.2.2 row.2.2 (List.mem_map_of_mem earlier) opcode (by simp)
    simpa using differs

end Mnemonic

/-- How an operand is laid out after its opcode. -/
inductive Layout where
  | none
  | byte
  /-- Two bytes, the low one first. -/
  | word
  /-- A signed byte, counted from the end of the instruction. -/
  | distance
deriving DecidableEq, Repr

/-- The layout of an operation in the mode of its opcode. -/
def Mnemonic.layout (mnemonic : Mnemonic) (mode : Mode) : Layout :=
  if mnemonic.isBranch then .distance
  else match mode with
    | .implied | .accumulator => .none
    | .immediate | .zeroPage | .zeroPageX | .zeroPageY => .byte
    | .absolute | .absoluteX | .absoluteY | .indirect | .indexedIndirect | .indirectIndexed => .word

theorem Mnemonic.layout_of_isBranch {mnemonic : Mnemonic} {mode : Mode}
    (branches : mnemonic.isBranch = true) : mnemonic.layout mode = .distance := by
  simp [layout, branches]

/-- The operand that bytes write for an instruction at `here`, if they have the right number. A
distance becomes the place it leads to; nothing wraps around. -/
def Layout.read? (here : UInt16) : Layout → List UInt8 → Option (Option Int)
  | none, [] => some .none
  | byte, [value] => some (some value.toNat)
  | word, [low, high] => some (some (low.toNat + 0x100 * high.toNat))
  | distance, [away] => some (some (here.toNat + 2 + away.toInt8.toInt))
  | _, _ => .none

structure Decoded where
  mnemonic : Mnemonic
  mode : Mode
  operand : Option Int
deriving DecidableEq, Repr

def decode? (here : UInt16) : List UInt8 → Option Decoded
  | [] => none
  | opcode :: rest =>
      (Mnemonic.ofOpcode? opcode).bind fun (mnemonic, mode) =>
        ((mnemonic.layout mode).read? here rest).map ({ mnemonic, mode, operand := · })

/-- What an operand means, if its text means anything: a number, or nothing where the operation
takes no operand. -/
def Operand.meaning? (labels : LabelTable) (operand : Operand) : Option (Option Int) :=
  match operand.text? with
  | none => some none
  | some text => (labels.meaning? text).map fun number => some number

theorem decode?_cons {here : UInt16} {opcode : UInt8} {rest : List UInt8} {mnemonic : Mnemonic}
    {mode : Mode} {operand : Option Int} (allows : mnemonic.opcode? mode = some opcode)
    (operandRead : (mnemonic.layout mode).read? here rest = some operand) :
    decode? here (opcode :: rest) = some { mnemonic, mode, operand } := by
  simp [decode?, Mnemonic.ofOpcode?_eq_some_iff.mpr allows, operandRead]

theorem toInt8_ofInt {away : Int} (low : -128 ≤ away) (high : away ≤ 127) :
    (UInt8.ofInt away).toInt8.toInt = away := by
  have bits : (UInt8.ofInt away).toBitVec.toNat = (away % 256).toNat := by
    change (UInt8.ofInt away).toNat = _
    rw [UInt8.ofInt, UInt8.toNat_ofNat']
    omega
  change (UInt8.ofInt away).toBitVec.toInt = away
  rw [BitVec.toInt_eq_toNat_cond, bits]
  split <;> omega

section Emitted

variable {mnemonic : Mnemonic} {mode : Mode} {opcode : UInt8} {here value : UInt16}
  {bytes : List UInt8}

theorem lowByte_toNat : (lowByte value).toNat = value.toNat % 0x100 := by
  rw [lowByte, UInt8.toNat_ofNat']

theorem lowByte_highByte (value : UInt16) :
    (lowByte value).toNat + 0x100 * (highByte value).toNat = value.toNat := by
  have bound := value.toNat_lt
  rw [lowByte, highByte, UInt8.toNat_ofNat', UInt8.toNat_ofNat']
  omega

theorem decode?_withWord (allows : mnemonic.opcode? mode = some opcode)
    (wide : mnemonic.layout mode = .word) :
    decode? here (withWord opcode value) = some { mnemonic, mode, operand := some value.toNat } := by
  apply decode?_cons allows
  have whole := lowByte_highByte value
  rw [wide, Layout.read?, ← whole]
  rfl

theorem decode?_short (allows : mnemonic.opcode? mode = some opcode)
    (narrow : mnemonic.layout mode = .byte) (low : value.toNat < 0x100) :
    decode? here [opcode, lowByte value] = some { mnemonic, mode, operand := some value.toNat } := by
  apply decode?_cons allows
  rw [narrow, Layout.read?, lowByte_toNat, Nat.mod_eq_of_lt low]

theorem decode?_direct (plain : mnemonic.isBranch = false) (allows : mnemonic.opcode? mode = some opcode)
    (wide : mnemonic.layout mode = .word) :
    ∃ form, (form = mode ∨ mode.shortForm? = some form) ∧
      decode? here (direct mnemonic mode opcode value) =
        some { mnemonic, mode := form, operand := some value.toNat } := by
  cases chosen : mnemonic.shortOpcode? mode value with
  | none => exact ⟨mode, .inl rfl, by simpa [direct, chosen] using decode?_withWord allows wide⟩
  | some short =>
      simp only [Mnemonic.shortOpcode?, Option.ite_none_right_eq_some, Option.bind_eq_some_iff] at chosen
      obtain ⟨low, form, shortens, allowsShort⟩ := chosen
      have narrow : mnemonic.layout form = .byte := by
        cases mode <;> simp only [Mode.shortForm?, Option.some.injEq, reduceCtorEq] at shortens <;>
          simp [Mnemonic.layout, plain, ← shortens]
      refine ⟨form, .inr shortens, ?_⟩
      have shortOpcode : mnemonic.shortOpcode? mode value = some short := by
        simp [Mnemonic.shortOpcode?, low, shortens, allowsShort]
      simpa [direct, shortOpcode] using decode?_short allowsShort narrow low

theorem decode?_branch (branches : mnemonic.isBranch = true)
    (allows : mnemonic.opcode? mode = some opcode) (made : branch opcode value here = .ok bytes) :
    decode? here bytes = some { mnemonic, mode, operand := some value.toNat } := by
  simp only [branch] at made
  split at made
  next reached =>
      cases made
      apply decode?_cons allows
      rw [Mnemonic.layout_of_isBranch branches, Layout.read?, toInt8_ofInt reached.1 reached.2,
        distance]
      congr 2
      omega
  next => contradiction

end Emitted

namespace Instruction

variable {body : Instruction} {mnemonic : Mnemonic} {opcode : UInt8} {here value : UInt16}
  {known : LabelTable} {bytes : List UInt8} {text : Text}

/-- What is emitted for a value is read back as the operation with that value, in the written mode
or in its short form. -/
theorem decode?_emit (supported : body.Supported mnemonic opcode)
    (takes : body.operand.text? = some text) (fits : value.toNat < body.operand.width.limit)
    (emitted : emit mnemonic body.operand.mode opcode value here = .ok bytes) :
    ∃ mode, (mode = body.operand.mode ∨ body.operand.mode.shortForm? = some mode) ∧
      decode? here bytes = some { mnemonic, mode, operand := some value.toNat } := by
  have allows := supported.allows
  have plain := supported.straight
  cases written : body.operand with
  | implied | accumulator => simp [written, Operand.text?] at takes
  | immediate text =>
      simp only [written, Operand.mode, emit, Except.ok.injEq] at emitted allows plain
      subst emitted
      refine ⟨.immediate, .inl rfl, decode?_short allows ?_ ?_⟩
      · simp [Mnemonic.layout, plain (by decide)]
      · simpa [written, Operand.width, Width.limit] using fits
  | absolute text =>
      simp only [written, Operand.mode, emit] at emitted allows
      split at emitted
      next branches => exact ⟨.absolute, .inl rfl, decode?_branch branches allows emitted⟩
      next straight =>
          have straight : mnemonic.isBranch = false := by simpa using straight
          cases emitted
          exact decode?_direct straight allows (by simp [Mnemonic.layout, Operand.mode, straight])
  | indexed text index =>
      have mode : body.operand.mode = .absoluteX ∨ body.operand.mode = .absoluteY := by
        cases index <;> simp [written, Operand.mode]
      rw [← written]
      rcases mode with mode | mode <;>
        · rw [mode] at emitted allows plain ⊢
          cases emitted
          exact decode?_direct (plain (by decide)) allows (by simp [Mnemonic.layout, plain])
  | indirect text | indexedIndirect text | indirectIndexed text =>
      simp only [written, Operand.mode, emit, Except.ok.injEq] at emitted allows plain
      subst emitted
      exact ⟨_, .inl rfl, decode?_withWord allows (by simp [Mnemonic.layout, Operand.mode, plain])⟩

/-- An encoded instruction is read back as what it says, with its operand's meaning. -/
theorem decode?_encode (encoded : body.encode (.complete known) here = .ok bytes) :
    ∃ mnemonic mode operand, Mnemonic.ofText? body.mnemonic = some mnemonic ∧
      (mode = body.operand.mode ∨ body.operand.mode.shortForm? = some mode) ∧
      body.operand.meaning? known = some operand ∧
      decode? here bytes = some { mnemonic, mode, operand } := by
  obtain ⟨mnemonic, opcode, supported⟩ := supported_of_encode encoded
  rw [encode_of_supported supported] at encoded
  cases takes : body.operand.text? with
  | none =>
      have written : body.operand = .implied ∨ body.operand = .accumulator := by
        cases written : body.operand <;> simp_all [Operand.text?]
      have straight : mnemonic.isBranch = false := by
        apply supported.straight
        rcases written with written | written <;> simp [written, Operand.mode]
      simp only [takes] at encoded
      cases encoded
      refine ⟨mnemonic, body.operand.mode, none, supported.names, .inl rfl,
        by simp [Operand.meaning?, takes], decode?_cons supported.allows ?_⟩
      rcases written with written | written <;>
        simp [written, Operand.mode, Mnemonic.layout, straight, Layout.read?]
  | some text =>
      simp only [takes] at encoded
      obtain ⟨value, resolved, emitted⟩ := bind_eq_ok_iff.mp encoded
      obtain ⟨means, fits⟩ := Operand.means_of_valueOf resolved
      obtain ⟨mode, form, decoded⟩ := decode?_emit supported takes fits emitted
      exact ⟨mnemonic, mode, some value.toNat, supported.names, form,
        by simp [Operand.meaning?, takes, means], decoded⟩

end Instruction

end Asm65
