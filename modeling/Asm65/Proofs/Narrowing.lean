import Asm65.Proofs.Encoding

namespace Asm65

open Encoding

namespace Mnemonic

variable {mnemonic : Mnemonic} {mode : Mode} {short : UInt8}

/-- The stores that can be indexed in the zero page and nowhere else. -/
def IsShortOnly (mnemonic : Mnemonic) (mode : Mode) : Prop :=
  (mnemonic = stx ∧ mode = .absoluteY) ∨ (mnemonic = sty ∧ mode = .absoluteX)

instance (mnemonic : Mnemonic) (mode : Mode) : Decidable (mnemonic.IsShortOnly mode) :=
  instDecidableOr

/-- No other short form stands in the table of opcodes without the long one. -/
theorem opcode?_eq_none_iff (listed : mode.shortForm?.bind mnemonic.opcode? = some short) :
    mnemonic.opcode? mode = none ↔ mnemonic.IsShortOnly mode := by
  cases mode with
  | absolute | absoluteX | absoluteY =>
      cases mnemonic <;> first
        | decide
        | cases listed
  | implied | immediate | zeroPage | zeroPageX | indexedIndirect | indirectIndexed | accumulator
  | indirect | zeroPageY => cases listed

theorem isBranch_of_shortForm (listed : mode.shortForm?.bind mnemonic.opcode? = some short) :
    mnemonic.isBranch = false := by
  obtain ⟨form, shortens, found⟩ := Option.bind_eq_some_iff.mp listed
  refine Bool.eq_false_iff.mpr fun branches => ?_
  cases mode_of_isBranch branches found
  cases mode <;> cases shortens

end Mnemonic

section Narrowing

variable {body : Instruction} {mnemonic : Mnemonic} {text : Text} {opcode short : UInt8} {view : LabelView}
  {here value : UInt16}

theorem Encoding.direct_of_shortForm {mode : Mode}
    (listed : mode.shortForm?.bind mnemonic.opcode? = some short) :
    direct mnemonic mode opcode value =
      if value.toNat < 0x100 then [short, lowByte value] else [opcode, lowByte value, highByte value] := by
  by_cases low : value.toNat < 0x100 <;> simp [direct, Mnemonic.shortOpcode?, withWord, low, listed]

namespace Instruction

/-- The operand names a place directly, and the table has an opcode for the short form of its mode. -/
structure HasShortForm (body : Instruction) (mnemonic : Mnemonic) (text : Text) (short : UInt8) : Prop where
  names : Mnemonic.ofText? body.mnemonic = some mnemonic
  operand : body.operand = .absolute text ∨ ∃ index, body.operand = .indexed text index
  listed : body.operand.mode.shortForm?.bind mnemonic.opcode? = some short

theorem HasShortForm.encode_eq (form : body.HasShortForm mnemonic text short)
    (resolves : valueOf text .word view here = .ok value)
    (allows : mnemonic.opcode? body.operand.mode = some opcode) :
    body.encode view here = .ok (direct mnemonic body.operand.mode opcode value) := by
  have plain := Mnemonic.isBranch_of_shortForm form.listed
  rw [encode_of_supported ⟨form.names, allows⟩]
  rcases form.operand with written | ⟨index, written⟩
  · simp [written, Operand.text?, Operand.width, Operand.sees, resolves, Except.bind, emit, Operand.mode, plain]
  · cases index <;>
      simp [written, Operand.text?, Operand.width, Operand.sees, resolves, Except.bind, emit, Operand.mode]

theorem HasShortForm.encode_of_shortOnly (form : body.HasShortForm mnemonic text short)
    (only : mnemonic.IsShortOnly body.operand.mode) :
    body.encode view here = .error (.unsupportedMode mnemonic body.operand.mode) :=
  encode_eq_error_iff.mpr (.inr (.inl
    ⟨mnemonic, form.names, (Mnemonic.opcode?_eq_none_iff form.listed).mpr only, rfl⟩))

end Instruction

/-- An operand in the zero page takes the short form, unless the operation has no other form; such a
store is refused, wherever its operand lies. Operands above the zero page take the long form. -/
theorem narrows_unless_shortOnly (form : body.HasShortForm mnemonic text short)
    (resolves : valueOf text .word view here = .ok value) :
    (value.toNat < 0x100 →
      (body.encode view here = .ok [short, lowByte value] ↔ ¬ mnemonic.IsShortOnly body.operand.mode)) ∧
    (∀ opcode, mnemonic.opcode? body.operand.mode = some opcode → 0x100 ≤ value.toNat →
      body.encode view here = .ok [opcode, lowByte value, highByte value]) ∧
    (mnemonic.IsShortOnly body.operand.mode →
      body.encode view here = .error (.unsupportedMode mnemonic body.operand.mode)) := by
  refine ⟨fun low => ⟨fun narrowed only => ?_, fun long => ?_⟩, ?_, form.encode_of_shortOnly⟩
  · rw [form.encode_of_shortOnly only] at narrowed
    contradiction
  · have supported : mnemonic.opcode? body.operand.mode ≠ none :=
      mt (Mnemonic.opcode?_eq_none_iff form.listed).mp long
    obtain ⟨opcode, allows⟩ := Option.ne_none_iff_exists'.mp supported
    rw [form.encode_eq resolves allows, direct_of_shortForm form.listed, if_pos low]
  · intro opcode allows high
    rw [form.encode_eq resolves allows, direct_of_shortForm form.listed, if_neg (Nat.not_lt.mpr high)]

def loadLow : Instruction := ⟨"ldx".toList, .indexed "low".toList .y, "ldx low,y".toList⟩

def loadHigh : Instruction := ⟨"ldx".toList, .indexed "high".toList .y, "ldx high,y".toList⟩

def pages : LabelTable := ⟨[("low".toList, 0x42), ("high".toList, 0x142)], by decide⟩

theorem narrows_loading :
    loadLow.encode (.complete pages) 0xC000 = .ok [0xB6, 0x42] ∧
      loadHigh.encode (.complete pages) 0xC000 = .ok [0xBE, 0x42, 0x01] := by
  have low : loadLow.HasShortForm .ldx "low".toList 0xB6 := ⟨rfl, .inr ⟨.y, rfl⟩, rfl⟩
  have high : loadHigh.HasShortForm .ldx "high".toList 0xB6 := ⟨rfl, .inr ⟨.y, rfl⟩, rfl⟩
  have resolvesLow : valueOf "low".toList .word (.complete pages) 0xC000 = .ok 0x42 := rfl
  have resolvesHigh : valueOf "high".toList .word (.complete pages) 0xC000 = .ok 0x142 := rfl
  exact ⟨((narrows_unless_shortOnly low resolvesLow).1 (by decide)).mpr (by decide),
    (narrows_unless_shortOnly high resolvesHigh).2.1 0xBE rfl (by decide)⟩

def storeX : Instruction := ⟨"STX".toList, .indexed "$10".toList .y, "STX $10,Y".toList⟩

def storeY : Instruction := ⟨"STY".toList, .indexed "$10".toList .x, "STY $10,X".toList⟩

/-- The stores that are refused in the zero page, although the table has their short form. -/
theorem shortOnly_refused :
    (Statement.parse "STX $10,Y".toList = .ok (some (.instruction none storeX)) ∧
      storeX.HasShortForm .stx "$10".toList 0x96 ∧
      valueOf "$10".toList .word (.complete .empty) 0xC000 = .ok 0x10 ∧
      storeX.encode (.complete .empty) 0xC000 = .error (.unsupportedMode .stx .absoluteY)) ∧
    (Statement.parse "STY $10,X".toList = .ok (some (.instruction none storeY)) ∧
      storeY.HasShortForm .sty "$10".toList 0x94 ∧
      valueOf "$10".toList .word (.complete .empty) 0xC000 = .ok 0x10 ∧
      storeY.encode (.complete .empty) 0xC000 = .error (.unsupportedMode .sty .absoluteX)) :=
  ⟨⟨rfl, ⟨rfl, .inr ⟨.y, rfl⟩, rfl⟩, rfl, rfl⟩, rfl, ⟨rfl, .inr ⟨.x, rfl⟩, rfl⟩, rfl, rfl⟩

end Narrowing

end Asm65
