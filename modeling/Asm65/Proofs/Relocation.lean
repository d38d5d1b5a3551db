import Asm65.Proofs.Consistency
import Asm65.Proofs.Simulation

namespace Asm65

/-! A program at another origin. Without origin directives everything moves with the first byte, and a
branch stays as far from its target as it was. Outside the zero page no operand changes its size. -/

open Outcome Encoding

def MovedBy (shift : Int) (word other : UInt16) : Prop :=
  (other.toNat : Int) = word.toNat + shift

def relocate (shift : Int) (word : UInt16) : UInt16 :=
  .ofNat (word.toNat + shift).toNat

variable {shift : Int} {word other here there value target : UInt16}

theorem movedBy_relocate (low : 0 ≤ word.toNat + shift) (high : word.toNat + shift < 0x10000) :
    MovedBy shift word (relocate shift word) := by
  rw [MovedBy, relocate, UInt16.toNat_ofNat_of_lt' (by simp only [UInt16.size]; omega)]
  omega

theorem MovedBy.relocate_eq (moved : MovedBy shift word other) : relocate shift word = other := by
  have bound := other.toNat_lt
  simp only [MovedBy] at moved
  apply UInt16.toNat_inj.mp
  rw [relocate, UInt16.toNat_ofNat_of_lt' (by simp only [UInt16.size]; omega)]
  omega

theorem MovedBy.distance_eq (moved : MovedBy shift value target) (movedToo : MovedBy shift here there) :
    distance target there = distance value here := by
  simp only [MovedBy] at moved movedToo
  simp only [distance]
  omega

namespace LabelTable

variable {table labels : LabelTable} {name : Text}

def relocate (shift : Int) (table : LabelTable) : LabelTable where
  entries := table.entries.map fun row => (row.1, Asm65.relocate shift row.2)
  nodup := by
    rw [List.map_map]
    exact table.nodup

theorem names_relocate : (table.relocate shift).names = table.names := by
  rw [names, relocate, List.map_map]
  rfl

theorem get?_relocate :
    (table.relocate shift).get? name = (table.get? name).map (Asm65.relocate shift) := by
  simp only [get?, relocate]
  induction table.entries with
  | nil => rfl
  | cons row rest ih =>
      rw [List.map_cons, List.lookup_cons, List.lookup_cons]
      cases name == row.1 with
      | true => rfl
      | false => exact ih

/-- The labels lie outside the zero page, before and after the move. -/
def High (shift : Int) (table : LabelTable) : Prop :=
  ∀ name address, table.get? name = some address →
    0x100 ≤ address.toNat ∧ 0x100 ≤ address.toNat + shift ∧ address.toNat + shift < 0x10000

theorem High.movedBy (high : table.High shift) {address : UInt16}
    (bound : table.get? name = some address) :
    MovedBy shift address (Asm65.relocate shift address) := by
  obtain ⟨_, low, within⟩ := high name address bound
  apply movedBy_relocate
  · omega
  · exact within

theorem High.of_relocate (high : table.High shift) (bound : (table.relocate shift).get? name = some target) :
    0x100 ≤ target.toNat := by
  rw [get?_relocate, Option.map_eq_some_iff] at bound
  obtain ⟨address, boundHere, rfl⟩ := bound
  have moved := high.movedBy boundHere
  obtain ⟨_, low, _⟩ := high name address boundHere
  rw [MovedBy] at moved
  omega

end LabelTable

section Encoding

variable {mnemonic : Mnemonic} {mode : Mode} {opcode : UInt8} {bytes : List UInt8} {body : Instruction}
  {known : LabelTable}

theorem Encoding.emit_eq_of_plain (plain : mnemonic.isBranch = false) :
    emit mnemonic mode opcode value there = emit mnemonic mode opcode value here := by
  cases mode with
  | absolute => simp only [emit, plain, Bool.false_eq_true, if_false]
  | implied | immediate | zeroPage | zeroPageX | absoluteX | absoluteY | indexedIndirect
  | indirectIndexed | accumulator | indirect | zeroPageY => rfl

/-- Outside the zero page there is only the long form. -/
theorem Encoding.emit_of_high (plain : mnemonic.isBranch = false) (addresses : mode ≠ .immediate)
    (high : 0x100 ≤ value.toNat) : emit mnemonic mode opcode value here = .ok (withWord opcode value) := by
  have long : ∀ mode, direct mnemonic mode opcode value = withWord opcode value := by
    simp [direct, Mnemonic.shortOpcode?, Nat.not_lt.mpr high]
  cases mode with
  | immediate => contradiction
  | absolute => simp [emit, plain, long]
  | absoluteX | absoluteY => simp [emit, long]
  | implied | zeroPage | zeroPageX | indexedIndirect | indirectIndexed | accumulator | indirect
  | zeroPageY => rfl

theorem Encoding.emit_branch (branches : mnemonic.isBranch = true)
    (away : distance target there = distance value here)
    (emitted : emit mnemonic .absolute opcode value here = .ok bytes) :
    emit mnemonic .absolute opcode target there = .ok bytes := by
  simp only [emit, branches, if_true, branch, away] at emitted ⊢
  split at emitted
  next near =>
      rw [if_pos near]
      exact emitted
  next => contradiction

/-- The bytes contain the address of a label: the operand is a name, and the operation is no branch. -/
def Instruction.holdsAddress (body : Instruction) : Bool :=
  !body.isBranch && body.operand.text?.any fun text => (literalValue? text).isNone

def Instruction.branchesToNumber (body : Instruction) : Bool :=
  body.isBranch && body.operand.text?.any fun text => (literalValue? text).isSome

def RelocatedBytes (shift : Int) (holdsAddress : Bool) (bytes moved : List UInt8) : Prop :=
  if holdsAddress then
    ∃ opcode address target, bytes = withWord opcode address ∧ moved = withWord opcode target ∧
      MovedBy shift address target
  else moved = bytes

theorem RelocatedBytes.length_eq {holdsAddress : Bool} {moved : List UInt8}
    (relocated : RelocatedBytes shift holdsAddress bytes moved) : moved.length = bytes.length := by
  unfold RelocatedBytes at relocated
  split at relocated
  · obtain ⟨_, _, _, rfl, rfl, _⟩ := relocated
    rfl
  · rw [relocated]

/-- An instruction at another place, among labels that have moved with it. -/
theorem Instruction.encode_relocated (relative : body.branchesToNumber = false)
    (high : known.High shift) (moved : MovedBy shift here there)
    (encoded : body.encode (.complete known) here = .ok bytes) :
    ∃ made, body.encode (.complete (known.relocate shift)) there = .ok made ∧
      RelocatedBytes shift body.holdsAddress bytes made := by
  obtain ⟨mnemonic, opcode, supported⟩ := supported_of_encode encoded
  have branches : body.isBranch = mnemonic.isBranch := supported.isBranch_eq
  rw [encode_of_supported supported] at encoded ⊢
  cases takes : body.operand.text? with
  | none =>
      rw [takes] at encoded
      exact ⟨bytes, encoded, by simp [RelocatedBytes, holdsAddress, takes]⟩
  | some text =>
      simp only [takes] at encoded ⊢
      obtain ⟨value, valued, emitted⟩ := bind_eq_ok_iff.mp encoded
      cases literal : literalValue? text with
      | some number =>
          -- a number is the same everywhere, and only a branch asks where it stands
          have plain : mnemonic.isBranch = false := by
            simpa [branchesToNumber, takes, literal, branches] using relative
          rw [valueOf_literal literal] at valued
          refine ⟨bytes, ?_, by simp [RelocatedBytes, holdsAddress, takes, literal]⟩
          rw [valueOf_literal literal, valued, ← emitted]
          exact emit_eq_of_plain plain
      | none =>
          obtain ⟨bound, width, sees, addresses⟩ := Operand.label_of_valueOf literal valued
          have boundToo : (known.relocate shift).get? text = some (relocate shift value) := by
            rw [LabelTable.get?_relocate, bound, Option.map_some]
          have movedToo := high.movedBy bound
          rw [sees, width, valueOf_complete_bound literal boundToo]
          cases kind : mnemonic.isBranch with
          | true =>
              have mode := Mnemonic.mode_of_isBranch kind supported.allows
              rw [mode] at emitted ⊢
              exact ⟨bytes, emit_branch kind (movedToo.distance_eq moved) emitted,
                by simp [RelocatedBytes, holdsAddress, branches, kind]⟩
          | false =>
              rw [emit_of_high kind addresses (high text value bound).1] at emitted
              refine ⟨_, emit_of_high kind addresses (high.of_relocate boundToo), ?_⟩
              have holds : body.holdsAddress = true := by
                simp [holdsAddress, branches, kind, takes, literal]
              rw [RelocatedBytes, if_pos holds]
              exact ⟨opcode, value, _, (Except.ok.inj emitted).symm, rfl, movedToo⟩

end Encoding

namespace Line

def holdsAddress (line : Line) : Bool :=
  match line.statement? with
  | some (.instruction _ body) => body.holdsAddress
  | _ => false

def branchesToNumber (line : Line) : Bool :=
  match line.statement? with
  | some (.instruction _ body) => body.branchesToNumber
  | _ => false

end Line

/-- The entries of an instruction in two assemblies that differ in their place. -/
structure Entry.Relocated (shift : Int) (line : Line) (entry other : Entry) : Prop where
  number : entry.line = line.number ∧ other.line = line.number
  label : other.label = entry.label
  text : other.text = entry.text
  address : MovedBy shift entry.address other.address
  bytes : RelocatedBytes shift line.holdsAddress entry.bytes other.bytes

structure Progress.Relocated (shift : Int) (progress other : Progress) : Prop where
  pc : (other.pc : Int) = progress.pc + shift
  labels : other.labels = progress.labels.relocate shift

namespace Pass

variable {pass : Pass} {known labels : LabelTable} {progress next after last : Progress} {line : Line}
  {lines : List Line} {entries : List Entry} {entry : Option Entry} {statement : Option Statement}
  {trace : Bool} {visit : Visit}

theorem Advances.pc_of_straight (stated : line.statement? = statement) (straight : line.isOrigin = false)
    (advances : pass.Advances line.number progress statement entry next) :
    next.pc = progress.pc + (entry.toList.flatMap Entry.bytes).length := by
  cases advances with
  | blank | label => rfl
  | origin => simp [Line.isOrigin, stated, Statement.isOrigin] at straight
  | instruction => simp

theorem bindLabel?_relocated {label : Option Text} {bound : LabelTable} (moved : MovedBy shift here there)
    (binds : ((Pass.final known).bindLabel? labels label here).outcome = .ok bound) :
    ((Pass.final (known.relocate shift)).bindLabel? (labels.relocate shift) label there).outcome =
      .ok (bound.relocate shift) := by
  obtain ⟨grown, fresh⟩ := bindLabel?_eq_ok_iff.mp binds
  refine bindLabel?_eq_ok_iff.mpr ⟨?_, fun name named => ⟨?_, ?_⟩⟩
  · simp only [LabelTable.relocate, grown, List.map_append]
    cases label with
    | none => rfl
    | some name => simp [moved.relocate_eq]
  · rw [LabelTable.names_relocate]
    exact (fresh name named).1
  · apply confirm_eq_ok_iff.mpr
    rintro _ ⟨⟩ found foundAt
    rw [LabelTable.get?_relocate, Option.map_eq_some_iff] at foundAt
    obtain ⟨address, foundHere, rfl⟩ := foundAt
    rw [confirm_eq_ok_iff.mp (fresh name named).2 known rfl address foundHere]
    exact moved.relocate_eq

theorem Advances.relocated (stated : line.statement? = statement) (straight : line.isOrigin = false)
    (relative : line.branchesToNumber = false) (high : known.High shift)
    (beside : progress.Relocated shift after) (room : (next.pc : Int) + shift ≤ 0xFFFF)
    (advances : (Pass.final known).Advances line.number progress statement entry next) :
    ∃ made later, (Pass.final (known.relocate shift)).Advances line.number after statement made later ∧
      next.Relocated shift later ∧ List.Forall₂ (Entry.Relocated shift line) entry.toList made.toList := by
  have counted := advances.pc_of_straight stated straight
  have movedPc := beside.pc
  have exists_there : ∀ here : UInt16, here.toNat = progress.pc →
      ∃ there : UInt16, there.toNat = after.pc ∧ MovedBy shift here there := by
    intro here placed
    have placedToo : (UInt16.ofNat after.pc).toNat = after.pc :=
      UInt16.toNat_ofNat_of_lt' (by simp only [UInt16.size]; omega)
    refine ⟨.ofNat after.pc, placedToo, ?_⟩
    rw [MovedBy, placed, placedToo, movedPc]
  cases advances with
  | blank => exact ⟨none, after, .blank, beside, .nil⟩
  | origin => simp [Line.isOrigin, stated, Statement.isOrigin] at straight
  | label placed binds =>
      obtain ⟨there, placedToo, moved⟩ := exists_there _ placed
      have bindsToo := bindLabel?_relocated moved binds
      rw [← beside.labels] at bindsToo
      exact ⟨none, _, .label placedToo bindsToo, ⟨movedPc, rfl⟩, .nil⟩
  | @instruction label body here labels bytes placed binds encoded _ =>
      obtain ⟨there, placedToo, moved⟩ := exists_there _ placed
      have bindsToo := bindLabel?_relocated moved binds
      rw [← beside.labels] at bindsToo
      rw [Line.branchesToNumber, stated] at relative
      obtain ⟨made, encodedToo, relocated⟩ := Instruction.encode_relocated relative high moved encoded
      have same := relocated.length_eq
      have roomToo : after.pc + made.length ≤ 0x10000 := by
        simp only at room
        omega
      have holds : line.holdsAddress = body.holdsAddress := by rw [Line.holdsAddress, stated]
      have later : (after.pc + made.length : Nat) = (progress.pc + bytes.length : Nat) + shift := by omega
      refine ⟨_, _, .instruction placedToo bindsToo encodedToo roomToo, ⟨later, rfl⟩, .cons ?_ .nil⟩
      exact ⟨⟨rfl, rfl⟩, rfl, rfl, moved, holds ▸ relocated⟩

end Pass

structure Assembly.Relocated (shift : Int) (source : Text) (assembly other : Assembly) : Prop where
  origin : MovedBy shift assembly.origin other.origin
  labels : List.Forall₂ (fun row moved => moved.1 = row.1 ∧ MovedBy shift row.2 moved.2)
    assembly.labels.entries other.labels.entries
  entries : List.Forall₂
    (fun entry moved => ∃ line ∈ Line.ofSource source, Entry.Relocated shift line entry moved)
    assembly.entries other.entries

section Assembly

variable {config moved : Config} {source : Text} {assembly again : Assembly} {lines : List Line}
  {entries made : List Entry}

end Assembly

end Asm65
