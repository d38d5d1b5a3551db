import Asm65.Encoding
import Asm65.Proofs.Outcome
import Asm65.Proofs.LabelTable

namespace Asm65

/-! An instruction is encoded in two steps: its operand gets a value, which may depend on labels
and on the address, and the value becomes bytes. Size and faults of an instruction follow from the
second step alone. -/

open Outcome Encoding

variable {text : Text} {view : LabelView} {here value : UInt16} {fault : Fault}

theorem Width.fit_eq_ok_iff {width : Width} {number : Nat} :
    width.fit number = .ok value ↔ value.toNat = number ∧ number < width.limit := by
  by_cases below : number < width.limit
  · have bound : number < 0x10000 := by
      cases width <;> simp only [Width.limit] at below <;> omega
    rw [Width.fit, if_pos below, Except.ok.injEq, ← UInt16.toNat_inj, UInt16.toNat_ofNat']
    omega
  · simp [Width.fit, below]

theorem Width.word_fit_eq_ok_iff {number : Nat} :
    Width.word.fit number = .ok value ↔ value.toNat = number := by
  have bound := value.toNat_lt
  simp only [Width.fit_eq_ok_iff, Width.limit]
  omega

theorem Width.fit_eq_error_iff {width : Width} {number : Nat} :
    width.fit number = .error fault ↔
      width.limit ≤ number ∧ fault = .valueOutOfRange number width.limit := by
  by_cases below : number < width.limit
  · simp only [Width.fit, if_pos below, reduceCtorEq, false_iff]
    omega
  · simp only [Width.fit, if_neg below, Except.error.injEq, Nat.le_of_not_lt below, true_and, eq_comm]

@[simp] theorem Width.word_fit_toNat (word : UInt16) : Width.word.fit word.toNat = .ok word :=
  Width.word_fit_eq_ok_iff.mpr rfl

theorem valueOf_literal {width : Width} {number : Nat} (literal : literalValue? text = some number) :
    valueOf text width view here = width.fit number := by
  simp [valueOf, literal]

theorem valueOf_growing_bound {seen : LabelTable} (named : literalValue? text = none)
    (bound : seen.get? text = some value) :
    valueOf text .word (.growing seen) here = .ok value := by
  simp [valueOf, named, bound]

theorem valueOf_growing_free {width : Width} {seen : LabelTable} (named : literalValue? text = none)
    (free : seen.get? text = none) : valueOf text width (.growing seen) here = .ok here := by
  simp [valueOf, named, free]

theorem valueOf_complete_bound {known : LabelTable} (named : literalValue? text = none)
    (bound : known.get? text = some value) :
    valueOf text .word (.complete known) here = .ok value := by
  simp [valueOf, named, bound]

theorem valueOf_complete_free {width : Width} {known : LabelTable} (named : literalValue? text = none)
    (free : known.get? text = none) :
    valueOf text width (.complete known) here = .error (.unresolvedOperand text) := by
  simp [valueOf, named, free]

/-- The number that a text stands for: a literal its own value, a name the address of the label. -/
def LabelTable.meaning? (labels : LabelTable) (text : Text) : Option Nat :=
  match literalValue? text with
  | some number => some number
  | none => (labels.get? text).map UInt16.toNat

theorem LabelTable.meaning?_of_empty {labels : LabelTable} {number : Nat}
    (means : LabelTable.empty.meaning? text = some number) : labels.meaning? text = some number := by
  unfold meaning? at means ⊢
  split at means
  next => exact means
  next => simp at means

theorem valueOf_complete_eq_ok_iff {width : Width} {known : LabelTable} :
    valueOf text width (.complete known) here = .ok value ↔
      known.meaning? text = some value.toNat ∧ value.toNat < width.limit := by
  cases literal : literalValue? text with
  | some number =>
      rw [valueOf_literal literal, Width.fit_eq_ok_iff]
      simp only [LabelTable.meaning?, literal, Option.some.injEq]
      omega
  | none =>
      cases bound : known.get? text with
      | none => simp [valueOf_complete_free literal bound, LabelTable.meaning?, literal, bound]
      | some address =>
          simp only [valueOf, literal, bound, Width.fit_eq_ok_iff, LabelTable.meaning?,
            Option.map_some, Option.some.injEq]
          omega

theorem fault_of_valueOf {width : Width} (failed : valueOf text width view here = .error fault) :
    fault = .unresolvedOperand text ∨ ∃ number, fault = .valueOutOfRange number width.limit := by
  have unfit : ∀ {number}, width.fit number = .error fault →
      ∃ number, fault = .valueOutOfRange number width.limit :=
    fun {number} failed => ⟨number, (Width.fit_eq_error_iff.mp failed).2⟩
  unfold valueOf at failed
  split at failed
  next => exact .inr (unfit failed)
  next =>
      split at failed
      next => exact .inr (unfit failed)
      next => contradiction
  next =>
      split at failed
      next => exact .inr (unfit failed)
      next =>
          cases failed
          exact .inl rfl

theorem Mnemonic.parse_eq_ok_iff {mnemonic : Mnemonic} :
    Mnemonic.parse text = .ok mnemonic ↔ Mnemonic.ofText? text = some mnemonic := by
  cases found : Mnemonic.ofText? text <;> simp [Mnemonic.parse, found]

theorem Mnemonic.opcode_eq_ok_iff {mnemonic : Mnemonic} {mode : Mode} {opcode : UInt8} :
    mnemonic.opcode mode = .ok opcode ↔ mnemonic.opcode? mode = some opcode := by
  cases found : mnemonic.opcode? mode <;> simp [Mnemonic.opcode, found]

theorem Mnemonic.parse_eq_error_iff :
    Mnemonic.parse text = .error fault ↔
      Mnemonic.ofText? text = none ∧ fault = .unknownMnemonic text := by
  cases found : Mnemonic.ofText? text <;> simp [Mnemonic.parse, found, eq_comm]

theorem Mnemonic.opcode_eq_error_iff {mnemonic : Mnemonic} {mode : Mode} :
    mnemonic.opcode mode = .error fault ↔
      mnemonic.opcode? mode = none ∧ fault = .unsupportedMode mnemonic mode := by
  cases found : mnemonic.opcode? mode <;> simp [Mnemonic.opcode, found, eq_comm]

namespace Operand

def text? : Operand → Option Text
  | implied | accumulator => none
  | immediate text | absolute text | indexed text _ | indirect text | indexedIndirect text
  | indirectIndexed text => some text

def width : Operand → Width
  | immediate _ => .byte
  | _ => .word

/-- The labels that an operand can name, out of those in view. -/
def sees (view : LabelView) : Operand → LabelView
  | immediate _ => .complete .empty
  | _ => view

end Operand

/-- The value of an operand, with all labels in view, is what its text means. -/
theorem Operand.means_of_valueOf {operand : Operand} {known : LabelTable}
    (valued : valueOf text operand.width (operand.sees (.complete known)) here = .ok value) :
    known.meaning? text = some value.toNat ∧ value.toNat < operand.width.limit := by
  cases operand with
  | immediate =>
      obtain ⟨means, fits⟩ := valueOf_complete_eq_ok_iff.mp valued
      exact ⟨LabelTable.meaning?_of_empty means, fits⟩
  | implied | accumulator | absolute | indexed | indirect | indexedIndirect | indirectIndexed =>
      exact valueOf_complete_eq_ok_iff.mp valued

/-- An operand that is a name has the address of a label for its value, and is no immediate one. -/
theorem Operand.label_of_valueOf {operand : Operand} {known : LabelTable} (named : literalValue? text = none)
    (valued : valueOf text operand.width (operand.sees (.complete known)) here = .ok value) :
    known.get? text = some value ∧ operand.width = .word ∧ (∀ view, operand.sees view = view) ∧
      operand.mode ≠ .immediate := by
  have bound : known.get? text = some value := by
    have means := (means_of_valueOf valued).1
    simp only [LabelTable.meaning?, named, Option.map_eq_some_iff] at means
    obtain ⟨address, bound, same⟩ := means
    rw [bound, UInt16.toNat_inj.mp same]
  cases operand with
  | immediate =>
      simp only [sees] at valued
      rw [valueOf_complete_free named LabelTable.get?_empty] at valued
      contradiction
  | indexed text index => cases index <;> exact ⟨bound, rfl, fun _ => rfl, by simp [mode]⟩
  | implied | accumulator | absolute | indirect | indexedIndirect | indirectIndexed =>
      exact ⟨bound, rfl, fun _ => rfl, by simp [mode]⟩

/-- The bytes of an operation in a written mode, once its operand has a value. -/
def Encoding.emit (mnemonic : Mnemonic) (mode : Mode) (opcode : UInt8) (value here : UInt16) :
    Except Fault (List UInt8) :=
  match mode with
  | .immediate => .ok [opcode, lowByte value]
  | .absolute =>
      if mnemonic.isBranch then branch opcode value here
      else .ok (direct mnemonic .absolute opcode value)
  | .absoluteX | .absoluteY => .ok (direct mnemonic mode opcode value)
  | _ => .ok (withWord opcode value)

namespace Instruction

variable {body : Instruction} {mnemonic : Mnemonic} {opcode : UInt8} {bytes : List UInt8}

/-- The instruction names an operation, and the operation exists in the written mode. -/
structure Supported (body : Instruction) (mnemonic : Mnemonic) (opcode : UInt8) : Prop where
  names : Mnemonic.ofText? body.mnemonic = some mnemonic
  allows : mnemonic.opcode? body.operand.mode = some opcode

/-- The bytes of a supported instruction: the opcode alone, or what is emitted for the value of
the operand. -/
theorem encode_of_supported (supported : body.Supported mnemonic opcode) :
    body.encode view here =
      match body.operand.text? with
      | none => .ok [opcode]
      | some text =>
          (valueOf text body.operand.width (body.operand.sees view) here).bind
            fun value => emit mnemonic body.operand.mode opcode value here := by
  obtain ⟨source, operand, written⟩ := body
  have parsed := Mnemonic.parse_eq_ok_iff.mpr supported.names
  have found := Mnemonic.opcode_eq_ok_iff.mpr supported.allows
  simp only [encode, parsed, found, Bind.bind, Except.bind, Pure.pure, Except.pure]
  cases operand with
  | indexed text index => cases index <;> rfl
  | implied | accumulator | immediate | absolute | indirect | indexedIndirect | indirectIndexed =>
      rfl

theorem supported_of_encode (encoded : body.encode view here = .ok bytes) :
    ∃ mnemonic opcode, body.Supported mnemonic opcode := by
  obtain ⟨mnemonic, parsed, rest⟩ := bind_eq_ok_iff.mp encoded
  obtain ⟨opcode, found, _⟩ := bind_eq_ok_iff.mp rest
  exact ⟨mnemonic, opcode, Mnemonic.parse_eq_ok_iff.mp parsed, Mnemonic.opcode_eq_ok_iff.mp found⟩

theorem encode_eq_error_iff :
    body.encode view here = .error fault ↔
      (Mnemonic.ofText? body.mnemonic = none ∧ fault = .unknownMnemonic body.mnemonic) ∨
      (∃ mnemonic, Mnemonic.ofText? body.mnemonic = some mnemonic ∧
        mnemonic.opcode? body.operand.mode = none ∧
        fault = .unsupportedMode mnemonic body.operand.mode) ∨
      ∃ mnemonic opcode text, body.Supported mnemonic opcode ∧ body.operand.text? = some text ∧
        (valueOf text body.operand.width (body.operand.sees view) here).bind
          (fun value => emit mnemonic body.operand.mode opcode value here) = .error fault := by
  constructor
  · intro failed
    rcases bind_eq_error_iff.mp failed with unknown | ⟨mnemonic, parsed, rest⟩
    · exact .inl (Mnemonic.parse_eq_error_iff.mp unknown)
    rw [Mnemonic.parse_eq_ok_iff] at parsed
    rcases bind_eq_error_iff.mp rest with unsupported | ⟨opcode, found, _⟩
    · exact .inr (.inl ⟨mnemonic, parsed, Mnemonic.opcode_eq_error_iff.mp unsupported⟩)
    have supported : body.Supported mnemonic opcode :=
      ⟨parsed, Mnemonic.opcode_eq_ok_iff.mp found⟩
    rw [encode_of_supported supported] at failed
    cases takes : body.operand.text? with
    | none => simp [takes] at failed
    | some text =>
        simp only [takes] at failed
        exact .inr (.inr ⟨mnemonic, opcode, text, supported, rfl, failed⟩)
  · intro reason
    rcases reason with unknown | ⟨mnemonic, named, unsupported⟩ | ⟨mnemonic, opcode, text, supported, takes, failed⟩
    · exact bind_eq_error_iff.mpr (.inl (Mnemonic.parse_eq_error_iff.mpr unknown))
    · exact bind_eq_error_iff.mpr (.inr ⟨mnemonic, Mnemonic.parse_eq_ok_iff.mpr named,
        bind_eq_error_iff.mpr (.inl (Mnemonic.opcode_eq_error_iff.mpr unsupported))⟩)
    · rw [encode_of_supported supported, takes]
      exact failed

def isBranch (body : Instruction) : Bool :=
  (Mnemonic.ofText? body.mnemonic).any Mnemonic.isBranch

/-- The size depends on the value of the operand: the operation is no branch, and it also exists
in the short form of the written mode. -/
def narrows (body : Instruction) : Bool :=
  (Mnemonic.ofText? body.mnemonic).any fun mnemonic =>
    !mnemonic.isBranch && (body.operand.mode.shortForm?.bind mnemonic.opcode?).isSome

def size (body : Instruction) (value : UInt16) : Nat :=
  match body.operand with
  | .implied | .accumulator => 1
  | .immediate _ => 2
  | _ => if body.isBranch || (body.narrows && value.toNat < 0x100) then 2 else 3

end Instruction

/-- A branch at `here` can say how far away the target is. -/
def Encoding.InReach (target here : UInt16) : Prop :=
  -128 ≤ distance target here ∧ distance target here ≤ 127

instance (target here : UInt16) : Decidable (InReach target here) :=
  inferInstanceAs (Decidable (_ ∧ _))

/-- A branch reaches the address that stands in for a name not yet bound. -/
theorem Encoding.inReach_self (here : UInt16) : InReach here here := by
  simp only [InReach, distance]
  omega

theorem Instruction.size_bounds (body : Instruction) (value : UInt16) :
    1 ≤ body.size value ∧ body.size value ≤ 3 := by
  unfold size
  split
  · omega
  · omega
  · omega
  · split <;> omega

theorem Instruction.size_le (body : Instruction) (value : UInt16) : body.size value ≤ 3 :=
  (body.size_bounds value).2

theorem Mnemonic.opcode?_eq_some_iff {mnemonic : Mnemonic} {mode : Mode} {opcode : UInt8} :
    mnemonic.opcode? mode = some opcode ↔ (mode, opcode) ∈ mnemonic.encodings :=
  lookup_eq_some_iff_mem (by cases mnemonic <;> decide)

theorem Mnemonic.mode_of_isBranch {mnemonic : Mnemonic} {mode : Mode} {opcode : UInt8}
    (branches : mnemonic.isBranch = true) (allows : mnemonic.opcode? mode = some opcode) :
    mode = .absolute := by
  have member := opcode?_eq_some_iff.mp allows
  cases mnemonic <;> first
    | contradiction
    | exact congrArg Prod.fst (List.mem_singleton.mp member)

theorem Encoding.direct_length {mnemonic : Mnemonic} {mode : Mode} {opcode : UInt8} :
    (direct mnemonic mode opcode value).length =
      if value.toNat < 0x100 ∧ (mode.shortForm?.bind mnemonic.opcode?).isSome then 2 else 3 := by
  by_cases low : value.toNat < 0x100 <;>
    cases short : mode.shortForm?.bind mnemonic.opcode? <;>
    simp [direct, Mnemonic.shortOpcode?, withWord, low, short]

theorem Encoding.emit_eq_error_iff {mnemonic : Mnemonic} {mode : Mode} {opcode : UInt8} :
    emit mnemonic mode opcode value here = .error fault ↔
      mode = .absolute ∧ mnemonic.isBranch = true ∧ ¬ InReach value here ∧
        fault = .branchOutOfRange value (distance value here) := by
  cases mode with
  | absolute =>
      by_cases branches : mnemonic.isBranch = true
      · by_cases reached : -128 ≤ distance value here ∧ distance value here ≤ 127
        · simp [emit, branch, branches, InReach, reached]
        · simp [emit, branch, branches, InReach, reached, eq_comm]
      · simp [emit, branches]
  | implied | immediate | zeroPage | zeroPageX | absoluteX | absoluteY | indexedIndirect
  | indirectIndexed | accumulator | indirect | zeroPageY => simp [emit]

namespace Instruction

variable {body : Instruction} {mnemonic : Mnemonic} {opcode : UInt8} {bytes : List UInt8}

theorem Supported.isBranch_eq (supported : body.Supported mnemonic opcode) :
    body.isBranch = mnemonic.isBranch := by
  simp [isBranch, supported.names]

theorem Supported.narrows_eq (supported : body.Supported mnemonic opcode) :
    body.narrows =
      (!mnemonic.isBranch && (body.operand.mode.shortForm?.bind mnemonic.opcode?).isSome) := by
  simp [narrows, supported.names]

theorem Supported.straight (supported : body.Supported mnemonic opcode)
    (other : body.operand.mode ≠ .absolute) : mnemonic.isBranch = false :=
  Bool.eq_false_iff.mpr fun branches =>
    other (Mnemonic.mode_of_isBranch branches supported.allows)

theorem Supported.operand_of_isBranch (supported : body.Supported mnemonic opcode)
    (branches : body.isBranch = true) : ∃ text, body.operand = .absolute text := by
  rw [supported.isBranch_eq] at branches
  have mode := Mnemonic.mode_of_isBranch branches supported.allows
  cases written : body.operand with
  | absolute text => exact ⟨text, rfl⟩
  | indexed text index => cases index <;> simp [written, Operand.mode] at mode
  | implied | accumulator | immediate | indirect | indexedIndirect | indirectIndexed =>
      simp [written, Operand.mode] at mode

theorem emit_length (supported : body.Supported mnemonic opcode)
    (takes : body.operand.text? = some text)
    (emitted : emit mnemonic body.operand.mode opcode value here = .ok bytes) :
    bytes.length = body.size value := by
  have short : ∀ mode, body.operand.mode = mode → mnemonic.isBranch = false →
      (direct mnemonic mode opcode value).length =
        if body.isBranch || (body.narrows && value.toNat < 0x100) then 2 else 3 := by
    intro mode written plain
    subst written
    simp [direct_length, supported.isBranch_eq, supported.narrows_eq, plain, and_comm]
  have plain := supported.straight
  cases written : body.operand with
  | implied | accumulator => simp [written, Operand.text?] at takes
  | immediate text =>
      simp only [written, Operand.mode, emit, Except.ok.injEq] at emitted
      simp [size, written, ← emitted]
  | absolute text =>
      simp only [written, Operand.mode, emit] at emitted
      split at emitted
      next branches =>
          simp only [branch] at emitted
          split at emitted
          · cases emitted
            simp [size, written, supported.isBranch_eq, branches]
          · contradiction
      next plain =>
          cases emitted
          simpa [size, written] using short .absolute (by rw [written]; rfl) (by simpa using plain)
  | indexed text index =>
      have mode : body.operand.mode = .absoluteX ∨ body.operand.mode = .absoluteY := by
        cases index <;> simp [written, Operand.mode]
      rcases mode with mode | mode <;>
        · rw [mode] at emitted plain
          cases emitted
          simpa [size, written] using short _ mode (plain (by decide))
  | indirect text | indexedIndirect text | indirectIndexed text =>
      simp only [written, Operand.mode, emit, Except.ok.injEq] at emitted plain
      simp [size, written, ← emitted, withWord, supported.isBranch_eq, supported.narrows_eq,
        plain (by decide), Operand.mode, Mode.shortForm?]

/-- The operand has the given value in a view, if there is an operand. -/
def Takes (body : Instruction) (view : LabelView) (here value : UInt16) : Prop :=
  ∀ text, body.operand.text? = some text →
    valueOf text body.operand.width (body.operand.sees view) here = .ok value

theorem encode_length (encoded : body.encode view here = .ok bytes) :
    ∃ value, bytes.length = body.size value ∧ body.Takes view here value := by
  obtain ⟨mnemonic, opcode, supported⟩ := supported_of_encode encoded
  rw [encode_of_supported supported] at encoded
  cases takes : body.operand.text? with
  | none =>
      simp only [takes] at encoded
      cases encoded
      refine ⟨0, ?_, by simp [Takes, takes]⟩
      cases written : body.operand <;> simp_all [Operand.text?, size]
  | some text =>
      simp only [takes] at encoded
      obtain ⟨value, resolved, emitted⟩ := bind_eq_ok_iff.mp encoded
      refine ⟨value, emit_length supported takes emitted, fun other same => ?_⟩
      cases takes.symm.trans same
      exact resolved

theorem encode_of_takes (supported : body.Supported mnemonic opcode)
    (takes : body.Takes view here value) :
    (body.isBranch = true ∧ ¬ InReach value here ∧
        body.encode view here = .error (.branchOutOfRange value (distance value here))) ∨
      ((body.isBranch = true → InReach value here) ∧
        ∃ bytes, body.encode view here = .ok bytes ∧ bytes.length = body.size value) := by
  have encoded : body.encode view here = _ := encode_of_supported supported
  rw [supported.isBranch_eq]
  cases written : body.operand.text? with
  | none =>
      have alone : body.size value = 1 ∧ body.operand.mode ≠ .absolute := by
        cases operand : body.operand <;> simp_all [Operand.text?, Operand.mode, size]
      rw [written] at encoded
      exact .inr ⟨by simp [supported.straight alone.2], [opcode], encoded, by simp [alone.1]⟩
  | some text =>
      simp only [written, takes text written, Except.bind] at encoded
      rw [encoded]
      cases emitted : emit mnemonic body.operand.mode opcode value here with
      | error fault =>
          obtain ⟨_, branches, away, rfl⟩ := emit_eq_error_iff.mp emitted
          exact .inl ⟨branches, away, rfl⟩
      | ok bytes =>
          refine .inr ⟨fun branches => Decidable.byContradiction fun away => ?_, bytes, rfl,
            emit_length supported written emitted⟩
          have mode := Mnemonic.mode_of_isBranch branches supported.allows
          have refused : emit mnemonic body.operand.mode opcode value here = .error _ :=
            emit_eq_error_iff.mpr ⟨mode, branches, away, rfl⟩
          simp [emitted] at refused

theorem inReach_of_encode {bytes : List UInt8} (encoded : body.encode view here = .ok bytes)
    (takes : body.Takes view here value) (branches : body.isBranch = true) :
    InReach value here := by
  obtain ⟨mnemonic, opcode, supported⟩ := supported_of_encode encoded
  rcases encode_of_takes supported takes with ⟨_, _, failed⟩ | ⟨near, _⟩
  · simp [encoded] at failed
  · exact near branches

theorem operand_of_narrows (narrow : body.narrows = true) :
    body.isBranch = false ∧
      ∃ text, body.operand = .absolute text ∨ ∃ index, body.operand = .indexed text index := by
  obtain ⟨mnemonic, names, plain⟩ := (Option.any_eq_true _ _).mp narrow
  rw [Bool.and_eq_true, Bool.not_eq_true'] at plain
  refine ⟨by simp [isBranch, names, plain.1], ?_⟩
  cases written : body.operand <;>
    simp [written, Operand.mode, Mode.shortForm?] at plain ⊢

theorem size_of_narrows (narrow : body.narrows = true) :
    body.size value = if value.toNat < 0x100 then 2 else 3 := by
  obtain ⟨plain, text, written | ⟨index, written⟩⟩ := operand_of_narrows narrow <;>
    simp [size, written, plain, narrow]

theorem encode_length_of_narrows (narrow : body.narrows = true)
    (encoded : body.encode view here = .ok bytes) :
    ∃ text value, body.operand.text? = some text ∧ valueOf text .word view here = .ok value ∧
      bytes.length = if value.toNat < 0x100 then 2 else 3 := by
  obtain ⟨value, length, resolved⟩ := encode_length encoded
  rw [size_of_narrows narrow] at length
  obtain ⟨_, text, written | ⟨index, written⟩⟩ := operand_of_narrows narrow <;>
    simp only [Takes, written, Operand.text?, Operand.width, Operand.sees, Option.some.injEq,
      forall_eq'] at resolved <;>
    exact ⟨text, value, by simp [written, Operand.text?], resolved, length⟩

theorem size_of_not_narrows (fixed : body.narrows = false) (other : UInt16) :
    body.size value = body.size other := by
  cases written : body.operand <;> simp [size, written, fixed]

theorem encode_ne_labelMoved {name : Text} {first second : UInt16} :
    body.encode view here ≠ .error (.labelMoved name first second) := by
  intro failed
  rcases encode_eq_error_iff.mp failed with
    ⟨_, unknown⟩ | ⟨_, _, _, unsupported⟩ | ⟨_, _, text, _, _, failed⟩
  · cases unknown
  · cases unsupported
  · rcases bind_eq_error_iff.mp failed with unresolved | ⟨value, _, unreached⟩
    · rcases fault_of_valueOf unresolved with unresolved | ⟨number, unfit⟩
      · cases unresolved
      · cases unfit
    · cases (emit_eq_error_iff.mp unreached).2.2.2

end Instruction

end Asm65
