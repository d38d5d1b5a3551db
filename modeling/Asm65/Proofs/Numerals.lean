import Asm65.Command.Address
import Asm65.Proofs.Encoding
import Asm65.Proofs.Literal

namespace Asm65

/-! Numbers as they are written. A source and an argument are read by readers of their own, one in words of
64 bits and one in words of 16 bits. Both find the number that the digits write, or that it is too great. -/

variable {text : Text} {number : Nat} {width : Width} {view : LabelView} {here : UInt16}

theorem Width.limit_le (width : Width) : width.limit ≤ 0x10000 := by
  cases width <;> decide

namespace Literal

theorem valueOf_eq (literal : Literal text number) :
    valueOf text width view here = width.fit (min number literalLimit) :=
  valueOf_literal (literalValue?_eq_some_iff.mpr ⟨number, literal, rfl⟩)

/-- No width is as great as the limit, so a number that is cut there was out of range before. -/
theorem min_lt_limit_iff (number : Nat) (width : Width) :
    min number literalLimit < width.limit ↔ number < width.limit := by
  have bound := width.limit_le
  simp only [literalLimit, UInt64.size]
  omega

theorem valueOf_eq_ok_iff (literal : Literal text number) {value : UInt16} :
    valueOf text width view here = .ok value ↔ value.toNat = number ∧ number < width.limit := by
  rw [literal.valueOf_eq, Width.fit_eq_ok_iff, min_lt_limit_iff]
  refine and_congr_left fun below => ?_
  have bound := width.limit_le
  have uncut : min number literalLimit = number := by
    simp only [literalLimit, UInt64.size]
    omega
  rw [uncut]

theorem valueOf_of_lt (literal : Literal text number) (below : number < width.limit) :
    ∃ value, valueOf text width view here = .ok value ∧ value.toNat = number := by
  have same : (UInt16.ofNat number).toNat = number := by
    have bound := width.limit_le
    rw [UInt16.toNat_ofNat']
    omega
  exact ⟨_, literal.valueOf_eq_ok_iff.mpr ⟨same, below⟩, same⟩

theorem valueOf_of_le (literal : Literal text number) (large : width.limit ≤ number) :
    valueOf text width view here = .error (.valueOutOfRange (min number literalLimit) width.limit) := by
  rw [literal.valueOf_eq, Width.fit_eq_error_iff]
  exact ⟨Nat.le_of_not_lt (mt (min_lt_limit_iff number width).mp (Nat.not_lt.mpr large)), rfl⟩

end Literal

/-- Literals are read exactly and never wrap. A text has a value just if it is a literal, and the value is
the number that its digits write, however many they are, up to the greatest that 64 bits hold. So an
operand that is a literal is that number in every width it fits in, whatever the labels are, and otherwise
out of range. -/
theorem literals_read_exactly (text : Text) :
    (∀ value, literalValue? text = some value ↔
      ∃ number, Literal text number ∧ value = min number (UInt64.size - 1)) ∧
    (literalValue? text = none ↔ ∀ number, ¬ Literal text number) ∧
    ∀ number, Literal text number → ∀ (width : Width) (view : LabelView) (here : UInt16),
      (number < width.limit →
        ∃ value, valueOf text width view here = .ok value ∧ value.toNat = number) ∧
      (width.limit ≤ number → valueOf text width view here =
        .error (.valueOutOfRange (min number (UInt64.size - 1)) width.limit)) :=
  ⟨fun _ => literalValue?_eq_some_iff, literalValue?_eq_none_iff, fun _ literal _ _ _ =>
    ⟨literal.valueOf_of_lt, literal.valueOf_of_le⟩⟩

/-- A table in which a number of many digits is the name of a label. -/
def numberNamed : LabelTable :=
  ⟨[("00000000000000000000010".toList, 0xC000)], by decide⟩

theorem literals_read_exactly_padded :
    Literal "00000000000000000000010".toList 10 ∧
    (∃ value, valueOf "00000000000000000000010".toList .byte (.complete numberNamed) 0x0200 = .ok value ∧
      value.toNat = 10) ∧
    Literal "$10000000000000000".toList UInt64.size ∧
    valueOf "$10000000000000000".toList .word (.growing numberNamed) 0x0200 =
      .error (.valueOutOfRange (UInt64.size - 1) 0x10000) ∧
    literalValue? "+10".toList = none := by
  have ten : Literal "00000000000000000000010".toList 10 := .decimal (by decide)
  have beyond : Literal "$10000000000000000".toList UInt64.size :=
    @Literal.hexadecimal "10000000000000000".toList (by decide)
  have exact := (literals_read_exactly "00000000000000000000010".toList).2.2 10 ten
  have exactToo := (literals_read_exactly "$10000000000000000".toList).2.2 UInt64.size beyond
  exact ⟨ten, (exact .byte (.complete numberNamed) 0x0200).1 (by decide), beyond,
    (exactToo .word (.growing numberNamed) 0x0200).2 (by decide), by decide⟩

namespace Command

variable {isDigit : Char → Bool} {base : Nat} {digits : Text}

/-- Reading in words of 16 bits fails at the digit that makes the number too great. -/
theorem foldlM_appendDigit (positive : 0 < base) (all : ∀ c ∈ digits, isDigit c = true) {total : Nat}
    (small : total < 0x10000) :
    digits.foldlM (appendDigit isDigit base) total =
      if positionalFrom base total digits < 0x10000 then .ok (positionalFrom base total digits)
      else .error .tooLarge := by
  induction digits generalizing total with
  | nil => simp [positionalFrom, small, pure, Except.pure]
  | cons c digits ih =>
      obtain ⟨digit, later⟩ := List.forall_mem_cons.mp all
      rw [List.foldlM_cons, positionalFrom_cons, appendDigit]
      simp only [digit, Bool.not_true, Bool.false_eq_true, if_false]
      split
      next fits => exact ih later fits
      next large =>
          have grown := le_positionalFrom positive (total * base + digitValue c) digits
          rw [if_neg (by omega)]
          rfl

theorem readNumber_eq_ok_iff (positive : 0 < base) (unsigned : isDigit '+' = false)
    (run : digits.IsRun isDigit) {address : UInt16} :
    readNumber isDigit base digits = .ok address ↔ address.toNat = positional base digits := by
  have bound := address.toNat_lt
  have read : readNumber isDigit base digits =
      (digits.foldlM (appendDigit isDigit base) 0).map UInt16.ofNat := by
    obtain ⟨c, later, rfl, first, _⟩ := run.exists_cons
    unfold readNumber
    split
    all_goals first
      | rfl
      | simp_all
  rw [read, foldlM_appendDigit positive run.2 (by decide), positionalFrom_zero]
  split
  next fits =>
      change Except.ok (UInt16.ofNat _) = Except.ok address ↔ _
      rw [Except.ok.injEq, ← UInt16.toNat_inj, UInt16.toNat_ofNat']
      omega
  next large =>
      simp only [Except.map, reduceCtorEq, false_iff]
      omega

/-- An argument that is a literal is read as the number that a source would read. -/
theorem readAddress_eq_ok_iff (literal : Literal text number) {address : UInt16} :
    readAddress text = .ok address ↔ address.toNat = number := by
  cases literal with
  | hexadecimal run => exact readNumber_eq_ok_iff (by decide) (by decide) run
  | decimal run =>
      have digit := run.2
      unfold readAddress
      split
      next => exact absurd (digit '$' (by simp)) (by decide)
      next => exact absurd (digit 'x' (by simp)) (by decide)
      next => exact absurd (digit 'X' (by simp)) (by decide)
      next => exact readNumber_eq_ok_iff (by decide) (by decide) run

end Command

end Asm65
