import Asm65.Value
import Asm65.Proofs.Lexing

namespace Asm65

/-- The number that a literal writes, however great. -/
inductive Literal : Text → Nat → Prop where
  | hexadecimal {digits : Text} (run : digits.IsRun isHexDigit) :
      Literal ('$' :: digits) (positional 16 digits)
  | decimal {digits : Text} (run : digits.IsRun isDecimalDigit) :
      Literal digits (positional 10 digits)

/-- The number that `total` and the digits behind it write. -/
def positionalFrom (base total : Nat) (digits : Text) : Nat :=
  digits.foldl (fun total c => total * base + digitValue c) total

theorem positionalFrom_zero (base : Nat) (digits : Text) :
    positionalFrom base 0 digits = positional base digits := rfl

theorem positionalFrom_cons (base total : Nat) (c : Char) (digits : Text) :
    positionalFrom base total (c :: digits) = positionalFrom base (total * base + digitValue c) digits := rfl

theorem le_positionalFrom {base : Nat} (positive : 0 < base) (total : Nat) (digits : Text) :
    total ≤ positionalFrom base total digits := by
  induction digits generalizing total with
  | nil => exact Nat.le_refl total
  | cons c digits ih =>
      calc total ≤ total * base := Nat.le_mul_of_pos_right total positive
        _ ≤ total * base + digitValue c := Nat.le_add_right _ _
        _ ≤ positionalFrom base (total * base + digitValue c) digits := ih _

/-- Reading in words of 64 bits goes on exactly as long as the number that the digits write fits, and is
never off by a wrap. -/
theorem foldlM_appendDigit? {base : UInt64} (positive : 0 < base.toNat) (digits : Text) (total : UInt64) :
    (digits.foldlM (appendDigit? base) total).map UInt64.toNat =
      if positionalFrom base.toNat total.toNat digits < UInt64.size then
        some (positionalFrom base.toNat total.toNat digits)
      else none := by
  induction digits generalizing total with
  | nil => simp [positionalFrom, total.toNat_lt]
  | cons c digits ih =>
      rw [List.foldlM_cons, positionalFrom_cons, appendDigit?]
      split
      next fits =>
          have exact : (total * base + UInt64.ofNat (digitValue c)).toNat =
              total.toNat * base.toNat + digitValue c := by
            rw [UInt64.toNat_add, UInt64.toNat_mul, UInt64.toNat_ofNat']
            simp only [UInt64.size] at fits
            omega
          change (digits.foldlM (appendDigit? base) _).map UInt64.toNat = _
          rw [ih, exact]
      next large =>
          -- later digits never make the number smaller
          have grown := le_positionalFrom positive (total.toNat * base.toNat + digitValue c) digits
          rw [if_neg (by omega)]
          rfl

/-- Failing where 64 bits do not hold the number is the same as cutting it at the end. -/
theorem readDigits_eq_min {base : UInt64} (positive : 0 < base.toNat) (digits : Text) :
    readDigits base digits = min (positional base.toNat digits) literalLimit := by
  have read := foldlM_appendDigit? positive digits 0
  rw [UInt64.toNat_zero, positionalFrom_zero] at read
  unfold readDigits
  split
  next number same =>
      rw [same] at read
      split at read
      next fits =>
          simp only [Option.map_some, Option.some.injEq] at read
          simp only [literalLimit]
          omega
      next => contradiction
  next same =>
      rw [same] at read
      split at read
      next => contradiction
      next large =>
          simp only [literalLimit]
          omega

theorem literalValue?_eq_some_iff {text : Text} {value : Nat} :
    literalValue? text = some value ↔ ∃ number, Literal text number ∧ value = min number literalLimit := by
  constructor
  · intro read
    unfold literalValue? at read
    split at read
    next digits =>
        split at read
        next run =>
            cases read
            exact ⟨_, .hexadecimal ⟨run.1, List.all_eq_true.mp run.2⟩, readDigits_eq_min (by decide) _⟩
        next => contradiction
    next =>
        split at read
        next run =>
            cases read
            exact ⟨_, .decimal ⟨run.1, List.all_eq_true.mp run.2⟩, readDigits_eq_min (by decide) _⟩
        next => contradiction
  · rintro ⟨number, literal, rfl⟩
    cases literal with
    | @hexadecimal digits run =>
        have all : digits.all isHexDigit = true := List.all_eq_true.mpr run.2
        simp only [literalValue?, run.1, all, ne_eq, not_false_eq_true, and_self, if_true,
          readDigits_eq_min (by decide : 0 < (16 : UInt64).toNat)]
        rfl
    | decimal run =>
        have all : text.all isDecimalDigit = true := List.all_eq_true.mpr run.2
        unfold literalValue?
        split
        next => simp [isDecimalDigit] at all
        next =>
            rw [if_pos ⟨run.1, all⟩, readDigits_eq_min (by decide)]
            rfl

theorem literalValue?_eq_none_iff {text : Text} :
    literalValue? text = none ↔ ∀ number, ¬ Literal text number := by
  constructor
  · intro unread number literal
    simp [literalValue?_eq_some_iff.mpr ⟨number, literal, rfl⟩] at unread
  · intro unwritten
    cases read : literalValue? text with
    | none => rfl
    | some value =>
        obtain ⟨number, literal, _⟩ := literalValue?_eq_some_iff.mp read
        exact absurd literal (unwritten number)

theorem isHexDigit_hexDigit (n : Nat) : isHexDigit (hexDigit n) = true := by
  have all : ∀ k < 16, isHexDigit (hexDigit k) = true := by decide
  have same : hexDigit n = hexDigit (n % 16) := by simp [hexDigit]
  rw [same]
  exact all _ (Nat.mod_lt n (by decide))

theorem digitValue_hexDigit (n : Nat) : digitValue (hexDigit n) = n % 16 := by
  have all : ∀ k < 16, digitValue (hexDigit k) = k := by decide
  have same : hexDigit n = hexDigit (n % 16) := by simp [hexDigit]
  rw [same]
  exact all _ (Nat.mod_lt n (by decide))

theorem hexWord_isRun (word : UInt16) : (hexWord word).IsRun isHexDigit := by
  refine ⟨List.cons_ne_nil _ _, ?_⟩
  simp [hexWord, isHexDigit_hexDigit]

theorem positional_hexWord (word : UInt16) : positional 16 (hexWord word) = word.toNat := by
  have bound := word.toNat_lt
  simp only [positional, hexWord, List.foldl_cons, List.foldl_nil, digitValue_hexDigit]
  omega

/-- An address is printed as a literal that stands for it. -/
theorem literalValue?_dollarWord (word : UInt16) :
    literalValue? (dollarWord word) = some word.toNat := by
  have bound := word.toNat_lt
  have literal : Literal (dollarWord word) (positional 16 (hexWord word)) :=
    .hexadecimal (hexWord_isRun word)
  rw [positional_hexWord] at literal
  refine literalValue?_eq_some_iff.mpr ⟨_, literal, ?_⟩
  simp only [literalLimit, UInt64.size]
  omega

/-- The number that the digits write, each being worth its place in the alphabet. -/
structure Text.Numeral (alphabet digits : Text) (number : Nat) : Prop where
  within : digits ⊆ alphabet
  value : digits.foldl (fun total c => total * alphabet.length + alphabet.idxOf c) 0 = number

/-- A number in upper-case hexadecimal digits, `width` of them. -/
structure Text.HexNumeral (width : Nat) (digits : Text) (number : Nat) : Prop
    extends Text.Numeral "0123456789ABCDEF".toList digits number where
  filled : digits.length = width

/-- A number in decimal digits, with no zero before them. -/
structure Text.DecimalNumeral (digits : Text) (number : Nat) : Prop
    extends Text.Numeral "0123456789".toList digits number where
  written : digits ≠ []
  short : digits.head? = some '0' → digits = ['0']

theorem hexDigit_mem (n : Nat) : hexDigit n ∈ "0123456789ABCDEF".toList := by
  have all : ∀ k < 16, hexDigit k ∈ "0123456789ABCDEF".toList := by decide
  have same : hexDigit n = hexDigit (n % 16) := by simp [hexDigit]
  rw [same]
  exact all _ (Nat.mod_lt n (by decide))

theorem idxOf_hexDigit (n : Nat) : "0123456789ABCDEF".toList.idxOf (hexDigit n) = n % 16 := by
  have all : ∀ k < 16, "0123456789ABCDEF".toList.idxOf (hexDigit k) = k := by decide
  have same : hexDigit n = hexDigit (n % 16) := by simp [hexDigit]
  rw [same]
  exact all _ (Nat.mod_lt n (by decide))

theorem length_hexDigits : "0123456789ABCDEF".toList.length = 16 := rfl

theorem hexByte_hexNumeral (byte : UInt8) : Text.HexNumeral 2 (hexByte byte) byte.toNat where
  within := by simp only [hexByte, List.cons_subset, hexDigit_mem, List.nil_subset, and_self]
  value := by
    have bound := byte.toNat_lt
    simp only [hexByte, List.foldl_cons, List.foldl_nil, idxOf_hexDigit, length_hexDigits]
    omega
  filled := rfl

theorem hexWord_hexNumeral (word : UInt16) : Text.HexNumeral 4 (hexWord word) word.toNat where
  within := by simp only [hexWord, List.cons_subset, hexDigit_mem, List.nil_subset, and_self]
  value := by
    have bound := word.toNat_lt
    simp only [hexWord, List.foldl_cons, List.foldl_nil, idxOf_hexDigit, length_hexDigits]
    omega
  filled := rfl

theorem Text.DecimalNumeral.single {digit : Nat} (small : digit < 10) :
    Text.DecimalNumeral [digit.digitChar] digit := by
  have all : ∀ k < 10, k.digitChar ∈ "0123456789".toList ∧ "0123456789".toList.idxOf k.digitChar = k := by
    decide
  obtain ⟨member, worth⟩ := all digit small
  refine ⟨⟨List.cons_subset.mpr ⟨member, List.nil_subset _⟩, ?_⟩, List.cons_ne_nil _ _, ?_⟩
  · simpa using worth
  · simp

theorem Text.DecimalNumeral.append {digits : Text} {number digit : Nat}
    (front : Text.DecimalNumeral digits number) (positive : number ≠ 0) (small : digit < 10) :
    Text.DecimalNumeral (digits ++ [digit.digitChar]) (number * 10 + digit) := by
  have last := Text.DecimalNumeral.single small
  have worth : "0123456789".toList.idxOf digit.digitChar = digit := by simpa using last.value
  refine ⟨⟨List.append_subset.mpr ⟨front.within, last.within⟩, ?_⟩, by simp, ?_⟩
  · rw [List.foldl_append, front.value, List.foldl_cons, List.foldl_nil, worth]
    rfl
  · intro leading
    have leads : digits.head? = some '0' := by
      rwa [List.head?_append, List.head?_eq_some_head front.written, Option.some_or,
        ← List.head?_eq_some_head] at leading
    have value := front.value
    rw [front.short leads] at value
    exact absurd value.symm positive

theorem toDigits_decimalNumeral (number : Nat) : Text.DecimalNumeral (Nat.toDigits 10 number) number := by
  induction number using Nat.strongRecOn with
  | ind number ih =>
      rw [Nat.toDigits_eq_if (by decide)]
      split
      next small => exact .single small
      next large =>
          have next := (ih (number / 10) (by omega)).append (by omega) (Nat.mod_lt number (by decide))
          rwa [Nat.div_add_mod'] at next

end Asm65
