import Mathlib.Logic.Basic
import Asm65.Proofs.Grammar

namespace Asm65

def Text.SameLetters (text other : Text) : Prop :=
  text.map Char.toUpper = other.map Char.toUpper

/-- Blanks in both places or in neither. -/
def Text.SameGap (gap other : Text) : Prop :=
  (gap = [] ∧ other = []) ∨ (gap.IsRun isBlank ∧ other.IsRun isBlank)

/-- A word before the text ends there. -/
def Text.EndsWord (text : Text) : Prop :=
  ∀ c, text.head? = some c → isNameChar c = false

/-- Texts that differ only in their blanks, in the case of the registers after a comma and in the case of
the digits after a dollar sign. -/
inductive Respelt : Text → Text → Prop where
  | nil : Respelt [] []
  | char (c : Char) {text other : Text} (rest : Respelt text other) : Respelt (c :: text) (c :: other)
  | blanks {gap again text other : Text} (run : gap.IsRun isBlank) (runToo : again.IsRun isBlank)
      (rest : Respelt text other) : Respelt (gap ++ text) (again ++ other)
  | digits {digits again text other : Text} (run : digits.IsRun isHexDigit)
      (runToo : again.IsRun isHexDigit) (same : digits.SameLetters again) (rest : Respelt text other) :
      Respelt ('$' :: digits ++ text) ('$' :: again ++ other)
  | register {gap again text other : Text} {index : Index} {c d : Char} (blank : gap.SameGap again)
      (letter : c ∈ index.letters) (letterToo : d ∈ index.letters) (ends : text.EndsWord)
      (endsToo : other.EndsWord) (rest : Respelt text other) :
      Respelt (',' :: (gap ++ c :: text)) (',' :: (again ++ d :: other))

/-- What follows a mnemonic. The accumulator, too, may be of either case. -/
inductive RespeltOperand : Text → Text → Prop where
  | respelt {text other : Text} (same : Respelt text other) : RespeltOperand text other
  | accumulator {gap again : Text} {c d : Char} (run : gap.IsRun isBlank) (runToo : again.IsRun isBlank)
      (letter : c ∈ ['a', 'A']) (letterToo : d ∈ ['a', 'A']) : RespeltOperand (gap ++ [c]) (again ++ [d])

/-- Instructions that differ only in formatting. A word before a colon is no mnemonic. -/
inductive SameInstruction : Text → Text → Prop where
  | intro {mnemonic again text other : Text} (word : mnemonic.IsRun isNameChar)
      (wordToo : again.IsRun isNameChar) (same : mnemonic.SameLetters again) (ends : text.EndsWord)
      (endsToo : other.EndsWord) (unlabelled : text.head? ≠ some ':') (unlabelledToo : other.head? ≠ some ':')
      (rest : RespeltOperand text other) : SameInstruction (mnemonic ++ text) (again ++ other)

/-- Lines, without comments, that differ only in formatting. The name of a label is not formatting. -/
inductive SameCode : Text → Text → Prop where
  | respelt {code other : Text} (same : Respelt code other) : SameCode code other
  | instruction {code other : Text} (same : SameInstruction code other) : SameCode code other
  | labelled {name gap again text other : Text} (word : name.IsRun isNameChar)
      (blank : gap.SameGap again) (same : SameInstruction text other) :
      SameCode (name ++ ':' :: (gap ++ text)) (name ++ ':' :: (again ++ other))

section Letters

variable {text other : Text} {c : Char}

theorem Text.SameLetters.symm (same : text.SameLetters other) : other.SameLetters text :=
  Eq.symm same

theorem Text.SameLetters.length_eq (same : text.SameLetters other) : other.length = text.length := by
  simpa using (congrArg List.length same).symm

theorem Text.IsRun.append_takeWhile {belongs : Char → Bool} (run : text.IsRun belongs) :
    Text.IsRun belongs (text ++ other.takeWhile belongs) := by
  refine ⟨by simp [run.1], fun c member => ?_⟩
  rcases List.mem_append.mp member with member | member
  · exact run.2 c member
  · exact List.all_eq_true.mp List.all_takeWhile c member

end Letters

namespace Token

variable {token again : Token} {tokens others : List Token} {c : Char} {text other : Text}

inductive Like : Token → Token → Prop where
  | same (token : Token) : Like token token
  | hex {digits again : Text} (run : digits.IsRun isHexDigit) (runToo : again.IsRun isHexDigit)
      (same : digits.SameLetters again) : Like (hex digits) (hex again)

inductive Respelt : List Token → List Token → Prop where
  | nil : Respelt [] []
  | cons {token again : Token} {tokens others : List Token} (first : Like token again)
      (rest : Respelt tokens others) : Respelt (token :: tokens) (again :: others)
  | register {gap tokens others : List Token} {index : Index} {c d : Char}
      (blank : gap = [] ∨ gap = [space]) (letter : c ∈ index.letters) (letterToo : d ∈ index.letters)
      (rest : Respelt tokens others) :
      Respelt (comma :: (gap ++ word [c] :: tokens)) (comma :: (gap ++ word [d] :: others))

theorem Like.symm (like : Like token again) : Like again token := by
  cases like with
  | same token => exact .same token
  | hex run runToo same => exact .hex runToo run same.symm

theorem Respelt.symm (same : Respelt tokens others) : Respelt others tokens := by
  induction same with
  | nil => exact .nil
  | cons first _ ih => exact .cons first.symm ih
  | register blank letter letterToo _ ih => exact .register blank letterToo letter ih

theorem Respelt.uncons (same : Respelt (token :: tokens) others) (plain : token ≠ .comma) :
    ∃ again rest, others = again :: rest ∧ Like token again ∧ Respelt tokens rest := by
  cases same with
  | cons first rest => exact ⟨_, _, rfl, first, rest⟩
  | register => contradiction

/-- Tokens with one spelling, behind which no register stands. -/
def isPlain : Token → Bool
  | comma | hex _ => false
  | _ => true

theorem Respelt.of_plain (same : Respelt (token :: tokens) others) (plain : token.isPlain = true) :
    ∃ rest, others = token :: rest ∧ Respelt tokens rest := by
  cases same with
  | cons first rest =>
      cases first with
      | same => exact ⟨_, rfl, rest⟩
      | hex => contradiction
  | register => contradiction

theorem Respelt.of_word {name : Text} (same : Respelt [.word name] others) : others = [.word name] := by
  obtain ⟨rest, rfl, ended⟩ := same.of_plain rfl
  cases ended
  rfl

theorem Respelt.noSpace (same : Respelt tokens others) (apart : NoSpace tokens) : NoSpace others := by
  intro headed
  obtain ⟨tail, rfl⟩ := List.head?_eq_some_iff.mp headed
  obtain ⟨rest, rfl, _⟩ := same.symm.of_plain rfl
  exact apart rfl

theorem Respelt.noWord (same : Respelt tokens others) (apart : NoWord tokens) : NoWord others := by
  intro name headed
  obtain ⟨tail, rfl⟩ := List.head?_eq_some_iff.mp headed
  obtain ⟨rest, rfl, _⟩ := same.symm.of_plain rfl
  exact apart name rfl

theorem exists_word_of_not_noWord (word : ¬ NoWord tokens) :
    ∃ name tail, tokens = .word name :: tail := by
  simp only [NoWord, ne_eq, not_forall, not_not] at word
  obtain ⟨name, headed⟩ := word
  obtain ⟨tail, rfl⟩ := List.head?_eq_some_iff.mp headed
  exact ⟨name, tail, rfl⟩

theorem Respelt.skipSpace (same : Respelt tokens others) :
    Respelt (Operand.skipSpace tokens) (Operand.skipSpace others) := by
  by_cases apart : NoSpace tokens
  · rw [skipSpace_of_noSpace apart, skipSpace_of_noSpace (same.noSpace apart)]
    exact same
  · obtain ⟨tail, rfl⟩ := List.head?_eq_some_iff.mp (not_not.mp apart)
    obtain ⟨rest, rfl, later⟩ := same.of_plain rfl
    exact later

theorem pushDollar_of_noWord (apart : NoWord tokens) : pushDollar tokens = .other '$' :: tokens := by
  unfold pushDollar
  split
  next name _ => exact absurd rfl (apart name)
  next => rfl

/-- What is left of a word behind the digits that a dollar sign takes. -/
def remainder (text : Text) : List Token :=
  match text.dropWhile isHexDigit with
  | [] => []
  | rest => [.word rest]

theorem pushDollar_word {digits : Text} (run : digits.IsRun isHexDigit) :
    pushDollar (.word (digits ++ text) :: tokens) =
      .hex (digits ++ text.takeWhile isHexDigit) :: (remainder text ++ tokens) := by
  obtain ⟨c, later, rfl, _⟩ := run.exists_cons
  simp only [pushDollar, remainder]
  rw [List.takeWhile_append_of_pos run.2, List.dropWhile_append_of_pos run.2]
  cases text.dropWhile isHexDigit <;> rfl

theorem Respelt.append (front : List Token) (same : Respelt tokens others) :
    Respelt (front ++ tokens) (front ++ others) := by
  induction front with
  | nil => exact same
  | cons token front ih => exact .cons (.same token) ih

theorem Respelt.pushDollar (same : Respelt tokens others) :
    Respelt (pushDollar tokens) (pushDollar others) := by
  by_cases apart : NoWord tokens
  · rw [pushDollar_of_noWord apart, pushDollar_of_noWord (same.noWord apart)]
    exact .cons (.same _) same
  · obtain ⟨name, tail, rfl⟩ := exists_word_of_not_noWord apart
    obtain ⟨rest, rfl, later⟩ := same.of_plain rfl
    unfold Token.pushDollar
    dsimp only
    split
    next => exact .cons (.same _) (.cons (.same _) later)
    next => exact .cons (.same _) later
    next => exact .cons (.same _) (.cons (.same _) later)

theorem Respelt.push (c : Char) (same : Respelt tokens others) :
    Respelt (push c tokens) (push c others) := by
  by_cases blank : isBlank c = true
  · by_cases apart : NoSpace tokens
    · rw [push_blank blank apart, push_blank blank (same.noSpace apart)]
      exact .cons (.same _) same
    · obtain ⟨tail, rfl⟩ := List.head?_eq_some_iff.mp (not_not.mp apart)
      obtain ⟨rest, rfl, _⟩ := same.of_plain rfl
      rw [push_blank_space blank, push_blank_space blank]
      exact same
  by_cases named : isNameChar c = true
  · by_cases apart : NoWord tokens
    · rw [push_name named apart, push_name named (same.noWord apart)]
      exact .cons (.same _) same
    · obtain ⟨name, tail, rfl⟩ := exists_word_of_not_noWord apart
      obtain ⟨rest, rfl, later⟩ := same.of_plain rfl
      rw [push_name_word named, push_name_word named]
      exact .cons (.same _) later
  by_cases dollar : c = '$'
  · subst dollar
    exact same.pushDollar
  · rw [push_mark (by simpa using blank) (by simpa using named) dollar,
      push_mark (by simpa using blank) (by simpa using named) dollar]
    exact .cons (.same _) same

theorem scan_gap_append {gap : Text} (run : gap.IsRun isBlank) :
    scan (gap ++ text) = .space :: Operand.skipSpace (scan text) := by
  obtain ⟨c, later, rfl, first, all⟩ := run.exists_cons
  clear run
  induction later generalizing c with
  | nil =>
      rw [List.singleton_append, scan_cons]
      by_cases apart : NoSpace (scan text)
      · rw [push_blank first apart, skipSpace_of_noSpace apart]
      · obtain ⟨tail, same⟩ := List.head?_eq_some_iff.mp (not_not.mp apart)
        rw [same, push_blank_space first]
        rfl
  | cons d later ih =>
      obtain ⟨second, remaining⟩ := List.forall_mem_cons.mp all
      rw [List.cons_append, scan_cons, ih d second remaining, push_blank_space first]

theorem scan_append_word {name : Text} (all : ∀ c ∈ name, isNameChar c = true)
    (scanned : scan text = .word other :: tokens) : scan (name ++ text) = .word (name ++ other) :: tokens := by
  induction name with
  | nil => exact scanned
  | cons c name ih =>
      obtain ⟨first, later⟩ := List.forall_mem_cons.mp all
      rw [List.cons_append, scan_cons, ih later, push_name_word first]
      rfl

theorem scan_dollar_append {digits name : Text} (run : digits.IsRun isHexDigit)
    (scanned : scan text = .word name :: tokens) :
    scan ('$' :: digits ++ text) =
      .hex (digits ++ name.takeWhile isHexDigit) :: (remainder name ++ tokens) := by
  have named : ∀ c ∈ digits, isNameChar c = true := fun c member => isNameChar_of_isHexDigit (run.2 c member)
  rw [List.cons_append, scan_cons, push_dollar, scan_append_word named scanned, pushDollar_word run]

theorem noWord_scan (ends : text.EndsWord) : NoWord (scan text) := by
  cases text with
  | nil => exact noWord_scan_nil
  | cons c text =>
      have unnamed := ends c rfl
      intro name headed
      obtain ⟨tail, scanned⟩ := List.head?_eq_some_iff.mp headed
      have spelled := scan_spells (c :: text)
      rw [scanned] at spelled
      obtain ⟨rest, split, run, _⟩ := spelled.of_word
      obtain ⟨d, later, rfl, named, _⟩ := run.exists_cons
      cases split
      rw [unnamed] at named
      contradiction

end Token

open Token in
/-- Texts that differ in formatting have the same tokens, up to their spelling. -/
theorem Respelt.scan {text other : Text} (same : Respelt text other) :
    Token.Respelt (scan text) (scan other) := by
  induction same with
  | nil => exact .nil
  | char c _ ih => exact ih.push c
  | blanks run runToo _ ih =>
      rw [scan_gap_append run, scan_gap_append runToo]
      exact .cons (.same _) ih.skipSpace
  | @digits digits again text other run runToo same _ ih =>
      by_cases apart : NoWord (Token.scan text)
      · rw [scan_hex_append run apart, scan_hex_append runToo (ih.noWord apart)]
        exact .cons (.hex run runToo same) ih
      · obtain ⟨name, tail, scanned⟩ := exists_word_of_not_noWord apart
        rw [scanned] at ih
        obtain ⟨rest, scannedToo, later⟩ := ih.of_plain rfl
        -- the word after the digits gives the numeral the digits it begins with, the same in both texts
        rw [scan_dollar_append run scanned, scan_dollar_append runToo scannedToo]
        refine .cons (.hex run.append_takeWhile runToo.append_takeWhile ?_) (later.append _)
        simpa [Text.SameLetters] using same
  | @register gap again text other index c d blank letter letterToo ends endsToo _ ih =>
      obtain ⟨scanned, _⟩ := Operand.scan_register letter (noWord_scan ends)
      obtain ⟨scannedToo, _⟩ := Operand.scan_register letterToo (noWord_scan endsToo)
      have comma : ∀ text, Token.scan (',' :: text) = .comma :: Token.scan text := fun _ => rfl
      rw [comma, comma]
      rcases blank with ⟨rfl, rfl⟩ | ⟨run, runToo⟩
      · rw [List.nil_append, List.nil_append, scanned, scannedToo]
        exact .register (.inl rfl) letter letterToo ih
      · rw [scan_gap_append run, scan_gap_append runToo, scanned, scannedToo]
        exact .register (.inr rfl) letter letterToo ih

section Splitting

variable {text other : Text} {c : Char}

theorem Text.SameGap.symm {gap again : Text} (same : gap.SameGap again) : again.SameGap gap := by
  rcases same with ⟨first, second⟩ | ⟨run, runToo⟩
  · exact .inl ⟨second, first⟩
  · exact .inr ⟨runToo, run⟩

theorem Text.SameGap.isGap {gap again : Text} (same : gap.SameGap again) : gap.IsGap := by
  rcases same with ⟨rfl, _⟩ | ⟨run, _⟩
  · exact List.forall_mem_nil _
  · exact run.2

theorem Respelt.symm (same : Respelt text other) : Respelt other text := by
  induction same with
  | nil => exact .nil
  | char c _ ih => exact .char c ih
  | blanks run runToo _ ih => exact .blanks runToo run ih
  | digits run runToo same _ ih => exact .digits runToo run same.symm ih
  | register blank letter letterToo ends endsToo _ ih =>
      exact .register blank.symm letterToo letter endsToo ends ih

theorem Respelt.of_nil (same : Respelt [] other) : other = [] := by
  generalize empty : [] = text at same
  cases same with
  | nil => rfl
  | char => contradiction
  | blanks run => exact absurd (List.append_eq_nil_iff.mp empty.symm).1 run.1
  | digits => contradiction
  | register => contradiction

theorem Respelt.of_char (same : Respelt (c :: text) other) (solid : isBlank c = false)
    (plain : c ≠ '$' ∧ c ≠ ',') : ∃ rest, other = c :: rest ∧ Respelt text rest := by
  generalize whole : c :: text = code at same
  cases same with
  | nil => contradiction
  | char d rest =>
      cases whole
      exact ⟨_, rfl, rest⟩
  | blanks run _ _ =>
      obtain ⟨d, later, rfl, blank, _⟩ := run.exists_cons
      cases whole
      rw [solid] at blank
      contradiction
  | digits =>
      cases whole
      exact absurd rfl plain.1
  | register =>
      cases whole
      exact absurd rfl plain.2

theorem Respelt.of_name {name : Text} (all : ∀ c ∈ name, isNameChar c = true)
    (same : Respelt (name ++ text) other) : ∃ rest, other = name ++ rest ∧ Respelt text rest := by
  induction name generalizing other with
  | nil => exact ⟨other, rfl, same⟩
  | cons c name ih =>
      obtain ⟨named, later⟩ := List.forall_mem_cons.mp all
      have plain : c ≠ '$' ∧ c ≠ ',' := by
        constructor <;> rintro rfl <;> contradiction
      obtain ⟨rest, rfl, remaining⟩ := same.of_char (isBlank_eq_false_of_isNameChar named) plain
      obtain ⟨tail, rfl, ended⟩ := ih later remaining
      exact ⟨tail, rfl, ended⟩

theorem Respelt.trimStart (same : Respelt text other) :
    Respelt (Text.trimStart text) (Text.trimStart other) := by
  induction same with
  | nil => exact .nil
  | @char c text other rest ih =>
      simp only [Text.trimStart, List.dropWhile_cons]
      split
      · exact ih
      · exact .char c rest
  | blanks run runToo _ ih =>
      simp only [Text.trimStart, List.dropWhile_append_of_pos run.2, List.dropWhile_append_of_pos runToo.2]
      exact ih
  | digits run runToo same rest _ => exact .digits run runToo same rest
  | register blank letter letterToo ends endsToo rest _ =>
      exact .register blank letter letterToo ends endsToo rest

end Splitting

end Asm65
