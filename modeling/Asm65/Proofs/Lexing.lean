import Asm65.Token

namespace Asm65

/-! Tokens and the texts they stand for. Scanning loses nothing: a text is the texts of its tokens,
one after the other. In the other direction, a text put together from pieces is scanned piece by
piece, as long as no run of characters goes on in the next piece. -/

section Characters

variable {c : Char}

theorem isDecimalDigit_iff : isDecimalDigit c = true ↔ 48 ≤ c.toNat ∧ c.toNat ≤ 57 := by
  simp [isDecimalDigit, Char.le_def, UInt32.le_iff_toNat_le]

theorem isHexDigit_iff :
    isHexDigit c = true ↔
      (48 ≤ c.toNat ∧ c.toNat ≤ 57) ∨ (97 ≤ c.toNat ∧ c.toNat ≤ 102) ∨
        (65 ≤ c.toNat ∧ c.toNat ≤ 70) := by
  simp [isHexDigit, isDecimalDigit, Char.le_def, UInt32.le_iff_toNat_le, or_assoc]

theorem isNameChar_iff :
    isNameChar c = true ↔
      (48 ≤ c.toNat ∧ c.toNat ≤ 57) ∨ (65 ≤ c.toNat ∧ c.toNat ≤ 90) ∨ c.toNat = 95 ∨
        (97 ≤ c.toNat ∧ c.toNat ≤ 122) := by
  have underscore : c = '_' ↔ c.toNat = 95 := Char.toNat_inj.symm
  delta isNameChar Char.isAlphanum Char.isAlpha Char.isUpper Char.isLower Char.isDigit
  simp only [Bool.or_eq_true, Bool.and_eq_true, decide_eq_true_eq, beq_iff_eq, underscore,
    UInt32.le_iff_toNat_le, ge_iff_le]
  change (((65 ≤ c.toNat ∧ c.toNat ≤ 90) ∨ (97 ≤ c.toNat ∧ c.toNat ≤ 122)) ∨
    (48 ≤ c.toNat ∧ c.toNat ≤ 57)) ∨ c.toNat = 95 ↔ _
  omega

theorem isBlank_eq_false_of_isNameChar (named : isNameChar c = true) : isBlank c = false := by
  rw [isNameChar_iff] at named
  rw [Bool.eq_false_iff]
  intro blank
  simp only [isBlank, blankRanges, List.any_cons, List.any_nil, Bool.or_eq_true, Bool.and_eq_true,
    decide_eq_true_eq, Bool.false_eq_true, or_false] at blank
  omega

theorem isNameChar_of_isHexDigit (digit : isHexDigit c = true) : isNameChar c = true := by
  rw [isHexDigit_iff] at digit
  rw [isNameChar_iff]
  omega

theorem isHexDigit_of_isDecimalDigit (digit : isDecimalDigit c = true) : isHexDigit c = true := by
  rw [isDecimalDigit_iff] at digit
  rw [isHexDigit_iff]
  omega

end Characters

/-- One or more characters, all of one class. -/
def Text.IsRun (belongs : Char → Bool) (text : Text) : Prop :=
  text ≠ [] ∧ ∀ c ∈ text, belongs c = true

instance (belongs : Char → Bool) (text : Text) : Decidable (text.IsRun belongs) :=
  decidable_of_decidable_of_iff (and_congr List.isEmpty_eq_false_iff List.all_eq_true)

namespace Text.IsRun

variable {belongs other : Char → Bool} {text : Text} {c : Char}

theorem cons (first : belongs c = true) (rest : ∀ d ∈ text, belongs d = true) :
    IsRun belongs (c :: text) :=
  ⟨List.cons_ne_nil c text, List.forall_mem_cons.mpr ⟨first, rest⟩⟩

theorem single (only : belongs c = true) : IsRun belongs [c] :=
  cons only fun _ absent => absurd absent List.not_mem_nil

theorem imp (widens : ∀ c, belongs c = true → other c = true) (run : text.IsRun belongs) :
    text.IsRun other :=
  ⟨run.1, fun c member => widens c (run.2 c member)⟩

theorem exists_cons (run : text.IsRun belongs) :
    ∃ c rest, text = c :: rest ∧ belongs c = true ∧ ∀ d ∈ rest, belongs d = true := by
  obtain ⟨filled, all⟩ := run
  obtain ⟨c, rest, rfl⟩ := List.exists_cons_of_ne_nil filled
  obtain ⟨first, later⟩ := List.forall_mem_cons.mp all
  exact ⟨c, rest, rfl, first, later⟩

end Text.IsRun

namespace Token

inductive Spells : Token → Text → Prop where
  | word {text : Text} (run : text.IsRun isNameChar) : Spells (word text) text
  | hex {digits : Text} (run : digits.IsRun isHexDigit) : Spells (hex digits) ('$' :: digits)
  | space {gap : Text} (run : gap.IsRun isBlank) : Spells space gap
  | hash : Spells hash ['#']
  | comma : Spells comma [',']
  | colon : Spells colon [':']
  | star : Spells star ['*']
  | equals : Spells equals ['=']
  | leftParen : Spells leftParen ['(']
  | rightParen : Spells rightParen [')']
  | other (c : Char) : Spells (other c) [c]

/-- A text that is cut into pieces, one for each token. -/
inductive SpellsAll : List Token → Text → Prop where
  | nil : SpellsAll [] []
  | cons {token : Token} {tokens : List Token} {piece text : Text} (first : token.Spells piece)
      (rest : SpellsAll tokens text) : SpellsAll (token :: tokens) (piece ++ text)

variable {token : Token} {tokens : List Token} {text rest : Text} {c : Char}

/-- The character of a token that always has the same text. -/
def mark? : Token → Option Char
  | hash => some '#'
  | comma => some ','
  | colon => some ':'
  | star => some '*'
  | equals => some '='
  | leftParen => some '('
  | rightParen => some ')'
  | word _ | hex _ | space | other _ => none

theorem SpellsAll.of_nil (spelled : SpellsAll [] text) : text = [] := by
  cases spelled
  rfl

theorem SpellsAll.uncons (spelled : SpellsAll (token :: tokens) text) :
    ∃ piece rest, text = piece ++ rest ∧ token.Spells piece ∧ SpellsAll tokens rest := by
  cases spelled with
  | cons first later => exact ⟨_, _, rfl, first, later⟩

theorem SpellsAll.of_mark (spelled : SpellsAll (token :: tokens) text)
    (marked : token.mark? = some c) : ∃ rest, text = c :: rest ∧ SpellsAll tokens rest := by
  obtain ⟨piece, rest, rfl, first, later⟩ := spelled.uncons
  refine ⟨rest, ?_, later⟩
  cases first <;> cases marked <;> rfl

theorem SpellsAll.of_word {name : Text} (spelled : SpellsAll (word name :: tokens) text) :
    ∃ rest, text = name ++ rest ∧ name.IsRun isNameChar ∧ SpellsAll tokens rest := by
  obtain ⟨piece, rest, rfl, first, later⟩ := spelled.uncons
  cases first with
  | word run => exact ⟨rest, rfl, run, later⟩

theorem SpellsAll.of_hex {digits : Text} (spelled : SpellsAll (hex digits :: tokens) text) :
    ∃ rest, text = '$' :: digits ++ rest ∧ digits.IsRun isHexDigit ∧ SpellsAll tokens rest := by
  obtain ⟨piece, rest, rfl, first, later⟩ := spelled.uncons
  cases first with
  | hex run => exact ⟨rest, rfl, run, later⟩

theorem SpellsAll.of_space (spelled : SpellsAll (space :: tokens) text) :
    ∃ gap rest, text = gap ++ rest ∧ gap.IsRun isBlank ∧ SpellsAll tokens rest := by
  obtain ⟨piece, rest, rfl, first, later⟩ := spelled.uncons
  cases first with
  | space run => exact ⟨piece, rest, rfl, run, later⟩

theorem ofMark_spells (c : Char) : (ofMark c).Spells [c] := by
  unfold ofMark
  split <;> constructor

theorem pushDollar_spells (spelled : SpellsAll tokens text) :
    SpellsAll (pushDollar tokens) ('$' :: text) := by
  have alone : SpellsAll (.other '$' :: tokens) ('$' :: text) := .cons (.other '$') spelled
  unfold pushDollar
  split
  next name tail =>
      obtain ⟨rest, rfl, run, later⟩ := spelled.of_word
      have parts : name.takeWhile isHexDigit ++ name.dropWhile isHexDigit = name :=
        List.takeWhile_append_dropWhile
      have hexadecimal : ∀ c ∈ name.takeWhile isHexDigit, isHexDigit c = true :=
        List.all_eq_true.mp List.all_takeWhile
      generalize name.takeWhile isHexDigit = digits at parts hexadecimal
      generalize name.dropWhile isHexDigit = remainder at parts
      subst parts
      split
      next => exact alone
      next filled =>
          rw [List.append_nil]
          exact .cons (.hex ⟨filled, hexadecimal⟩) later
      next filled remains =>
          have named : ∀ c ∈ remainder, isNameChar c = true :=
            fun c member => run.2 c (List.mem_append_right _ member)
          rw [List.append_assoc]
          exact .cons (.hex ⟨filled, hexadecimal⟩) (.cons (.word ⟨remains, named⟩) later)
  next => exact alone

/-- The tokens do not begin with a word, which a name character before them would join. -/
def NoWord (tokens : List Token) : Prop :=
  ∀ name, tokens.head? ≠ some (word name)

def NoSpace (tokens : List Token) : Prop :=
  tokens.head? ≠ some space

theorem push_blank_space (blank : isBlank c = true) : push c (space :: tokens) = space :: tokens := by
  simp [push, blank]

theorem push_blank (blank : isBlank c = true) (apart : NoSpace tokens) :
    push c tokens = space :: tokens := by
  cases tokens with
  | nil => simp [push, blank]
  | cons token tail => cases token <;> simp_all [push, NoSpace]

theorem push_name_word {name : Text} (named : isNameChar c = true) :
    push c (word name :: tokens) = word (c :: name) :: tokens := by
  simp [push, isBlank_eq_false_of_isNameChar named, named]

theorem push_name (named : isNameChar c = true) (apart : NoWord tokens) :
    push c tokens = word [c] :: tokens := by
  have plain := isBlank_eq_false_of_isNameChar named
  cases tokens with
  | nil => simp [push, plain, named]
  | cons token tail => cases token <;> simp_all [push, NoWord]

theorem push_dollar : push '$' tokens = pushDollar tokens := rfl

theorem push_mark (plain : isBlank c = false) (unnamed : isNameChar c = false) (other : c ≠ '$') :
    push c tokens = ofMark c :: tokens := by
  simp [push, plain, unnamed, other]

theorem push_spells (c : Char) (spelled : SpellsAll tokens text) :
    SpellsAll (push c tokens) (c :: text) := by
  by_cases blank : isBlank c = true
  · by_cases apart : NoSpace tokens
    · rw [push_blank blank apart]
      exact .cons (.space (.single blank)) spelled
    · obtain ⟨tail, rfl⟩ := List.head?_eq_some_iff.mp (Classical.not_not.mp apart)
      obtain ⟨gap, rest, rfl, run, later⟩ := spelled.of_space
      rw [push_blank_space blank]
      exact .cons (.space (.cons blank run.2)) later
  by_cases named : isNameChar c = true
  · by_cases apart : NoWord tokens
    · rw [push_name named apart]
      exact .cons (.word (.single named)) spelled
    · simp only [NoWord, ne_eq, Classical.not_forall, Classical.not_not] at apart
      obtain ⟨name, headed⟩ := apart
      obtain ⟨tail, rfl⟩ := List.head?_eq_some_iff.mp headed
      obtain ⟨rest, rfl, run, later⟩ := spelled.of_word
      rw [push_name_word named]
      exact .cons (.word (.cons named run.2)) later
  by_cases dollar : c = '$'
  · subst dollar
    exact pushDollar_spells spelled
  · rw [push_mark (by simpa using blank) (by simpa using named) dollar]
    exact .cons (ofMark_spells c) spelled

theorem scan_spells (text : Text) : SpellsAll (scan text) text := by
  induction text with
  | nil => exact .nil
  | cons c text ih => exact push_spells c ih

@[simp] theorem scan_nil : scan [] = [] := rfl

theorem noWord_scan_nil : NoWord (scan []) :=
  nofun

theorem scan_cons (c : Char) (text : Text) : scan (c :: text) = push c (scan text) := rfl

theorem scan_word_append (run : text.IsRun isNameChar) (apart : NoWord (scan rest)) :
    scan (text ++ rest) = word text :: scan rest := by
  obtain ⟨c, later, rfl, first, all⟩ := run.exists_cons
  clear run
  induction later generalizing c with
  | nil => exact push_name first apart
  | cons d later ih =>
      obtain ⟨second, remaining⟩ := List.forall_mem_cons.mp all
      have grown : scan (d :: later ++ rest) = word (d :: later) :: scan rest :=
        ih d second remaining
      rw [List.cons_append, scan_cons, grown, push_name_word first]

theorem scan_word (run : text.IsRun isNameChar) : scan text = [word text] := by
  simpa using scan_word_append run noWord_scan_nil

theorem scan_space_append (run : text.IsRun isBlank) (apart : NoSpace (scan rest)) :
    scan (text ++ rest) = space :: scan rest := by
  obtain ⟨c, later, rfl, first, all⟩ := run.exists_cons
  clear run
  induction later generalizing c with
  | nil => exact push_blank first apart
  | cons d later ih =>
      obtain ⟨second, remaining⟩ := List.forall_mem_cons.mp all
      have grown : scan (d :: later ++ rest) = space :: scan rest := ih d second remaining
      rw [List.cons_append, scan_cons, grown, push_blank_space first]

theorem scan_hex_append (run : text.IsRun isHexDigit) (apart : NoWord (scan rest)) :
    scan ('$' :: text ++ rest) = hex text :: scan rest := by
  have named : text.IsRun isNameChar := run.imp fun c => isNameChar_of_isHexDigit
  have taken : text.takeWhile isHexDigit = text := by
    simpa using @List.takeWhile_append_of_pos _ isHexDigit text [] run.2
  have dropped : text.dropWhile isHexDigit = [] := by
    simpa using @List.dropWhile_append_of_pos _ isHexDigit text [] run.2
  obtain ⟨c, later, rfl, _⟩ := run.exists_cons
  rw [List.cons_append, scan_cons, scan_word_append named apart, push_dollar]
  simp only [pushDollar, taken, dropped]

theorem scan_hex (run : text.IsRun isHexDigit) : scan ('$' :: text) = [hex text] := by
  simpa using scan_hex_append run noWord_scan_nil

end Token

end Asm65
