import Asm65.Statement
import Asm65.Proofs.Outcome
import Asm65.Proofs.Lexing
import Asm65.Proofs.Trimming

namespace Asm65

open Outcome

def Text.IsDollarNumeral (text : Text) : Prop :=
  ∃ digits : Text, text = '$' :: digits ∧ digits.IsRun isHexDigit

def Text.IsValue (text : Text) : Prop :=
  text.IsRun isNameChar ∨ text.IsDollarNumeral

def Index.letters : Index → List Char
  | x => ['x', 'X']
  | y => ['y', 'Y']

/-- How operands are written. Blanks are allowed before a register only. -/
inductive Operand.Written : Operand → Text → Prop where
  | accumulator {c : Char} (letter : c ∈ ['a', 'A']) : Written accumulator [c]
  | immediate {value : Text} (literal : value.IsDollarNumeral ∨ value.IsRun isDecimalDigit) :
      Written (immediate value) ('#' :: value)
  | absolute {value : Text} (valued : value.IsValue) (other : value ≠ ['a'] ∧ value ≠ ['A']) :
      Written (absolute value) value
  | indexed {value gap : Text} {index : Index} {c : Char} (valued : value.IsValue)
      (blank : gap.IsGap) (letter : c ∈ index.letters) :
      Written (indexed value index) (value ++ ',' :: (gap ++ [c]))
  | indirect {value : Text} (valued : value.IsValue) :
      Written (indirect value) ('(' :: (value ++ [')']))
  | indexedIndirect {value gap : Text} {c : Char} (valued : value.IsValue) (blank : gap.IsGap)
      (letter : c ∈ Index.x.letters) :
      Written (indexedIndirect value) ('(' :: (value ++ ',' :: (gap ++ [c, ')'])))
  | indirectIndexed {value gap : Text} {c : Char} (valued : value.IsValue) (blank : gap.IsGap)
      (letter : c ∈ Index.y.letters) :
      Written (indirectIndexed value) ('(' :: (value ++ ')' :: ',' :: (gap ++ [c])))

/-- A mnemonic of three characters, alone or with blanks and an operand after it. -/
inductive Instruction.Written : Instruction → Prop where
  | alone {mnemonic : Text} (word : mnemonic.IsRun isNameChar) (three : mnemonic.length = 3) :
      Written { mnemonic, operand := .implied, text := mnemonic }
  | applied {mnemonic gap rest : Text} {operand : Operand} (word : mnemonic.IsRun isNameChar)
      (three : mnemonic.length = 3) (blank : gap.IsRun isBlank) (written : operand.Written rest) :
      Written { mnemonic, operand, text := mnemonic ++ (gap ++ rest) }

/-- How a line without its comment is written, for each thing it can say. -/
inductive Statement.Written : Statement → Text → Prop where
  | origin {before after value : Text} (blankBefore : before.IsGap) (blankAfter : after.IsGap)
      (numeral : value.IsDollarNumeral ∨ value.IsRun isHexDigit) :
      Written (origin value) ('*' :: (before ++ '=' :: (after ++ value)))
  | label {name : Text} (word : name.IsRun isNameChar) : Written (label name) (name ++ [':'])
  | instruction {body : Instruction} (written : body.Written) :
      Written (instruction none body) body.text
  | labelled {name gap : Text} {body : Instruction} (word : name.IsRun isNameChar)
      (blank : gap.IsGap) (written : body.Written) :
      Written (instruction (some name) body) (name ++ ':' :: (gap ++ body.text))

namespace Token

variable {token : Token} {tokens : List Token} {text value gap rest : Text} {index : Index} {c : Char}

/-- A value is a single token, and the token keeps its text. -/
theorem scan_value_append (valued : value.IsValue) (apart : NoWord (scan rest)) :
    ∃ token, token.operand? = some value ∧ scan (value ++ rest) = token :: scan rest := by
  rcases valued with run | ⟨digits, rfl, run⟩
  · exact ⟨word value, rfl, scan_word_append run apart⟩
  · exact ⟨hex digits, rfl, scan_hex_append run apart⟩

theorem scan_value (valued : value.IsValue) :
    ∃ token, token.operand? = some value ∧ scan value = [token] := by
  simpa using scan_value_append valued noWord_scan_nil

theorem skipSpace_of_noSpace (apart : NoSpace tokens) : Operand.skipSpace tokens = tokens := by
  unfold Operand.skipSpace
  split
  next => exact absurd rfl apart
  next => rfl

theorem skipSpace_scan_append (blank : gap.IsGap) (scanned : scan rest = tokens)
    (apart : NoSpace tokens) : Operand.skipSpace (scan (gap ++ rest)) = tokens := by
  subst scanned
  cases gap with
  | nil => exact skipSpace_of_noSpace apart
  | cons c gap =>
      have run : Text.IsRun isBlank (c :: gap) := ⟨List.cons_ne_nil c gap, blank⟩
      rw [scan_space_append run apart]
      rfl

theorem SpellsAll.of_value (spelled : SpellsAll (token :: tokens) text)
    (kept : token.operand? = some value) :
    ∃ rest, text = value ++ rest ∧ value.IsValue ∧ SpellsAll tokens rest := by
  obtain ⟨piece, rest, rfl, first, later⟩ := spelled.uncons
  cases first with
  | word run =>
      cases kept
      exact ⟨rest, rfl, .inl run, later⟩
  | hex run =>
      cases kept
      exact ⟨rest, rfl, .inr ⟨_, rfl, run⟩, later⟩
  | space | hash | comma | colon | star | equals | leftParen | rightParen | other => cases kept

theorem SpellsAll.of_skipSpace (spelled : SpellsAll tokens text) :
    ∃ gap rest : Text, text = gap ++ rest ∧ gap.IsGap ∧ SpellsAll (Operand.skipSpace tokens) rest := by
  unfold Operand.skipSpace
  split
  next =>
      obtain ⟨gap, rest, rfl, run, later⟩ := spelled.of_space
      exact ⟨gap, rest, rfl, run.2, later⟩
  next => exact ⟨[], text, rfl, by simp [Text.IsGap], spelled⟩

theorem SpellsAll.of_register (spelled : SpellsAll (token :: tokens) text)
    (register : Index.ofToken? token = some index) :
    ∃ c rest, text = c :: rest ∧ c ∈ index.letters ∧ SpellsAll tokens rest := by
  obtain ⟨piece, rest, rfl, first, later⟩ := spelled.uncons
  unfold Index.ofToken? at register
  split at register
  all_goals first
    | contradiction
    | cases register
      cases first
      exact ⟨_, rest, rfl, by simp [Index.letters], later⟩

end Token

namespace Operand

variable {token : Token} {tokens : List Token} {text value rest : Text} {operand : Operand}

theorem ofTokens?_single (kept : token.operand? = some value)
    (other : value ≠ ['a'] ∧ value ≠ ['A']) : ofTokens? [token] = some (absolute value) := by
  unfold ofTokens?
  split
  all_goals simp_all [Token.operand?]

theorem ofTokens?_comma {index : Token} (kept : token.operand? = some value)
    (follows : skipSpace tokens = [index]) :
    ofTokens? (token :: .comma :: tokens) = (Index.ofToken? index).map (indexed value) := by
  cases token with
  | word | hex =>
      cases kept
      simp [ofTokens?, Token.operand?, follows]
  | space | hash | comma | colon | star | equals | leftParen | rightParen | other => cases kept

theorem ofTokens?_paren (kept : token.operand? = some value) :
    ofTokens? (.leftParen :: token :: tokens) = ofParenthesised? value tokens := by
  simp [ofTokens?, kept]

theorem scan_register {index : Index} {c : Char} (letter : c ∈ index.letters)
    (apart : Token.NoWord (Token.scan rest)) :
    Token.scan (c :: rest) = .word [c] :: Token.scan rest ∧
      Index.ofToken? (.word [c]) = some index := by
  have named : isNameChar c = true ∧ Index.ofToken? (.word [c]) = some index := by
    cases index <;>
      · simp only [Index.letters, List.mem_cons, List.not_mem_nil, or_false] at letter
        rcases letter with rfl | rfl <;> exact ⟨rfl, rfl⟩
  exact ⟨Token.push_name named.1 apart, named.2⟩

theorem skipSpace_scan_register {index : Index} {c : Char} {gap : Text} (blank : gap.IsGap)
    (letter : c ∈ index.letters) (apart : Token.NoWord (Token.scan rest)) :
    skipSpace (Token.scan (gap ++ c :: rest)) = .word [c] :: Token.scan rest ∧
      Index.ofToken? (.word [c]) = some index := by
  obtain ⟨scanned, register⟩ := scan_register letter apart
  exact ⟨Token.skipSpace_scan_append blank scanned nofun, register⟩

theorem ofTokens?_of_written (written : operand.Written text) :
    ofTokens? (Token.scan text) = some operand := by
  cases written with
  | accumulator letter =>
      simp only [List.mem_cons, List.not_mem_nil, or_false] at letter
      rcases letter with rfl | rfl <;> rfl
  | @immediate value literal =>
      have marked : Token.scan ('#' :: value) = .hash :: Token.scan value := rfl
      rcases literal with ⟨digits, rfl, run⟩ | run
      · rw [marked, Token.scan_hex run]
        rfl
      · have named : value.IsRun isNameChar :=
          run.imp fun c digit => isNameChar_of_isHexDigit (isHexDigit_of_isDecimalDigit digit)
        have decimal : value.all isDecimalDigit = true := List.all_eq_true.mpr run.2
        rw [marked, Token.scan_word named]
        simp [ofTokens?, literal?, decimal]
  | absolute valued other =>
      obtain ⟨token, kept, scanned⟩ := Token.scan_value valued
      rw [scanned, ofTokens?_single kept other]
  | @indexed value gap index c valued blank letter =>
      have follows := skipSpace_scan_register blank letter Token.noWord_scan_nil
      have apart : Token.NoWord (Token.scan (',' :: (gap ++ [c]))) := nofun
      obtain ⟨token, kept, scanned⟩ := Token.scan_value_append valued apart
      have marked : Token.scan (',' :: (gap ++ [c])) = .comma :: Token.scan (gap ++ [c]) := rfl
      rw [scanned, marked, ofTokens?_comma kept follows.1, follows.2]
      rfl
  | @indirect value valued =>
      have apart : Token.NoWord (Token.scan [')']) := nofun
      obtain ⟨token, kept, scanned⟩ := Token.scan_value_append valued apart
      have marked : Token.scan ('(' :: (value ++ [')'])) =
          .leftParen :: Token.scan (value ++ [')']) := rfl
      rw [marked, scanned, ofTokens?_paren kept]
      rfl
  | @indexedIndirect value gap c valued blank letter =>
      have follows := skipSpace_scan_register blank letter
        (nofun : Token.NoWord (Token.scan [')']))
      have apart : Token.NoWord (Token.scan (',' :: (gap ++ [c, ')']))) := nofun
      obtain ⟨token, kept, scanned⟩ := Token.scan_value_append valued apart
      have marked : Token.scan ('(' :: (value ++ ',' :: (gap ++ [c, ')']))) =
          .leftParen :: Token.scan (value ++ ',' :: (gap ++ [c, ')'])) := rfl
      have comma : Token.scan (',' :: (gap ++ [c, ')'])) = .comma :: Token.scan (gap ++ [c, ')']) :=
        rfl
      have closed : Token.scan [')'] = [.rightParen] := rfl
      rw [marked, scanned, ofTokens?_paren kept, comma]
      simp only [ofParenthesised?, follows.1, closed, follows.2, if_true]
  | @indirectIndexed value gap c valued blank letter =>
      have follows := skipSpace_scan_register blank letter Token.noWord_scan_nil
      have apart : Token.NoWord (Token.scan (')' :: ',' :: (gap ++ [c]))) := nofun
      obtain ⟨token, kept, scanned⟩ := Token.scan_value_append valued apart
      have marked : Token.scan ('(' :: (value ++ ')' :: ',' :: (gap ++ [c]))) =
          .leftParen :: Token.scan (value ++ ')' :: ',' :: (gap ++ [c])) := rfl
      have closed : Token.scan (')' :: ',' :: (gap ++ [c])) =
          .rightParen :: .comma :: Token.scan (gap ++ [c]) := rfl
      rw [marked, scanned, ofTokens?_paren kept, closed]
      simp only [ofParenthesised?, follows.1, Token.scan_nil, follows.2, if_true]

theorem noSpace_of_ofTokens? (read : ofTokens? tokens = some operand) : Token.NoSpace tokens := by
  intro headed
  obtain ⟨tail, rfl⟩ := List.head?_eq_some_iff.mp headed
  unfold ofTokens? at read
  split at read
  all_goals first
    | contradiction
    | simp_all [Token.operand?]
  split at read <;> contradiction

theorem literal_of_literal? (kept : literal? token = some value)
    (spelled : Token.SpellsAll [token] text) :
    text = value ∧ (value.IsDollarNumeral ∨ value.IsRun isDecimalDigit) := by
  obtain ⟨piece, rest, rfl, first, later⟩ := spelled.uncons
  cases later.of_nil
  rw [List.append_nil]
  cases first with
  | hex run =>
      cases kept
      exact ⟨rfl, .inl ⟨_, rfl, run⟩⟩
  | word run =>
      simp only [literal?] at kept
      split at kept
      next decimal =>
          cases kept
          exact ⟨rfl, .inr ⟨run.1, List.all_eq_true.mp decimal⟩⟩
      next => contradiction
  | space | hash | comma | colon | star | equals | leftParen | rightParen | other => cases kept

theorem written_of_ofParenthesised? (valued : value.IsValue)
    (read : ofParenthesised? value tokens = some operand) (spelled : Token.SpellsAll tokens text) :
    operand.Written ('(' :: (value ++ text)) := by
  unfold ofParenthesised? at read
  split at read
  next =>
      cases read
      obtain ⟨rest, rfl, ended⟩ := spelled.of_mark rfl
      cases ended.of_nil
      exact .indirect valued
  next =>
      obtain ⟨_, rfl, afterClose⟩ := spelled.of_mark rfl
      obtain ⟨_, rfl, afterComma⟩ := afterClose.of_mark rfl
      obtain ⟨gap, _, rfl, blank, registered⟩ := afterComma.of_skipSpace
      split at read
      next index alone =>
          rw [alone] at registered
          split at read
          next register =>
              cases read
              obtain ⟨c, _, rfl, letter, ended⟩ := registered.of_register register
              cases ended.of_nil
              exact .indirectIndexed valued blank letter
          next => contradiction
      next => contradiction
  next =>
      obtain ⟨_, rfl, afterComma⟩ := spelled.of_mark rfl
      obtain ⟨gap, _, rfl, blank, registered⟩ := afterComma.of_skipSpace
      split at read
      next index alone =>
          rw [alone] at registered
          split at read
          next register =>
              cases read
              obtain ⟨c, _, rfl, letter, afterLetter⟩ := registered.of_register register
              obtain ⟨_, rfl, ended⟩ := afterLetter.of_mark rfl
              cases ended.of_nil
              exact .indexedIndirect valued blank letter
          next => contradiction
      next => contradiction
  next => contradiction

theorem written_of_ofTokens? (read : ofTokens? tokens = some operand)
    (spelled : Token.SpellsAll tokens text) : operand.Written text := by
  unfold ofTokens? at read
  split at read
  next =>
      cases read
      obtain ⟨_, rfl, _, ended⟩ := spelled.of_word
      cases ended.of_nil
      exact .accumulator (by simp)
  next =>
      cases read
      obtain ⟨_, rfl, _, ended⟩ := spelled.of_word
      cases ended.of_nil
      exact .accumulator (by simp)
  next =>
      obtain ⟨value, kept, rfl⟩ := Option.map_eq_some_iff.mp read
      obtain ⟨_, rfl, afterMark⟩ := spelled.of_mark rfl
      obtain ⟨rfl, literal⟩ := literal_of_literal? kept afterMark
      exact .immediate literal
  next token lower upper =>
      obtain ⟨value, kept, rfl⟩ := Option.map_eq_some_iff.mp read
      obtain ⟨_, rfl, valued, ended⟩ := spelled.of_value kept
      cases ended.of_nil
      rw [List.append_nil]
      refine .absolute valued ⟨?_, ?_⟩
      · intro same
        cases token <;> simp_all [Token.operand?]
      · intro same
        cases token <;> simp_all [Token.operand?]
  next =>
      obtain ⟨value, kept, rest⟩ := Option.bind_eq_some_iff.mp read
      obtain ⟨_, rfl, afterOpening⟩ := spelled.of_mark rfl
      obtain ⟨_, rfl, valued, remaining⟩ := afterOpening.of_value kept
      exact written_of_ofParenthesised? valued rest remaining
  next =>
      split at read
      next index alone =>
          obtain ⟨value, kept, indexing⟩ := Option.bind_eq_some_iff.mp read
          obtain ⟨index, register, rfl⟩ := Option.map_eq_some_iff.mp indexing
          obtain ⟨_, rfl, valued, afterValue⟩ := spelled.of_value kept
          obtain ⟨_, rfl, afterComma⟩ := afterValue.of_mark rfl
          obtain ⟨gap, _, rfl, blank, registered⟩ := afterComma.of_skipSpace
          rw [alone] at registered
          obtain ⟨c, _, rfl, letter, ended⟩ := registered.of_register register
          cases ended.of_nil
          exact .indexed valued blank letter
      next => contradiction
  next => contradiction

end Operand

namespace Instruction

variable {text : Text} {body : Instruction}

theorem Written.text_eq (written : body.Written) :
    body.mnemonic.IsRun isNameChar ∧ ∃ rest, body.text = body.mnemonic ++ rest := by
  cases written with
  | alone word => exact ⟨word, [], (List.append_nil _).symm⟩
  | applied word => exact ⟨word, _, rfl⟩

theorem Written.head (written : body.Written) :
    ∃ c rest, body.text = c :: rest ∧ isNameChar c = true := by
  obtain ⟨word, rest, text⟩ := written.text_eq
  obtain ⟨c, later, mnemonic, named, _⟩ := word.exists_cons
  exact ⟨c, later ++ rest, by rw [text, mnemonic, List.cons_append], named⟩

theorem Written.mnemonic_length (written : body.Written) : body.mnemonic.length = 3 := by
  cases written with
  | alone _ three | applied _ three => exact three

/-- The tokens of an instruction: its mnemonic, and after a blank those of its operand. -/
theorem Written.scan_text (written : body.Written) :
    (Token.scan body.text = [.word body.mnemonic] ∧ body.operand = .implied) ∨
      ∃ tokens, Token.scan body.text = .word body.mnemonic :: .space :: tokens ∧
        Operand.ofTokens? tokens = some body.operand := by
  cases written with
  | alone word three => exact .inl ⟨Token.scan_word word, rfl⟩
  | @applied mnemonic gap rest operand word three blank written =>
      have read := Operand.ofTokens?_of_written written
      have scanned : Token.scan (gap ++ rest) = .space :: Token.scan rest :=
        Token.scan_space_append blank (Operand.noSpace_of_ofTokens? read)
      have apart : Token.NoWord (Token.scan (gap ++ rest)) := by simp [scanned, Token.NoWord]
      have all := Token.scan_word_append word apart
      rw [scanned] at all
      exact .inr ⟨_, all, read⟩

theorem parse_of_written (written : body.Written) : parse body.text = .ok body := by
  have three := written.mnemonic_length
  rcases written.scan_text with ⟨scanned, implied⟩ | ⟨tokens, scanned, read⟩
  · simp [parse, scanned, three, ← implied]
  · simp [parse, scanned, three, read]

theorem written_of_parse (read : parse text = .ok body) : body.Written ∧ body.text = text := by
  have spelled := Token.scan_spells text
  unfold parse at read
  split at read
  next mnemonic rest scanned =>
      rw [scanned] at spelled
      obtain ⟨_, rfl, word, later⟩ := spelled.of_word
      split at read
      next three =>
          split at read
          next =>
              cases read
              cases later.of_nil
              rw [List.append_nil]
              exact ⟨.alone word three, rfl⟩
          next =>
              split at read
              next operand found =>
                  cases read
                  obtain ⟨gap, _, rfl, blank, remaining⟩ := later.of_space
                  have written := Operand.written_of_ofTokens? found remaining
                  exact ⟨.applied word three blank written, rfl⟩
              next => contradiction
          next => contradiction
      next => contradiction
  next => contradiction

theorem parse_eq_ok_iff : parse text = .ok body ↔ body.Written ∧ body.text = text := by
  constructor
  · exact written_of_parse
  · rintro ⟨written, rfl⟩
    exact parse_of_written written

end Instruction

namespace Statement

variable {line text name rest value : Text} {tokens : List Token} {statement : Statement}

theorem Written.of_instruction {label : Option Text} {body : Instruction}
    (written : (Statement.instruction label body).Written text) : body.Written ∧ body.text <:+ text := by
  cases written with
  | instruction written => exact ⟨written, List.suffix_rfl⟩
  | @labelled name gap _ word blank written =>
      exact ⟨written, name ++ ':' :: gap, by simp⟩

theorem originValue?_of_written (written : (origin value).Written text) :
    originValue? (Token.scan text) = some value := by
  cases written with
  | @origin before after _ blankBefore blankAfter numeral =>
      have marked : Token.scan ('*' :: (before ++ '=' :: (after ++ value))) =
          .star :: Token.scan (before ++ '=' :: (after ++ value)) := rfl
      have equated : Operand.skipSpace (Token.scan (before ++ '=' :: (after ++ value))) =
          .equals :: Token.scan (after ++ value) :=
        Token.skipSpace_scan_append blankBefore rfl nofun
      rcases numeral with ⟨digits, rfl, run⟩ | run
      · have scanned := Token.scan_hex run
        have valued := Token.skipSpace_scan_append blankAfter scanned nofun
        simp only [originValue?, marked, equated, valued]
      · have scanned := Token.scan_word (run.imp fun c => isNameChar_of_isHexDigit)
        have valued := Token.skipSpace_scan_append blankAfter scanned nofun
        have hexadecimal : value.all isHexDigit = true := List.all_eq_true.mpr run.2
        simp only [originValue?, marked, equated, valued, hexadecimal, if_true]

theorem written_of_originValue? (read : originValue? (Token.scan text) = some value) :
    (origin value).Written text := by
  have spelled := Token.scan_spells text
  unfold originValue? at read
  split at read
  next scanned =>
      rw [scanned] at spelled
      obtain ⟨_, rfl, afterStar⟩ := spelled.of_mark rfl
      obtain ⟨before, _, rfl, blankBefore, equated⟩ := afterStar.of_skipSpace
      split at read
      next same =>
          rw [same] at equated
          obtain ⟨_, rfl, afterEquals⟩ := equated.of_mark rfl
          obtain ⟨after, _, rfl, blankAfter, valued⟩ := afterEquals.of_skipSpace
          split at read
          next alone =>
              cases read
              rw [alone] at valued
              obtain ⟨_, rfl, run, ended⟩ := valued.of_hex
              cases ended.of_nil
              rw [List.append_nil]
              exact .origin blankBefore blankAfter (.inl ⟨_, rfl, run⟩)
          next alone =>
              split at read
              next hexadecimal =>
                  cases read
                  rw [alone] at valued
                  obtain ⟨_, rfl, run, ended⟩ := valued.of_word
                  cases ended.of_nil
                  rw [List.append_nil]
                  exact .origin blankBefore blankAfter
                    (.inr ⟨run.1, List.all_eq_true.mp hexadecimal⟩)
              next => contradiction
          next => contradiction
      next => contradiction
  next => contradiction

theorem splitLabel?_eq_some_iff :
    splitLabel? line = some (name, rest) ↔
      ∃ tail : Text, line = name ++ ':' :: tail ∧ name.IsRun isNameChar ∧ rest = tail.trimStart := by
  constructor
  · intro split
    have spelled := Token.scan_spells line
    unfold splitLabel? at split
    split at split
    next scanned =>
        cases split
        rw [scanned] at spelled
        obtain ⟨_, rfl, word, afterName⟩ := spelled.of_word
        obtain ⟨tail, rfl, _⟩ := afterName.of_mark rfl
        exact ⟨tail, rfl, word, by simp⟩
    next => contradiction
  · rintro ⟨tail, rfl, word, rfl⟩
    have marked : Token.scan (':' :: tail) = .colon :: Token.scan tail := rfl
    have scanned := Token.scan_word_append word (nofun : Token.NoWord (Token.scan (':' :: tail)))
    rw [marked] at scanned
    simp [splitLabel?, scanned]

theorem parse_of_code (filled : codeOf line ≠ []) :
    parse line =
      match originValue? (Token.scan (codeOf line)) with
      | some value => .ok (some (.origin value))
      | none =>
          match splitLabel? (codeOf line) with
          | some (name, []) => .ok (some (.label name))
          | some (name, rest) => (Instruction.parse rest).map (some <| .instruction (some name) ·)
          | none => (Instruction.parse (codeOf line)).map (some <| .instruction none ·) := by
  unfold parse
  split
  next empty => contradiction
  next => rfl

theorem splitLabel?_of_instruction {body : Instruction} (written : body.Written) :
    splitLabel? body.text = none := by
  rcases written.scan_text with ⟨scanned, _⟩ | ⟨tokens, scanned, _⟩ <;> simp [splitLabel?, scanned]

theorem originValue?_of_named {c : Char} (named : isNameChar c = true) :
    originValue? (Token.scan (c :: rest)) = none := by
  refine Option.eq_none_iff_forall_ne_some.mpr fun value read => ?_
  cases written_of_originValue? read
  contradiction

theorem originValue?_of_word (word : name.IsRun isNameChar) :
    originValue? (Token.scan (name ++ text)) = none := by
  obtain ⟨c, later, rfl, named, _⟩ := word.exists_cons
  exact originValue?_of_named named

theorem splitLabel?_labelled {gap : Text} {c : Char} (word : name.IsRun isNameChar) (blank : gap.IsGap)
    (named : isNameChar c = true) :
    splitLabel? (name ++ ':' :: (gap ++ c :: text)) = some (name, c :: text) := by
  refine splitLabel?_eq_some_iff.mpr ⟨_, rfl, word, ?_⟩
  rw [Text.trimStart_append blank]
  intro d same
  cases same
  exact isBlank_eq_false_of_isNameChar named

/-- What is written on a line is what reading it gives. -/
theorem parse_of_written (written : statement.Written (codeOf line)) :
    parse line = .ok (some statement) := by
  generalize code : codeOf line = text at written
  cases written with
  | origin blankBefore blankAfter numeral =>
      have read := originValue?_of_written (.origin blankBefore blankAfter numeral)
      rw [parse_of_code (by simp [code]), code, read]
  | @label name word =>
      have split : splitLabel? (name ++ [':']) = some (name, []) :=
        splitLabel?_eq_some_iff.mpr ⟨[], rfl, word, rfl⟩
      rw [parse_of_code (by simp [code]), code, split, originValue?_of_word word]
  | @instruction body written =>
      have split := splitLabel?_of_instruction written
      have read := Instruction.parse_of_written written
      obtain ⟨c, later, text, named⟩ := written.head
      rw [parse_of_code (by simp [code, text]), code, split, read, text, originValue?_of_named named]
      rfl
  | @labelled name gap body word blank written =>
      have read := Instruction.parse_of_written written
      obtain ⟨c, later, text, named⟩ := written.head
      rw [text] at read code
      rw [parse_of_code (by simp [code]), code, splitLabel?_labelled word blank named,
        originValue?_of_word word]
      simp only [read, Except.map]

theorem written_of_parse (read : parse line = .ok (some statement)) :
    statement.Written (codeOf line) := by
  have filled : codeOf line ≠ [] := by
    intro empty
    simp [parse, empty] at read
  rw [parse_of_code filled] at read
  split at read
  next value found =>
      cases read
      exact written_of_originValue? found
  next =>
      split at read
      next name found =>
          cases read
          obtain ⟨tail, code, word, ended⟩ := splitLabel?_eq_some_iff.mp found
          obtain ⟨gap, blank, tailed⟩ := Text.exists_gap_trimStart tail
          rw [← ended, List.append_nil] at tailed
          subst tailed
          -- a blank after the colon would end the line, which is trimmed
          have closed : tail = [] := by
            refine Classical.byContradiction fun filled => ?_
            have last : (codeOf line).getLast? = some (tail.getLast filled) := by
              simp [code, List.getLast?_cons, List.getLast?_eq_some_getLast filled]
            have blankLast := blank _ (List.getLast_mem filled)
            rw [codeOf_last last] at blankLast
            contradiction
          rw [code, closed]
          exact .label word
      next name rest _ found =>
          obtain ⟨tail, code, word, rfl⟩ := splitLabel?_eq_some_iff.mp found
          obtain ⟨body, parsed, same⟩ := map_eq_ok_iff.mp read
          cases same
          obtain ⟨written, text⟩ := Instruction.parse_eq_ok_iff.mp parsed
          obtain ⟨gap, blank, tailed⟩ := Text.exists_gap_trimStart tail
          rw [code, tailed, ← text]
          exact .labelled word blank written
      next found =>
          obtain ⟨body, parsed, same⟩ := map_eq_ok_iff.mp read
          cases same
          obtain ⟨written, text⟩ := Instruction.parse_eq_ok_iff.mp parsed
          rw [← text]
          exact .instruction written

/-- Reading finds on a line what is written there, and nothing else. -/
theorem parse_eq_ok_some_iff : parse line = .ok (some statement) ↔ statement.Written (codeOf line) :=
  ⟨written_of_parse, parse_of_written⟩

theorem parse_eq_ok_none_iff : parse line = .ok none ↔ codeOf line = [] := by
  constructor
  · intro read
    refine Classical.byContradiction fun filled => ?_
    rw [parse_of_code filled] at read
    split at read
    · cases read
    · split at read
      · cases read
      all_goals
        obtain ⟨body, _, same⟩ := map_eq_ok_iff.mp read
        cases same
  · intro empty
    simp [parse, empty]

end Statement

end Asm65
