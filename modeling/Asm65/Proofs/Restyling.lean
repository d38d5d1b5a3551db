import Asm65.Proofs.Literal
import Asm65.Proofs.Respelling
import Asm65.Proofs.Rewording

namespace Asm65

open Outcome

section Values

variable {text other : Text} {c : Char}

theorem digitValue_toUpper (digit : isHexDigit c = true) : digitValue c.toUpper = digitValue c := by
  have all : ∀ n < 103, isHexDigit (Char.ofNat n) = true →
      digitValue (Char.ofNat n).toUpper = digitValue (Char.ofNat n) := by decide
  -- no digit has a code point beyond that of `f`
  have bound : c.toNat < 103 := by
    rw [isHexDigit_iff] at digit
    omega
  simpa using all c.toNat bound (by simpa using digit)

/-- The case of its digits does not change a number. -/
theorem sameValue_dollar (run : text.IsRun isHexDigit) (runToo : other.IsRun isHexDigit)
    (same : text.SameLetters other) : Rewording.SameValue id ('$' :: text) ('$' :: other) := by
  have values : ∀ {digits : Text}, digits.IsRun isHexDigit →
      digits.map digitValue = (digits.map Char.toUpper).map digitValue := by
    intro digits run
    rw [List.map_map]
    exact List.map_congr_left fun c member => (digitValue_toUpper (run.2 c member)).symm
  have read : ∀ digits : Text, readDigits 16 digits =
      min ((digits.map digitValue).foldl (fun total value => total * 16 + value) 0) literalLimit := by
    intro digits
    rw [List.foldl_map]
    exact readDigits_eq_min (by decide) digits
  have literal : ∀ {digits : Text}, digits.IsRun isHexDigit →
      literalValue? ('$' :: digits) = some (readDigits 16 digits) := by
    intro digits run
    simp [literalValue?, run.1, List.all_eq_true.mpr run.2]
  refine ⟨?_, fun named => ?_⟩
  · rw [literal run, literal runToo, read, read, values run, values runToo, same]
  · simp [literal run] at named

end Values

namespace Operand

variable {token again : Token} {tokens others : List Token} {value : Text} {operand : Operand}

structure Same (operand other : Operand) : Prop where
  mode : other.mode = operand.mode
  value : Option.Rel (Rewording.SameValue id) operand.text? other.text?

theorem sameValue_refl (text : Text) : Rewording.SameValue id text text :=
  ⟨rfl, fun _ => rfl⟩

theorem Same.refl (operand : Operand) : Same operand operand := by
  refine ⟨rfl, ?_⟩
  cases operand.text? with
  | none => exact .none
  | some text => exact .some (sameValue_refl text)

/-- The texts of two spellings of a token have one value, if they can be operands at all. -/
theorem text_of_like {text? : Token → Option Text}
    (dollar : ∀ digits, text? (.hex digits) = some ('$' :: digits)) (like : token.Like again)
    (kept : text? token = some value) :
    ∃ other, text? again = some other ∧ Rewording.SameValue id value other := by
  cases like with
  | same => exact ⟨value, kept, sameValue_refl value⟩
  | hex run runToo same =>
      rw [dollar] at kept
      cases kept
      exact ⟨_, dollar _, sameValue_dollar run runToo same⟩

theorem ofToken?_letter {index : Index} {c : Char} (letter : c ∈ index.letters) :
    Index.ofToken? (.word [c]) = some index :=
  (scan_register letter Token.noWord_scan_nil).2

theorem isPlain_of_ofToken? {index : Index} (register : Index.ofToken? token = some index) :
    token.isPlain = true := by
  cases token with
  | word => rfl
  | hex | space | hash | comma | colon | star | equals | leftParen | rightParen | other => cases register

/-- Behind a comma stands the same register in either case. -/
theorem register_of_comma {index : Index} {tail : List Token}
    (same : Token.Respelt (.comma :: tokens) others) (follows : skipSpace tokens = token :: tail)
    (register : Index.ofToken? token = some index) :
    ∃ rest again more, others = .comma :: rest ∧ skipSpace rest = again :: more ∧
      Index.ofToken? again = some index ∧ Token.Respelt tail more := by
  cases same with
  | cons first rest =>
      cases first
      have skipped := rest.skipSpace
      rw [follows] at skipped
      obtain ⟨more, followsToo, later⟩ := skipped.of_plain (isPlain_of_ofToken? register)
      exact ⟨_, token, more, rfl, followsToo, register, later⟩
  | register blank letter letterToo rest =>
      have skipped : ∀ (c : Char) (list gap : List Token), gap = [] ∨ gap = [.space] →
          skipSpace (gap ++ .word [c] :: list) = .word [c] :: list := by
        rintro c list _ (rfl | rfl) <;> rfl
      rw [skipped _ _ _ blank] at follows
      cases follows
      cases (ofToken?_letter letter).symm.trans register
      exact ⟨_, _, _, rfl, skipped _ _ _ blank, ofToken?_letter letterToo, rest⟩

theorem ofParenthesised?_of_respelt {other : Text} (same : Token.Respelt tokens others)
    (values : Rewording.SameValue id value other) (read : ofParenthesised? value tokens = some operand) :
    ∃ again, ofParenthesised? other others = some again ∧ Same operand again := by
  unfold ofParenthesised? at read
  split at read
  next =>
      cases read
      obtain ⟨_, rfl, ended⟩ := same.of_plain rfl
      cases ended
      exact ⟨_, rfl, rfl, .some values⟩
  next rest =>
      obtain ⟨_, rfl, later⟩ := same.of_plain rfl
      split at read
      next index follows =>
          split at read
          next register =>
              cases read
              obtain ⟨_, _, _, rfl, followsToo, registerToo, ended⟩ :=
                register_of_comma later follows register
              cases ended
              refine ⟨.indirectIndexed other, ?_, rfl, .some values⟩
              simp [ofParenthesised?, followsToo, registerToo]
          next => contradiction
      next => contradiction
  next rest =>
      split at read
      next index follows =>
          split at read
          next register =>
              cases read
              obtain ⟨_, _, _, rfl, followsToo, registerToo, closing⟩ :=
                register_of_comma same follows register
              obtain ⟨_, rfl, ended⟩ := closing.of_plain rfl
              cases ended
              refine ⟨.indexedIndirect other, ?_, rfl, .some values⟩
              simp [ofParenthesised?, followsToo, registerToo]
          next => contradiction
      next => contradiction
  next => contradiction

theorem ne_comma_of_operand? (kept : token.operand? = some value) : token ≠ .comma := by
  rintro rfl
  cases kept

/-- Other spellings of its tokens write the same operand. -/
theorem ofTokens?_of_respelt (same : Token.Respelt tokens others) (read : ofTokens? tokens = some operand) :
    ∃ again, ofTokens? others = some again ∧ Same operand again := by
  -- `whole` is kept for the operands that are the same tokens on both sides
  have whole := read
  unfold ofTokens? at read
  split at read
  next =>
      rw [same.of_word]
      exact ⟨operand, whole, .refl operand⟩
  next =>
      rw [same.of_word]
      exact ⟨operand, whole, .refl operand⟩
  next value =>
      obtain ⟨text, kept, rfl⟩ := Option.map_eq_some_iff.mp read
      obtain ⟨_, rfl, later⟩ := same.of_plain rfl
      obtain ⟨_, _, rfl, like, ended⟩ := later.uncons (by rintro rfl; cases kept)
      cases ended
      obtain ⟨other, keptToo, values⟩ := text_of_like (fun _ => rfl) like kept
      exact ⟨.immediate other, by simp [ofTokens?, keptToo], rfl, .some values⟩
  next value _ _ =>
      obtain ⟨text, kept, rfl⟩ := Option.map_eq_some_iff.mp read
      obtain ⟨_, _, rfl, like, ended⟩ := same.uncons (ne_comma_of_operand? kept)
      cases ended
      cases like with
      | same => exact ⟨_, whole, .refl _⟩
      | hex run runToo letters =>
          cases kept
          exact ⟨_, rfl, rfl, .some (sameValue_dollar run runToo letters)⟩
  next value rest =>
      obtain ⟨text, kept, parenthesised⟩ := Option.bind_eq_some_iff.mp read
      obtain ⟨_, rfl, later⟩ := same.of_plain rfl
      obtain ⟨_, _, rfl, like, remaining⟩ := later.uncons (ne_comma_of_operand? kept)
      obtain ⟨other, keptToo, values⟩ := text_of_like (fun _ => rfl) like kept
      rw [ofTokens?_paren keptToo]
      exact ofParenthesised?_of_respelt remaining values parenthesised
  next value rest _ =>
      split at read
      next index follows =>
          obtain ⟨text, kept, indexing⟩ := Option.bind_eq_some_iff.mp read
          obtain ⟨register, registered, rfl⟩ := Option.map_eq_some_iff.mp indexing
          obtain ⟨_, _, rfl, like, remaining⟩ := same.uncons (ne_comma_of_operand? kept)
          obtain ⟨other, keptToo, values⟩ := text_of_like (fun _ => rfl) like kept
          obtain ⟨_, _, _, rfl, followsToo, registeredToo, ended⟩ :=
            register_of_comma remaining follows registered
          cases ended
          refine ⟨.indexed other register, ?_, by cases register <;> rfl, .some values⟩
          rw [ofTokens?_comma keptToo followsToo, registeredToo]
          rfl
      next => contradiction
  next => contradiction

end Operand

/-- Mnemonics in either case, and labels as they are. -/
def restyling : Rewording where
  rename := id
  injective := Function.injective_id
  Spells := Text.SameLetters
  names_eq same := by
    simp only [Mnemonic.ofText?, Text.SameLetters] at same ⊢
    rw [same]

namespace Instruction

variable {text other mnemonic again : Text} {tokens others : List Token} {body : Instruction}

/-- What follows a mnemonic, as tokens. -/
inductive RespeltTail : List Token → List Token → Prop where
  | respelt {tokens others : List Token} (same : Token.Respelt tokens others) : RespeltTail tokens others
  | accumulator {c d : Char} (letter : c ∈ ['a', 'A']) (letterToo : d ∈ ['a', 'A']) :
      RespeltTail [.space, .word [c]] [.space, .word [d]]

theorem RespeltTail.symm (same : RespeltTail tokens others) : RespeltTail others tokens := by
  cases same with
  | respelt same => exact .respelt same.symm
  | accumulator letter letterToo => exact .accumulator letterToo letter

theorem ofTokens?_accumulator {c : Char} (letter : c ∈ ['a', 'A']) :
    Operand.ofTokens? [.word [c]] = some .accumulator := by
  simp only [List.mem_cons, List.not_mem_nil, or_false] at letter
  rcases letter with rfl | rfl <;> rfl

theorem parse_of_tail (scanned : Token.scan text = .word mnemonic :: tokens)
    (scannedToo : Token.scan other = .word again :: others) (letters : mnemonic.SameLetters again)
    (same : RespeltTail tokens others) (read : parse text = .ok body) :
    ∃ made, parse other = .ok made ∧ restyling.SameBody body made := by
  simp only [parse, scanned] at read
  split at read
  next three =>
      have threeToo : again.length = 3 := letters.length_eq.trans three
      split at read
      next =>
          cases read
          cases same with
          | respelt same =>
              cases same
              refine ⟨⟨again, .implied, other⟩, ?_, letters, rfl, .none⟩
              simp only [parse, scannedToo, threeToo, if_true]
      next tokens =>
          split at read
          next operand written =>
              cases read
              cases same with
              | respelt same =>
                  obtain ⟨rest, rfl, later⟩ := same.of_plain rfl
                  obtain ⟨made, writtenToo, like⟩ := Operand.ofTokens?_of_respelt later written
                  refine ⟨⟨again, made, other⟩, ?_, letters, like.mode, like.value⟩
                  simp only [parse, scannedToo, threeToo, writtenToo, if_true]
              | accumulator letter letterToo =>
                  cases (ofTokens?_accumulator letter).symm.trans written
                  refine ⟨⟨again, .accumulator, other⟩, ?_, letters, rfl, .none⟩
                  simp only [parse, scannedToo, threeToo, ofTokens?_accumulator letterToo, if_true]
          next => contradiction
      next => contradiction
  next => contradiction

def ParsedAlike (text other : Text) : Prop :=
  Alike (fun _ _ => True) restyling.SameBody (parse text) (parse other)

theorem parsedAlike_of_tail (scanned : Token.scan text = .word mnemonic :: tokens)
    (scannedToo : Token.scan other = .word again :: others) (letters : mnemonic.SameLetters again)
    (same : RespeltTail tokens others) : ParsedAlike text other := by
  refine Alike.of_forall_ok ?_ ?_
  · exact fun body read => parse_of_tail scanned scannedToo letters same read
  · intro body read
    obtain ⟨made, readToo, _⟩ := parse_of_tail scannedToo scanned letters.symm same.symm read
    exact ⟨made, readToo⟩

theorem parse_of_noWord (apart : Token.NoWord (Token.scan text)) :
    parse text = .error (.unreadableLine text) := by
  unfold parse
  split
  next mnemonic _ scanned => exact absurd (congrArg List.head? scanned) (apart mnemonic)
  next => rfl

theorem parsedAlike_of_respelt (same : Respelt text other) : ParsedAlike text other := by
  by_cases apart : Token.NoWord (Token.scan text)
  · unfold ParsedAlike
    rw [parse_of_noWord apart, parse_of_noWord (same.scan.noWord apart)]
    exact .error trivial
  · obtain ⟨mnemonic, tokens, scanned⟩ := Token.exists_word_of_not_noWord apart
    have tokensToo := same.scan
    rw [scanned] at tokensToo
    obtain ⟨others, scannedToo, later⟩ := tokensToo.of_plain rfl
    exact parsedAlike_of_tail scanned scannedToo rfl (.respelt later)

theorem parsedAlike_of_sameInstruction (same : SameInstruction text other) : ParsedAlike text other := by
  cases same with
  | intro word wordToo letters ends endsToo unlabelled unlabelledToo rest =>
      refine parsedAlike_of_tail (Token.scan_word_append word (Token.noWord_scan ends))
        (Token.scan_word_append wordToo (Token.noWord_scan endsToo)) letters ?_
      cases rest with
      | respelt same => exact .respelt same.scan
      | @accumulator gap again c d run runToo letter letterToo =>
          have alone : ∀ {c : Char}, c ∈ ['a', 'A'] → Token.scan [c] = [.word [c]] := by
            intro c letter
            simp only [List.mem_cons, List.not_mem_nil, or_false] at letter
            rcases letter with rfl | rfl <;> rfl
          rw [Token.scan_gap_append run, Token.scan_gap_append runToo, alone letter, alone letterToo]
          exact .accumulator letter letterToo

end Instruction

namespace Statement

variable {line text other name rest value : Text} {tokens others : List Token}

theorem originValue?_of_respelt (same : Token.Respelt tokens others)
    (read : originValue? tokens = some value) :
    ∃ again, originValue? others = some again ∧ Rewording.SameValue id value again := by
  unfold originValue? at read
  split at read
  next =>
      obtain ⟨_, rfl, afterStar⟩ := same.of_plain rfl
      have before := afterStar.skipSpace
      split at read
      next equated =>
          rw [equated] at before
          obtain ⟨_, equatedToo, afterEquals⟩ := before.of_plain rfl
          have after := afterEquals.skipSpace
          split at read
          next alone =>
              cases read
              rw [alone] at after
              obtain ⟨_, _, aloneToo, like, ended⟩ := after.uncons Token.noConfusion
              cases ended
              cases like with
              | same =>
                  exact ⟨_, by simp only [originValue?, equatedToo, aloneToo], Operand.sameValue_refl _⟩
              | hex run runToo letters =>
                  exact ⟨_, by simp only [originValue?, equatedToo, aloneToo],
                    sameValue_dollar run runToo letters⟩
          next alone =>
              rw [alone] at after
              obtain ⟨_, aloneToo, ended⟩ := after.of_plain rfl
              cases ended
              exact ⟨value, by simp only [originValue?, equatedToo, aloneToo, read],
                Operand.sameValue_refl value⟩
          next => contradiction
      next => contradiction
  next => contradiction

theorem splitLabel?_of_respelt (same : Respelt text other) (split : splitLabel? text = some (name, rest)) :
    ∃ again, splitLabel? other = some (name, again) ∧ Respelt rest again := by
  obtain ⟨tail, rfl, word, rfl⟩ := splitLabel?_eq_some_iff.mp split
  obtain ⟨_, rfl, after⟩ := same.of_name word.2
  obtain ⟨tailToo, rfl, later⟩ := after.of_char rfl (by decide)
  exact ⟨_, splitLabel?_eq_some_iff.mpr ⟨tailToo, rfl, word, rfl⟩, later.trimStart⟩

theorem splitLabel?_of_endsWord (word : name.IsRun isNameChar) (ends : text.EndsWord)
    (unlabelled : text.head? ≠ some ':') : splitLabel? (name ++ text) = none := by
  have scanned := Token.scan_word_append word (Token.noWord_scan ends)
  unfold splitLabel?
  split
  next more whole =>
      rw [scanned] at whole
      cases (List.cons.inj whole).1
      have spelled := Token.scan_spells text
      rw [(List.cons.inj whole).2] at spelled
      obtain ⟨_, rfl, _⟩ := spelled.of_mark rfl
      exact absurd rfl unlabelled
  next => rfl

def SayAlike (statement other : Option Statement) : Prop :=
  ∃ said again, statement = some said ∧ other = some again ∧ restyling.Says said again

theorem map_instruction_alike (label : Option Text) (read : Instruction.ParsedAlike text other) :
    Alike (fun _ _ => True) SayAlike ((Instruction.parse text).map (some <| .instruction label ·))
      ((Instruction.parse other).map (some <| .instruction label ·)) := by
  unfold Instruction.ParsedAlike at read
  generalize Instruction.parse text = parsed at read ⊢
  generalize Instruction.parse other = again at read ⊢
  cases read with
  | error _ => exact .error trivial
  | ok same =>
      have stated := Rewording.Says.instruction label same
      have kept : label.map restyling.rename = label := Option.map_id'
      rw [kept] at stated
      exact .ok ⟨_, _, rfl, rfl, stated⟩

theorem parse_alike_of_respelt (same : Respelt (codeOf line) (codeOf other)) (filled : codeOf line ≠ [])
    (filledToo : codeOf other ≠ []) : Alike (fun _ _ => True) SayAlike (parse line) (parse other) := by
  rw [parse_of_code filled, parse_of_code filledToo]
  generalize codeOf line = code at same
  generalize codeOf other = again at same
  cases value : originValue? (Token.scan code) with
  | some value =>
      obtain ⟨_, valueToo, values⟩ := originValue?_of_respelt same.scan value
      rw [valueToo]
      exact .ok ⟨_, _, rfl, rfl, .origin values⟩
  | none =>
      -- what the other line holds this one holds too, since each is a respelling of the other
      have noValue : originValue? (Token.scan again) = none := by
        refine Option.eq_none_iff_forall_ne_some.mpr fun _ found => ?_
        obtain ⟨_, foundToo, _⟩ := originValue?_of_respelt same.symm.scan found
        rw [value] at foundToo
        contradiction
      rw [noValue]
      cases cut : splitLabel? code with
      | none =>
          have uncut : splitLabel? again = none := by
            refine Option.eq_none_iff_forall_ne_some.mpr fun _ found => ?_
            obtain ⟨_, foundToo, _⟩ := splitLabel?_of_respelt same.symm found
            rw [cut] at foundToo
            contradiction
          rw [uncut]
          exact map_instruction_alike none (Instruction.parsedAlike_of_respelt same)
      | some pair =>
          obtain ⟨name, rest⟩ := pair
          obtain ⟨rests, cutToo, later⟩ := splitLabel?_of_respelt same cut
          rw [cutToo]
          cases rest with
          | nil =>
              cases later.of_nil
              exact .ok ⟨_, _, rfl, rfl, .label name⟩
          | cons c rest =>
              cases rests with
              | nil => cases later.symm.of_nil
              | cons d rests =>
                  exact map_instruction_alike (some name) (Instruction.parsedAlike_of_respelt later)

/-- Lines that differ only in formatting say the same, or neither can be read. -/
theorem parse_alike (same : SameCode (codeOf line) (codeOf other)) (filled : codeOf line ≠ [])
    (filledToo : codeOf other ≠ []) : Alike (fun _ _ => True) SayAlike (parse line) (parse other) := by
  generalize code : codeOf line = text at same
  generalize codeToo : codeOf other = again at same
  cases same with
  | respelt same => exact parse_alike_of_respelt (code ▸ codeToo ▸ same) filled filledToo
  | instruction same =>
      have read := Instruction.parsedAlike_of_sameInstruction same
      rw [parse_of_code filled, parse_of_code filledToo, code, codeToo]
      cases same with
      | intro word wordToo letters ends endsToo unlabelled unlabelledToo rest =>
          rw [splitLabel?_of_endsWord word ends unlabelled,
            splitLabel?_of_endsWord wordToo endsToo unlabelledToo, originValue?_of_word word,
            originValue?_of_word wordToo]
          exact map_instruction_alike none read
  | @labelled name _ _ _ _ word blank same =>
      have read := Instruction.parsedAlike_of_sameInstruction same
      rw [parse_of_code filled, parse_of_code filledToo, code, codeToo, originValue?_of_word word,
        originValue?_of_word word]
      cases same with
      | intro named namedToo letters ends endsToo _ _ rest =>
          obtain ⟨c, later, rfl, first, _⟩ := named.exists_cons
          obtain ⟨d, laterToo, rfl, firstToo, _⟩ := namedToo.exists_cons
          simp only [List.cons_append] at read ⊢
          rw [splitLabel?_labelled word blank.isGap first,
            splitLabel?_labelled word blank.symm.isGap firstToo]
          exact map_instruction_alike (some name) read

end Statement

end Asm65
