import Mathlib.Data.List.Chain
import Mathlib.Data.List.Forall2
import Asm65.Proofs.Respelling

namespace Asm65.Token

/-! Scanning cuts a text into lexemes, each as long as it can be. Two rules fix the cut: every piece is of
the class of its token, and no two neighbours would run together. -/

/-- Characters of no class: neither blanks nor parts of a word, and without a token of their own. -/
def IsStray (c : Char) : Prop :=
  isBlank c = false ∧ isNameChar c = false ∧ ∀ token : Token, token.mark? ≠ some c

/-- A token and a piece of text that is of its class. -/
inductive Lexeme : Token → Text → Prop where
  | word {text : Text} (run : text.IsRun isNameChar) : Lexeme (word text) text
  | hex {digits : Text} (run : digits.IsRun isHexDigit) : Lexeme (hex digits) ('$' :: digits)
  | space {gap : Text} (run : gap.IsRun isBlank) : Lexeme space gap
  | mark {token : Token} {c : Char} (marked : token.mark? = some c) : Lexeme token [c]
  | other {c : Char} (stray : IsStray c) : Lexeme (other c) [c]

/-- Neighbours whose texts would run together: runs of one class, and a dollar sign or its digits with a
word that begins with a digit. -/
inductive Merges : Token → Token → Prop where
  | spaces : Merges space space
  | words (text next : Text) : Merges (word text) (word next)
  | digits (digits rest : Text) {c : Char} (digit : isHexDigit c = true) :
      Merges (hex digits) (word (c :: rest))
  | dollar (rest : Text) {c : Char} (digit : isHexDigit c = true) : Merges (other '$') (word (c :: rest))

def Apart (token next : Token) : Prop :=
  ¬ Merges token next

/-- The characters that a token goes on with. -/
def goesOn : Token → Char → Bool
  | space => isBlank
  | word _ => isNameChar
  | hex _ => isHexDigit
  | other '$' => isHexDigit
  | _ => fun _ => false

variable {token next : Token} {tokens : List Token} {pieces : List Text} {text piece rest name : Text}
  {c : Char}

theorem Lexeme.ne_nil (lexeme : Lexeme token piece) : piece ≠ [] := by
  cases lexeme with
  | word run | space run => exact run.1
  | hex | mark | other => exact List.cons_ne_nil _ _

theorem ofMark_of_mark? (marked : token.mark? = some c) : ofMark c = token := by
  cases token <;> cases marked <;> rfl

theorem ofMark_cases (c : Char) : (ofMark c).mark? = some c ∨ ofMark c = other c := by
  unfold ofMark
  split
  all_goals first
    | exact .inl rfl
    | exact .inr rfl

theorem lexeme_ofMark (plain : isBlank c = false) (unnamed : isNameChar c = false) :
    Lexeme (ofMark c) [c] := by
  rcases ofMark_cases c with marked | strange
  · exact .mark marked
  · rw [strange]
    refine .other ⟨plain, unnamed, fun token marked => ?_⟩
    rw [ofMark_of_mark? marked] at strange
    cases strange.symm ▸ marked

/-- Tokens run together only where the text after the first goes on with a character of its class. -/
theorem Merges.goesOn_head (merges : Merges token next) (headed : (scan rest).head? = some next) :
    ∃ c, rest.head? = some c ∧ token.goesOn c = true := by
  obtain ⟨tail, scanned⟩ := List.head?_eq_some_iff.mp headed
  have spelled : SpellsAll (next :: tail) rest := scanned ▸ scan_spells rest
  cases merges with
  | spaces =>
      obtain ⟨gap, later, rfl, run, _⟩ := spelled.of_space
      obtain ⟨c, gap, rfl, blank, _⟩ := run.exists_cons
      exact ⟨c, rfl, blank⟩
  | words text name =>
      obtain ⟨later, rfl, run, _⟩ := spelled.of_word
      obtain ⟨c, name, rfl, named, _⟩ := run.exists_cons
      exact ⟨c, rfl, named⟩
  | @digits _ _ c digit =>
      obtain ⟨later, rfl, _⟩ := spelled.of_word
      exact ⟨c, rfl, digit⟩
  | @dollar _ c digit =>
      obtain ⟨later, rfl, _⟩ := spelled.of_word
      exact ⟨c, rfl, digit⟩

theorem isRun_takeWhile {belongs : Char → Bool} (first : belongs c = true) (text : Text) :
    Text.IsRun belongs (c :: text.takeWhile belongs) :=
  .cons first (List.all_eq_true.mp List.all_takeWhile)

theorem ends_dropWhile (belongs : Char → Bool) (text : Text) :
    ∀ d, (text.dropWhile belongs).head? = some d → belongs d = false := by
  intro d first
  have stops := List.head?_dropWhile_not belongs text
  simpa [first] using stops

/-- A text begins with a lexeme that does not go on after it. -/
theorem exists_lexeme (c : Char) (text : Text) :
    ∃ token piece rest, c :: text = piece ++ rest ∧ Lexeme token piece ∧
      ∀ d, rest.head? = some d → token.goesOn d = false := by
  have split : ∀ belongs : Char → Bool, text = text.takeWhile belongs ++ text.dropWhile belongs :=
    fun _ => List.takeWhile_append_dropWhile.symm
  by_cases blank : isBlank c = true
  · exact ⟨space, _, _, congrArg (c :: ·) (split isBlank), .space (isRun_takeWhile blank text),
      ends_dropWhile isBlank text⟩
  by_cases named : isNameChar c = true
  · exact ⟨word _, _, _, congrArg (c :: ·) (split isNameChar), .word (isRun_takeWhile named text),
      ends_dropWhile isNameChar text⟩
  by_cases dollar : c = '$'
  · subst dollar
    by_cases none : text.takeWhile isHexDigit = []
    · refine ⟨other '$', ['$'], text, rfl, @lexeme_ofMark '$' rfl rfl, ?_⟩
      have whole : text.dropWhile isHexDigit = text := by
        simpa [none] using (split isHexDigit).symm
      exact whole ▸ ends_dropWhile isHexDigit text
    · exact ⟨hex _, _, _, congrArg ('$' :: ·) (split isHexDigit),
        .hex ⟨none, List.all_eq_true.mp List.all_takeWhile⟩, ends_dropWhile isHexDigit text⟩
  · refine ⟨ofMark c, [c], text, rfl, lexeme_ofMark (by simpa using blank) (by simpa using named), ?_⟩
    intro d _
    unfold ofMark
    split <;> first | rfl | simp [goesOn, dollar]

/-- A word that begins with no digit leaves none to a dollar sign before it. -/
theorem takeWhile_eq_nil (undigited : ∀ c later, name = c :: later → isHexDigit c = false) :
    name.takeWhile isHexDigit = [] := by
  cases name with
  | nil => rfl
  | cons c later => simp [undigited c later rfl]

theorem pushDollar_of_apart (apart : ∀ next ∈ tokens.head?, Apart (other '$') next) :
    pushDollar tokens = other '$' :: tokens := by
  by_cases unworded : NoWord tokens
  · exact pushDollar_of_noWord unworded
  · obtain ⟨name, tail, rfl⟩ := exists_word_of_not_noWord unworded
    have none : name.takeWhile isHexDigit = [] := by
      refine takeWhile_eq_nil fun c later starts => Bool.eq_false_iff.mpr fun digit => ?_
      exact apart _ rfl (starts ▸ .dollar later digit)
    simp only [pushDollar, none]

theorem scan_digits_append {digits : Text} (run : digits.IsRun isHexDigit)
    (apart : ∀ next ∈ (scan rest).head?, Apart (hex digits) next) :
    scan ('$' :: digits ++ rest) = hex digits :: scan rest := by
  by_cases unworded : NoWord (scan rest)
  · exact scan_hex_append run unworded
  · obtain ⟨name, tail, scanned⟩ := exists_word_of_not_noWord unworded
    rw [scanned] at apart
    obtain ⟨_, _, named, _⟩ := (scanned ▸ scan_spells rest).of_word
    obtain ⟨c, later, rfl, _⟩ := named.exists_cons
    have none : (c :: later).takeWhile isHexDigit = [] := by
      refine takeWhile_eq_nil fun d tail starts => Bool.eq_false_iff.mpr fun digit => ?_
      exact apart _ rfl (starts ▸ .digits digits tail digit)
    have whole : (c :: later).dropWhile isHexDigit = c :: later := by
      simpa [none] using @List.takeWhile_append_dropWhile _ isHexDigit (c :: later)
    rw [scan_dollar_append run scanned, none, List.append_nil, remainder, whole, scanned]
    rfl

/-- A lexeme that does not run together with what follows it is scanned as its token. -/
theorem scan_lexeme_append (lexeme : Lexeme token piece)
    (apart : ∀ next ∈ (scan rest).head?, Apart token next) :
    scan (piece ++ rest) = token :: scan rest := by
  cases lexeme with
  | word run => exact scan_word_append run fun name headed => apart _ headed (.words _ name)
  | space run => exact scan_space_append run fun headed => apart _ headed .spaces
  | hex run => exact scan_digits_append run apart
  | mark marked => cases token <;> cases marked <;> rfl
  | @other c stray =>
      by_cases dollar : c = '$'
      · subst dollar
        exact pushDollar_of_apart apart
      · obtain ⟨plain, unnamed, unmarked⟩ := stray
        have strange : ofMark c = other c := (ofMark_cases c).resolve_left (unmarked _)
        rw [List.singleton_append, scan_cons, push_mark plain unnamed dollar, strange]

/-- Every text is cut into lexemes that stand apart, one for each token that is scanned. -/
theorem exists_lexemes (text : Text) :
    ∃ pieces : List Text, pieces.flatten = text ∧ (∀ piece ∈ pieces, piece ≠ []) ∧
      List.Forall₂ Lexeme (scan text) pieces ∧ (scan text).IsChain Apart := by
  induction sized : text.length using Nat.strong_induction_on generalizing text with
  | _ length ih =>
      cases text with
      | nil => exact ⟨[], rfl, List.forall_mem_nil _, .nil, .nil⟩
      | cons c text =>
          obtain ⟨token, piece, rest, split, lexeme, ends⟩ := exists_lexeme c text
          have shorter : rest.length < length := by
            have filled := List.length_pos_iff.mpr lexeme.ne_nil
            rw [← sized, split, List.length_append]
            omega
          obtain ⟨pieces, whole, filled, lexemes, apart⟩ := ih rest.length shorter rest rfl
          have first : ∀ next ∈ (scan rest).head?, Apart token next := by
            intro next headed merges
            obtain ⟨d, starts, onward⟩ := merges.goesOn_head headed
            simp [ends d starts] at onward
          rw [split, scan_lexeme_append lexeme first]
          exact ⟨piece :: pieces, congrArg (piece ++ ·) whole,
            List.forall_mem_cons.mpr ⟨lexeme.ne_nil, filled⟩, .cons lexeme lexemes, apart.cons first⟩

/-- Lexemes that stand apart are scanned one by one. -/
theorem scan_flatten (lexemes : List.Forall₂ Lexeme tokens pieces) (apart : tokens.IsChain Apart) :
    scan pieces.flatten = tokens := by
  induction lexemes with
  | nil => rfl
  | @cons token piece tokens pieces lexeme _ ih =>
      obtain ⟨first, later⟩ := List.isChain_cons.mp apart
      have scanned := ih later
      rw [List.flatten_cons, scan_lexeme_append lexeme (scanned.symm ▸ first), scanned]

/-- Scanning is maximal munch, and loses nothing. The tokens of a text are those of the one cut of the
text into non-empty pieces, each of its token's class, in which no two neighbours would run together. -/
theorem scan_eq_iff_lexemes (text : Text) (tokens : List Token) :
    scan text = tokens ↔
      ∃ pieces : List Text, pieces.flatten = text ∧ (∀ piece ∈ pieces, piece ≠ []) ∧
        List.Forall₂ Lexeme tokens pieces ∧ tokens.IsChain Apart := by
  constructor
  · rintro rfl
    exact exists_lexemes text
  · rintro ⟨pieces, rfl, _, lexemes, apart⟩
    exact scan_flatten lexemes apart

example : scan "$12g,$ 7".toList =
    [hex "12".toList, word "g".toList, comma, other '$', space, word "7".toList] := by
  decide

end Asm65.Token
