import Asm65.Proofs.Grammar
import Asm65.Proofs.Step

namespace Asm65.Statement

open Outcome

/-- What a line leaves to be an instruction: the whole line, or what follows a label and the blanks after
its colon. -/
inductive Leaves : Text → Text → Prop where
  | whole {code : Text} (bare : ∀ name tail : Text, name.IsRun isNameChar → code ≠ name ++ ':' :: tail) :
      Leaves code code
  | rest {name gap text : Text} (word : name.IsRun isNameChar) (blank : gap.IsGap)
      (solid : ∀ c, text.head? = some c → isBlank c = false) : Leaves (name ++ ':' :: (gap ++ text)) text

variable {line code text : Text} {fault : Fault}

theorem splitLabel?_eq_none_iff :
    splitLabel? code = none ↔ ∀ name tail : Text, name.IsRun isNameChar → code ≠ name ++ ':' :: tail := by
  constructor
  · intro unsplit name tail word same
    have split : splitLabel? code = some (name, tail.trimStart) :=
      splitLabel?_eq_some_iff.mpr ⟨tail, same, word, rfl⟩
    simp [unsplit] at split
  · intro bare
    refine Option.eq_none_iff_forall_ne_some.mpr fun ⟨name, rest⟩ split => ?_
    obtain ⟨tail, same, word, _⟩ := splitLabel?_eq_some_iff.mp split
    exact bare name tail word same

theorem leaves_iff :
    Leaves code text ↔
      (splitLabel? code = none ∧ text = code) ∨ ∃ name, splitLabel? code = some (name, text) := by
  constructor
  · intro leaves
    cases leaves with
    | whole bare => exact .inl ⟨splitLabel?_eq_none_iff.mpr bare, rfl⟩
    | @rest name gap _ word blank solid =>
        have trimmed := Text.trimStart_append blank solid
        exact .inr ⟨name, splitLabel?_eq_some_iff.mpr ⟨gap ++ text, rfl, word, trimmed.symm⟩⟩
  · intro split
    rcases split with ⟨unsplit, rfl⟩ | ⟨name, split⟩
    · exact .whole (splitLabel?_eq_none_iff.mp unsplit)
    · obtain ⟨tail, rfl, word, rfl⟩ := splitLabel?_eq_some_iff.mp split
      obtain ⟨gap, blank, same⟩ := Text.exists_gap_trimStart tail
      have leaves : Leaves (name ++ ':' :: (gap ++ tail.trimStart)) tail.trimStart :=
        .rest word blank fun c first => Text.trimStart_head first
      rwa [← same] at leaves

theorem Leaves.unique {other : Text} (leaves : Leaves code text) (leavesToo : Leaves code other) :
    text = other := by
  rw [leaves_iff] at leaves leavesToo
  rcases leaves with ⟨unsplit, rfl⟩ | ⟨name, split⟩
  · rcases leavesToo with ⟨_, rfl⟩ | ⟨_, split⟩
    · rfl
    · simp [unsplit] at split
  · rcases leavesToo with ⟨unsplit, _⟩ | ⟨_, splitToo⟩
    · simp [split] at unsplit
    · cases split.symm.trans splitToo
      rfl

/-- A line that cannot be read is refused for what it leaves to be an instruction. -/
theorem leaves_of_parse (unread : parse line = .error fault) :
    ∃ text, Leaves (codeOf line) text ∧ fault = .unreadableLine text := by
  have filled : codeOf line ≠ [] := by
    intro empty
    simp [parse, empty] at unread
  rw [parse_of_code filled] at unread
  split at unread
  next => contradiction
  next =>
      split at unread
      next => contradiction
      next name rest _ split =>
          exact ⟨rest, leaves_iff.mpr (.inr ⟨name, split⟩),
            Instruction.fault_of_parse (map_eq_error_iff.mp unread)⟩
      next unsplit =>
          exact ⟨codeOf line, leaves_iff.mpr (.inl ⟨unsplit, rfl⟩),
            Instruction.fault_of_parse (map_eq_error_iff.mp unread)⟩

/-- Reading accepts the lines of the grammar and no others, and finds in each what is written there. A line
says one thing only, which may be nothing. Every line that says something else than the grammar is refused,
with the text that should have been an instruction. -/
theorem parse_decides_grammar (line : Text) :
    ∃ code : Text, (∀ other, line.Carries other ↔ other = code) ∧
      (parse line = .ok none ↔ code = []) ∧
      (∀ statement, parse line = .ok (some statement) ↔ statement.Written code) ∧
      ∀ fault, parse line = .error fault ↔
        code ≠ [] ∧ (∀ statement : Statement, ¬ statement.Written code) ∧
          ∃ text, Leaves code text ∧ fault = .unreadableLine text := by
  have carries : ∀ other, line.Carries other ↔ other = codeOf line := by
    intro other
    rw [carries_iff, eq_comm]
  refine ⟨codeOf line, carries, parse_eq_ok_none_iff, fun _ => parse_eq_ok_some_iff,
    fun fault => ⟨fun unread => ?_, ?_⟩⟩
  · refine ⟨fun empty => ?_, fun statement written => ?_, leaves_of_parse unread⟩
    · simp [parse_eq_ok_none_iff.mpr empty] at unread
    · simp [parse_of_written written] at unread
  · rintro ⟨filled, unwritten, text, leaves, rfl⟩
    cases outcome : parse line with
    | ok statement =>
        cases statement with
        | none => exact absurd (parse_eq_ok_none_iff.mp outcome) filled
        | some statement => exact absurd (written_of_parse outcome) (unwritten statement)
    | error fault =>
        obtain ⟨other, leavesToo, rfl⟩ := leaves_of_parse outcome
        rw [leaves.unique leavesToo]

/-- A line with blanks of several kinds, a label, and a comment with more semicolons in it. -/
def remarked : Text :=
  "\u00a0to:LDA ($1f),\u2003y ;; through; the page".toList

theorem parse_decides_grammar_remarked :
    remarked.Carries "to:LDA ($1f),\u2003y".toList ∧
      parse remarked = .ok (some (.instruction (some "to".toList)
        { mnemonic := "LDA".toList, operand := .indirectIndexed "$1f".toList,
          text := "LDA ($1f),\u2003y".toList })) := by
  have gap : ∀ text : Text, text.all isBlank = true → text.IsGap := fun _ => List.all_eq_true.mp
  have carried : remarked.Carries "to:LDA ($1f),\u2003y".toList := by
    refine ⟨"\u00a0to:LDA ($1f),\u2003y ".toList, ";; through; the page".toList, by decide +kernel,
      by decide +kernel, .inr ⟨"; through; the page".toList, by decide +kernel⟩,
      ⟨"\u00a0".toList, " ".toList, gap _ (by decide +kernel), gap _ (by decide +kernel), by decide +kernel⟩,
      fun c starts => ?_, fun c ends => ?_⟩
    · have first : "to:LDA ($1f),\u2003y".toList.head? = some 't' := by decide +kernel
      cases first.symm.trans starts
      decide
    · have last : "to:LDA ($1f),\u2003y".toList.getLast? = some 'y' := by decide +kernel
      cases last.symm.trans ends
      decide
  have page : Text.IsValue "$1f".toList := .inr ⟨"1f".toList, rfl, by decide⟩
  have operand : (Operand.indirectIndexed "$1f".toList).Written "($1f),\u2003y".toList :=
    @Operand.Written.indirectIndexed "$1f".toList "\u2003".toList 'y' page
      (gap _ (by decide +kernel)) (by decide)
  have body := @Instruction.Written.applied "LDA".toList " ".toList _ _ (by decide) rfl (by decide) operand
  have text : "LDA".toList ++ (" ".toList ++ "($1f),\u2003y".toList) = "LDA ($1f),\u2003y".toList := by
    decide +kernel
  have line : "to".toList ++ ':' :: ([] ++ "LDA ($1f),\u2003y".toList) = "to:LDA ($1f),\u2003y".toList := by
    decide +kernel
  rw [text] at body
  have labelled := @Statement.Written.labelled "to".toList [] _ (by decide) Text.isGap_nil body
  obtain ⟨code, carries, _, written, _⟩ := parse_decides_grammar remarked
  have code_eq := (carries _).mp carried
  rw [line, code_eq] at labelled
  exact ⟨carried, (written _).mpr labelled⟩

end Asm65.Statement
