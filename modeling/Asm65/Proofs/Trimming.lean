import Asm65.Token

namespace Asm65

def Text.IsGap (text : Text) : Prop :=
  ∀ c ∈ text, isBlank c = true

namespace Text

variable {text rest gap whole inner : Text} {c : Char}

theorem isGap_nil : IsGap [] := List.forall_mem_nil _

theorem exists_gap_trimStart (text : Text) : ∃ gap : Text, gap.IsGap ∧ text = gap ++ trimStart text :=
  ⟨text.takeWhile isBlank, List.all_eq_true.mp List.all_takeWhile,
    List.takeWhile_append_dropWhile.symm⟩

theorem trimStart_append (blank : gap.IsGap) (solid : ∀ c, rest.head? = some c → isBlank c = false) :
    trimStart (gap ++ rest) = rest := by
  rw [trimStart, List.dropWhile_append_of_pos blank]
  cases rest with
  | nil => rfl
  | cons c rest => simp [solid c rfl]

theorem trimStart_head (first : (trimStart text).head? = some c) : isBlank c = false := by
  have stopped := List.head?_dropWhile_not isBlank text
  rw [trimStart] at first
  rw [first] at stopped
  exact stopped

theorem trimEnd_last (last : (trimEnd text).getLast? = some c) : isBlank c = false := by
  have stopped := List.head?_dropWhile_not isBlank text.reverse
  rw [trimEnd, List.getLast?_reverse] at last
  rw [last] at stopped
  exact stopped

theorem exists_gaps_trim (text : Text) :
    ∃ before after : Text, before.IsGap ∧ after.IsGap ∧ text = before ++ (trim text ++ after) := by
  obtain ⟨before, blankBefore, split⟩ := exists_gap_trimStart text
  obtain ⟨after, blankAfter, reversed⟩ := exists_gap_trimStart (trimStart text).reverse
  refine ⟨before, after.reverse, blankBefore, fun c member => ?_, ?_⟩
  · exact blankAfter c (List.mem_reverse.mp member)
  · have ended : trimStart text = trim text ++ after.reverse := by
      rw [← List.reverse_reverse (trimStart text), reversed, List.reverse_append]
      rfl
    rw [← ended]
    exact split

theorem trim_gap_append (blank : gap.IsGap) : trim (gap ++ text) = trim text := by
  rw [trim, trimStart, List.dropWhile_append_of_pos blank]
  rfl

theorem trim_append_gap (blank : gap.IsGap) : trim (text ++ gap) = trim text := by
  have allBlank : trimStart gap = [] := by
    simpa [trimStart] using @List.dropWhile_append_of_pos _ isBlank gap [] blank
  have ended : ∀ kept : Text, trimEnd (kept ++ gap) = trimEnd kept := by
    intro kept
    have blankReversed : ∀ c ∈ gap.reverse, isBlank c = true := fun c member =>
      blank c (List.mem_reverse.mp member)
    rw [trimEnd, trimEnd, List.reverse_append, List.dropWhile_append_of_pos blankReversed]
  unfold trim
  rw [trimStart, List.dropWhile_append]
  split
  next empty =>
      have nothing : trimStart text = [] := List.isEmpty_iff.mp empty
      change trimEnd (trimStart gap) = _
      rw [allBlank, nothing]
  next => exact ended _

/-- What is left of a text between the blanks at its ends. -/
structure Trims (whole inner : Text) : Prop where
  gaps : ∃ before after : Text, before.IsGap ∧ after.IsGap ∧ whole = before ++ (inner ++ after)
  first : ∀ c, inner.head? = some c → isBlank c = false
  last : ∀ c, inner.getLast? = some c → isBlank c = false

theorem trim_eq_self (first : ∀ c, text.head? = some c → isBlank c = false)
    (last : ∀ c, text.getLast? = some c → isBlank c = false) : trim text = text := by
  have started : trimStart text = text := trimStart_append isGap_nil first
  have reversed : trimStart text.reverse = text.reverse :=
    trimStart_append isGap_nil (by simpa using last)
  rw [trim, started]
  change (trimStart text.reverse).reverse = text
  rw [reversed, List.reverse_reverse]

theorem trim_head (first : (trim text).head? = some c) : isBlank c = false := by
  obtain ⟨tail, split⟩ : trimEnd (trimStart text) <+: trimStart text := by
    rw [trimEnd, ← List.reverse_suffix, List.reverse_reverse]
    exact List.dropWhile_suffix isBlank
  have started : (trimStart text).head? = some c := by
    rw [← split, List.head?_append]
    exact Option.or_eq_some_iff.mpr (.inl first)
  exact trimStart_head started

theorem trims_iff : whole.Trims inner ↔ trim whole = inner := by
  constructor
  · rintro ⟨⟨before, after, blankBefore, blankAfter, rfl⟩, first, last⟩
    rw [trim_gap_append blankBefore, trim_append_gap blankAfter, trim_eq_self first last]
  · rintro rfl
    exact ⟨exists_gaps_trim whole, fun c => trim_head, fun c => trimEnd_last⟩

theorem trim_trim (text : Text) : trim (trim text) = trim text :=
  trim_eq_self (fun _ => trim_head) (fun _ => trimEnd_last)

theorem mem_of_mem_trim (member : c ∈ trim text) : c ∈ text := by
  obtain ⟨before, after, _, _, split⟩ := exists_gaps_trim text
  rw [split]
  exact List.mem_append_right _ (List.mem_append_left _ member)

/-- A line and what it says: the text before its first semicolon, without the blanks around it. -/
def Carries (line code : Text) : Prop :=
  ∃ kept remark : Text, line = kept ++ remark ∧ ';' ∉ kept ∧ (remark = [] ∨ ∃ note, remark = ';' :: note) ∧
    kept.Trims code

/-- Blanks, and perhaps a comment after them. -/
def IsRemark (text : Text) : Prop :=
  ∃ gap : Text, gap.IsGap ∧ (text = gap ∨ ∃ note, text = gap ++ ';' :: note)

end Text

section Code

variable {line code gap remark : Text} {c : Char}

theorem ne_semicolon_of_not_mem (plain : ';' ∉ line) : ∀ c ∈ line, (c != ';') = true := by
  intro c member
  rw [bne_iff_ne]
  rintro rfl
  exact plain member

theorem Text.IsGap.ne_semicolon (blank : gap.IsGap) : ∀ c ∈ gap, (c != ';') = true :=
  ne_semicolon_of_not_mem fun member => absurd (blank ';' member) (by decide)

theorem carries_iff : line.Carries code ↔ codeOf line = code := by
  constructor
  · rintro ⟨kept, remark, rfl, plain, comment, trims⟩
    have cut : remark.takeWhile (· != ';') = [] := by
      rcases comment with rfl | ⟨note, rfl⟩ <;> rfl
    rw [codeOf, List.takeWhile_append_of_pos (ne_semicolon_of_not_mem plain), cut, List.append_nil]
    exact Text.trims_iff.mp trims
  · intro same
    refine ⟨line.takeWhile (· != ';'), line.dropWhile (· != ';'), List.takeWhile_append_dropWhile.symm,
      fun member => ?_, ?_, Text.trims_iff.mpr same⟩
    · simpa using List.all_eq_true.mp List.all_takeWhile ';' member
    · have stopped := List.head?_dropWhile_not (· != ';') line
      cases rest : line.dropWhile (· != ';') with
      | nil => exact .inl rfl
      | cons c note =>
          rw [rest] at stopped
          have comment : c = ';' := by simpa using stopped
          exact .inr ⟨note, congrArg (· :: note) comment⟩

theorem codeOf_last (last : (codeOf line).getLast? = some c) : isBlank c = false :=
  Text.trimEnd_last last

theorem mem_of_mem_codeOf (member : c ∈ codeOf line) : c ∈ line ∧ c ≠ ';' := by
  have kept := Text.mem_of_mem_trim member
  refine ⟨List.takeWhile_subset _ kept, ?_⟩
  simpa using List.all_eq_true.mp List.all_takeWhile c kept

/-- A line without comment and without blanks at its ends is all code. -/
theorem codeOf_eq_self (plain : ';' ∉ line) (first : ∀ c, line.head? = some c → isBlank c = false)
    (last : ∀ c, line.getLast? = some c → isBlank c = false) : codeOf line = line :=
  carries_iff.mp ⟨line, [], (List.append_nil line).symm, plain, .inl rfl,
    Text.trims_iff.mpr (Text.trim_eq_self first last)⟩

theorem codeOf_gap_append (blank : gap.IsGap) : codeOf (gap ++ line) = codeOf line := by
  unfold codeOf
  rw [List.takeWhile_append_of_pos blank.ne_semicolon, Text.trim_gap_append blank]

theorem codeOf_append_remark (remarked : remark.IsRemark) : codeOf (line ++ remark) = codeOf line := by
  obtain ⟨gap, blank, ended⟩ := remarked
  have kept : remark.takeWhile (· != ';') = gap := by
    rcases ended with rfl | ⟨note, rfl⟩
    · simpa using @List.takeWhile_append_of_pos _ _ remark [] blank.ne_semicolon
    · rw [List.takeWhile_append_of_pos blank.ne_semicolon]
      simp
  unfold codeOf
  rw [List.takeWhile_append]
  split
  next whole =>
      -- without a semicolon in the line, its code goes on until the one of the remark
      have uncommented : line.takeWhile (· != ';') = line := (List.takeWhile_prefix _).eq_of_length whole
      rw [kept, uncommented, Text.trim_append_gap blank]
  next => rfl

theorem codeOf_remark (remarked : remark.IsRemark) : codeOf remark = [] :=
  @codeOf_append_remark [] remark remarked

/-- Blanks at the ends of a line are no part of its code, with or without a comment. -/
theorem codeOf_trim (line : Text) : codeOf (Text.trim line) = codeOf line := by
  obtain ⟨before, after, blankBefore, blankAfter, split⟩ := Text.exists_gaps_trim line
  conv => rhs; rw [split]
  rw [codeOf_gap_append blankBefore, codeOf_append_remark ⟨after, blankAfter, .inl rfl⟩]

end Code

end Asm65
