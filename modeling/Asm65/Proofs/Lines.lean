import Asm65.Proofs.Grammar
import Asm65.Proofs.Simulation

namespace Asm65

theorem Statement.parse_trim (line : Text) : parse (Text.trim line) = parse line := by
  unfold parse
  rw [codeOf_trim]

namespace Line

def trimmed (line : Line) : Line :=
  { line with text := Text.trim line.text }

theorem refuse_trimmed (line : Line) (fault : Fault) : line.trimmed.refuse fault = line.refuse fault := by
  simp [refuse, trimmed, Text.trim_trim]

def numbered : Nat → List Text → List Line
  | _, [] => []
  | number, text :: rest => { number, text } :: numbered (number + 1) rest

def renumber (more : Nat) (line : Line) : Line :=
  { line with number := line.number + more }

variable {number more : Nat} {texts others : List Text}

theorem ofSource_eq_numbered (source : Text) : ofSource source = numbered 1 (Text.lines source) := by
  unfold ofSource
  generalize 1 = number
  generalize Text.lines source = texts
  induction texts generalizing number with
  | nil => rfl
  | cons text rest ih =>
      rw [List.zipIdx_cons, List.map_cons, ih]
      rfl

theorem numbered_append :
    numbered number (texts ++ others) = numbered number texts ++ numbered (number + texts.length) others := by
  induction texts generalizing number with
  | nil => rfl
  | cons text rest ih =>
      rw [List.cons_append, numbered, ih, numbered, List.length_cons, List.cons_append]
      congr 3
      omega

theorem numbered_take (count : Nat) :
    numbered number (texts.take count) = (numbered number texts).take count := by
  induction texts generalizing number count with
  | nil => simp [numbered]
  | cons text rest ih =>
      cases count with
      | zero => rfl
      | succ count => rw [List.take_succ_cons, numbered, ih, numbered, List.take_succ_cons]

theorem numbered_add : numbered (number + more) texts = (numbered number texts).map (renumber more) := by
  induction texts generalizing number with
  | nil => rfl
  | cons text rest ih =>
      rw [numbered, numbered, List.map_cons, ← ih, Nat.add_right_comm]
      rfl

theorem numbered_trimmed : (numbered number texts).map trimmed = numbered number (texts.map Text.trim) := by
  induction texts generalizing number with
  | nil => rfl
  | cons text rest ih =>
      rw [numbered, List.map_cons, ih, List.map_cons, numbered]
      rfl

end Line

namespace Text

variable {text rest : Text} {c : Char}

theorem lines_cons_ne_nil (c : Char) (text : Text) : lines (c :: text) ≠ [] := by
  change pushChar '\n' c (lines text) ≠ []
  unfold pushChar
  split
  · simp
  · split <;> simp

theorem pushChar_append {separator : Char} {pieces more : List Text} (filled : pieces ≠ []) :
    pushChar separator c (pieces ++ more) = pushChar separator c pieces ++ more := by
  obtain ⟨piece, pieces, rfl⟩ := List.exists_cons_of_ne_nil filled
  unfold pushChar
  split <;> rfl

theorem lines_newline_append (text rest : Text) :
    lines (text ++ '\n' :: rest) = lines (text ++ ['\n']) ++ lines rest := by
  induction text with
  | nil => rfl
  | cons c text ih =>
      have filled : lines (text ++ ['\n']) ≠ [] := by
        cases text with
        | nil => exact lines_cons_ne_nil _ _
        | cons => exact lines_cons_ne_nil _ _
      change pushChar '\n' c (lines (text ++ '\n' :: rest)) = pushChar '\n' c (lines (text ++ ['\n'])) ++ _
      rw [ih, pushChar_append filled]

/-- A line feed at the end of a text ends its last line, or adds an empty one. -/
theorem lines_newline (text : Text) :
    lines (text ++ ['\n']) = lines text ∨ lines (text ++ ['\n']) = lines text ++ [[]] := by
  induction text with
  | nil => exact .inr rfl
  | cons c text ih =>
      change pushChar '\n' c (lines (text ++ ['\n'])) = pushChar '\n' c (lines text) ∨
        pushChar '\n' c (lines (text ++ ['\n'])) = pushChar '\n' c (lines text) ++ [[]]
      rcases ih with same | added
      · exact .inl (by rw [same])
      · rw [added]
        cases before : lines text with
        | nil =>
            by_cases feed : c = '\n'
            · exact .inr (by simp [pushChar, feed])
            · exact .inl (by simp [pushChar, feed])
        | cons piece pieces => exact .inr (pushChar_append (List.cons_ne_nil _ _))

end Text

theorem Line.ofSource_newline_append (text rest : Text) :
    Line.ofSource (text ++ '\n' :: rest) =
      Line.ofSource (text ++ ['\n']) ++
        (Line.ofSource rest).map (renumber (Text.lines (text ++ ['\n'])).length) := by
  rw [ofSource_eq_numbered, ofSource_eq_numbered, ofSource_eq_numbered, Text.lines_newline_append,
    numbered_append, numbered_add]

namespace Pass

variable {pass : Pass} {trace : Bool} {progress last : Progress} {lines : List Line} {text : Text}
  {entries : List Entry} {error : SourceError}

theorem run_trimmed : pass.run trace (lines.map Line.trimmed) progress = pass.run trace lines progress := by
  induction lines generalizing progress with
  | nil => rfl
  | cons line rest ih =>
      have stepped : pass.step trace progress line.trimmed = pass.step trace progress line := by
        simp only [step, Line.trimmed, Statement.parse_trim]
      have refused : line.trimmed.refuse = line.refuse := funext line.refuse_trimmed
      simp only [List.map_cons, run, stepped, refused, ih]

/-- A blank line, which a line feed may add at the end, changes nothing. -/
theorem run_newline (finished : (pass.run trace (Line.ofSource text) progress).outcome = .ok (entries, last)) :
    (pass.run trace (Line.ofSource (text ++ ['\n'])) progress).outcome = .ok (entries, last) := by
  rw [Line.ofSource_eq_numbered] at finished ⊢
  rcases Text.lines_newline text with same | added
  · rwa [same]
  · rw [added, Line.numbered_append, ← List.append_nil entries]
    refine run_append finished ?_
    exact run_cons_eq_ok_iff.mpr ⟨none, last, [], step_eq_ok_iff.mpr ⟨none, rfl, .blank⟩,
      run_nil_eq_ok_iff.mpr ⟨rfl, rfl⟩, rfl⟩

end Pass

end Asm65
