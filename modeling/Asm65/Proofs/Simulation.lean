import Mathlib.Data.List.Forall2
import Asm65.Proofs.Trail

namespace Asm65.Pass

open Outcome

variable {pass other : Pass} {trace : Bool} {progress last start : Progress} {lines others : List Line}
  {entries : List Entry} {error : SourceError} {Beside : Progress → Progress → Prop}
  {Reads : Line → Line → Prop} {Makes : Entry → Entry → Prop}

/-- If one pass takes every line that the other takes, and stays beside it, it gets through as well. -/
theorem run_simulates (finished : (pass.run trace lines progress).outcome = .ok (entries, last))
    (read : List.Forall₂ Reads lines others) (beside : Beside progress start)
    (follows : ∀ visit ∈ pass.trail lines progress, ∀ line after entry next,
      Reads visit.line line → Beside visit.progress after →
      (pass.step false visit.progress visit.line).outcome = .ok (entry, next) →
      ∃ made later, (other.step false after line).outcome = .ok (made, later) ∧ Beside next later ∧
        List.Forall₂ Makes entry.toList made.toList) (otherTrace : Bool) :
    ∃ made later, (other.run otherTrace others start).outcome = .ok (made, later) ∧
      Beside last later ∧ List.Forall₂ Makes entries made := by
  induction read generalizing progress entries start with
  | nil =>
      obtain ⟨rfl, rfl⟩ := run_nil_eq_ok_iff.mp finished
      exact ⟨[], start, run_nil_eq_ok_iff.mpr ⟨rfl, rfl⟩, beside, .nil⟩
  | @cons line otherLine lines others first _ ih =>
      obtain ⟨entry, next, tail, stepped, remaining, rfl⟩ := run_cons_eq_ok_iff.mp finished
      rw [trail_cons_of_ok stepped] at follows
      obtain ⟨here, onward⟩ := List.forall_mem_cons.mp follows
      rw [outcome_step] at stepped
      obtain ⟨made, later, taken, besideNext, makes⟩ := here otherLine start entry next first beside stepped
      obtain ⟨rest, final, finishedRest, besideLast, makesRest⟩ := ih remaining besideNext onward
      rw [← outcome_step] at taken
      exact ⟨_, final, run_cons_eq_ok_iff.mpr ⟨made, later, rest, taken, finishedRest, rfl⟩, besideLast,
        List.rel_append makes makesRest⟩

/-- Two passes that do alike on each pair of lines do alike along the lines, and fail at lines of one
pair. -/
theorem run_alike {Faults : Line → Line → Fault → Fault → Prop} (read : List.Forall₂ Reads lines others)
    (beside : Beside progress start)
    (follows : ∀ line again now after, Reads line again → Beside now after →
      Alike (Faults line again)
        (fun taken also => Beside taken.2 also.2 ∧ List.Forall₂ Makes taken.1.toList also.1.toList)
        (pass.step trace now line).outcome (other.step trace after again).outcome) :
    Alike
      (fun error also => ∃ line again fault cause, Reads line again ∧ Faults line again fault cause ∧
        error = line.refuse fault ∧ also = again.refuse cause)
      (fun done also => Beside done.2 also.2 ∧ List.Forall₂ Makes done.1 also.1)
      (pass.run trace lines progress).outcome (other.run trace others start).outcome := by
  induction read generalizing progress start with
  | nil => exact .ok ⟨beside, .nil⟩
  | @cons line again lines others first _ ih =>
      have here := follows line again progress start first beside
      cases stepped : (pass.step trace progress line).outcome with
      | error fault =>
          obtain ⟨cause, refused, faults⟩ := here.of_error stepped
          rw [run_cons_eq_error_iff.mpr (.inl ⟨fault, stepped, rfl⟩),
            run_cons_eq_error_iff.mpr (.inl ⟨cause, refused, rfl⟩)]
          exact .error ⟨line, again, fault, cause, first, faults, rfl, rfl⟩
      | ok taken =>
          obtain ⟨also, steppedToo, besideNext, makes⟩ := here.of_ok stepped
          have later := ih besideNext
          cases remaining : (pass.run trace lines taken.2).outcome with
          | error error =>
              obtain ⟨cause, remainingToo, faults⟩ := later.of_error remaining
              rw [run_cons_eq_error_iff.mpr (.inr ⟨_, _, stepped, remaining⟩),
                run_cons_eq_error_iff.mpr (.inr ⟨_, _, steppedToo, remainingToo⟩)]
              exact .error faults
          | ok done =>
              obtain ⟨doneToo, remainingToo, besideLast, makesRest⟩ := later.of_ok remaining
              rw [run_cons_eq_ok_iff.mpr ⟨_, _, _, stepped, remaining, rfl⟩,
                run_cons_eq_ok_iff.mpr ⟨_, _, _, steppedToo, remainingToo, rfl⟩]
              exact .ok ⟨besideLast, List.rel_append makes makesRest⟩

/-- A run fails at the first line that is refused, and the lines before that are taken. -/
theorem run_eq_error_iff_split :
    (pass.run trace lines progress).outcome = .error error ↔
      ∃ front line back entries middle fault, lines = front ++ line :: back ∧
        (pass.run trace front progress).outcome = .ok (entries, middle) ∧
        (pass.step trace middle line).outcome = .error fault ∧ error = line.refuse fault := by
  refine ⟨fun failed => ?_, fun split => ?_⟩
  · induction lines generalizing progress with
    | nil => simp [run] at failed
    | cons line rest ih =>
        rcases run_cons_eq_error_iff.mp failed with ⟨fault, refused, rfl⟩ | ⟨entry, next, stepped, later⟩
        · exact ⟨[], line, rest, [], progress, fault, rfl, run_nil_eq_ok_iff.mpr ⟨rfl, rfl⟩, refused, rfl⟩
        · obtain ⟨front, other, back, tail, middle, fault, rfl, taken, refused⟩ := ih later
          exact ⟨line :: front, other, back, _, middle, fault, rfl,
            run_cons_eq_ok_iff.mpr ⟨entry, next, tail, stepped, taken, rfl⟩, refused⟩
  · obtain ⟨front, line, back, entries, middle, fault, rfl, taken, refused, rfl⟩ := split
    induction front generalizing progress entries with
    | nil =>
        obtain ⟨_, rfl⟩ := run_nil_eq_ok_iff.mp taken
        exact run_cons_eq_error_iff.mpr (.inl ⟨fault, refused, rfl⟩)
    | cons first front ih =>
        obtain ⟨entry, next, tail, stepped, remaining, _⟩ := run_cons_eq_ok_iff.mp taken
        exact run_cons_eq_error_iff.mpr (.inr ⟨entry, next, stepped, ih tail remaining⟩)

end Asm65.Pass
