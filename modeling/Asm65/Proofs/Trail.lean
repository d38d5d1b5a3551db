import Asm65.Proofs.Step

namespace Asm65

open Outcome

namespace Pass

variable {pass : Pass} {trace : Bool} {progress next last : Progress} {line : Line} {fault : Fault}
  {entry : Option Entry}

section Run

variable {lines rest : List Line} {entries : List Entry} {error : SourceError}

theorem run_nil_eq_ok_iff :
    (pass.run trace [] progress).outcome = .ok (entries, last) ↔ entries = [] ∧ last = progress := by
  simp [run, eq_comm]

theorem run_cons_eq_ok_iff :
    (pass.run trace (line :: rest) progress).outcome = .ok (entries, last) ↔
      ∃ entry next tail, (pass.step trace progress line).outcome = .ok (entry, next) ∧
        (pass.run trace rest next).outcome = .ok (tail, last) ∧ entries = entry.toList ++ tail := by
  simp only [run, Logged.outcome_bind, Logged.outcome_map, Logged.outcome_mapError, bind_eq_ok_iff,
    mapError_eq_ok_iff, map_eq_ok_iff, Prod.mk.injEq]
  constructor
  · intro run
    obtain ⟨⟨entry, next⟩, stepped, ⟨tail, _⟩, finished, rfl, rfl⟩ := run
    exact ⟨entry, next, tail, stepped, finished, rfl⟩
  · intro steps
    obtain ⟨entry, next, tail, stepped, finished, rfl⟩ := steps
    exact ⟨(entry, next), stepped, (tail, last), finished, rfl, rfl⟩

theorem run_cons_eq_error_iff :
    (pass.run trace (line :: rest) progress).outcome = .error error ↔
      (∃ fault, (pass.step trace progress line).outcome = .error fault ∧
        error = line.refuse fault) ∨
      ∃ entry next, (pass.step trace progress line).outcome = .ok (entry, next) ∧
        (pass.run trace rest next).outcome = .error error := by
  simp only [run, Logged.outcome_bind, Logged.outcome_map, Logged.outcome_mapError,
    bind_eq_error_iff, mapError_eq_error_iff, mapError_eq_ok_iff, map_eq_error_iff, Prod.exists]
  simp only [eq_comm]

theorem outcome_run : (pass.run trace lines progress).outcome = (pass.run false lines progress).outcome := by
  induction lines generalizing progress with
  | nil => rfl
  | cons line rest ih =>
      have stepped : (pass.step trace progress line).outcome = (pass.step false progress line).outcome :=
        outcome_step
      simp only [run, Logged.outcome_bind, Logged.outcome_map, Logged.outcome_mapError, stepped, ih]

theorem run_append {middle : Progress} {later : List Entry}
    (first : (pass.run trace lines progress).outcome = .ok (entries, middle))
    (second : (pass.run trace rest middle).outcome = .ok (later, last)) :
    (pass.run trace (lines ++ rest) progress).outcome = .ok (entries ++ later, last) := by
  induction lines generalizing progress entries with
  | nil =>
      obtain ⟨rfl, rfl⟩ := run_nil_eq_ok_iff.mp first
      exact second
  | cons line lines ih =>
      obtain ⟨entry, next, tail, stepped, remaining, rfl⟩ := run_cons_eq_ok_iff.mp first
      rw [List.append_assoc]
      exact run_cons_eq_ok_iff.mpr ⟨entry, next, _, stepped, ih remaining, rfl⟩

end Run

end Pass

/-- A line that a pass reaches, with the progress on reaching it. -/
structure Visit where
  progress : Progress
  line : Line

namespace Pass

/-- The lines that a pass reaches, from the given progress on. The last of them is the line that
stops the pass, if one does. -/
def trail (pass : Pass) : List Line → Progress → List Visit
  | [], _ => []
  | line :: rest, progress =>
      { progress, line } ::
        match (pass.step false progress line).outcome with
        | .ok (_, next) => pass.trail rest next
        | .error _ => []

section Trail

variable {pass : Pass} {trace : Bool} {progress next last : Progress} {line : Line}
  {lines rest : List Line} {entries : List Entry} {error : SourceError} {visit after : Visit}
  {index : Nat} {entry : Option Entry} {fault : Fault}

theorem trail_cons_of_ok (stepped : (pass.step trace progress line).outcome = .ok (entry, next)) :
    pass.trail (line :: rest) progress = { progress, line } :: pass.trail rest next := by
  rw [outcome_step] at stepped
  simp [trail, stepped]

theorem trail_cons_of_error (stopped : (pass.step trace progress line).outcome = .error fault) :
    pass.trail (line :: rest) progress = [{ progress, line }] := by
  rw [outcome_step] at stopped
  simp [trail, stopped]

theorem trail_lines_of_ok (finished : (pass.run trace lines progress).outcome = .ok (entries, last)) :
    (pass.trail lines progress).map Visit.line = lines := by
  induction lines generalizing progress entries with
  | nil => rfl
  | cons line rest ih =>
      obtain ⟨entry, next, tail, stepped, remaining, _⟩ := run_cons_eq_ok_iff.mp finished
      rw [trail_cons_of_ok stepped, List.map_cons, ih remaining]

theorem trail_line (reached : (pass.trail lines progress)[index]? = some visit) :
    lines[index]? = some visit.line := by
  induction lines generalizing progress index with
  | nil => simp [trail] at reached
  | cons line rest ih =>
      cases index with
      | zero =>
          simp only [trail, List.getElem?_cons_zero, Option.some.injEq] at reached
          simp [← reached]
      | succ index =>
          cases stepped : (pass.step false progress line).outcome with
          | error fault => simp [trail_cons_of_error stepped] at reached
          | ok result =>
              rw [trail_cons_of_ok stepped, List.getElem?_cons_succ] at reached
              simpa using ih reached

theorem line_of_mem_trail (member : visit ∈ pass.trail lines progress) : visit.line ∈ lines := by
  obtain ⟨index, reached⟩ := List.mem_iff_getElem?.mp member
  exact List.mem_of_getElem? (trail_line reached)

theorem trail_zero (reached : (pass.trail lines progress)[0]? = some visit) :
    visit.progress = progress := by
  cases lines with
  | nil => simp [trail] at reached
  | cons line rest =>
      simp only [trail, List.getElem?_cons_zero, Option.some.injEq] at reached
      simp [← reached]

theorem trail_succ (reached : (pass.trail lines progress)[index + 1]? = some after) :
    ∃ visit entry, (pass.trail lines progress)[index]? = some visit ∧
      (pass.step false visit.progress visit.line).outcome = .ok (entry, after.progress) := by
  induction lines generalizing progress index with
  | nil => simp [trail] at reached
  | cons line rest ih =>
      cases stepped : (pass.step false progress line).outcome with
      | error fault => simp [trail_cons_of_error stepped] at reached
      | ok result =>
          rw [trail_cons_of_ok stepped, List.getElem?_cons_succ] at reached
          rw [trail_cons_of_ok stepped]
          cases index with
          | zero =>
              refine ⟨{ progress, line }, result.1, rfl, ?_⟩
              rw [trail_zero reached, stepped]
          | succ index =>
              obtain ⟨visit, entry, before, taken⟩ := ih reached
              exact ⟨visit, entry, by simpa using before, taken⟩

theorem step_of_later {later : Nat} (order : index < later)
    (reached : (pass.trail lines progress)[later]? = some after)
    (here : (pass.trail lines progress)[index]? = some visit) :
    ∃ entry next, (pass.step false visit.progress visit.line).outcome = .ok (entry, next) := by
  have within : index + 1 < (pass.trail lines progress).length :=
    Nat.lt_of_le_of_lt order (List.getElem?_eq_some_iff.mp reached).1
  obtain ⟨previous, entry, same, stepped⟩ := trail_succ (List.getElem?_eq_getElem within)
  cases here.symm.trans same
  exact ⟨entry, _, stepped⟩

/-- A pass fails exactly where a line on its trail is refused. -/
theorem run_eq_error_iff :
    (pass.run trace lines progress).outcome = .error error ↔
      ∃ visit ∈ pass.trail lines progress, ∃ fault,
        (pass.step false visit.progress visit.line).outcome = .error fault ∧
          error = visit.line.refuse fault := by
  induction lines generalizing progress with
  | nil => simp [run, trail]
  | cons line rest ih =>
      rw [run_cons_eq_error_iff, outcome_step]
      cases stepped : (pass.step false progress line).outcome with
      | error fault => simp [trail_cons_of_error stepped, stepped]
      | ok result =>
          rw [trail_cons_of_ok stepped]
          constructor
          · intro stopped
            obtain ⟨fault, ⟨⟩, _⟩ | ⟨entry, next, ⟨⟩, failed⟩ := stopped
            obtain ⟨visit, member, refused⟩ := ih.mp failed
            exact ⟨visit, List.mem_cons_of_mem _ member, refused⟩
          · intro stopped
            obtain ⟨visit, member, fault, refused, located⟩ := stopped
            rcases List.mem_cons.mp member with rfl | member
            · simp [stepped] at refused
            · exact .inr ⟨_, _, rfl, ih.mpr ⟨visit, member, fault, refused, located⟩⟩

theorem mem_entries {made : Entry}
    (finished : (pass.run trace lines progress).outcome = .ok (entries, last))
    (member : visit ∈ pass.trail lines progress)
    (taken : (pass.step trace visit.progress visit.line).outcome = .ok (some made, next)) :
    made ∈ entries := by
  induction lines generalizing progress entries with
  | nil => simp [trail] at member
  | cons line rest ih =>
      obtain ⟨first, after, tail, stepped, remaining, rfl⟩ := run_cons_eq_ok_iff.mp finished
      rw [trail_cons_of_ok stepped] at member
      rcases List.mem_cons.mp member with rfl | member
      · cases stepped.symm.trans taken
        simp
      · exact List.mem_append_right _ (ih remaining member)

theorem step_of_mem_trail
    (finished : (pass.run trace lines progress).outcome = .ok (entries, last))
    (member : visit ∈ pass.trail lines progress) :
    ∃ entry next, (pass.step false visit.progress visit.line).outcome = .ok (entry, next) := by
  cases stepped : (pass.step false visit.progress visit.line).outcome with
  | ok result => exact ⟨result.1, result.2, rfl⟩
  | error fault =>
      have failed : (pass.run trace lines progress).outcome = .error (visit.line.refuse fault) :=
        run_eq_error_iff.mpr ⟨visit, member, fault, stepped, rfl⟩
      simp [finished] at failed

theorem Advances.places {number : Nat} {statement : Option Statement}
    (advances : pass.Advances number progress statement entry next) :
    next.labels.places =
      progress.labels.places ++ ((statement.bind Statement.label?).map (·, progress.pc)).toList := by
  have added : ∀ {label here labels}, here.toNat = progress.pc →
      (pass.bindLabel? progress.labels label here).outcome = .ok labels →
      labels.places = progress.labels.places ++ (label.map (·, progress.pc)).toList := by
    intro label here labels placed binds
    rw [LabelTable.places, (bindLabel?_eq_ok_iff.mp binds).1]
    cases label <;> simp [LabelTable.places, placed]
  cases advances with
  | blank | origin => simp [Statement.label?]
  | label placed binds => exact added placed binds
  | instruction placed binds => exact added placed binds

theorem Advances.names {number : Nat} {statement : Option Statement}
    (advances : pass.Advances number progress statement entry next) :
    next.labels.names = progress.labels.names ++ (statement.bind Statement.label?).toList := by
  rw [LabelTable.names_eq_places, advances.places, List.map_append, LabelTable.names_eq_places]
  cases statement.bind Statement.label? <;> rfl

theorem Advances.before {number : Nat} {statement : Option Statement}
    (advances : pass.Advances number progress statement entry next) :
    progress.labels.Before next.labels := by
  have added : ∀ {label here labels},
      (pass.bindLabel? progress.labels label here).outcome = .ok labels →
      progress.labels.Before labels := by
    intro label here labels binds
    rw [LabelTable.Before, (bindLabel?_eq_ok_iff.mp binds).1]
    exact List.prefix_append _ _
  cases advances with
  | blank | origin => exact .refl _
  | label placed binds => exact added binds
  | instruction placed binds => exact added binds

theorem Advances.pc_le {number : Nat} {statement : Option Statement}
    (advances : pass.Advances number progress statement entry next)
    (start : progress.pc ≤ 0x10000) : next.pc ≤ 0x10000 := by
  cases advances with
  | blank | label => exact start
  | @origin _ address read =>
      have bound := address.toNat_lt
      simp only
      omega
  | instruction _ _ _ room => exact room

/-- A pass never gets further than one past the top of memory. -/
theorem trail_pc_le (start : progress.pc ≤ 0x10000)
    (reached : (pass.trail lines progress)[index]? = some visit) :
    visit.progress.pc ≤ 0x10000 := by
  induction index generalizing visit with
  | zero => rwa [trail_zero reached]
  | succ index ih =>
      obtain ⟨previous, entry, before, stepped⟩ := trail_succ reached
      obtain ⟨statement, _, advances⟩ := step_eq_ok_iff.mp stepped
      exact advances.pc_le (ih before)

theorem trail_names (reached : (pass.trail lines progress)[index]? = some visit) :
    visit.progress.labels.names =
      progress.labels.names ++ (lines.take index).filterMap Line.label? := by
  induction index generalizing visit with
  | zero => simp [trail_zero reached]
  | succ index ih =>
      obtain ⟨previous, entry, before, stepped⟩ := trail_succ reached
      obtain ⟨statement, read, advances⟩ := step_eq_ok_iff.mp stepped
      rw [advances.names, ih before, List.take_add_one, trail_line before, Option.toList_some,
        List.filterMap_append, List.append_assoc]
      congr 2
      have named : previous.line.label? = statement.bind Statement.label? := by
        rw [Line.label?, Line.statement?_of_parse read]
      cases bound : statement.bind Statement.label? <;> simp [named, bound]

theorem run_before (finished : (pass.run trace lines progress).outcome = .ok (entries, last)) :
    progress.labels.Before last.labels := by
  induction lines generalizing progress entries with
  | nil =>
      obtain ⟨_, rfl⟩ := run_nil_eq_ok_iff.mp finished
      exact .refl _
  | cons line rest ih =>
      obtain ⟨entry, next, tail, stepped, remaining, _⟩ := run_cons_eq_ok_iff.mp finished
      obtain ⟨statement, _, advances⟩ := step_eq_ok_iff.mp stepped
      exact advances.before.trans (ih remaining)

/-- What follows a visited line is a run from the progress after it to the end. -/
theorem run_after (finished : (pass.run trace lines progress).outcome = .ok (entries, last))
    (member : visit ∈ pass.trail lines progress)
    (taken : (pass.step trace visit.progress visit.line).outcome = .ok (entry, next)) :
    ∃ rest tail, rest ⊆ lines ∧ (pass.run trace rest next).outcome = .ok (tail, last) := by
  induction lines generalizing progress entries with
  | nil => simp [trail] at member
  | cons line rest ih =>
      obtain ⟨first, after, tail, stepped, remaining, _⟩ := run_cons_eq_ok_iff.mp finished
      rw [trail_cons_of_ok stepped] at member
      rcases List.mem_cons.mp member with rfl | member
      · cases stepped.symm.trans taken
        exact ⟨rest, tail, List.subset_cons_self line rest, remaining⟩
      · obtain ⟨later, made, among, follows⟩ := ih remaining member
        exact ⟨later, made, List.subset_cons_of_subset line among, follows⟩

theorem step_before (finished : (pass.run trace lines progress).outcome = .ok (entries, last))
    (member : visit ∈ pass.trail lines progress)
    (taken : (pass.step trace visit.progress visit.line).outcome = .ok (entry, next)) :
    next.labels.Before last.labels := by
  obtain ⟨_, _, _, remaining⟩ := run_after finished member taken
  exact run_before remaining

end Trail

end Pass

/-- The label that a visited line binds, with the address at which the line was reached. -/
def Visit.binding? (visit : Visit) : Option (Text × Nat) :=
  visit.line.label?.map (·, visit.progress.pc)

namespace Pass

section Labels

variable {pass : Pass} {trace : Bool} {progress last : Progress} {lines : List Line}
  {entries : List Entry}

/-- The labels that a pass finds are those of the lines it reaches, in that order, each at the
address at which its line was reached. -/
theorem run_places (finished : (pass.run trace lines progress).outcome = .ok (entries, last)) :
    last.labels.places =
      progress.labels.places ++ (pass.trail lines progress).filterMap Visit.binding? := by
  induction lines generalizing progress entries with
  | nil =>
      obtain ⟨_, rfl⟩ := run_nil_eq_ok_iff.mp finished
      simp [trail]
  | cons line rest ih =>
      obtain ⟨entry, next, tail, stepped, remaining, _⟩ := run_cons_eq_ok_iff.mp finished
      obtain ⟨statement, read, advances⟩ := step_eq_ok_iff.mp stepped
      rw [trail_cons_of_ok stepped, ih remaining, advances.places, List.append_assoc]
      congr 1
      have binding : ({ progress, line } : Visit).binding? =
          (statement.bind Statement.label?).map (·, progress.pc) := by
        simp [Visit.binding?, Line.label?, Line.statement?_of_parse read]
      cases bound : (statement.bind Statement.label?).map (·, progress.pc) <;>
        simp [binding, bound]

theorem run_names (finished : (pass.run trace lines progress).outcome = .ok (entries, last)) :
    last.labels.names = progress.labels.names ++ lines.filterMap Line.label? := by
  have names : (pass.trail lines progress).filterMap (fun visit => visit.binding?.map Prod.fst) =
      ((pass.trail lines progress).map Visit.line).filterMap Line.label? := by
    rw [List.filterMap_map]
    congr 1
    funext visit
    simp [Visit.binding?, Function.comp_def]
  rw [LabelTable.names_eq_places, run_places finished, List.map_append, List.map_filterMap, names,
    trail_lines_of_ok finished, LabelTable.names_eq_places]

end Labels

end Pass

namespace Line

variable {source : Text} {line : Line} {index : Nat}

theorem ofSource_texts : (ofSource source).map Line.text = Text.lines source := by
  rw [ofSource, List.map_map]
  exact List.zipIdx_map_fst 1 _

theorem ofSource_number (found : (ofSource source)[index]? = some line) : line.number = index + 1 := by
  simp only [ofSource, List.getElem?_map, List.getElem?_zipIdx, Option.map_map,
    Option.map_eq_some_iff] at found
  obtain ⟨_, _, rfl⟩ := found
  exact Nat.add_comm 1 index

theorem ofSource_increasing : (ofSource source).Pairwise (·.number < ·.number) := by
  refine List.pairwise_iff_getElem.mpr fun first second left right order => ?_
  rw [ofSource_number (List.getElem?_eq_getElem left), ofSource_number (List.getElem?_eq_getElem right)]
  omega

end Line

namespace Pass

def walk (pass : Pass) (config : Config) (source : Text) :
    Logged SourceError (List Entry × Progress) :=
  pass.run config.trace (Line.ofSource source) (.start config)

def visits (pass : Pass) (config : Config) (source : Text) : List Visit :=
  pass.trail (Line.ofSource source) (.start config)

section Walk

variable {pass : Pass} {config : Config} {source : Text} {entries : List Entry} {last : Progress}
  {index : Nat} {visit : Visit}

theorem visits_pc_le (member : visit ∈ pass.visits config source) : visit.progress.pc ≤ 0x10000 := by
  obtain ⟨index, reached⟩ := List.mem_iff_getElem?.mp member
  exact trail_pc_le (Nat.le_of_lt config.origin.toNat_lt) reached

theorem walk_names (finished : (pass.walk config source).outcome = .ok (entries, last)) :
    last.labels.names = (Line.ofSource source).filterMap Line.label? := by
  rw [run_names finished, Progress.start, LabelTable.names_empty, List.nil_append]

/-- A label that a pass finds was bound on a line, at the address at which the line was reached. -/
theorem visit_of_bound {name : Text} {address : UInt16}
    (finished : (pass.walk config source).outcome = .ok (entries, last))
    (bound : last.labels.get? name = some address) :
    ∃ visit ∈ pass.visits config source, visit.line.label? = some name ∧
      address.toNat = visit.progress.pc := by
  have member : (name, address.toNat) ∈ last.labels.places :=
    LabelTable.mem_places_iff.mpr ⟨address, bound, rfl⟩
  rw [run_places finished, Progress.start, LabelTable.places_empty, List.nil_append,
    List.mem_filterMap] at member
  obtain ⟨visit, reached, binding⟩ := member
  simp only [Visit.binding?, Option.map_eq_some_iff, Prod.mk.injEq] at binding
  obtain ⟨_, named, rfl, placed⟩ := binding
  exact ⟨visit, reached, named, placed.symm⟩

theorem walk_nodup (finished : (pass.walk config source).outcome = .ok (entries, last)) :
    ((Line.ofSource source).filterMap Line.label?).Nodup :=
  walk_names finished ▸ last.labels.nodup

theorem reaches_of_walk {other : Pass}
    (finished : (pass.walk config source).outcome = .ok (entries, last))
    (reached : (other.visits config source)[index]? = some visit) :
    ∃ left, (pass.visits config source)[index]? = some left ∧ left.line = visit.line := by
  have line := trail_line reached
  rw [← trail_lines_of_ok finished, List.getElem?_map, Option.map_eq_some_iff] at line
  exact line

/-- A name is new to a pass that reaches the line which binds it, if no name is bound twice. -/
theorem fresh_of_reached {name : Text}
    (distinct : ((Line.ofSource source).filterMap Line.label?).Nodup)
    (reached : (pass.visits config source)[index]? = some visit)
    (named : visit.line.label? = some name) : name ∉ visit.progress.labels.names := by
  rw [trail_names reached, Progress.start, LabelTable.names_empty, List.nil_append]
  intro earlier
  have line := trail_line reached
  rw [← List.take_append_drop index (Line.ofSource source), List.filterMap_append,
    List.nodup_append] at distinct
  refine distinct.2.2 name earlier name ?_ rfl
  refine List.mem_filterMap.mpr ⟨visit.line, ?_, named⟩
  have here : ((Line.ofSource source).drop index)[0]? = some visit.line := by simpa using line
  exact List.mem_of_getElem? here

end Walk

end Pass

section Assemble

variable {config : Config} {source : Text} {assembly : Assembly} {error : SourceError}

theorem survey_ne_labelMoved {name : Text} {before here : UInt16}
    (failed : (Pass.survey.walk config source).outcome = .error error) :
    error.fault ≠ .labelMoved name before here := by
  obtain ⟨visit, _, fault, refused, rfl⟩ := Pass.run_eq_error_iff.mp failed
  intro moved
  change fault = _ at moved
  subst moved
  obtain ⟨_, _, _, _, final, _⟩ := Pass.step_eq_labelMoved_iff.mp refused
  cases final

theorem assemble_eq_ok_iff :
    (assemble config source).outcome = .ok assembly ↔
      ∃ surveyed found entries last,
        (Pass.survey.walk config source).outcome = .ok (surveyed, found) ∧
        ((Pass.final found.labels).walk config source).outcome = .ok (entries, last) ∧
        assembly = .ofEntries config entries last.labels := by
  simp only [assemble, Pass.walk, Logged.outcome_bind, Logged.outcome_tell, Logged.outcome_pure,
    bind_eq_ok_iff, Except.ok.injEq, Prod.exists]
  constructor
  · intro passes
    obtain ⟨_, _, surveyed, found, first, _, _, _, _, entries, last, second, _, _, rfl⟩ := passes
    exact ⟨surveyed, found, entries, last, first, second, rfl⟩
  · intro passes
    obtain ⟨surveyed, found, entries, last, first, second, rfl⟩ := passes
    exact ⟨(), trivial, surveyed, found, first, (), trivial, (), trivial, entries, last, second, (),
      trivial, rfl⟩

theorem assemble_eq_error_iff :
    (assemble config source).outcome = .error error ↔
      (Pass.survey.walk config source).outcome = .error error ∨
      ∃ surveyed found, (Pass.survey.walk config source).outcome = .ok (surveyed, found) ∧
        ((Pass.final found.labels).walk config source).outcome = .error error := by
  simp only [assemble, Pass.walk, Logged.outcome_bind, Logged.outcome_tell, Logged.outcome_pure,
    bind_eq_error_iff, reduceCtorEq, false_or, and_false, exists_false, or_false, Prod.exists]
  constructor
  · intro stopped
    obtain ⟨_, _, failed | ⟨surveyed, found, first, _, _, _, _, second⟩⟩ := stopped
    · exact .inl failed
    · exact .inr ⟨surveyed, found, first, second⟩
  · intro stopped
    obtain failed | ⟨surveyed, found, first, second⟩ := stopped
    · exact ⟨(), trivial, .inl failed⟩
    · exact ⟨(), trivial, .inr ⟨surveyed, found, first, (), trivial, (), trivial, second⟩⟩

end Assemble

/-- The two passes of an assembly, over lines from anywhere. -/
def assembleLines (config : Config) (lines : List Line) : Except SourceError Assembly :=
  (Pass.survey.run config.trace lines (.start config)).outcome.bind fun surveyed =>
    ((Pass.final surveyed.2.labels).run config.trace lines (.start config)).outcome.bind fun done =>
      .ok (.ofEntries config done.1 done.2.labels)

theorem assemble_eq_assembleLines (config : Config) (source : Text) :
    (assemble config source).outcome = assembleLines config (Line.ofSource source) := by
  simp only [assemble, Logged.outcome_bind, Logged.outcome_tell, Logged.outcome_pure]
  rfl

theorem outcome_assemble_trace (config : Config) (trace : Bool) (source : Text) :
    (assemble { config with trace } source).outcome = (assemble config source).outcome := by
  have untraced : ∀ (trace : Bool) (pass : Pass) (lines : List Line) (progress : Progress),
      (pass.run trace lines progress).outcome = (pass.run false lines progress).outcome :=
    fun _ _ _ _ => Pass.outcome_run
  rw [assemble_eq_assembleLines, assemble_eq_assembleLines]
  simp only [assembleLines, untraced trace, untraced config.trace]
  rfl

end Asm65
