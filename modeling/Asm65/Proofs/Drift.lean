import Mathlib.Algebra.Ring.Int.Defs
import Mathlib.Data.List.DropRight
import Asm65.Proofs.Agreement
import Asm65.Proofs.Trimming

namespace Asm65

/-! How far the final pass is ahead of the survey. The survey takes the current address for a label
that comes later. The size of an instruction depends on the guess only where the guess and the label
lie on different sides of address `0x100`; such references add up until the next origin. -/

open Encoding

/-- What a reference grows by when its value is `target` instead of `guess`. -/
def straddle (guess target : Nat) : Int :=
  if guess < 0x100 ∧ 0x100 ≤ target then 1
  else if target < 0x100 ∧ 0x100 ≤ guess then -1
  else 0

namespace Instruction

/-- The name that decides the size of an instruction, when it is not yet bound. -/
def forward? (body : Instruction) (bound : List Text) : Option Text :=
  if body.narrows then
    body.operand.text?.filter fun text => (literalValue? text).isNone && !bound.contains text
  else none

/-- How much longer an instruction at `here` is with all labels known than with those in `bound`. -/
def growth (body : Instruction) (bound : List Text) (here : Nat) (known : LabelTable) : Int :=
  match (body.forward? bound).bind known.get? with
  | some target => straddle here target.toNat
  | none => 0

variable {body : Instruction} {seen known : LabelTable} {here there : UInt16}
  {shorter longer : List UInt8}

theorem forward?_eq_some_iff {bound : List Text} {name : Text} :
    body.forward? bound = some name ↔
      body.narrows = true ∧ body.operand.text? = some name ∧ literalValue? name = none ∧
        name ∉ bound := by
  by_cases narrow : body.narrows = true <;>
    simp [forward?, narrow, Option.filter_eq_some_iff]

/-- The survey and the final pass give an operand the same value, unless it is a name that is not
yet bound. -/
theorem value_eq_of_bound {text : Text} {guess value : UInt16} (before : seen.Before known)
    (settled : literalValue? text ≠ none ∨ text ∈ seen.names)
    (guessed : valueOf text .word (.growing seen) here = .ok guess)
    (resolved : valueOf text .word (.complete known) there = .ok value) : guess = value := by
  cases literal : literalValue? text with
  | some number =>
      rw [valueOf_literal literal] at guessed resolved
      exact Except.ok.inj (guessed.symm.trans resolved)
  | none =>
      obtain ⟨address, bound⟩ := LabelTable.mem_names_iff.mp (settled.resolve_left (by simp [literal]))
      rw [valueOf_growing_bound literal bound] at guessed
      rw [valueOf_complete_bound literal (before.get? bound)] at resolved
      exact Except.ok.inj (guessed.symm.trans resolved)

theorem length_sub_length (before : seen.Before known)
    (first : body.encode (.growing seen) here = .ok shorter)
    (second : body.encode (.complete known) there = .ok longer) :
    (longer.length : Int) - shorter.length = body.growth seen.names here.toNat known := by
  by_cases narrow : body.narrows = true
  · obtain ⟨text, guess, takes, guessed, short⟩ := encode_length_of_narrows narrow first
    obtain ⟨_, value, takesAlso, resolved, long⟩ := encode_length_of_narrows narrow second
    cases takes.symm.trans takesAlso
    -- only a name that is still free has two values: the address itself, and that of the label
    by_cases settled : literalValue? text ≠ none ∨ text ∈ seen.names
    · have same := value_eq_of_bound before settled guessed resolved
      have none_ahead : body.forward? seen.names = none := by
        by_contra ahead
        obtain ⟨name, ahead⟩ := Option.ne_none_iff_exists'.mp ahead
        obtain ⟨_, takesName, unread, free⟩ := forward?_eq_some_iff.mp ahead
        cases takes.symm.trans takesName
        exact settled.elim (· unread) free
      rw [short, long, same, growth, none_ahead]
      simp
    · obtain ⟨literal, free⟩ := not_or.mp settled
      rw [not_not] at literal
      have ahead : body.forward? seen.names = some text :=
        forward?_eq_some_iff.mpr ⟨narrow, takes, literal, free⟩
      rw [valueOf_growing_free literal (LabelTable.get?_eq_none_iff.mpr free)] at guessed
      cases guessed
      cases target : known.get? text with
      | none => simp [valueOf_complete_free literal target] at resolved
      | some address =>
          rw [valueOf_complete_bound literal target] at resolved
          cases resolved
          rw [short, long, growth, ahead, Option.bind_some, target]
          simp only [straddle]
          split_ifs <;> omega
  · obtain ⟨value, short, _⟩ := encode_length first
    obtain ⟨other, long, _⟩ := encode_length second
    have fixed : body.size value = body.size other := size_of_not_narrows (by simpa using narrow) other
    have none_ahead : body.forward? seen.names = none := by simp [forward?, narrow]
    rw [short, long, fixed, growth, none_ahead]
    simp

end Instruction

def Visit.growth (known : LabelTable) (visit : Visit) : Int :=
  match visit.line.statement? with
  | some (.instruction label body) =>
      body.growth (visit.progress.labels.names ++ label.toList) visit.progress.pc known
  | _ => 0

/-- How far the final pass is ahead after the given visits of the survey: what the lines since the
last origin have grown by. -/
def drift (known : LabelTable) (visits : List Visit) : Int :=
  ((visits.rtakeWhile fun visit => !visit.line.isOrigin).map (Visit.growth known)).sum

theorem drift_concat (known : LabelTable) (visits : List Visit) (visit : Visit) :
    drift known (visits ++ [visit]) =
      if visit.line.isOrigin then 0 else drift known visits + visit.growth known := by
  by_cases origin : visit.line.isOrigin = true <;>
    simp [drift, origin]

variable {known : LabelTable} {first second after later : Progress} {line : Line}
  {config : Config} {source : Text} {surveyed : List Entry} {found : Progress}

/-- One line in both passes: an origin brings them together, and any other line keeps their
distance but for its growth. -/
theorem Pass.Advances.drift {statement : Option Statement} {entry other : Option Entry}
    (read : line.statement? = statement) (before : after.labels.Before known)
    (surveys : Pass.survey.Advances line.number first statement entry after)
    (settles : (Pass.final known).Advances line.number second statement other later) :
    (later.pc : Int) - after.pc =
      if line.isOrigin then 0
      else (second.pc : Int) - first.pc + Visit.growth known { progress := first, line } := by
  cases surveys with
  | blank =>
      cases settles
      simp [Line.isOrigin, Visit.growth, read]
  | origin firstRead =>
      cases settles with
      | origin secondRead =>
          cases firstRead.symm.trans secondRead
          simp [Line.isOrigin, read, Statement.isOrigin]
  | label =>
      cases settles
      simp [Line.isOrigin, Visit.growth, read, Statement.isOrigin]
  | @instruction label body _ labels _ placed binds encoded room =>
      cases settles with
      | instruction _ _ encodedLater _ =>
          have surveyed : Pass.survey.Advances line.number first (some (.instruction label body)) _ _ :=
            .instruction placed binds encoded room
          have bound : labels.names = first.labels.names ++ label.toList := surveyed.names
          have grown := Instruction.length_sub_length before encoded encodedLater
          rw [bound, placed] at grown
          simp only [Line.isOrigin, Visit.growth, read, Statement.isOrigin, Option.any_some,
            Bool.false_eq_true, if_false, ← grown, Int.natCast_add]
          omega

/-- At every line that both passes reach, their distance is the drift of the lines before it. -/
theorem pc_sub_pc (finished : (Pass.survey.walk config source).outcome = .ok (surveyed, found))
    {index : Nat} {left right : Visit}
    (reachedFirst : (Pass.survey.visits config source)[index]? = some left)
    (reachedSecond : ((Pass.final found.labels).visits config source)[index]? = some right) :
    (right.progress.pc : Int) - left.progress.pc =
      drift found.labels ((Pass.survey.visits config source).take index) := by
  induction index generalizing left right with
  | zero =>
      rw [Pass.trail_zero reachedFirst, Pass.trail_zero reachedSecond]
      simp [drift]
  | succ index ih =>
      obtain ⟨previous, entry, reachedPrevious, surveys⟩ := Pass.trail_succ reachedFirst
      obtain ⟨other, otherEntry, reachedOther, settles⟩ := Pass.trail_succ reachedSecond
      have sameLine : other.line = previous.line :=
        Option.some.inj ((Pass.trail_line reachedOther).symm.trans (Pass.trail_line reachedPrevious))
      have before := Pass.step_before finished (List.mem_of_getElem? reachedPrevious)
        (Pass.outcome_step.trans surveys)
      obtain ⟨statement, read, surveys⟩ := Pass.step_eq_ok_iff.mp surveys
      obtain ⟨otherStatement, readOther, settles⟩ := Pass.step_eq_ok_iff.mp settles
      rw [sameLine] at readOther settles
      cases read.symm.trans readOther
      have moved := Pass.Advances.drift (Line.statement?_of_parse read) before surveys settles
      rw [moved, ih reachedPrevious reachedOther, List.take_add_one, Pass.visits, reachedPrevious]
      exact (drift_concat found.labels _ previous).symm

theorem survey_binds (finished : (Pass.survey.walk config source).outcome = .ok (surveyed, found))
    {index : Nat} {left : Visit} {name : Text}
    (reached : (Pass.survey.visits config source)[index]? = some left)
    (named : left.line.label? = some name) :
    ∃ address, found.labels.get? name = some address ∧ address.toNat = left.progress.pc := by
  refine LabelTable.mem_places_iff.mp ?_
  rw [Pass.run_places finished]
  refine List.mem_append_right _ (List.mem_filterMap.mpr ⟨left, List.mem_of_getElem? reached, ?_⟩)
  rw [Visit.binding?, named]
  rfl

/-- In the final pass, a label that the line at `index` binds has moved exactly if the passes have
drifted apart there. -/
theorem step_eq_labelMoved_iff_drift
    (finished : (Pass.survey.walk config source).outcome = .ok (surveyed, found))
    {index : Nat} {left right : Visit} {name : Text} {before here : UInt16}
    (reachedFirst : (Pass.survey.visits config source)[index]? = some left)
    (reachedSecond : ((Pass.final found.labels).visits config source)[index]? = some right) :
    ((Pass.final found.labels).step false right.progress right.line).outcome =
        .error (.labelMoved name before here) ↔
      right.line.label? = some name ∧
        drift found.labels ((Pass.survey.visits config source).take index) ≠ 0 ∧
        before.toNat = left.progress.pc ∧ here.toNat = right.progress.pc := by
  have distance := pc_sub_pc finished reachedFirst reachedSecond
  have sameLine : left.line = right.line :=
    Option.some.inj ((Pass.trail_line reachedFirst).symm.trans (Pass.trail_line reachedSecond))
  rw [Pass.step_eq_labelMoved_iff]
  constructor
  · intro moved
    obtain ⟨named, placed, _, _, ⟨⟩, bound, differs⟩ := moved
    obtain ⟨address, boundAt, place⟩ := survey_binds finished reachedFirst (sameLine ▸ named)
    cases bound.symm.trans boundAt
    have apart : before.toNat ≠ here.toNat := fun same => differs (UInt16.toNat_inj.mp same)
    exact ⟨named, by omega, place, placed⟩
  · intro drifted
    obtain ⟨named, apart, place, placed⟩ := drifted
    obtain ⟨address, boundAt, sameplace⟩ := survey_binds finished reachedFirst (sameLine ▸ named)
    cases UInt16.toNat_inj.mp (place.trans sameplace.symm)
    have fresh := Pass.fresh_of_reached (Pass.walk_nodup finished) reachedSecond named
    refine ⟨named, placed, fresh, found.labels, rfl, boundAt, ?_⟩
    intro same
    subst same
    omega

theorem drift_eq_zero {visits : List Visit} (still : ∀ visit ∈ visits, visit.growth known = 0) :
    drift known visits = 0 := by
  induction visits using List.reverseRecOn with
  | nil => rfl
  | append_singleton visits visit ih =>
      rw [drift_concat, ih fun visit member => still visit (by simp [member]),
        still visit (by simp)]
      simp

theorem Visit.growth_eq_zero {visit : Visit}
    (level : ∀ label body, visit.line.statement? = some (.instruction label body) →
      ∀ name target, known.get? name = some target → straddle visit.progress.pc target.toNat = 0) :
    visit.growth known = 0 := by
  unfold Visit.growth
  split
  next label body stated =>
      unfold Instruction.growth
      split
      next target ahead =>
          obtain ⟨name, _, bound⟩ := Option.bind_eq_some_iff.mp ahead
          exact level label body stated name target bound
      next => rfl
  next => rfl

theorem growth_eq_zero {visit : Visit}
    (finished : (Pass.survey.walk config source).outcome = .ok (surveyed, found))
    (oneSide :
      (∀ entry ∈ surveyed, 0x100 ≤ entry.address.toNat) ∧
          (∀ place ∈ found.labels.places, 0x100 ≤ place.2) ∨
        (∀ entry ∈ surveyed, entry.address.toNat < 0x100) ∧
          (∀ place ∈ found.labels.places, place.2 < 0x100))
    (member : visit ∈ Pass.survey.visits config source) : visit.growth found.labels = 0 := by
  refine Visit.growth_eq_zero fun label body stated name target bound => ?_
  obtain ⟨entry, next, stepped⟩ := Pass.step_of_mem_trail finished member
  obtain ⟨statement, read, advances⟩ := Pass.step_eq_ok_iff.mp stepped
  cases (Line.statement?_of_parse read).symm.trans stated
  cases advances with
  | instruction placed =>
      have made := Pass.mem_entries finished member (Pass.outcome_step.trans stepped)
      have place := LabelTable.mem_places_iff.mpr ⟨target, bound, rfl⟩
      simp only [straddle]
      rcases oneSide with ⟨code, labels⟩ | ⟨code, labels⟩ <;>
        · have address := code _ made
          have label := labels _ place
          simp only at address label
          split_ifs <;> omega

/-- The final pass reaches, at the given place of the source, a line that binds the name. The
address is in memory, but the passes have drifted apart. -/
def LabelDrifts (config : Config) (source : Text) (known : LabelTable) (index : Nat) (name : Text) :
    Prop :=
  ∃ visit, ((Pass.final known).visits config source)[index]? = some visit ∧
    visit.line.label? = some name ∧ visit.progress.pc < 0x10000 ∧
    drift known ((Pass.survey.visits config source).take index) ≠ 0

theorem LabelDrifts.step_eq_labelMoved {index : Nat} {name : Text} {right : Visit}
    (finished : (Pass.survey.walk config source).outcome = .ok (surveyed, found))
    (drifts : LabelDrifts config source found.labels index name)
    (reached : ((Pass.final found.labels).visits config source)[index]? = some right) :
    ∃ before here, ((Pass.final found.labels).step false right.progress right.line).outcome =
      .error (.labelMoved name before here) := by
  obtain ⟨visit, same, named, inMemory, apart⟩ := drifts
  cases reached.symm.trans same
  obtain ⟨left, reachedFirst, line⟩ := Pass.reaches_of_walk finished reached
  obtain ⟨before, _, place⟩ := survey_binds finished reachedFirst (line ▸ named)
  refine ⟨before, UInt16.ofNat right.progress.pc, ?_⟩
  rw [step_eq_labelMoved_iff_drift finished reachedFirst reached, UInt16.toNat_ofNat']
  exact ⟨named, apart, place, Nat.mod_eq_of_lt inMemory⟩

/-- The error tells a fault of the line at `index`: the number of the line, counted from one, and its text
without the blanks around it. -/
structure SourceError.At (error : SourceError) (source : Text) (index : Nat) (fault : Fault) : Prop where
  line : error.line = index + 1
  text : ∃ line, (Text.lines source)[index]? = some line ∧ line.Trims error.text
  fault : error.fault = fault

theorem Pass.eq_refuse_iff_at {pass : Pass} {index : Nat} {visit : Visit} {error : SourceError}
    {fault : Fault} (reached : (pass.visits config source)[index]? = some visit) :
    error = visit.line.refuse fault ↔ error.At source index fault := by
  have line := Pass.trail_line reached
  have number := Line.ofSource_number line
  have text : (Text.lines source)[index]? = some visit.line.text := by
    rw [← Line.ofSource_texts, List.getElem?_map, line]
    rfl
  constructor
  · rintro rfl
    exact ⟨number, ⟨_, text, Text.trims_iff.mpr rfl⟩, rfl⟩
  · intro told
    obtain ⟨_, written, trims⟩ := told.text
    cases text.symm.trans written
    cases error with
    | mk =>
        simp only [Line.refuse, SourceError.mk.injEq]
        exact ⟨told.line.trans number.symm, (Text.trims_iff.mp trims).symm, told.fault⟩

/-- At `index` the final pass comes to the first line with a label that has drifted, and stops there. The
error tells the line and both addresses, which are as far apart as the passes. -/
structure MovesLabel (config : Config) (source : Text) (known : LabelTable) (index : Nat)
    (error : SourceError) (name : Text) (before here : UInt16) : Prop where
  drifts : LabelDrifts config source known index name
  first : ∀ earlier < index, ∀ other, ¬ LabelDrifts config source known earlier other
  told : error.At source index (.labelMoved name before here)
  surveyed : ∃ left, (Pass.survey.visits config source)[index]? = some left ∧
    before.toNat = left.progress.pc
  reached : ∃ right, ((Pass.final known).visits config source)[index]? = some right ∧
    here.toNat = right.progress.pc
  distance : (here.toNat : Int) - before.toNat =
    drift known ((Pass.survey.visits config source).take index)

theorem labelMoved_iff_movesLabel {error : SourceError} {name : Text} {before here : UInt16}
    (finished : (Pass.survey.walk config source).outcome = .ok (surveyed, found)) :
    ((Pass.final found.labels).walk config source).outcome = .error error ∧
        error.fault = .labelMoved name before here ↔
      ∃ index, MovesLabel config source found.labels index error name before here := by
  rw [Pass.walk, Pass.run_eq_error_iff]
  constructor
  · intro reported
    obtain ⟨⟨right, member, fault, refused, same⟩, moved⟩ := reported
    obtain ⟨index, reached⟩ := List.mem_iff_getElem?.mp member
    have told := (Pass.eq_refuse_iff_at reached).mp same
    cases told.fault.symm.trans moved
    obtain ⟨left, reachedFirst, _⟩ := Pass.reaches_of_walk finished reached
    obtain ⟨named, apart, place, placed⟩ :=
      (step_eq_labelMoved_iff_drift finished reachedFirst reached).mp refused
    have inMemory := here.toNat_lt
    refine ⟨index, ⟨right, reached, named, by omega, apart⟩, ?_, told, ⟨left, reachedFirst, place⟩,
      ⟨right, reached, placed⟩, ?_⟩
    · intro earlier order other drifts
      obtain ⟨visit, reachedEarlier, _⟩ := id drifts
      obtain ⟨_, _, stopped⟩ := drifts.step_eq_labelMoved finished reachedEarlier
      obtain ⟨_, _, taken⟩ := Pass.step_of_later order reached reachedEarlier
      simp [taken] at stopped
    · rw [place, placed]
      exact pc_sub_pc finished reachedFirst reached
  · intro moves
    obtain ⟨index, ⟨right, reached, named, _, apart⟩, _, told, ⟨left, reachedFirst, place⟩,
      ⟨other, reachedToo, placed⟩, _⟩ := moves
    cases reached.symm.trans reachedToo
    have refused := (step_eq_labelMoved_iff_drift finished reachedFirst reached).mpr
      ⟨named, apart, place, placed⟩
    exact ⟨⟨right, List.mem_of_getElem? reached, _, refused, (Pass.eq_refuse_iff_at reached).mpr told⟩,
      told.fault⟩

/-- How the final pass goes on from a survey that found the labels: where it is at each line, where it stops
for a label that has moved, and when it does not. -/
structure DriftsByStraddling (config : Config) (source : Text) (surveyed : List Entry) (known : LabelTable) :
    Prop where
  distance : ∀ index right, ((Pass.final known).visits config source)[index]? = some right →
    ∃ left, (Pass.survey.visits config source)[index]? = some left ∧ left.line = right.line ∧
      (right.progress.pc : Int) - left.progress.pc =
        drift known ((Pass.survey.visits config source).take index)
  moved : ∀ error name before here,
    ((Pass.final known).walk config source).outcome = .error error ∧
        error.fault = .labelMoved name before here ↔
      ∃ index, MovesLabel config source known index error name before here
  still : (∀ visit ∈ Pass.survey.visits config source, visit.growth known = 0) →
    (∀ index, drift known ((Pass.survey.visits config source).take index) = 0) ∧
      ∀ error, ((Pass.final known).walk config source).outcome = .error error →
        ∀ name before here, error.fault ≠ .labelMoved name before here
  oneSide : (∀ entry ∈ surveyed, 0x100 ≤ entry.address.toNat) ∧ (∀ place ∈ known.places, 0x100 ≤ place.2) ∨
      (∀ entry ∈ surveyed, entry.address.toNat < 0x100) ∧ (∀ place ∈ known.places, place.2 < 0x100) →
    ∀ visit ∈ Pass.survey.visits config source, visit.growth known = 0

/-- The passes drift apart by references forward across address `0x100`, and by nothing else.
At every line that the final pass reaches, its address is that of the survey plus the drift of the
lines since the last origin. It reports a moved label exactly at the first line that binds one in
memory while there is a drift, with the two addresses that differ by it. Without such references,
as where code and labels lie on one side of `0x100`, no label moves. -/
theorem passes_drift_by_straddling
    (finished : (Pass.survey.walk config source).outcome = .ok (surveyed, found)) :
    DriftsByStraddling config source surveyed found.labels where
  distance index right reached := by
    obtain ⟨left, reachedFirst, line⟩ := Pass.reaches_of_walk finished reached
    exact ⟨left, reachedFirst, line, pc_sub_pc finished reachedFirst reached⟩
  moved error name before here := labelMoved_iff_movesLabel finished
  still still := by
    have level : ∀ index, drift found.labels ((Pass.survey.visits config source).take index) = 0 :=
      fun index => drift_eq_zero fun visit member => still visit (List.mem_of_mem_take member)
    refine ⟨level, fun error failed name before here reported => ?_⟩
    obtain ⟨index, moves⟩ := (labelMoved_iff_movesLabel finished).mp ⟨failed, reported⟩
    obtain ⟨_, _, _, _, apart⟩ := moves.drifts
    exact apart (level index)
  oneSide oneSide visit member := growth_eq_zero finished oneSide member

/-- A reference forward from the zero page to the first address after it. -/
def crossing : Text := "* = $FE\nLDA far\nfar: RTS".toList

def crossingLabels : LabelTable := ⟨[("far".toList, 0x100)], by decide⟩

theorem survey_crossing :
    (Pass.survey.walk .default crossing).outcome = .ok
      ([⟨2, 0xFE, none, "LDA far".toList, [0xA5, 0xFE]⟩,
        ⟨3, 0x100, some "far".toList, "RTS".toList, [0x60]⟩], ⟨0x101, crossingLabels⟩) := by
  rfl

theorem passes_drift_crossing :
    (∃ surveyed, (Pass.survey.walk .default crossing).outcome = .ok (surveyed, ⟨0x101, crossingLabels⟩)) ∧
    ((Pass.final crossingLabels).walk .default crossing).outcome =
      .error ⟨3, "far: RTS".toList, .labelMoved "far".toList 0x100 0x101⟩ ∧
    MovesLabel .default crossing crossingLabels 2 ⟨3, "far: RTS".toList, .labelMoved "far".toList 0x100 0x101⟩
      "far".toList 0x100 0x101 ∧
    drift crossingLabels ((Pass.survey.visits .default crossing).take 2) = 1 := by
  have failed : ((Pass.final crossingLabels).walk .default crossing).outcome =
      .error ⟨3, "far: RTS".toList, .labelMoved "far".toList 0x100 0x101⟩ := by rfl
  obtain ⟨index, moves⟩ := ((passes_drift_by_straddling survey_crossing).moved _ _ _ _).mp ⟨failed, rfl⟩
  cases Nat.succ.inj moves.told.line
  exact ⟨⟨_, survey_crossing⟩, failed, moves, moves.distance.symm⟩

end Asm65
