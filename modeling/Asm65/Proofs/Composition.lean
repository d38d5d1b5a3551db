import Asm65.Proofs.Lines
import Asm65.Proofs.Reassembly

namespace Asm65

/-! Two programs, one after the other. A program reads and binds no names but its own, so the labels of
the other one are a frame that stays in front of its labels and that it never looks at. -/

def originLine (address : UInt16) : Text :=
  "* = ".toList ++ dollarWord address

/-- A program and the directive for what follows it. -/
def leading (first : Text) (address : UInt16) : Text :=
  first ++ '\n' :: (originLine address ++ ['\n'])

def Entry.renumber (more : Nat) (entry : Entry) : Entry :=
  { entry with line := entry.line + more }

theorem Line.renumber_zero : Line.renumber 0 = id := rfl

theorem Entry.renumber_zero : Entry.renumber 0 = id := rfl

namespace LabelTable

variable {frame table whole : LabelTable} {name : Text}

def Joins (frame table whole : LabelTable) : Prop :=
  whole.entries = frame.entries ++ table.entries

theorem Joins.names (joins : Joins frame table whole) : whole.names = frame.names ++ table.names := by
  rw [LabelTable.names, joins, List.map_append]
  rfl

theorem Joins.get?_right (joins : Joins frame table whole) (apart : name ∉ frame.names) :
    whole.get? name = table.get? name := by
  have absent : frame.entries.lookup name = none := get?_eq_none_iff.mpr apart
  rw [get?, joins, List.lookup_append, absent, Option.none_or]
  rfl

theorem Joins.get?_left (joins : Joins frame table whole) (bound : name ∈ frame.names) :
    whole.get? name = frame.get? name := by
  obtain ⟨address, found⟩ := mem_names_iff.mp bound
  have before : frame.Before whole := by
    rw [Before, joins]
    exact List.prefix_append _ _
  rw [found, before.get? found]

theorem joins_empty (table : LabelTable) : Joins empty table table := rfl

end LabelTable

def Line.mentions (line : Line) : List Text :=
  line.label?.toList ++ line.reference?.toList

/-- The two passes are of one kind, and know the same of the given names. -/
def Pass.AgreeOn (names : List Text) : Pass → Pass → Prop
  | survey, survey => True
  | final known, final other => ∀ name ∈ names, other.get? name = known.get? name
  | survey, final _ | final _, survey => False

namespace Pass

variable {pass other : Pass} {names : List Text} {frame labels wider : LabelTable} {trace : Bool}
  {progress whole next last : Progress} {line : Line} {lines : List Line} {entries : List Entry}
  {more : Nat}

theorem AgreeOn.confirm_eq {name : Text} {here : UInt16} (agree : AgreeOn names pass other)
    (own : name ∈ names) : other.confirm name here = pass.confirm name here := by
  cases pass with
  | survey =>
      cases other with
      | survey => rfl
      | final => cases agree
  | final known =>
      cases other with
      | survey => cases agree
      | final all => simp only [confirm, agree name own]

theorem AgreeOn.valueOf_eq {text : Text} {width : Width} {here : UInt16}
    (agree : AgreeOn names pass other) (joins : LabelTable.Joins frame labels wider)
    (own : literalValue? text = none → text ∈ names) (apart : ∀ name ∈ names, name ∉ frame.names) :
    valueOf text width (other.view wider) here = valueOf text width (pass.view labels) here := by
  cases literal : literalValue? text with
  | some number => rw [valueOf_literal literal, valueOf_literal literal]
  | none =>
      have mine := own literal
      cases pass with
      | survey =>
          cases other with
          | survey => simp only [valueOf, literal, view, joins.get?_right (apart text mine)]
          | final => cases agree
      | final known =>
          cases other with
          | survey => cases agree
          | final all => simp only [valueOf, literal, view, agree text mine]

theorem AgreeOn.encode_eq {body : Instruction} {here : UInt16} (agree : AgreeOn names pass other)
    (joins : LabelTable.Joins frame labels wider)
    (own : ∀ text, body.operand.text? = some text → literalValue? text = none → text ∈ names)
    (apart : ∀ name ∈ names, name ∉ frame.names) :
    body.encode (other.view wider) here = body.encode (pass.view labels) here := by
  apply Instruction.encode_congr
  intro text takes
  cases body.operand with
  | immediate => rfl
  | implied | accumulator | absolute | indexed | indirect | indexedIndirect | indirectIndexed =>
      exact agree.valueOf_eq joins (own text takes) apart

theorem AgreeOn.bindLabel? {label : Option Text} {here : UInt16} (agree : AgreeOn names pass other)
    (joins : LabelTable.Joins frame progress.labels wider)
    (own : ∀ name, label = some name → name ∈ names) (apart : ∀ name ∈ names, name ∉ frame.names)
    (binds : (pass.bindLabel? progress.labels label here).outcome = .ok labels) :
    ∃ bound, (other.bindLabel? wider label here).outcome = .ok bound ∧
      LabelTable.Joins frame labels bound := by
  obtain ⟨grown, fresh⟩ := bindLabel?_eq_ok_iff.mp binds
  have freshToo : ∀ name, label = some name → name ∉ wider.names ∧ other.confirm name here = .ok () := by
    intro name named
    have mine := own name named
    refine ⟨?_, agree.confirm_eq mine ▸ (fresh name named).2⟩
    rw [joins.names, List.mem_append]
    exact not_or.mpr ⟨apart name mine, (fresh name named).1⟩
  obtain ⟨bound, bindsToo, grownToo⟩ := bindLabel?_of_fresh freshToo
  refine ⟨bound, bindsToo, ?_⟩
  rw [LabelTable.Joins, grownToo, grown, joins, List.append_assoc]

/-- A line does behind a frame of foreign labels what it does without it. -/
theorem Advances.framed {statement : Option Statement} {entry : Option Entry}
    (advances : pass.Advances line.number progress statement entry next)
    (stated : line.statement? = statement) (agree : AgreeOn names pass other) (own : line.mentions ⊆ names)
    (apart : ∀ name ∈ names, name ∉ frame.names) (same : whole.pc = progress.pc)
    (joins : LabelTable.Joins frame progress.labels whole.labels) (more : Nat) :
    ∃ later, other.Advances (line.number + more) whole statement (entry.map (Entry.renumber more)) later ∧
      later.pc = next.pc ∧ LabelTable.Joins frame next.labels later.labels := by
  have ownLabel : ∀ name, statement.bind Statement.label? = some name → name ∈ names := by
    intro name named
    apply own
    simp [Line.mentions, Line.label?, stated, named]
  cases advances with
  | blank => exact ⟨whole, .blank, same, joins⟩
  | origin read => exact ⟨_, .origin read, rfl, joins⟩
  | label placed binds =>
      obtain ⟨bound, bindsToo, joinsToo⟩ := agree.bindLabel? joins ownLabel apart binds
      exact ⟨_, .label (placed.trans same.symm) bindsToo, same, joinsToo⟩
  | @instruction label body here labels bytes placed binds encoded room =>
      obtain ⟨bound, bindsToo, joinsToo⟩ := agree.bindLabel? joins ownLabel apart binds
      have encodedToo : body.encode (other.view bound) here = .ok bytes := by
        rw [← encoded]
        apply agree.encode_eq joinsToo _ apart
        intro text takes named
        apply own
        simp [Line.mentions, Line.reference?_eq_some_iff.mpr ⟨label, body, stated, takes, named⟩]
      exact ⟨_, .instruction (placed.trans same.symm) bindsToo encodedToo (same ▸ room), by rw [same],
        joinsToo⟩

theorem run_framed (finished : (pass.run trace lines progress).outcome = .ok (entries, last))
    (agree : AgreeOn names pass other) (own : ∀ line ∈ lines, line.mentions ⊆ names)
    (apart : ∀ name ∈ names, name ∉ frame.names) (same : whole.pc = progress.pc)
    (joins : LabelTable.Joins frame progress.labels whole.labels) (more : Nat) (otherTrace : Bool) :
    ∃ later, (other.run otherTrace (lines.map (Line.renumber more)) whole).outcome =
        .ok (entries.map (Entry.renumber more), later) ∧
      LabelTable.Joins frame last.labels later.labels := by
  have read : List.Forall₂ (fun line other => line.renumber more = other) lines
      (lines.map (Line.renumber more)) :=
    List.forall₂_map_right_iff.mpr (List.forall₂_same.mpr fun _ _ => rfl)
  have beside : whole.pc = progress.pc ∧ LabelTable.Joins frame progress.labels whole.labels :=
    ⟨same, joins⟩
  obtain ⟨made, later, finishedToo, besideLast, makes⟩ := @run_simulates pass other trace progress last
    whole lines _ entries
    (fun progress whole => whole.pc = progress.pc ∧ LabelTable.Joins frame progress.labels whole.labels)
    _ (fun entry made => entry.renumber more = made) finished read beside (by
      rintro visit member _ after entry next rfl ⟨same, joins⟩ stepped
      obtain ⟨statement, read, advances⟩ := step_eq_ok_iff.mp stepped
      obtain ⟨later, advancesToo, sameNext, joinsNext⟩ := advances.framed
        (Line.statement?_of_parse read) agree (own _ (line_of_mem_trail member)) apart same joins more
      refine ⟨_, later, step_eq_ok_iff.mpr ⟨statement, read, advancesToo⟩, ⟨sameNext, joinsNext⟩, ?_⟩
      cases entry with
      | none => exact .nil
      | some entry => exact .cons rfl .nil) otherTrace
  have renumbered : entries.map (Entry.renumber more) = made := by
    rw [← List.forall₂_eq_eq_eq, List.forall₂_map_left_iff]
    exact makes
  exact ⟨later, renumbered ▸ finishedToo, besideLast.2⟩

/-- A final pass that gets through knows every name that the source refers to. -/
theorem reference_known {known : LabelTable} {name : Text}
    (finished : ((Pass.final known).run trace lines progress).outcome = .ok (entries, last))
    (member : line ∈ lines) (refers : line.reference? = some name) : name ∈ known.names := by
  rw [← trail_lines_of_ok finished] at member
  obtain ⟨visit, visited, rfl⟩ := List.mem_map.mp member
  obtain ⟨entry, next, stepped⟩ := step_of_mem_trail finished visited
  obtain ⟨statement, read, advances⟩ := step_eq_ok_iff.mp stepped
  obtain ⟨label, body, stated, takes, named⟩ := Line.reference?_eq_some_iff.mp refers
  cases (Line.statement?_of_parse read).symm.trans stated
  cases advances with
  | instruction _ _ encoded _ =>
      obtain ⟨value, _, valued⟩ := Instruction.encode_length encoded
      exact LabelTable.mem_names_iff.mpr ⟨value, (Operand.label_of_valueOf named (valued name takes)).1⟩

end Pass

theorem mentions_of_assemble {config : Config} {source : Text} {assembly : Assembly}
    (assembled : (assemble config source).outcome = .ok assembly) {line : Line}
    (member : line ∈ Line.ofSource source) : line.mentions ⊆ assembly.labels.names := by
  obtain ⟨_, _, _, passes⟩ := passes_of_assemble assembled
  intro name mentioned
  rcases List.mem_append.mp mentioned with binds | refers
  · rw [← passes.lastLabels, Pass.walk_names passes.final]
    exact List.mem_filterMap.mpr ⟨line, member, Option.mem_toList.mp binds⟩
  · exact Pass.reference_known passes.final member (Option.mem_toList.mp refers)

theorem newline_not_mem_originLine (address : UInt16) : '\n' ∉ originLine address := by
  simp [originLine, newline_not_mem_dollarWord]

theorem Line.ofSource_leading_append (first : Text) (address : UInt16) (second : Text) :
    Line.ofSource (leading first address ++ second) =
      Line.ofSource (first ++ ['\n']) ++
        { number := (Text.lines (first ++ ['\n'])).length + 1, text := originLine address } ::
          (Line.ofSource second).map (renumber (Text.lines (leading first address)).length) := by
  have whole : leading first address ++ second =
      (first ++ '\n' :: originLine address) ++ '\n' :: second := by simp [leading]
  have ended : (first ++ '\n' :: originLine address) ++ ['\n'] = leading first address := by
    simp [leading]
  have anchor : Line.ofSource (originLine address ++ ['\n']) = [{ number := 1, text := originLine address }] := by
    rw [ofSource_eq_numbered, Text.lines_append (newline_not_mem_originLine address)]
    rfl
  rw [whole, ofSource_newline_append, ended]
  conv => lhs; lhs; rw [leading, ofSource_newline_append, anchor]
  rw [List.append_assoc, List.map_singleton, List.singleton_append, renumber, Nat.add_comm]

variable {config placed : Config} {first second : Text}

/-- A pass over the joined source does what passes of the same kind do over the parts. -/
theorem Pass.walk_leading_append {earlier later whole : Pass} {names others : List Text}
    {entries followers : List Entry} {middle last : Progress}
    (finishedFirst : (earlier.walk config first).outcome = .ok (entries, middle))
    (finishedSecond : (later.walk placed second).outcome = .ok (followers, last))
    (ownFirst : ∀ line ∈ Line.ofSource first, line.mentions ⊆ names)
    (ownSecond : ∀ line ∈ Line.ofSource second, line.mentions ⊆ others)
    (agreeFirst : AgreeOn names earlier whole) (agreeSecond : AgreeOn others later whole)
    (apart : ∀ name ∈ others, name ∉ middle.labels.names) :
    ∃ final, (whole.walk config (leading first placed.origin ++ second)).outcome =
        .ok (entries ++ followers.map (Entry.renumber (Text.lines (leading first placed.origin)).length),
          final) ∧
      LabelTable.Joins middle.labels last.labels final.labels := by
  obtain ⟨reached, ranFirst, joinsFirst⟩ := @run_framed earlier whole names .empty config.trace
    (.start config) (.start config) middle _ entries finishedFirst agreeFirst ownFirst (by simp) rfl
    (LabelTable.joins_empty _) 0 config.trace
  rw [Line.renumber_zero, Entry.renumber_zero, List.map_id, List.map_id] at ranFirst
  have sameLabels : reached.labels = middle.labels := LabelTable.eq_of_entries joinsFirst
  rw [← sameLabels] at apart ⊢
  -- what the first part has bound stands in front of the labels of the second part
  obtain ⟨final, ranSecond, joinsSecond⟩ := @run_framed later whole others reached.labels placed.trace
    (.start placed) { reached with pc := placed.origin.toNat } last _ followers finishedSecond agreeSecond
    ownSecond apart rfl (List.append_nil _).symm (Text.lines (leading first placed.origin)).length
    config.trace
  refine ⟨final, ?_, joinsSecond⟩
  rw [walk, Line.ofSource_leading_append]
  apply run_append (run_newline ranFirst)
  exact run_cons_eq_ok_iff.mpr ⟨none, _, _, step_originLine rfl, ranSecond, rfl⟩

theorem Assembly.bytes_eq_nil_iff {source : Text} {assembly : Assembly}
    (assembled : (assemble config source).outcome = .ok assembly) :
    assembly.bytes = [] ↔ assembly.entries = [] := by
  obtain ⟨_, _, _, passes⟩ := passes_of_assemble assembled
  rw [passes.bytes]
  refine ⟨fun empty => List.eq_nil_iff_forall_not_mem.mpr fun entry member => ?_, fun none => ?_⟩
  · have size := (Pass.placed_of_mem_entries passes.final member).1.1
    rw [List.flatMap_eq_nil_iff.mp empty entry member] at size
    contradiction
  · rw [none]
    rfl

variable {a b : Assembly}

/-- Independent programs compose. A source that assembles, followed by an origin directive and a source
that assembles from that origin, assembles to the bytes, the labels and the entries of the one and then
of the other, if they have no label in common. -/
theorem assemblies_compose (assembledFirst : (assemble config first).outcome = .ok a)
    (assembledSecond : (assemble placed second).outcome = .ok b)
    (apart : ∀ name ∈ a.labels.names, name ∉ b.labels.names) :
    ∃ whole, (assemble config (leading first placed.origin ++ second)).outcome = .ok whole ∧
      whole.bytes = a.bytes ++ b.bytes ∧
      whole.labels.entries = a.labels.entries ++ b.labels.entries ∧
      whole.entries = a.entries ++
        b.entries.map (Entry.renumber (Text.lines (leading first placed.origin)).length) ∧
      whole.origin = if a.bytes ≠ [] then a.origin else if b.bytes ≠ [] then b.origin else config.origin := by
  obtain ⟨_, _, _, passes⟩ := passes_of_assemble assembledFirst
  obtain ⟨_, _, _, passesToo⟩ := passes_of_assemble assembledSecond
  have ownFirst := fun line (member : line ∈ Line.ofSource first) => mentions_of_assemble assembledFirst member
  have ownSecond := fun line (member : line ∈ Line.ofSource second) =>
    mentions_of_assemble assembledSecond member
  have apartToo : ∀ name ∈ b.labels.names, name ∉ a.labels.names := fun name mine other =>
    apart name other mine
  obtain ⟨found, surveyed, joined⟩ := @Pass.walk_leading_append config placed first second .survey .survey
    .survey _ _ _ _ _ _ passes.survey passesToo.survey ownFirst ownSecond trivial trivial
    (passes.foundLabels.symm ▸ apartToo)
  rw [passes.foundLabels, passesToo.foundLabels] at joined
  obtain ⟨last, settled, joinedToo⟩ := @Pass.walk_leading_append config placed first second _ _
    (.final found.labels) _ _ _ _ _ _ passes.final passesToo.final ownFirst ownSecond
    (fun name bound => joined.get?_left bound) (fun name bound => joined.get?_right (apartToo name bound))
    (passes.lastLabels.symm ▸ apartToo)
  rw [passes.lastLabels, passesToo.lastLabels] at joinedToo
  refine ⟨_, assemble_eq_ok_iff.mpr ⟨_, found, _, last, surveyed, settled, rfl⟩, ?_, joinedToo, rfl, ?_⟩
  · rw [passes.bytes, passesToo.bytes]
    simp [Assembly.ofEntries, List.flatMap_map, Entry.renumber]
  · simp only [ne_eq, Assembly.bytes_eq_nil_iff assembledFirst, Assembly.bytes_eq_nil_iff assembledSecond]
    rw [passes.origin, passesToo.origin]
    cases a.entries <;> cases b.entries <;> simp [Assembly.ofEntries, Entry.renumber]

/-- Counts down, and binds a label that it refers to before. -/
def countingDown : Text :=
  "loop: DEX\nBNE loop\nJMP done ; leave\ndone: RTS".toList

def countingDownAssembly : Assembly where
  origin := 0x0200
  bytes := [0xCA, 0xD0, 0xFD, 0x4C, 0x06, 0x02, 0x60]
  labels := ⟨[("loop".toList, 0x0200), ("done".toList, 0x0206)], by decide⟩
  entries := [
    ⟨1, 0x0200, some "loop".toList, "DEX".toList, [0xCA]⟩,
    ⟨2, 0x0201, none, "BNE loop".toList, [0xD0, 0xFD]⟩,
    ⟨3, 0x0203, none, "JMP done".toList, [0x4C, 0x06, 0x02]⟩,
    ⟨4, 0x0206, some "done".toList, "RTS".toList, [0x60]⟩]

theorem assemble_countingDown :
    (assemble { origin := 0x0200, trace := false } countingDown).outcome = .ok countingDownAssembly := by
  decide +kernel

theorem assemblies_compose_drifting :
    (assemble .default drifting).outcome = .ok driftingAssembly ∧
    (assemble { origin := 0x0200, trace := false } countingDown).outcome = .ok countingDownAssembly ∧
    (∀ name ∈ driftingAssembly.labels.names, name ∉ countingDownAssembly.labels.names) ∧
    leading drifting 0x0200 = drifting ++ "\n* = $0200\n".toList ∧
    ∃ whole, (assemble .default (drifting ++ "\n* = $0200\n".toList ++ countingDown)).outcome = .ok whole ∧
      whole.bytes = driftingAssembly.bytes ++ countingDownAssembly.bytes ∧
      whole.entries = driftingAssembly.entries ++ countingDownAssembly.entries.map (Entry.renumber 12) ∧
      whole.origin = 0x80 := by
  have apart : ∀ name ∈ driftingAssembly.labels.names, name ∉ countingDownAssembly.labels.names := by
    decide
  obtain ⟨whole, assembled, bytes, _, entries, origin⟩ :=
    assemblies_compose assemble_drifting assemble_countingDown apart
  exact ⟨assemble_drifting, assemble_countingDown, apart, by decide +kernel, whole, assembled, bytes, entries,
    origin⟩

end Asm65
