import Asm65.Proofs.Agreement

namespace Asm65

/-- A line that addresses are counted from, and the address that it sets. -/
structure Anchor where
  line : Nat
  address : Nat

def Line.anchor? (line : Line) : Option Anchor :=
  match line.statement? with
  | some (.origin value) => (literalValue? value).map fun address => { line := line.number, address }
  | _ => none

/-- The last origin directive before line `number`, or `start` if there is none. -/
def Anchor.before (start : Anchor) (lines : List Line) (number : Nat) : Anchor :=
  ((lines.filter (·.number < number)).filterMap Line.anchor?).getLast?.getD start

namespace Entry

def sizeAfter (line : Nat) (entries : List Entry) : Nat :=
  ((entries.filter (line < ·.line)).flatMap bytes).length

def cells (entry : Entry) : List (UInt8 × Nat) :=
  entry.bytes.zipIdx entry.address.toNat

end Entry

/-- The address of line `number`: that of the anchor before it, and the bytes between the two. -/
def Anchor.count (start : Anchor) (lines : List Line) (entries : List Entry) (number : Nat) : Nat :=
  (start.before lines number).address +
    Entry.sizeAfter (start.before lines number).line (entries.filter (·.line < number))

def Assembly.addressOfLine (config : Config) (source : Text) (assembly : Assembly) (number : Nat) :
    Nat :=
  Anchor.count { line := 0, address := config.origin.toNat } (Line.ofSource source) assembly.entries
    number

variable {pass : Pass} {trace : Bool} {progress next last : Progress} {line : Line} {number : Nat}
  {lines rest : List Line} {entries earlier later : List Entry} {entry : Option Entry} {start : Anchor}
  {statement : Option Statement} {visit : Visit} {config : Config} {source : Text}
  {assembly : Assembly}

theorem Instruction.encode_length_bounds {body : Instruction} {view : LabelView} {here : UInt16}
    {bytes : List UInt8} (encoded : body.encode view here = .ok bytes) :
    1 ≤ bytes.length ∧ bytes.length ≤ 3 := by
  obtain ⟨value, length, _⟩ := Instruction.encode_length encoded
  rw [length]
  exact body.size_bounds value

namespace Entry

theorem sizeAfter_append (line : Nat) :
    sizeAfter line (earlier ++ later) = sizeAfter line earlier + sizeAfter line later := by
  simp [sizeAfter]

theorem sizeAfter_eq_zero (past : ∀ entry ∈ entries, entry.line ≤ number) :
    sizeAfter number entries = 0 := by
  have none : entries.filter (number < ·.line) = [] := by
    refine List.filter_eq_nil_iff.mpr fun entry member => ?_
    have := past entry member
    simp only [decide_eq_true_eq]
    omega
  simp [sizeAfter, none]

/-- The bytes of entries fill memory from `pc` on, if the first entry does and the others follow. -/
theorem cells_cons {made : Entry} {pc : Nat} (placed : made.address.toNat = pc)
    (follow : entries.flatMap cells = (entries.flatMap bytes).zipIdx (pc + made.bytes.length)) :
    (made :: entries).flatMap cells = ((made :: entries).flatMap bytes).zipIdx pc := by
  rw [List.flatMap_cons, List.flatMap_cons, List.zipIdx_append, follow, cells, placed,
    Nat.add_comm pc]

end Entry

theorem Anchor.before_eq_start (ahead : ∀ line ∈ lines, number ≤ line.number) :
    start.before lines number = start := by
  have none : lines.filter (·.number < number) = [] := by
    refine List.filter_eq_nil_iff.mpr fun line member => ?_
    have := ahead line member
    simp only [decide_eq_true_eq]
    omega
  simp [before, none]

theorem Anchor.before_cons (past : line.number < number) :
    start.before (line :: rest) number = (line.anchor?.getD start).before rest number := by
  rw [before, List.filter_cons_of_pos (by simpa using past)]
  cases set : line.anchor? with
  | none => simp [before, set]
  | some anchor => simp [before, set, List.getLast?_cons]

theorem Line.anchor?_line {anchor : Anchor} (set : line.anchor? = some anchor) :
    anchor.line = line.number := by
  unfold anchor? at set
  split at set
  next =>
      obtain ⟨_, _, rfl⟩ := Option.map_eq_some_iff.mp set
      rfl
  next => contradiction

namespace Pass

theorem Advances.entry_line {made : Entry}
    (advances : pass.Advances number progress statement (some made) next) : made.line = number := by
  cases advances
  rfl

/-- One line counts on: an origin directive starts anew, an instruction adds its bytes. -/
theorem Advances.counts (read : line.statement? = statement)
    (advances : pass.Advances line.number progress statement entry next)
    (ahead : start.line < line.number) (past : ∀ entry ∈ earlier, entry.line < line.number)
    (counted : progress.pc = start.address + Entry.sizeAfter start.line earlier) :
    next.pc = (line.anchor?.getD start).address +
      Entry.sizeAfter (line.anchor?.getD start).line (earlier ++ entry.toList) := by
  cases advances with
  | blank | label => simpa [Line.anchor?, read] using counted
  | @origin value address valued =>
      have means := (valueOf_complete_eq_ok_iff.mp valued).1
      have literal : literalValue? value = some address.toNat := by
        unfold LabelTable.meaning? at means
        split at means
        next found => rw [found, means]
        next => simp at means
      have none : Entry.sizeAfter line.number earlier = 0 :=
        Entry.sizeAfter_eq_zero fun entry member => Nat.le_of_lt (past entry member)
      simp [Line.anchor?, read, literal, none]
  | instruction placed binds encoded room =>
      simp only [Line.anchor?, read, Option.getD_none, Option.toList_some, Entry.sizeAfter_append,
        counted, Nat.add_assoc]
      simp [Entry.sizeAfter, ahead]

theorem run_pc_le (start : progress.pc ≤ 0x10000)
    (finished : (pass.run trace lines progress).outcome = .ok (entries, last)) :
    last.pc ≤ 0x10000 := by
  induction lines generalizing progress entries with
  | nil =>
      obtain ⟨_, rfl⟩ := run_nil_eq_ok_iff.mp finished
      exact start
  | cons line rest ih =>
      obtain ⟨_, _, _, stepped, remaining, _⟩ := run_cons_eq_ok_iff.mp finished
      obtain ⟨_, _, advances⟩ := step_eq_ok_iff.mp stepped
      exact ih (advances.pc_le start) remaining

theorem visit_of_mem_entries {made : Entry}
    (finished : (pass.run trace lines progress).outcome = .ok (entries, last))
    (member : made ∈ entries) :
    ∃ visit ∈ pass.trail lines progress, ∃ statement next,
      Statement.parse visit.line.text = .ok statement ∧
        pass.Advances visit.line.number visit.progress statement (some made) next := by
  induction lines generalizing progress entries with
  | nil =>
      obtain ⟨rfl, _⟩ := run_nil_eq_ok_iff.mp finished
      cases member
  | cons line rest ih =>
      obtain ⟨entry, next, tail, stepped, remaining, rfl⟩ := run_cons_eq_ok_iff.mp finished
      rw [trail_cons_of_ok stepped]
      rcases List.mem_append.mp member with first | later
      · obtain rfl := Option.mem_toList.mp first
        obtain ⟨statement, read, advances⟩ := step_eq_ok_iff.mp stepped
        exact ⟨_, List.mem_cons_self, statement, next, read, advances⟩
      · obtain ⟨visit, reached, taken⟩ := ih remaining later
        exact ⟨visit, List.mem_cons_of_mem _ reached, taken⟩

theorem line_of_mem_entries {made : Entry}
    (finished : (pass.run trace lines progress).outcome = .ok (entries, last))
    (member : made ∈ entries) : ∃ line ∈ lines, made.line = line.number := by
  obtain ⟨visit, reached, _, _, _, advances⟩ := visit_of_mem_entries finished member
  exact ⟨visit.line, line_of_mem_trail reached, advances.entry_line⟩

theorem run_increasing (increasing : lines.Pairwise (·.number < ·.number))
    (finished : (pass.run trace lines progress).outcome = .ok (entries, last)) :
    entries.Pairwise (·.line < ·.line) := by
  induction lines generalizing progress entries with
  | nil =>
      obtain ⟨rfl, _⟩ := run_nil_eq_ok_iff.mp finished
      exact .nil
  | cons line rest ih =>
      obtain ⟨entry, next, tail, stepped, remaining, rfl⟩ := run_cons_eq_ok_iff.mp finished
      obtain ⟨_, _, advances⟩ := step_eq_ok_iff.mp stepped
      obtain ⟨ahead, increasing⟩ := List.pairwise_cons.mp increasing
      cases entry with
      | none => exact ih increasing remaining
      | some made =>
          refine List.pairwise_cons.mpr ⟨fun other member => ?_, ih increasing remaining⟩
          obtain ⟨follows, among, same⟩ := line_of_mem_entries remaining member
          rw [advances.entry_line, same]
          exact ahead follows among

/-- A pass reaches every line at the address counted from the last origin directive. The entries made
before the run count as well. -/
theorem run_counts (increasing : lines.Pairwise (·.number < ·.number))
    (finished : (pass.run trace lines progress).outcome = .ok (entries, last))
    (ahead : ∀ line ∈ lines, start.line < line.number)
    (past : ∀ line ∈ lines, ∀ entry ∈ earlier, entry.line < line.number)
    (counted : progress.pc = start.address + Entry.sizeAfter start.line earlier)
    (reached : visit ∈ pass.trail lines progress) :
    visit.progress.pc = start.count lines (earlier ++ entries) visit.line.number := by
  induction lines generalizing progress entries earlier start with
  | nil => simp [trail] at reached
  | cons line rest ih =>
      have later : ∀ entry ∈ entries, line.number ≤ entry.line := by
        intro entry member
        obtain ⟨other, among, same⟩ := line_of_mem_entries finished member
        rcases List.mem_cons.mp among with rfl | among
        · omega
        · have := (List.pairwise_cons.mp increasing).1 other among
          omega
      obtain ⟨entry, next, tail, stepped, remaining, rfl⟩ := run_cons_eq_ok_iff.mp finished
      obtain ⟨statement, read, advances⟩ := step_eq_ok_iff.mp stepped
      obtain ⟨below, increasing⟩ := List.pairwise_cons.mp increasing
      rw [trail_cons_of_ok stepped] at reached
      rcases List.mem_cons.mp reached with rfl | reached
      · -- nothing in the source lies between the start and its first line
        have none : start.before (line :: rest) line.number = start := by
          refine Anchor.before_eq_start fun other among => ?_
          rcases List.mem_cons.mp among with rfl | among
          · omega
          · exact Nat.le_of_lt (below other among)
        have old : earlier.filter (·.line < line.number) = earlier := by
          refine List.filter_eq_self.mpr fun entry member => ?_
          simpa using past line List.mem_cons_self entry member
        have new : (entry.toList ++ tail).filter (·.line < line.number) = [] := by
          refine List.filter_eq_nil_iff.mpr fun entry member => ?_
          simpa using later entry member
        rw [Anchor.count, none, List.filter_append, old, new, List.append_nil, counted]
      · -- the first line becomes part of what lies behind: a new start, or one more entry
        have first : ∀ other ∈ rest, ∀ made ∈ entry.toList, made.line < other.number := by
          intro other among made member
          obtain rfl := Option.mem_toList.mp member
          rw [advances.entry_line]
          exact below other among
        have anchored : ∀ other ∈ rest, (line.anchor?.getD start).line < other.number := by
          intro other among
          cases set : line.anchor? with
          | none => exact ahead other (List.mem_cons_of_mem _ among)
          | some anchor => exact Line.anchor?_line set ▸ below other among
        have counts := advances.counts (Line.statement?_of_parse read) (ahead line List.mem_cons_self)
          (past line List.mem_cons_self) counted
        have rest := ih increasing remaining anchored (fun other among made member => by
          rcases List.mem_append.mp member with old | new
          · exact past other (List.mem_cons_of_mem _ among) made old
          · exact first other among made new) counts reached
        have follows := below _ (line_of_mem_trail reached)
        rw [rest, Anchor.count, Anchor.count, Anchor.before_cons follows, List.append_assoc]

theorem run_cells_of_straight (straight : ∀ line ∈ lines, line.isOrigin = false)
    (finished : (pass.run trace lines progress).outcome = .ok (entries, last)) :
    entries.flatMap Entry.cells = (entries.flatMap Entry.bytes).zipIdx progress.pc := by
  induction lines generalizing progress entries with
  | nil =>
      obtain ⟨rfl, _⟩ := run_nil_eq_ok_iff.mp finished
      rfl
  | cons line rest ih =>
      obtain ⟨entry, next, tail, stepped, remaining, rfl⟩ := run_cons_eq_ok_iff.mp finished
      obtain ⟨statement, read, advances⟩ := step_eq_ok_iff.mp stepped
      obtain ⟨moves, straight⟩ := List.forall_mem_cons.mp straight
      have tail := ih straight remaining
      cases advances with
      | blank | label => exact tail
      | origin => simp [Line.isOrigin, Line.statement?_of_parse read, Statement.isOrigin] at moves
      | instruction placed binds encoded room =>
          exact Entry.cells_cons placed tail

/-- After the first entry the bytes follow each other, up to the next origin directive. -/
theorem run_cells (increasing : lines.Pairwise (·.number < ·.number))
    (finished : (pass.run trace lines progress).outcome = .ok (entries, last)) {first : Entry}
    (leads : entries.head? = some first)
    (straight : ∀ line ∈ lines, first.line < line.number → line.isOrigin = false) :
    entries.flatMap Entry.cells = (entries.flatMap Entry.bytes).zipIdx first.address.toNat := by
  induction lines generalizing progress entries with
  | nil =>
      obtain ⟨rfl, _⟩ := run_nil_eq_ok_iff.mp finished
      cases leads
  | cons line rest ih =>
      obtain ⟨entry, next, tail, stepped, remaining, rfl⟩ := run_cons_eq_ok_iff.mp finished
      obtain ⟨below, increasing⟩ := List.pairwise_cons.mp increasing
      obtain ⟨_, straight⟩ := List.forall_mem_cons.mp straight
      obtain ⟨statement, read, advances⟩ := step_eq_ok_iff.mp stepped
      cases advances with
      | blank | origin | label => exact ih increasing remaining leads straight
      | instruction placed binds encoded room =>
          cases leads
          have tail := run_cells_of_straight (fun other among => straight other among (below other among))
            remaining
          exact Entry.cells_cons rfl (placed ▸ tail)

end Pass

structure Assembly.LaidOut (config : Config) (source : Text) (assembly : Assembly) : Prop where
  bytes : assembly.bytes = assembly.entries.flatMap Entry.bytes
  size : ∀ entry ∈ assembly.entries, 1 ≤ entry.bytes.length ∧ entry.bytes.length ≤ 3
  inside : ∀ entry ∈ assembly.entries, ∀ cell ∈ entry.cells, cell.2 ≤ 0xFFFF
  counted : ∀ entry ∈ assembly.entries,
    entry.address.toNat = assembly.addressOfLine config source entry.line
  increasing : assembly.entries.Pairwise (·.line < ·.line)
  origin : assembly.origin = (assembly.entries.head?.map Entry.address).getD config.origin
  labels : ∀ name address, assembly.labels.get? name = some address → address.toNat ≤ 0xFFFF ∧
    ∃ line ∈ Line.ofSource source, line.label? = some name ∧
      address.toNat = assembly.addressOfLine config source line.number
  /-- Where no origin directive follows the first entry, the bytes fill memory without a gap. -/
  contiguous : ∀ first, assembly.entries.head? = some first →
    (∀ line ∈ Line.ofSource source, first.line < line.number → line.isOrigin = false) →
    assembly.entries.flatMap Entry.cells = assembly.bytes.zipIdx assembly.origin.toNat

theorem Pass.visits_counted
    (finished : (pass.walk config source).outcome = .ok (entries, last))
    (reached : visit ∈ pass.visits config source) :
    visit.progress.pc = Anchor.count { line := 0, address := config.origin.toNat }
      (Line.ofSource source) entries visit.line.number := by
  have ahead : ∀ line ∈ Line.ofSource source, 0 < line.number := by
    intro line member
    obtain ⟨index, found⟩ := List.mem_iff_getElem?.mp member
    rw [Line.ofSource_number found]
    omega
  rw [← List.nil_append entries]
  exact run_counts Line.ofSource_increasing finished ahead (fun _ _ _ member => by cases member) rfl
    reached

/-- An entry has all its bytes in memory, at the address counted for its line. -/
theorem Pass.placed_of_mem_entries {made : Entry}
    (finished : (pass.walk config source).outcome = .ok (entries, last)) (member : made ∈ entries) :
    (1 ≤ made.bytes.length ∧ made.bytes.length ≤ 3) ∧
      made.address.toNat + made.bytes.length ≤ 0x10000 ∧
      made.address.toNat = Anchor.count { line := 0, address := config.origin.toNat }
        (Line.ofSource source) entries made.line := by
  obtain ⟨visit, reached, _, _, _, advances⟩ := visit_of_mem_entries finished member
  rw [advances.entry_line, ← visits_counted finished reached]
  cases advances with
  | instruction placed binds encoded room =>
      exact ⟨Instruction.encode_length_bounds encoded, placed ▸ room, placed⟩

/-- Every pass stays in memory, or one past its top when it is full. An assembly is laid out line by
line, counting from the last origin directive. -/
theorem assembly_laidOut (config : Config) (source : Text) :
    (∀ pass : Pass, (∀ visit ∈ pass.visits config source, visit.progress.pc ≤ 0x10000) ∧
      ∀ entries last, (pass.walk config source).outcome = .ok (entries, last) → last.pc ≤ 0x10000) ∧
    ∀ assembly, (assemble config source).outcome = .ok assembly → assembly.LaidOut config source := by
  have start : (Progress.start config).pc ≤ 0x10000 := Nat.le_of_lt config.origin.toNat_lt
  refine ⟨fun pass => ⟨fun visit => Pass.visits_pc_le, fun entries last => Pass.run_pc_le start⟩,
    fun assembly assembled => ?_⟩
  obtain ⟨_, _, _, passes⟩ := passes_of_assemble assembled
  have placed := fun entry (member : entry ∈ assembly.entries) =>
    Pass.placed_of_mem_entries passes.final member
  refine ⟨passes.bytes, fun entry member => (placed entry member).1,
    fun entry member cell among => ?_, fun entry member => (placed entry member).2.2,
    Pass.run_increasing Line.ofSource_increasing passes.final, passes.origin,
    fun name address bound => ?_, fun first leads straight => ?_⟩
  · obtain ⟨_, within, _⟩ := placed entry member
    have bounds := List.mem_zipIdx among
    omega
  · obtain ⟨visit, reached, named, placedAt⟩ := Pass.visit_of_bound passes.final (passes.lastLabels ▸ bound)
    exact ⟨Nat.le_of_lt_succ address.toNat_lt, visit.line, Pass.line_of_mem_trail reached, named,
      placedAt.trans (Pass.visits_counted passes.final reached)⟩
  · have origin : assembly.origin = first.address := by
      simp [passes.origin, leads]
    rw [origin, passes.bytes]
    exact Pass.run_cells Line.ofSource_increasing passes.final leads straight

/-- Fills memory up to its last byte. -/
def brimful : Text :=
  "* = $10\n* = $FFFA\nstart: JMP start\nLDA #1\nend:\nRTS".toList

def brimfulAssembly : Assembly where
  origin := 0xFFFA
  bytes := [0x4C, 0xFA, 0xFF, 0xA9, 0x01, 0x60]
  labels := ⟨[("start".toList, 0xFFFA), ("end".toList, 0xFFFF)], by decide⟩
  entries := [
    ⟨3, 0xFFFA, some "start".toList, "JMP start".toList, [0x4C, 0xFA, 0xFF]⟩,
    ⟨4, 0xFFFD, none, "LDA #1".toList, [0xA9, 0x01]⟩,
    ⟨6, 0xFFFF, none, "RTS".toList, [0x60]⟩]

theorem assembly_laidOut_brimful :
    (assemble .default brimful).outcome = .ok brimfulAssembly ∧
      brimfulAssembly.LaidOut .default brimful ∧
      brimfulAssembly.entries.flatMap Entry.cells = brimfulAssembly.bytes.zipIdx 0xFFFA ∧
      driftingAssembly.LaidOut .default drifting := by
  have assembled : (assemble .default brimful).outcome = .ok brimfulAssembly := by decide +kernel
  have laidOut := (assembly_laidOut .default brimful).2 _ assembled
  refine ⟨assembled, laidOut, laidOut.contiguous _ rfl (by decide +kernel),
    (assembly_laidOut .default drifting).2 _ assemble_drifting⟩

end Asm65
