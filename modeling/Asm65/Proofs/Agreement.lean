import Mathlib.Control.Monad.Basic
import Asm65.Session
import Asm65.Proofs.Trail

namespace Asm65

variable {config : Config} {source : Text} {assembly : Assembly} {known : LabelTable}
  {progress next last : Progress} {trace : Bool} {lines : List Line} {entries : List Entry}

namespace Pass

/-- The final pass takes a line only at the address that its label is known to have. -/
theorem Advances.confirmed {number : Nat} {statement : Option Statement} {entry : Option Entry}
    {name : Text} {found : UInt16}
    (advances : (Pass.final known).Advances number progress statement entry next)
    (named : statement.bind Statement.label? = some name) (bound : known.get? name = some found) :
    found.toNat = progress.pc := by
  have agrees : ∀ {label here labels}, here.toNat = progress.pc → label = some name →
      ((Pass.final known).bindLabel? progress.labels label here).outcome = .ok labels →
      found.toNat = progress.pc := by
    intro label here labels placed same binds
    have confirmed := ((bindLabel?_eq_ok_iff.mp binds).2 name same).2
    rw [confirm_eq_ok_iff.mp confirmed known rfl found bound, placed]
  cases advances with
  | blank | origin => simp [Statement.label?] at named
  | label placed binds => exact agrees placed named binds
  | instruction placed binds => exact agrees placed named binds

/-- A final pass that was given the names it finds was also given their addresses. -/
theorem known_eq_labels
    (finished : ((Pass.final known).walk config source).outcome = .ok (entries, last))
    (names : known.names = last.labels.names) : known = last.labels := by
  refine LabelTable.eq_of_names names fun name first second bound found => ?_
  -- some line put the name where it was found, and was checked against the known address there
  obtain ⟨visit, reached, named, placed⟩ := visit_of_bound finished found
  obtain ⟨entry, after, stepped⟩ := step_of_mem_trail finished reached
  obtain ⟨statement, read, advances⟩ := step_eq_ok_iff.mp stepped
  rw [Line.label?, Line.statement?_of_parse read] at named
  exact UInt16.toNat_inj.mp ((advances.confirmed named bound).trans placed.symm)

end Pass

/-- How the passes of a successful assembly went: both found the labels that the assembly has, and a final
pass that knows these makes its entries, which have its bytes. -/
structure Passes (config : Config) (source : Text) (assembly : Assembly) (surveyed : List Entry)
    (found last : Progress) : Prop where
  survey : (Pass.survey.walk config source).outcome = .ok (surveyed, found)
  final : ((Pass.final assembly.labels).walk config source).outcome = .ok (assembly.entries, last)
  foundLabels : found.labels = assembly.labels
  lastLabels : last.labels = assembly.labels
  origin : assembly.origin = (assembly.entries.head?.map Entry.address).getD config.origin
  bytes : assembly.bytes = assembly.entries.flatMap Entry.bytes

theorem passes_of_assemble (assembled : (assemble config source).outcome = .ok assembly) :
    ∃ surveyed found last, Passes config source assembly surveyed found last := by
  obtain ⟨surveyed, found, entries, last, first, second, rfl⟩ := assemble_eq_ok_iff.mp assembled
  have names : found.labels.names = last.labels.names := by
    rw [Pass.walk_names first, Pass.walk_names second]
  have same : found.labels = last.labels := Pass.known_eq_labels second names
  exact ⟨surveyed, found, last, first, same ▸ second, same, rfl, rfl, rfl⟩

theorem Session.make_of_ok {session : Session}
    (assembled : (assemble session.config source).outcome = .ok assembly) :
    (session.make source).2 = { session with labels := assembly.labels } := by
  simp only [make, assembled]

/-- The labels of an assembly: found by both passes, kept by the session, and written in the source in this
order and once each. Each is at the address at which the final pass reached its line. -/
structure Agreement (session : Session) (source : Text) (assembly : Assembly) (surveyed : List Entry)
    (found last : Progress) : Prop extends Passes session.config source assembly surveyed found last where
  settled : ((Pass.final found.labels).walk session.config source).outcome = .ok (assembly.entries, last)
  kept : ((session.perform (.assembly source)).2.perform .labels).1 = .labels assembly.labels
  keptByImage : ((session.perform (.image source)).2.perform .labels).1 = .labels assembly.labels
  names : assembly.labels.names = (Line.ofSource source).filterMap Line.label?
  once : ((Line.ofSource source).filterMap Line.label?).Nodup
  places : assembly.labels.places =
    ((Pass.final found.labels).visits session.config source).filterMap Visit.binding?

/-- The passes of a successful assembly agree on its labels. These are a fixed point: a final pass that
knows them makes the same entries and bytes, and finds them again. -/
theorem passes_agree {session : Session}
    (assembled : (assemble session.config source).outcome = .ok assembly) :
    ∃ surveyed found last, Agreement session source assembly surveyed found last := by
  obtain ⟨surveyed, found, last, passes⟩ := passes_of_assemble assembled
  have names : assembly.labels.names = (Line.ofSource source).filterMap Line.label? := by
    rw [← passes.lastLabels, Pass.walk_names passes.final]
  have places : last.labels.places =
      ((Pass.final assembly.labels).visits session.config source).filterMap Visit.binding? :=
    Pass.run_places passes.final
  rw [passes.lastLabels, ← passes.foundLabels] at places
  refine ⟨surveyed, found, last, passes, passes.foundLabels ▸ passes.final, ?_, ?_, names,
    names ▸ assembly.labels.nodup, passes.foundLabels ▸ places⟩
  · simp [Session.perform, Session.make_of_ok assembled]
  · simp [Session.perform, Session.make_of_ok assembled]

/-- A program whose second line is longer in the final pass than in the survey; the origin after
it makes up for that. -/
def drifting : Text :=
  "* = $80\nstart: LDA data\nBNE start\n* = $C000\nLDX #$0A\nSTA start,X\nLDA (start), y\nASL a\nJMP end\nend:\ndata: RTS".toList

def driftingAssembly : Assembly where
  origin := 0x80
  bytes := [0xAD, 0x0B, 0xC0, 0xD0, 0xFB, 0xA2, 0x0A, 0x95, 0x80, 0xB1, 0x80, 0x00, 0x0A, 0x4C,
    0x0B, 0xC0, 0x60]
  labels := ⟨[("start".toList, 0x80), ("end".toList, 0xC00B), ("data".toList, 0xC00B)], by decide⟩
  entries := [
    ⟨2, 0x80, some "start".toList, "LDA data".toList, [0xAD, 0x0B, 0xC0]⟩,
    ⟨3, 0x83, none, "BNE start".toList, [0xD0, 0xFB]⟩,
    ⟨5, 0xC000, none, "LDX #$0A".toList, [0xA2, 0x0A]⟩,
    ⟨6, 0xC002, none, "STA start,X".toList, [0x95, 0x80]⟩,
    ⟨7, 0xC004, none, "LDA (start), y".toList, [0xB1, 0x80, 0x00]⟩,
    ⟨8, 0xC007, none, "ASL a".toList, [0x0A]⟩,
    ⟨9, 0xC008, none, "JMP end".toList, [0x4C, 0x0B, 0xC0]⟩,
    ⟨11, 0xC00B, some "data".toList, "RTS".toList, [0x60]⟩]

theorem assemble_drifting : (assemble .default drifting).outcome = .ok driftingAssembly := by
  decide +kernel

theorem passes_agree_drifting :
    (assemble (Session.start .default).config drifting).outcome = .ok driftingAssembly ∧
    ∃ surveyed found last, Agreement (.start .default) drifting driftingAssembly surveyed found last :=
  ⟨assemble_drifting, @passes_agree drifting driftingAssembly (.start .default) assemble_drifting⟩

end Asm65
