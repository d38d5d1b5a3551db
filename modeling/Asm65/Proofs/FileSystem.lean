import Asm65.Command.FileSystem
import Asm65.Proofs.Outcome

namespace Asm65.Command

/-! What writing does to a file system. Where a path leads does not depend on the files and streams, only on
the directories. Bytes that are written one after another replace each other in a file and follow each other
in a stream. -/

open Outcome

namespace FileSystem

section Places

variable {system other stored : FileSystem} {place spot : Place} {node : Node}

theorem lookup_filter_of_ne (nodes : List (Place × Node)) (apart : spot ≠ place) :
    (nodes.filter (·.1 != place)).lookup spot = nodes.lookup spot := by
  induction nodes with
  | nil => rfl
  | cons row rest ih =>
      by_cases here : row.1 = place
      · have passed : (spot == row.1) = false := by simp [here, apart]
        rw [List.filter_cons_of_neg (by simp [here]), ih, List.lookup_cons, passed]
      · rw [List.filter_cons_of_pos (by simp [here]), List.lookup_cons, List.lookup_cons, ih]

theorem node?_put_of_ne (apart : spot ≠ place) : (system.put place node).node? spot = system.node? spot := by
  have passed : (spot == place) = false := by simp [apart]
  simp only [node?, put, List.lookup_cons, passed, lookup_filter_of_ne system.nodes apart]

/-- What is put at a place stands there, unless the place is on the way to the working directory. -/
theorem node?_put : (system.put place node).node? place =
    if place.isPrefixOf system.workingDirectory then some .directory else some node := by
  simp only [node?, put, List.lookup_cons_self]

theorem node?_put_of_free (free : system.node? place ≠ some .directory) :
    (system.put place node).node? place = some node := by
  rw [node?_put]
  unfold node? at free
  split at free
  next => exact absurd rfl free
  next beside => rw [if_neg beside]

/-- All places but the given ones are as before. -/
def KeepsBut (places : List Place) (before after : FileSystem) : Prop :=
  ∀ place, place ∉ places → after.node? place = before.node? place

def IsStream (system : FileSystem) (place : Place) : Prop :=
  ∃ taken, system.node? place = some (.stream taken)

theorem IsStream.node?_eq (streams : system.IsStream place) :
    system.node? place = some (.stream (system.taken place)) := by
  obtain ⟨taken, stands⟩ := streams
  rw [FileSystem.taken, stands]

theorem not_isStream_of_content? {content : List UInt8} (holds : system.content? place = some content) :
    ¬ system.IsStream place := by
  rintro ⟨taken, stands⟩
  simp [content?, stands, Node.content?] at holds

end Places

section Ways

variable {reasons : StorageError → StorageError → Prop} {system other : FileSystem} {place here : Place}
  {path name : Text}

/-- Systems in which every path leads to the same place. Where it leads nowhere, the reasons may differ. -/
structure SameWays (reasons : StorageError → StorageError → Prop) (system other : FileSystem) : Prop where
  reflexive : ∀ reason, reasons reason reason
  links : other.links = system.links
  workingDirectory : other.workingDirectory = system.workingDirectory
  limits : ∀ here name, other.tooLong here name = system.tooLong here name
  enter : ∀ place, Alike reasons Eq (system.enter place) (other.enter place)

namespace SameWays

theorem step_eq (same : SameWays reasons system other) : other.step here name = system.step here name := by
  simp only [step, same.limits, resolve, same.links]

theorem walk (same : SameWays reasons system other) (names : List Text) :
    Alike reasons Eq (system.walk here names) (other.walk here names) := by
  induction names generalizing here with
  | nil => exact .ok rfl
  | cons name rest ih =>
      rw [FileSystem.walk, FileSystem.walk, same.step_eq]
      refine (Alike.refl same.reflexive Eq.refl _).bind fun place _ equal => ?_
      cases equal
      exact (same.enter place).bind fun _ _ _ => ih

theorem locate (same : SameWays reasons system other) :
    Alike reasons Eq (system.locate path) (other.locate path) := by
  have starts : other.start path = system.start path := by
    simp only [start, same.workingDirectory]
  unfold FileSystem.locate
  split
  next => exact .error (same.reflexive _)
  next =>
      split
      next => exact .error (same.reflexive _)
      next =>
          rw [starts]
          refine (same.walk _).bind fun directory _ equal => ?_
          cases equal
          rw [same.step_eq]
          exact .refl same.reflexive Eq.refl _

theorem locateNew (same : SameWays reasons system other) :
    Alike reasons Eq (system.locateNew path) (other.locateNew path) := by
  have starts : other.start path = system.start path := by
    simp only [start, same.workingDirectory]
  unfold FileSystem.locateNew
  split
  next => exact .error (same.reflexive _)
  next =>
      split
      next =>
          rw [starts]
          exact (same.walk _).bind fun _ _ _ => .error (same.reflexive _)
      next => exact same.locate

theorem locateNew_eq_ok_iff (same : SameWays reasons system other) :
    other.locateNew path = .ok place ↔ system.locateNew path = .ok place := by
  have alike : Alike reasons Eq (system.locateNew path) (other.locateNew path) := same.locateNew
  generalize system.locateNew path = located at alike
  generalize other.locateNew path = again at alike
  cases alike with
  | ok equal => rw [equal]
  | error => simp

end SameWays

end Ways

end FileSystem

/-- What a node becomes when bytes are written to it. -/
inductive Node.Takes (content : List UInt8) : Option Node → Node → Prop where
  | created : Takes content none (.file content)
  | file (held : List UInt8) : Takes content (some (.file held)) (.file content)
  | guarded (readable : Bool) (held : List UInt8) :
      Takes content (some (.guarded readable true held)) (.guarded readable true content)
  | stream (taken : List UInt8) : Takes content (some (.stream taken)) (.stream (taken ++ content))
  | full (empty : content = []) : Takes content (some .full) .full

/-- The same node, whatever it has taken if it is a stream. -/
inductive Node.Like : Option Node → Option Node → Prop where
  | same (node : Option Node) : Like node node
  | stream (taken again : List UInt8) : Like (some (.stream taken)) (some (.stream again))

namespace FileSystem

section Writing

variable {system other stored after : FileSystem} {place spot : Place} {node again : Node} {path : Text}
  {content : List UInt8}

theorem takes_of_overwrite (written : system.overwrite place content = .ok node) :
    Node.Takes content (system.node? place) node := by
  unfold overwrite at written
  split at written
  next vacant =>
      split at written
      next => contradiction
      next =>
          cases written
          rw [vacant]
          exact .created
  next held stands =>
      cases written
      rw [stands]
      exact .file held
  next readable writable held stands =>
      split at written
      next allowed =>
          cases written
          rw [stands, allowed]
          exact .guarded readable held
      next => contradiction
  next => contradiction
  next => contradiction
  next taken stands =>
      cases written
      rw [stands]
      exact .stream taken
  next stands =>
      split at written
      next empty =>
          cases written
          rw [stands]
          exact .full empty
      next => contradiction
  next => contradiction

theorem write_eq_ok (written : system.write path content = .ok stored) :
    ∃ place node, system.locateNew path = .ok place ∧ Node.Takes content (system.node? place) node ∧
      stored = system.put place node := by
  obtain ⟨place, located, settled⟩ := bind_eq_ok_iff.mp written
  obtain ⟨node, overwritten, equal⟩ := bind_eq_ok_iff.mp settled
  cases equal
  exact ⟨place, node, located, takes_of_overwrite overwritten, rfl⟩

theorem free_of_takes (takes : Node.Takes content (system.node? place) node) :
    system.node? place ≠ some .directory := by
  intro stands
  rw [stands] at takes
  cases takes

/-- A write does not make a directory or take one away. -/
theorem sameWays_put (takes : Node.Takes content (system.node? place) node) :
    SameWays (fun _ _ => True) system (system.put place node) where
  reflexive _ := trivial
  links := rfl
  workingDirectory := rfl
  limits here name := by
    unfold tooLong
    by_cases same : here = place
    · rw [same, node?_put_of_free (free_of_takes takes)]
      generalize system.node? place = before at takes
      cases takes <;> rfl
    · rw [node?_put_of_ne same]
  enter spot := by
    unfold enter
    by_cases same : spot = place
    · rw [same, node?_put_of_free (free_of_takes takes)]
      generalize system.node? place = before at takes
      cases takes <;> exact .error trivial
    · rw [node?_put_of_ne same]
      exact .refl (fun _ => trivial) Eq.refl _

/-- The same system, but for what its streams have taken. -/
structure Like (system other : FileSystem) : Prop where
  links : other.links = system.links
  workingDirectory : other.workingDirectory = system.workingDirectory
  node : ∀ place, Node.Like (system.node? place) (other.node? place)

namespace Like

theorem sameWays (like : system.Like other) : SameWays Eq system other where
  reflexive _ := rfl
  links := like.links
  workingDirectory := like.workingDirectory
  limits here name := by
    unfold tooLong
    have nodes := like.node here
    generalize system.node? here = node at nodes
    generalize other.node? here = again at nodes
    cases nodes <;> rfl
  enter place := by
    unfold enter
    have nodes := like.node place
    generalize system.node? place = node at nodes
    generalize other.node? place = again at nodes
    cases nodes with
    | stream => exact .error rfl
    | same node => exact .refl Eq.refl Eq.refl _

theorem put (like : system.Like other) (nodes : Node.Like (some node) (some again)) :
    (system.put place node).Like (other.put place again) where
  links := like.links
  workingDirectory := like.workingDirectory
  node spot := by
    by_cases apart : spot = place
    · rw [apart, node?_put, node?_put, like.workingDirectory]
      split
      · exact .same _
      · exact nodes
    · rw [node?_put_of_ne apart, node?_put_of_ne apart]
      exact like.node spot

theorem overwrite (like : system.Like other) :
    Alike Eq (fun node again => Node.Like (some node) (some again)) (system.overwrite place content)
      (other.overwrite place content) := by
  unfold FileSystem.overwrite
  have nodes := like.node place
  generalize system.node? place = node at nodes
  generalize other.node? place = again at nodes
  cases nodes with
  | stream => exact .ok (.stream _ _)
  | same node =>
      cases node with
      | none =>
          have above := like.node place.dropLast
          generalize system.node? place.dropLast = parent at above
          generalize other.node? place.dropLast = parentToo at above
          cases above with
          | stream => exact .ok (.same _)
          | same parent => exact .refl Eq.refl (fun _ => .same _) _
      | some node => cases node <;> exact .refl Eq.refl (fun _ => .same _) _

/-- Systems that differ in their streams only are written to alike. -/
theorem write (like : system.Like other) :
    Alike Eq FileSystem.Like (system.write path content) (other.write path content) := by
  refine like.sameWays.locateNew.bind fun place _ equal => ?_
  cases equal
  exact like.overwrite.bind fun node again nodes => .ok (like.put nodes)

end Like

/-- What is written to one place, piece by piece. -/
def piecesAt (pieces : List (Place × List UInt8)) (place : Place) : List (List UInt8) :=
  (pieces.filter (·.1 = place)).map (·.2)

@[simp] theorem piecesAt_nil : piecesAt [] place = [] := rfl

theorem piecesAt_cons_self (pieces : List (Place × List UInt8)) :
    piecesAt ((place, content) :: pieces) place = content :: piecesAt pieces place := by
  simp [piecesAt]

theorem piecesAt_cons_of_ne (pieces : List (Place × List UInt8)) (apart : spot ≠ place) :
    piecesAt ((place, content) :: pieces) spot = piecesAt pieces spot := by
  simp [piecesAt, apart.symm]

theorem piecesAt_append (pieces more : List (Place × List UInt8)) :
    piecesAt (pieces ++ more) place = piecesAt pieces place ++ piecesAt more place := by
  simp [piecesAt]

/-- What pieces come to that are written one after another: a stream has taken all of its own, a file holds
the last of its own, and a place without one is as it was. -/
structure Receives (pieces : List (Place × List UInt8)) (system after : FileSystem) : Prop where
  stream : ∀ place, system.IsStream place →
    after.node? place = some (.stream (system.taken place ++ (piecesAt pieces place).flatten))
  file : ∀ place content, ¬ system.IsStream place → (piecesAt pieces place).getLast? = some content →
    after.content? place = some content
  kept : ∀ place, piecesAt pieces place = [] → after.node? place = system.node? place

theorem receives_put (takes : Node.Takes content (system.node? place) node) :
    Receives [(place, content)] system (system.put place node) where
  stream spot streams := by
    by_cases same : spot = place
    · cases same
      rw [node?_put_of_free (free_of_takes takes)]
      rw [streams.node?_eq] at takes
      cases takes
      simp [piecesAt_cons_self]
    · simp [node?_put_of_ne same, piecesAt_cons_of_ne _ same, streams.node?_eq]
  file spot last files received := by
    by_cases same : spot = place
    · cases same
      rw [piecesAt_cons_self] at received
      cases received
      rw [content?, node?_put_of_free (free_of_takes takes)]
      generalize before : system.node? place = stands at takes
      cases takes with
      | created | file | guarded => rfl
      | stream taken => exact absurd ⟨taken, before⟩ files
      | full empty => rw [empty]; rfl
    · simp [piecesAt_cons_of_ne _ same] at received
  kept spot none := by
    have apart : spot ≠ place := by
      rintro rfl
      simp [piecesAt_cons_self] at none
    exact node?_put_of_ne apart

theorem receives_send (streams : system.IsStream place) :
    Receives [(place, content)] system (system.send place content) := by
  refine receives_put ?_
  rw [streams.node?_eq]
  exact .stream _

namespace Receives

variable {pieces more : List (Place × List UInt8)}

theorem isStream_iff (received : Receives pieces system after) :
    after.IsStream place ↔ system.IsStream place := by
  by_cases streams : system.IsStream place
  · exact iff_of_true ⟨_, received.stream place streams⟩ streams
  · refine iff_of_false ?_ streams
    cases last : (piecesAt pieces place).getLast? with
    | none => rwa [IsStream, received.kept place (List.getLast?_eq_none_iff.mp last)]
    | some content => exact not_isStream_of_content? (received.file place content streams last)

theorem taken_eq (received : Receives pieces system after) (streams : system.IsStream place) :
    after.taken place = system.taken place ++ (piecesAt pieces place).flatten := by
  rw [taken, received.stream place streams]

theorem append (first : Receives pieces system stored) (second : Receives more stored after) :
    Receives (pieces ++ more) system after where
  stream place streams := by
    rw [second.stream place (first.isStream_iff.mpr streams), first.taken_eq streams, piecesAt_append,
      List.flatten_append, List.append_assoc]
  file place content files received := by
    rw [piecesAt_append] at received
    cases last : (piecesAt more place).getLast? with
    | none =>
        have none := List.getLast?_eq_none_iff.mp last
        rw [none, List.append_nil] at received
        rw [content?, second.kept place none]
        exact first.file place content files received
    | some latest =>
        rw [List.getLast?_append, last, Option.some_or] at received
        cases received
        exact second.file place content (mt first.isStream_iff.mp files) last
  kept place none := by
    rw [piecesAt_append, List.append_eq_nil_iff] at none
    rw [second.kept place none.2, first.kept place none.1]

theorem send (received : Receives pieces system after) (streams : system.IsStream place) :
    Receives (pieces ++ [(place, content)]) system (after.send place content) :=
  received.append (receives_send (received.isStream_iff.mpr streams))

theorem keepsBut {places : List Place} (received : Receives pieces system after)
    (within : ∀ piece ∈ pieces, piece.1 ∈ places) : KeepsBut places system after := by
  intro place outside
  refine received.kept place ?_
  rw [piecesAt, List.map_eq_nil_iff, List.filter_eq_nil_iff]
  rintro piece member same
  exact outside (of_decide_eq_true same ▸ within piece member)

end Receives

theorem receives_write (written : system.write path content = .ok stored) :
    ∃ place, system.locateNew path = .ok place ∧ Receives [(place, content)] system stored ∧
      SameWays (fun _ _ => True) system stored := by
  obtain ⟨place, node, located, takes, rfl⟩ := write_eq_ok written
  exact ⟨place, located, receives_put takes, sameWays_put takes⟩

end Writing

end FileSystem

end Asm65.Command
