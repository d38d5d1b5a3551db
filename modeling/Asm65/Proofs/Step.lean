import Asm65.Assembly
import Asm65.Proofs.Encoding

namespace Asm65

/-! What a pass does on one line. `Pass.Advances` says how a line is taken and `Pass.Refuses` why
it is not. No later proof looks inside a step again. -/

open Outcome

theorem Instruction.fault_of_parse {text : Text} {fault : Fault} (unread : parse text = .error fault) :
    fault = .unreadableLine text := by
  unfold parse at unread
  repeat' split at unread
  all_goals first
    | contradiction
    | exact (Except.error.inj unread).symm

namespace Statement

def label? : Statement → Option Text
  | origin _ => none
  | label name => some name
  | instruction name _ => name

def isOrigin : Statement → Bool
  | origin _ => true
  | label _ | instruction .. => false

theorem fault_of_parse {line : Text} {fault : Fault} (unread : parse line = .error fault) :
    ∃ text, fault = .unreadableLine text := by
  unfold parse at unread
  split at unread
  next => contradiction
  next =>
      split at unread
      next => contradiction
      next =>
          split at unread
          next => contradiction
          next => exact ⟨_, Instruction.fault_of_parse (map_eq_error_iff.mp unread)⟩
          next => exact ⟨_, Instruction.fault_of_parse (map_eq_error_iff.mp unread)⟩

end Statement

namespace Line

/-- What a line says, if it can be read and says anything. -/
def statement? (line : Line) : Option Statement :=
  match Statement.parse line.text with
  | .ok statement => statement
  | .error _ => none

def label? (line : Line) : Option Text :=
  line.statement?.bind Statement.label?

def isOrigin (line : Line) : Bool :=
  line.statement?.any Statement.isOrigin

theorem statement?_of_parse {line : Line} {statement : Option Statement}
    (read : Statement.parse line.text = .ok statement) : line.statement? = statement := by
  simp [statement?, read]

theorem parse_of_statement? {line : Line} {statement : Statement}
    (stated : line.statement? = some statement) :
    Statement.parse line.text = .ok (some statement) := by
  unfold statement? at stated
  split at stated
  next read => rw [read, stated]
  next => contradiction

end Line

namespace Pass

variable {pass : Pass} {trace : Bool} {progress next last : Progress} {line : Line} {fault : Fault}
  {here : UInt16} {labels bound : LabelTable} {label : Option Text} {entry : Option Entry}

@[simp] theorem outcome_report (text : Text) (bytes : List UInt8) :
    (pass.report trace here text bytes).outcome = .ok () := by
  unfold report
  split <;> rfl

theorem confirm_eq_ok_iff {name : Text} :
    pass.confirm name here = .ok () ↔
      ∀ known, pass = .final known → ∀ found, known.get? name = some found → found = here := by
  cases pass with
  | survey => simp [confirm]
  | final known =>
      cases bound : known.get? name with
      | none => simp [confirm, bound]
      | some found => by_cases same : found = here <;> simp [confirm, bound, same]

theorem confirm_eq_error_iff {name : Text} :
    pass.confirm name here = .error fault ↔
      ∃ known found, pass = .final known ∧ known.get? name = some found ∧ found ≠ here ∧
        fault = .labelMoved name found here := by
  cases pass with
  | survey => simp [confirm]
  | final known =>
      cases bound : known.get? name with
      | none => simp [confirm, bound]
      | some found =>
          by_cases same : found = here
          · simp [confirm, bound, same]
          · simp [confirm, bound, same]
            exact eq_comm

/-- Binding adds the label, if there is one, at the end of the table. It has to be a new name,
and in the final pass one that has not moved. -/
theorem bindLabel?_eq_ok_iff :
    (pass.bindLabel? labels label here).outcome = .ok bound ↔
      bound.entries = labels.entries ++ (label.map (·, here)).toList ∧
        ∀ name, label = some name → name ∉ labels.names ∧ pass.confirm name here = .ok () := by
  cases label with
  | none =>
      simp only [bindLabel?, Logged.outcome_pure, Except.ok.injEq, Option.map_none, Option.toList_none,
        List.append_nil, reduceCtorEq, false_implies, implies_true, and_true]
      exact ⟨fun same => same ▸ rfl, fun same => LabelTable.eq_of_entries same.symm⟩
  | some name =>
      simp only [bindLabel?, bindLabel, Logged.outcome_bind, Logged.outcome_ofExcept,
        Logged.outcome_tell, Logged.outcome_pure, bind_eq_ok_iff, LabelTable.insert_eq_ok_iff,
        Except.ok.injEq, Option.map_some, Option.toList_some, Option.some.injEq, forall_eq']
      constructor
      · intro binds
        obtain ⟨table, ⟨free, entries⟩, ⟨⟩, confirmed, ⟨⟩, _, rfl⟩ := binds
        exact ⟨entries, free, confirmed⟩
      · intro binds
        obtain ⟨entries, free, confirmed⟩ := binds
        exact ⟨bound, ⟨free, entries⟩, (), confirmed, (), trivial, rfl⟩

theorem bindLabel?_eq_error_iff :
    (pass.bindLabel? labels label here).outcome = .error fault ↔
      ∃ name, label = some name ∧
        ((name ∈ labels.names ∧ fault = .duplicateLabel name) ∨
          (name ∉ labels.names ∧ pass.confirm name here = .error fault)) := by
  cases label with
  | none => simp [bindLabel?]
  | some name =>
      by_cases taken : name ∈ labels.names
      · have inserted : labels.insert name here = .error (.duplicateLabel name) :=
          LabelTable.insert_eq_error_iff.mpr ⟨taken, rfl⟩
        simp [bindLabel?, bindLabel, inserted, taken, Except.bind, eq_comm]
      · obtain ⟨table, inserted⟩ : ∃ table, labels.insert name here = .ok table := by
          cases inserted : labels.insert name here with
          | ok table => exact ⟨table, rfl⟩
          | error fault => exact absurd (LabelTable.insert_eq_error_iff.mp inserted).1 taken
        cases confirmed : pass.confirm name here <;>
          simp [bindLabel?, bindLabel, inserted, taken, confirmed, Except.bind, Except.map]

theorem bindLabel?_of_fresh
    (fresh : ∀ name, label = some name → name ∉ labels.names ∧ pass.confirm name here = .ok ()) :
    ∃ bound, (pass.bindLabel? labels label here).outcome = .ok bound ∧
      bound.entries = labels.entries ++ (label.map (·, here)).toList := by
  cases binds : (pass.bindLabel? labels label here).outcome with
  | ok bound => exact ⟨bound, rfl, (bindLabel?_eq_ok_iff.mp binds).1⟩
  | error fault =>
      obtain ⟨name, named, ⟨taken, _⟩ | ⟨_, unconfirmed⟩⟩ := bindLabel?_eq_error_iff.mp binds
      · exact absurd taken (fresh name named).1
      · simp [(fresh name named).2] at unconfirmed

/-- How a pass takes a statement: the entry it makes, if any, and the progress after it. -/
inductive Advances (pass : Pass) (number : Nat) (progress : Progress) :
    Option Statement → Option Entry → Progress → Prop where
  | blank : Advances pass number progress none none progress
  | origin {value : Text} {address : UInt16}
      (read : valueOf value .word (.complete .empty) 0 = .ok address) :
      Advances pass number progress (some (.origin value)) none
        { progress with pc := address.toNat }
  | label {name : Text} {here : UInt16} {labels : LabelTable}
      (placed : here.toNat = progress.pc)
      (binds : (pass.bindLabel? progress.labels (some name) here).outcome = .ok labels) :
      Advances pass number progress (some (.label name)) none { progress with labels }
  | instruction {label : Option Text} {body : Instruction} {here : UInt16} {labels : LabelTable}
      {bytes : List UInt8}
      (placed : here.toNat = progress.pc)
      (binds : (pass.bindLabel? progress.labels label here).outcome = .ok labels)
      (encoded : body.encode (pass.view labels) here = .ok bytes)
      (room : progress.pc + bytes.length ≤ 0x10000) :
      Advances pass number progress (some (.instruction label body))
        (some { line := number, address := here, label, text := body.text, bytes })
        { pc := progress.pc + bytes.length, labels }

inductive Refuses (pass : Pass) (progress : Progress) : Statement → Fault → Prop where
  | origin {value : Text} {fault : Fault}
      (unread : valueOf value .word (.complete .empty) 0 = .error fault) :
      Refuses pass progress (.origin value) fault
  | outside {statement : Statement} (occupies : statement.isOrigin = false)
      (past : 0x10000 ≤ progress.pc) :
      Refuses pass progress statement (.valueOutOfRange progress.pc 0x10000)
  | label {statement : Statement} {here : UInt16} {fault : Fault}
      (occupies : statement.isOrigin = false) (placed : here.toNat = progress.pc)
      (unbound : (pass.bindLabel? progress.labels statement.label? here).outcome = .error fault) :
      Refuses pass progress statement fault
  | encoding {label : Option Text} {body : Instruction} {here : UInt16} {labels : LabelTable}
      {fault : Fault}
      (placed : here.toNat = progress.pc)
      (binds : (pass.bindLabel? progress.labels label here).outcome = .ok labels)
      (unencoded : body.encode (pass.view labels) here = .error fault) :
      Refuses pass progress (.instruction label body) fault
  | room {label : Option Text} {body : Instruction} {here : UInt16} {labels : LabelTable}
      {bytes : List UInt8}
      (placed : here.toNat = progress.pc)
      (binds : (pass.bindLabel? progress.labels label here).outcome = .ok labels)
      (encoded : body.encode (pass.view labels) here = .ok bytes)
      (past : 0x10000 < progress.pc + bytes.length) :
      Refuses pass progress (.instruction label body)
        (.valueOutOfRange (progress.pc + bytes.length - 1) 0x10000)

theorem bindLabel_eq (name : Text) :
    pass.bindLabel labels name here = pass.bindLabel? labels (some name) here := rfl

theorem place_eq_ok_iff {number : Nat} {body : Instruction} {made : Entry} :
    (pass.place trace progress number label body).outcome = .ok (made, next) ↔
      pass.Advances number progress (some (.instruction label body)) (some made) next := by
  simp only [place, Logged.outcome_bind, Logged.outcome_ofExcept, Logged.outcome_tell,
    outcome_report, Logged.outcome_pure, bind_eq_ok_iff, Width.word_fit_eq_ok_iff]
  constructor
  · intro taken
    obtain ⟨here, placed, labels, binds, bytes, encoded, _, _, last, room, _, _, result⟩ := taken
    have bound := last.toNat_lt
    cases result
    exact .instruction placed binds encoded (by omega)
  · intro advances
    cases advances with
    | @instruction _ _ here labels bytes placed binds encoded room =>
        refine ⟨here, placed, labels, binds, bytes, encoded, (), trivial,
          UInt16.ofNat (progress.pc + bytes.length - 1), ?_, (), trivial, rfl⟩
        rw [UInt16.toNat_ofNat']
        omega

theorem perform_eq_ok_iff {number : Nat} {statement : Statement} :
    (pass.perform trace progress number statement).outcome = .ok (entry, next) ↔
      pass.Advances number progress (some statement) entry next := by
  cases statement with
  | origin value =>
      simp only [perform, Logged.outcome_bind, Logged.outcome_ofExcept, Logged.outcome_tell,
        Logged.outcome_pure, bind_eq_ok_iff, Except.ok.injEq, Prod.mk.injEq]
      constructor
      · intro taken
        obtain ⟨address, read, ⟨⟩, _, rfl, rfl⟩ := taken
        exact .origin read
      · intro advances
        cases advances with
        | origin read => exact ⟨_, read, (), trivial, rfl, rfl⟩
  | label name =>
      simp only [perform, bindLabel_eq, Logged.outcome_bind, Logged.outcome_ofExcept,
        Logged.outcome_pure, bind_eq_ok_iff, Except.ok.injEq, Prod.mk.injEq,
        Width.word_fit_eq_ok_iff]
      constructor
      · intro taken
        obtain ⟨here, placed, labels, binds, rfl, rfl⟩ := taken
        exact .label placed binds
      · intro advances
        cases advances with
        | label placed binds => exact ⟨_, placed, _, binds, rfl, rfl⟩
  | instruction label body =>
      simp only [perform, Logged.outcome_bind, Logged.outcome_pure, bind_eq_ok_iff, Except.ok.injEq,
        Prod.mk.injEq]
      constructor
      · intro taken
        obtain ⟨⟨made, after⟩, placed, rfl, rfl⟩ := taken
        exact place_eq_ok_iff.mp placed
      · intro advances
        cases advances with
        | instruction placed binds encoded room =>
            exact ⟨_, place_eq_ok_iff.mpr (.instruction placed binds encoded room), rfl, rfl⟩

theorem step_eq_ok_iff :
    (pass.step trace progress line).outcome = .ok (entry, next) ↔
      ∃ statement, Statement.parse line.text = .ok statement ∧
        pass.Advances line.number progress statement entry next := by
  simp only [step, Logged.outcome_bind, Logged.outcome_ofExcept, bind_eq_ok_iff]
  refine exists_congr fun statement => and_congr_right fun _ => ?_
  cases statement with
  | none =>
      simp only [Logged.outcome_pure, Except.ok.injEq, Prod.mk.injEq]
      constructor
      · intro unchanged
        obtain ⟨rfl, rfl⟩ := unchanged
        exact .blank
      · intro advances
        cases advances with
        | blank => exact ⟨rfl, rfl⟩
  | some statement => exact perform_eq_ok_iff

theorem place_eq_error_iff {number : Nat} {body : Instruction} :
    (pass.place trace progress number label body).outcome = .error fault ↔
      pass.Refuses progress (.instruction label body) fault := by
  simp only [place, Logged.outcome_bind, Logged.outcome_ofExcept, Logged.outcome_tell,
    outcome_report, Logged.outcome_pure, bind_eq_error_iff, Width.word_fit_eq_ok_iff,
    Width.fit_eq_error_iff, reduceCtorEq, false_or, and_false, exists_false, or_false]
  constructor
  · intro refused
    rcases refused with ⟨past, rfl⟩ | ⟨here, placed, unbound | ⟨labels, binds, unencoded | ⟨bytes, encoded, _, _, past, rfl⟩⟩⟩
    · exact .outside rfl past
    · exact .label rfl placed unbound
    · exact .encoding placed binds unencoded
    · simp only [Width.limit] at past
      exact .room placed binds encoded (by omega)
  · intro refuses
    cases refuses with
    | outside _ past => exact .inl ⟨past, rfl⟩
    | label _ placed unbound => exact .inr ⟨_, placed, .inl unbound⟩
    | encoding placed binds unencoded => exact .inr ⟨_, placed, .inr ⟨_, binds, .inl unencoded⟩⟩
    | room placed binds encoded past =>
        refine .inr ⟨_, placed, .inr ⟨_, binds, .inr ⟨_, encoded, (), trivial, ?_, rfl⟩⟩⟩
        simp only [Width.limit]
        omega

theorem perform_eq_error_iff {number : Nat} {statement : Statement} :
    (pass.perform trace progress number statement).outcome = .error fault ↔
      pass.Refuses progress statement fault := by
  cases statement with
  | origin value =>
      simp only [perform, Logged.outcome_bind, Logged.outcome_ofExcept, Logged.outcome_tell,
        Logged.outcome_pure, bind_eq_error_iff, reduceCtorEq, and_false, exists_false, or_false]
      constructor
      · exact .origin
      · intro refuses
        cases refuses with
        | origin unread => exact unread
        | outside occupies | label occupies => cases occupies
  | label name =>
      simp only [perform, bindLabel_eq, Logged.outcome_bind, Logged.outcome_ofExcept,
        Logged.outcome_pure, bind_eq_error_iff, Width.word_fit_eq_ok_iff, Width.fit_eq_error_iff,
        reduceCtorEq, and_false, exists_false, or_false]
      constructor
      · intro refused
        rcases refused with ⟨past, rfl⟩ | ⟨here, placed, unbound⟩
        · exact .outside rfl past
        · exact .label rfl placed unbound
      · intro refuses
        cases refuses with
        | outside _ past => exact .inl ⟨past, rfl⟩
        | label _ placed unbound => exact .inr ⟨_, placed, unbound⟩
  | instruction label body =>
      simp only [perform, Logged.outcome_bind, Logged.outcome_pure, bind_eq_error_iff, reduceCtorEq,
        and_false, exists_false, or_false]
      exact place_eq_error_iff

theorem step_eq_error_iff :
    (pass.step trace progress line).outcome = .error fault ↔
      Statement.parse line.text = .error fault ∨
        ∃ statement, Statement.parse line.text = .ok (some statement) ∧
          pass.Refuses progress statement fault := by
  simp only [step, Logged.outcome_bind, Logged.outcome_ofExcept, bind_eq_error_iff]
  refine or_congr_right ?_
  constructor
  · intro stopped
    obtain ⟨_ | statement, read, refused⟩ := stopped
    · contradiction
    · exact ⟨statement, read, perform_eq_error_iff.mp refused⟩
  · intro stopped
    obtain ⟨statement, read, refused⟩ := stopped
    exact ⟨some statement, read, perform_eq_error_iff.mpr refused⟩

theorem step_eq_labelMoved_iff {name : Text} {found : UInt16} :
    (pass.step trace progress line).outcome = .error (.labelMoved name found here) ↔
      line.label? = some name ∧ here.toNat = progress.pc ∧ name ∉ progress.labels.names ∧
        ∃ known, pass = .final known ∧ known.get? name = some found ∧ found ≠ here := by
  rw [step_eq_error_iff]
  constructor
  · intro stopped
    rcases stopped with unread | ⟨statement, read, refused⟩
    · obtain ⟨_, fault⟩ := Statement.fault_of_parse unread
      cases fault
    cases refused with
    | origin unread =>
        rcases fault_of_valueOf unread with fault | ⟨_, fault⟩ <;> cases fault
    | label occupies placed unbound =>
        obtain ⟨bound, named, ⟨_, fault⟩ | ⟨fresh, moved⟩⟩ := bindLabel?_eq_error_iff.mp unbound
        · cases fault
        obtain ⟨known, address, final, known_at, differs, fault⟩ := confirm_eq_error_iff.mp moved
        cases fault
        exact ⟨by simp [Line.label?, Line.statement?_of_parse read, named], placed, fresh, known,
          final, known_at, differs⟩
    | encoding placed binds unencoded => exact absurd unencoded Instruction.encode_ne_labelMoved
  · intro moved
    obtain ⟨named, placed, fresh, known, final, bound, differs⟩ := moved
    obtain ⟨statement, stated, named⟩ := Option.bind_eq_some_iff.mp named
    refine .inr ⟨statement, Line.parse_of_statement? stated, .label ?_ placed ?_⟩
    · cases statement with
      | origin => simp [Statement.label?] at named
      | label | instruction => rfl
    · exact bindLabel?_eq_error_iff.mpr ⟨name, named, .inr ⟨fresh,
        confirm_eq_error_iff.mpr ⟨known, found, final, bound, differs, rfl⟩⟩⟩

theorem outcome_step : (pass.step trace progress line).outcome = (pass.step false progress line).outcome := by
  cases stepped : (pass.step false progress line).outcome with
  | ok result => exact step_eq_ok_iff.mpr (step_eq_ok_iff.mp stepped)
  | error fault => exact step_eq_error_iff.mpr (step_eq_error_iff.mp stepped)

end Pass

end Asm65
