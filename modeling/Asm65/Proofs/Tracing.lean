import Asm65.Proofs.Literal
import Asm65.Proofs.Meaning
import Asm65.Proofs.Simulation

namespace Asm65

namespace Logged

variable {ε α β : Type} {event : Event} {next : α → Logged ε β}

theorem mem_events_bind {run : Logged ε α} (member : event ∈ (run >>= next).events) :
    event ∈ run.events ∨ ∃ value, run.outcome = .ok value ∧ event ∈ (next value).events := by
  cases reached : run.outcome with
  | error error =>
      rw [events_bind_of_error next reached] at member
      exact .inl member
  | ok value =>
      rw [events_bind_of_ok next reached] at member
      rcases List.mem_append.mp member with early | late
      · exact .inl early
      · exact .inr ⟨value, rfl, late⟩

/-- A check tells nothing: what is told comes after it has passed. -/
theorem mem_events_check {outcome : Except ε α} (member : event ∈ (ofExcept outcome >>= next).events) :
    ∃ value, outcome = .ok value ∧ event ∈ (next value).events := by
  rcases mem_events_bind member with early | later
  · simp at early
  · exact later

end Logged

def Entry.placed (entry : Entry) : Event :=
  .placed entry.address entry.text entry.bytes

/-- The line that shows a placed instruction: its address, its text in a column of 14 characters, which a
longer text takes more of, and its bytes in brackets. -/
inductive Entry.Shown (entry : Entry) : Text → Prop where
  | line {address spaces : Text} {pairs : List Text}
      (located : address.HexNumeral 4 entry.address.toNat)
      (blank : ∀ c ∈ spaces, c = ' ')
      (column : entry.text.length + spaces.length = max 14 entry.text.length)
      (encoded : List.Forall₂ (fun byte pair => Text.HexNumeral 2 pair byte.toNat) entry.bytes pairs) :
      Shown entry ("$".toList ++ address ++ "  ".toList ++ (entry.text ++ spaces) ++ "   => ".toList ++
        ("[".toList ++ List.intercalate ", ".toList pairs ++ "]".toList))

/-- The line that shows a label and its address. -/
inductive LabelShown (label : Text × UInt16) : Text → Prop where
  | line {address : Text} (located : address.HexNumeral 4 label.2.toNat) :
      LabelShown label ("label ".toList ++ label.1 ++ " = ".toList ++ ("$".toList ++ address))

theorem Entry.shown_message (entry : Entry) : entry.Shown entry.placed.message := by
  have pairs : List.Forall₂ (fun byte pair => Text.HexNumeral 2 pair byte.toNat) entry.bytes
      (entry.bytes.map hexByte) := by
    simp [List.forall₂_map_right_iff, hexByte_hexNumeral]
  have blank : ∀ c ∈ List.replicate (14 - entry.text.length) ' ', c = ' ' := fun c =>
    List.eq_of_mem_replicate
  have column : entry.text.length + (List.replicate (14 - entry.text.length) ' ').length =
      max 14 entry.text.length := by
    rw [List.length_replicate]
    omega
  exact .line (hexWord_hexNumeral entry.address) blank column pairs

theorem labelShown_message (label : Text × UInt16) :
    LabelShown label (Event.labelBound label.1 label.2).message :=
  .line (hexWord_hexNumeral label.2)

/-- The bindings of a table as they are told, in the order of their definition. -/
def LabelTable.bound (table : LabelTable) : List Event :=
  table.entries.map fun (name, address) => .labelBound name address

namespace Event

def isTrace (event : Event) : Bool :=
  event.level = .info && event.target = "asm6502::trace".toList

def isLabel (event : Event) : Bool :=
  event.level = .debug && "label ".toList.isPrefixOf event.message

/-- What a log shows of the instructions, found by level and target. -/
def traceMessages (events : List Event) : List Text :=
  (events.filter isTrace).map message

/-- What a log shows of the labels, found by level and wording. -/
def labelMessages (events : List Event) : List Text :=
  (events.filter isLabel).map message

theorem isTrace_iff {event : Event} :
    event.isTrace = true ↔ ∃ address text bytes, event = .placed address text bytes := by
  cases event with
  | placed address text bytes =>
      have shown : (placed address text bytes).target = "asm6502::trace".toList := rfl
      simp [isTrace, level, shown]
  | passStarted | firstPassDone | secondPassDone | originSet | labelBound | encoded | listingWritten =>
      simp [isTrace, level]

theorem isLabel_iff {event : Event} :
    event.isLabel = true ↔ ∃ name address, event = .labelBound name address := by
  cases event <;> (delta isLabel message; simp [level])

end Event

namespace Pass

open Outcome

variable {pass : Pass} {trace : Bool} {progress middle next last : Progress} {line : Line}
  {lines rest : List Line} {fault : Fault} {here : UInt16} {labels bound : LabelTable}
  {label : Option Text} {entry : Option Entry} {entries : List Entry} {event : Event}

def reported (pass : Pass) (trace : Bool) (entries : List Entry) : List Event :=
  if pass.isFinal && trace then entries.map Entry.placed else []

theorem reported_append (later : List Entry) :
    pass.reported trace (entries ++ later) = pass.reported trace entries ++ pass.reported trace later := by
  unfold reported
  split
  next => exact List.map_append
  next => rfl

theorem events_report {made : Entry} :
    (pass.report trace made.address made.text made.bytes).events = pass.reported trace [made] := by
  unfold report reported
  split <;> rfl

/-- What a pass can tell on a line that comes out so. The report of an instruction is told only when
nothing was wrong with its line. -/
inductive Tells (pass : Pass) (trace : Bool) (outcome : Except Fault (Option Entry × Progress)) :
    Event → Prop where
  | originSet {address : UInt16} : Tells pass trace outcome (.originSet address)
  | labelBound {name : Text} {address : UInt16} : Tells pass trace outcome (.labelBound name address)
  | encoded {address : UInt16} {text : Text} {bytes : List UInt8} :
      Tells pass trace outcome (.encoded address text bytes)
  | placed {made : Entry} {next : Progress} (traced : (pass.isFinal && trace) = true)
      (taken : outcome = .ok (some made, next)) : Tells pass trace outcome made.placed

theorem Tells.of_isTrace {outcome : Except Fault (Option Entry × Progress)}
    (tells : pass.Tells trace outcome event) (told : event.isTrace = true) :
    (pass.isFinal && trace) = true ∧ ∃ made next, outcome = .ok (some made, next) := by
  cases tells with
  | placed traced taken => exact ⟨traced, _, _, taken⟩
  | originSet | labelBound | encoded => simp [Event.isTrace_iff] at told

theorem mem_events_bindLabel? (member : event ∈ (pass.bindLabel? labels label here).events) :
    ∃ name, event = .labelBound name here := by
  cases label with
  | none => simp [bindLabel?] at member
  | some name =>
      obtain ⟨_, _, member⟩ := Logged.mem_events_check member
      obtain ⟨_, _, member⟩ := Logged.mem_events_check member
      rcases Logged.mem_events_bind member with told | ⟨_, _, late⟩
      · exact ⟨name, List.mem_singleton.mp told⟩
      · simp at late

theorem events_bindLabel? (binds : (pass.bindLabel? labels label here).outcome = .ok bound) :
    (pass.bindLabel? labels label here).events = (label.map (Event.labelBound · here)).toList := by
  cases label with
  | none => rfl
  | some name =>
      obtain ⟨entries, fresh⟩ := bindLabel?_eq_ok_iff.mp binds
      obtain ⟨free, confirmed⟩ := fresh name rfl
      have inserted : labels.insert name here = .ok bound := LabelTable.insert_eq_ok_iff.mpr ⟨free, entries⟩
      simp only [bindLabel?, bindLabel]
      rw [Logged.events_bind_of_ok _ inserted, Logged.events_bind_of_ok _ confirmed]
      rfl

theorem tells_of_mem_place {number : Nat} {body : Instruction}
    (member : event ∈ (pass.place trace progress number label body).events) :
    pass.Tells trace (pass.perform trace progress number (.instruction label body)).outcome event := by
  obtain ⟨here, placed, member⟩ := Logged.mem_events_check member
  rcases Logged.mem_events_bind member with told | ⟨labels, binds, member⟩
  · obtain ⟨name, rfl⟩ := mem_events_bindLabel? told
    exact .labelBound
  obtain ⟨bytes, encoded, member⟩ := Logged.mem_events_check member
  rcases Logged.mem_events_bind member with told | ⟨_, _, member⟩
  · rw [List.mem_singleton.mp told]
    exact .encoded
  obtain ⟨top, room, member⟩ := Logged.mem_events_check member
  rcases Logged.mem_events_bind member with told | ⟨_, _, late⟩
  · -- the report comes after every check of the line, so the instruction is placed
    have bounded := top.toNat_lt
    have last := Width.word_fit_eq_ok_iff.mp room
    have taken : pass.Advances number progress (some (.instruction label body)) _ _ :=
      .instruction (Width.word_fit_eq_ok_iff.mp placed) binds encoded (by omega)
    unfold report at told
    split at told
    next traced =>
        rw [List.mem_singleton.mp told]
        exact .placed traced (perform_eq_ok_iff.mpr taken)
    next => simp at told
  · simp at late

theorem tells_of_mem_step (member : event ∈ (pass.step trace progress line).events) :
    pass.Tells trace (pass.step trace progress line).outcome event := by
  obtain ⟨statement, read, member⟩ := Logged.mem_events_check member
  cases statement with
  | none => simp at member
  | some statement =>
      have performed : (pass.step trace progress line).outcome =
          (pass.perform trace progress line.number statement).outcome := by
        rw [step, Logged.outcome_bind, read]
        rfl
      rw [performed]
      cases statement with
      | origin value =>
          obtain ⟨_, _, member⟩ := Logged.mem_events_check member
          rcases Logged.mem_events_bind member with told | ⟨_, _, late⟩
          · rw [List.mem_singleton.mp told]
            exact .originSet
          · simp at late
      | label name =>
          obtain ⟨here, _, member⟩ := Logged.mem_events_check member
          rcases Logged.mem_events_bind member with told | ⟨_, _, late⟩
          · rw [bindLabel_eq] at told
            obtain ⟨_, rfl⟩ := mem_events_bindLabel? told
            exact .labelBound
          · simp at late
      | instruction label body =>
          rcases Logged.mem_events_bind member with told | ⟨_, _, late⟩
          · exact tells_of_mem_place told
          · simp at late

theorem events_place {number : Nat} {body : Instruction} {bytes : List UInt8}
    (placed : here.toNat = progress.pc)
    (binds : (pass.bindLabel? progress.labels label here).outcome = .ok labels)
    (encoded : body.encode (pass.view labels) here = .ok bytes)
    (room : progress.pc + bytes.length ≤ 0x10000) :
    (pass.place trace progress number label body).events =
      (label.map (Event.labelBound · here)).toList ++ .encoded here body.text bytes ::
        pass.reported trace [{ line := number, address := here, label, text := body.text, bytes }] := by
  have fits : Width.word.fit progress.pc = .ok here := Width.word_fit_eq_ok_iff.mpr placed
  have fitsTop : Width.word.fit (progress.pc + bytes.length - 1) =
      .ok (UInt16.ofNat (progress.pc + bytes.length - 1)) := by
    rw [Width.word_fit_eq_ok_iff, UInt16.toNat_ofNat']
    omega
  unfold place
  rw [Logged.events_bind_of_ok _ fits, Logged.events_bind_of_ok _ binds, events_bindLabel? binds,
    Logged.events_bind_of_ok _ encoded, Logged.events_bind_of_ok _ (Logged.outcome_tell _),
    Logged.events_bind_of_ok _ fitsTop, Logged.events_bind_of_ok _ (outcome_report _ _), ← events_report]
  simp

/-- The events account for the entries made and the labels bound between two points of a pass. -/
structure Accounts (pass : Pass) (trace : Bool) (events : List Event) (progress : Progress)
    (entries : List Entry) (next : Progress) : Prop where
  entries : events.filter Event.isTrace = pass.reported trace entries
  labels : next.labels.bound = progress.labels.bound ++ events.filter Event.isLabel

theorem Accounts.append {events later : List Event} {made : List Entry}
    (first : pass.Accounts trace events progress entries middle)
    (second : pass.Accounts trace later middle made last) :
    pass.Accounts trace (events ++ later) progress (entries ++ made) last := by
  constructor
  · rw [List.filter_append, first.entries, second.entries, reported_append]
  · rw [List.filter_append, second.labels, first.labels, List.append_assoc]

theorem filter_isTrace_reported :
    (pass.reported trace entries).filter Event.isTrace = pass.reported trace entries := by
  unfold reported
  split
  next =>
      refine List.filter_eq_self.mpr fun event member => ?_
      obtain ⟨entry, _, rfl⟩ := List.mem_map.mp member
      exact Event.isTrace_iff.mpr ⟨_, _, _, rfl⟩
  next => rfl

theorem filter_isLabel_reported : (pass.reported trace entries).filter Event.isLabel = [] := by
  unfold reported
  split
  next => simp [Entry.placed, Event.isLabel_iff]
  next => rfl

theorem bound_of_bindLabel? (binds : (pass.bindLabel? labels label here).outcome = .ok bound) :
    bound.bound = labels.bound ++ (label.map (Event.labelBound · here)).toList := by
  simp only [LabelTable.bound, (bindLabel?_eq_ok_iff.mp binds).1, List.map_append]
  cases label <;> rfl

theorem accounts_of_bindLabel? {events : List Event} {pc : Nat}
    (binds : (pass.bindLabel? progress.labels label here).outcome = .ok labels)
    (silent : events.filter Event.isLabel = [])
    (told : events.filter Event.isTrace = pass.reported trace entries) :
    pass.Accounts trace ((label.map (Event.labelBound · here)).toList ++ events) progress entries
      { pc, labels } := by
  have names : (label.map (Event.labelBound · here)).toList.filter Event.isLabel =
      (label.map (Event.labelBound · here)).toList := by
    cases label <;> simp [Event.isLabel_iff]
  have quiet : (label.map (Event.labelBound · here)).toList.filter Event.isTrace = [] := by
    cases label <;> simp [Event.isTrace_iff]
  constructor
  · rw [List.filter_append, quiet, List.nil_append, told]
  · rw [List.filter_append, names, silent, List.append_nil, bound_of_bindLabel? binds]

/-- A line that is taken has its entry and its label told, and no others. -/
theorem accounts_step (stepped : (pass.step trace progress line).outcome = .ok (entry, next)) :
    pass.Accounts trace (pass.step trace progress line).events progress entry.toList next := by
  obtain ⟨statement, read, advances⟩ := step_eq_ok_iff.mp stepped
  rw [step, Logged.events_bind_of_ok _ read, Logged.events_ofExcept, List.nil_append]
  cases advances with
  | blank => constructor <;> simp [reported]
  | @origin value address valued =>
      have told : (pass.perform trace progress line.number (.origin value)).events = [.originSet address] := by
        rw [perform, Logged.events_bind_of_ok _ valued]
        rfl
      simp only [told]
      constructor <;> simp [reported, Event.isTrace_iff, Event.isLabel_iff]
  | @label name here labels placed binds =>
      have fits : Width.word.fit progress.pc = .ok here := Width.word_fit_eq_ok_iff.mpr placed
      have told : (pass.perform trace progress line.number (.label name)).events =
          ((some name).map (Event.labelBound · here)).toList ++ [] := by
        rw [perform, Logged.events_bind_of_ok _ fits, bindLabel_eq, Logged.events_bind_of_ok _ binds,
          events_bindLabel? binds]
        rfl
      simp only [told]
      exact accounts_of_bindLabel? binds rfl (by simp [reported])
  | @instruction label body here labels bytes placed binds encoded room =>
      have told : (pass.perform trace progress line.number (.instruction label body)).events =
          (pass.place trace progress line.number label body).events := by
        rw [perform, Logged.events_bind_of_ok _
          (place_eq_ok_iff.mpr (.instruction placed binds encoded room))]
        simp
      simp only [told, events_place placed binds encoded room]
      refine accounts_of_bindLabel? binds ?_ ?_
      · rw [List.filter_cons_of_neg (by simp [Event.isLabel_iff]), filter_isLabel_reported]
      · rw [List.filter_cons_of_neg (by simp [Event.isTrace_iff]), filter_isTrace_reported]
        rfl

theorem events_run_cons_of_ok (stepped : (pass.step trace progress line).outcome = .ok (entry, next)) :
    (pass.run trace (line :: rest) progress).events =
      (pass.step trace progress line).events ++ (pass.run trace rest next).events := by
  have taken : ((pass.step trace progress line).mapError line.refuse).outcome = .ok (entry, next) :=
    mapError_eq_ok_iff.mpr stepped
  rw [run, Logged.events_bind_of_ok _ taken]
  rfl

theorem events_run_cons_of_error (refused : (pass.step trace progress line).outcome = .error fault) :
    (pass.run trace (line :: rest) progress).events = (pass.step trace progress line).events := by
  have stopped : ((pass.step trace progress line).mapError line.refuse).outcome =
      .error (line.refuse fault) := mapError_eq_error_iff.mpr ⟨fault, refused, rfl⟩
  rw [run, Logged.events_bind_of_error _ stopped]
  rfl

theorem tells_of_mem_run (member : event ∈ (pass.run trace lines progress).events) :
    ∃ outcome, pass.Tells trace outcome event := by
  induction lines generalizing progress with
  | nil => simp [run] at member
  | cons line rest ih =>
      cases stepped : (pass.step trace progress line).outcome with
      | error fault =>
          rw [events_run_cons_of_error stepped] at member
          exact ⟨_, tells_of_mem_step member⟩
      | ok taken =>
          rw [events_run_cons_of_ok stepped] at member
          rcases List.mem_append.mp member with here | later
          · exact ⟨_, tells_of_mem_step here⟩
          · exact ih later

theorem accounts_run (finished : (pass.run trace lines progress).outcome = .ok (entries, last)) :
    pass.Accounts trace (pass.run trace lines progress).events progress entries last := by
  induction lines generalizing progress entries with
  | nil =>
      obtain ⟨rfl, rfl⟩ := run_nil_eq_ok_iff.mp finished
      constructor <;> simp [run, reported]
  | cons line rest ih =>
      obtain ⟨entry, next, tail, stepped, remaining, rfl⟩ := run_cons_eq_ok_iff.mp finished
      rw [events_run_cons_of_ok stepped]
      exact (accounts_step stepped).append (ih remaining)

theorem trace_step_of_error (refused : (pass.step trace progress line).outcome = .error fault) :
    (pass.step trace progress line).events.filter Event.isTrace = [] := by
  refine List.filter_eq_nil_iff.mpr fun event member told => ?_
  obtain ⟨_, made, next, taken⟩ := (tells_of_mem_step member).of_isTrace told
  rw [refused] at taken
  contradiction

/-- A run that fails has reported the lines before the one it fails at. -/
theorem trace_run_of_error {front : List Line} (rest : List Line)
    (taken : (pass.run trace front progress).outcome = .ok (entries, middle))
    (refused : (pass.step trace middle line).outcome = .error fault) :
    (pass.run trace (front ++ line :: rest) progress).events.filter Event.isTrace =
      pass.reported trace entries := by
  induction front generalizing progress entries with
  | nil =>
      obtain ⟨rfl, rfl⟩ := run_nil_eq_ok_iff.mp taken
      rw [List.nil_append, events_run_cons_of_error refused, trace_step_of_error refused]
      simp [reported]
  | cons first front ih =>
      obtain ⟨entry, next, tail, stepped, remaining, rfl⟩ := run_cons_eq_ok_iff.mp taken
      rw [List.cons_append, events_run_cons_of_ok stepped, List.filter_append,
        (accounts_step stepped).entries, ih remaining, reported_append]

theorem trace_run_of_untraced (untraced : (pass.isFinal && trace) = false) :
    (pass.run trace lines progress).events.filter Event.isTrace = [] := by
  refine List.filter_eq_nil_iff.mpr fun event member told => ?_
  obtain ⟨outcome, tells⟩ := tells_of_mem_run member
  simp [(tells.of_isTrace told).1] at untraced

theorem passStarted_not_mem_run (number : Nat) :
    .passStarted number ∉ (pass.run trace lines progress).events := by
  intro member
  obtain ⟨outcome, tells⟩ := tells_of_mem_run member
  cases tells

end Pass

section Assemble

variable {config : Config} {source : Text} {assembly : Assembly} {surveyed : List Entry} {found : Progress}
  {error : SourceError}

theorem events_assemble_of_error (failed : (Pass.survey.walk config source).outcome = .error error) :
    (assemble config source).events = .passStarted 1 :: (Pass.survey.walk config source).events := by
  unfold Pass.walk at failed ⊢
  rw [assemble, Logged.events_bind_of_ok _ (Logged.outcome_tell _), Logged.events_bind_of_error _ failed]
  rfl

/-- The log of an assembly that gets to the final pass: each pass after the mark of its start. -/
theorem events_assemble (first : (Pass.survey.walk config source).outcome = .ok (surveyed, found)) :
    ∃ closing : Option Nat, (assemble config source).events =
      .passStarted 1 :: ((Pass.survey.walk config source).events ++ [.firstPassDone found.labels.size] ++
        .passStarted 2 :: (((Pass.final found.labels).walk config source).events ++
          (closing.map Event.secondPassDone).toList)) := by
  unfold Pass.walk at first ⊢
  rw [assemble, Logged.events_bind_of_ok _ (Logged.outcome_tell _), Logged.events_bind_of_ok _ first,
    Logged.events_bind_of_ok _ (Logged.outcome_tell _), Logged.events_bind_of_ok _ (Logged.outcome_tell _)]
  cases second :
      ((Pass.final found.labels).run config.trace (Line.ofSource source) (.start config)).outcome with
  | error error =>
      rw [Logged.events_bind_of_error _ second]
      exact ⟨none, by simp⟩
  | ok finished =>
      rw [Logged.events_bind_of_ok _ second]
      exact ⟨some (Assembly.ofEntries config finished.1 finished.2.labels).bytes.length, by simp⟩

theorem traceMessages_of_failed_survey
    (failed : (Pass.survey.walk config source).outcome = .error error) :
    Event.traceMessages (assemble config source).events = [] := by
  rw [Event.traceMessages, events_assemble_of_error failed,
    List.filter_cons_of_neg (by simp [Event.isTrace_iff]), Pass.walk, Pass.trace_run_of_untraced rfl]
  rfl

theorem traceMessages_assemble
    (first : (Pass.survey.walk config source).outcome = .ok (surveyed, found)) :
    Event.traceMessages (assemble config source).events =
      Event.traceMessages ((Pass.final found.labels).walk config source).events := by
  obtain ⟨closing, told⟩ := events_assemble first
  have survey : (Pass.survey.walk config source).events.filter Event.isTrace = [] :=
    Pass.trace_run_of_untraced rfl
  rw [Event.traceMessages, told]
  cases closing <;> simp [Event.traceMessages, Event.isTrace_iff, survey]

/-- What a log shows of the instructions when tracing is on: the listing, if there is one, nothing when the
survey failed, and when the final pass failed the instructions of the lines before. -/
inductive Traced (config : Config) (source : Text) : Except SourceError Assembly → List Text → Prop where
  | assembled {assembly : Assembly} {messages : List Text}
      (shown : List.Forall₂ Entry.Shown assembly.entries messages) :
      Traced config source (.ok assembly) messages
  | surveyFailed {error : SourceError}
      (failed : (Pass.survey.walk config source).outcome = .error error) :
      Traced config source (.error error) []
  | finalFailed {surveyed entries : List Entry} {found last : Progress} {error : SourceError}
      {messages : List Text}
      (first : (Pass.survey.walk config source).outcome = .ok (surveyed, found))
      (failed : ((Pass.final found.labels).walk config source).outcome = .error error)
      (taken : ((Pass.final found.labels).run config.trace ((Line.ofSource source).take (error.line - 1))
        (.start config)).outcome = .ok (entries, last))
      (standFor : List.Forall₂ (Entry.StandsFor found.labels)
        (((Line.ofSource source).take (error.line - 1)).filterMap Line.instruction?) entries)
      (shown : List.Forall₂ Entry.Shown entries messages) :
      Traced config source (.error error) messages

theorem Traced.shown {messages : List Text} (traced : Traced config source (.ok assembly) messages) :
    List.Forall₂ Entry.Shown assembly.entries messages := by
  cases traced with
  | assembled shown => exact shown

theorem shown_of_reported {known : LabelTable} {events : List Event} {entries : List Entry}
    (told : events.filter Event.isTrace = (Pass.final known).reported true entries) :
    List.Forall₂ Entry.Shown entries (Event.traceMessages events) := by
  have reports : (Pass.final known).reported true entries = entries.map Entry.placed := rfl
  rw [Event.traceMessages, told, reports, List.map_map]
  simp [List.forall₂_map_right_iff, Entry.shown_message]

theorem traced_assemble (origin : UInt16) (source : Text) :
    Traced ⟨origin, true⟩ source (assemble ⟨origin, true⟩ source).outcome
      (Event.traceMessages (assemble ⟨origin, true⟩ source).events) := by
  cases first : (Pass.survey.walk ⟨origin, true⟩ source).outcome with
  | error error =>
      rw [assemble_eq_error_iff.mpr (.inl first), traceMessages_of_failed_survey first]
      exact .surveyFailed first
  | ok surveyed =>
      obtain ⟨surveyed, found⟩ := surveyed
      rw [traceMessages_assemble first]
      cases second : ((Pass.final found.labels).walk ⟨origin, true⟩ source).outcome with
      | ok finished =>
          obtain ⟨entries, last⟩ := finished
          rw [assemble_eq_ok_iff.mpr ⟨surveyed, found, entries, last, first, second, rfl⟩]
          exact .assembled (shown_of_reported (Pass.accounts_run second).entries)
      | error error =>
          obtain ⟨front, line, back, entries, middle, fault, split, taken, refused, rfl⟩ :=
            Pass.run_eq_error_iff_split.mp second
          have number : line.number = front.length + 1 := by
            apply Line.ofSource_number
            rw [split, List.getElem?_append_right (Nat.le_refl _), Nat.sub_self]
            rfl
          have before : (Line.ofSource source).take ((line.refuse fault).line - 1) = front := by
            rw [split, Line.refuse, number, Nat.add_sub_cancel, List.take_left]
          have told := Pass.trace_run_of_error back taken refused
          rw [← split] at told
          rw [assemble_eq_error_iff.mpr (.inr ⟨surveyed, found, first, second⟩)]
          rw [← before] at taken
          exact .finalFailed first second taken (Pass.run_standsFor taken) (shown_of_reported told)

theorem traceMessages_of_untraced (origin : UInt16) (source : Text) :
    Event.traceMessages (assemble ⟨origin, false⟩ source).events = [] := by
  cases first : (Pass.survey.walk ⟨origin, false⟩ source).outcome with
  | error error => exact traceMessages_of_failed_survey first
  | ok surveyed =>
      rw [traceMessages_assemble first, Event.traceMessages, Pass.walk, Pass.trace_run_of_untraced rfl]
      rfl

theorem labelMessages_run {pass : Pass} {entries : List Entry} {last : Progress}
    (finished : (pass.walk config source).outcome = .ok (entries, last)) :
    List.Forall₂ LabelShown last.labels.entries
      (Event.labelMessages (pass.walk config source).events) := by
  have told := (Pass.accounts_run finished).labels
  have none : (Progress.start config).labels.bound = [] := rfl
  rw [none, List.nil_append] at told
  rw [Event.labelMessages, Pass.walk, ← told, LabelTable.bound, List.map_map]
  simp [List.forall₂_map_right_iff, labelShown_message]

/-- The log of an assembly is that of two passes, each of which tells the labels as they are defined. -/
theorem labels_told (assembled : (assemble config source).outcome = .ok assembly) :
    ∃ first second, (assemble config source).events =
        .passStarted 1 :: (first ++ .passStarted 2 :: second) ∧
      (∀ number, .passStarted number ∉ first ++ second) ∧
      List.Forall₂ LabelShown assembly.labels.entries (Event.labelMessages first) ∧
      List.Forall₂ LabelShown assembly.labels.entries (Event.labelMessages second) := by
  obtain ⟨_, _, _, passes⟩ := passes_of_assemble assembled
  obtain ⟨closing, told⟩ := events_assemble passes.survey
  rw [passes.foundLabels] at told
  refine ⟨_, _, told, fun number => ?_, ?_, ?_⟩
  · have apart : ∀ pass : Pass, .passStarted number ∉ (pass.walk config source).events :=
      fun pass => Pass.passStarted_not_mem_run number
    cases closing <;> simp [apart]
  · have survey := labelMessages_run passes.survey
    rw [passes.foundLabels] at survey
    simpa [Event.labelMessages, Event.isLabel_iff] using survey
  · have final := labelMessages_run passes.final
    rw [passes.lastLabels] at final
    cases closing <;> simpa [Event.labelMessages, Event.isLabel_iff] using final

end Assemble

/-- Tracing shows the instructions that are placed, and nothing of it bears on the outcome. -/
theorem trace_reports_placed (origin : UInt16) (source : Text) :
    Traced ⟨origin, true⟩ source (assemble ⟨origin, true⟩ source).outcome
      (Event.traceMessages (assemble ⟨origin, true⟩ source).events) ∧
    Event.traceMessages (assemble ⟨origin, false⟩ source).events = [] ∧
    (assemble ⟨origin, true⟩ source).outcome = (assemble ⟨origin, false⟩ source).outcome ∧
    ∀ trace assembly, (assemble ⟨origin, trace⟩ source).outcome = .ok assembly →
      ∃ first second, (assemble ⟨origin, trace⟩ source).events =
          .passStarted 1 :: (first ++ .passStarted 2 :: second) ∧
        (∀ number, .passStarted number ∉ first ++ second) ∧
        List.Forall₂ LabelShown assembly.labels.entries (Event.labelMessages first) ∧
        List.Forall₂ LabelShown assembly.labels.entries (Event.labelMessages second) :=
  ⟨traced_assemble origin source, traceMessages_of_untraced origin source,
    outcome_assemble_trace ⟨origin, false⟩ true source, fun _ _ assembled => labels_told assembled⟩

theorem trace_reports_placed_drifting :
    (assemble ⟨defaultOrigin, true⟩ drifting).outcome = .ok driftingAssembly ∧
    Event.traceMessages (assemble ⟨defaultOrigin, true⟩ drifting).events =
      ["$0080  LDA data         => [AD, 0B, C0]".toList,
        "$0083  BNE start        => [D0, FB]".toList,
        "$C000  LDX #$0A         => [A2, 0A]".toList,
        "$C002  STA start,X      => [95, 80]".toList,
        "$C004  LDA (start), y   => [B1, 80, 00]".toList,
        "$C007  ASL a            => [0A]".toList,
        "$C008  JMP end          => [4C, 0B, C0]".toList,
        "$C00B  RTS              => [60]".toList] ∧
    List.Forall₂ Entry.Shown driftingAssembly.entries
      (Event.traceMessages (assemble ⟨defaultOrigin, true⟩ drifting).events) ∧
    ∃ first second, (assemble ⟨defaultOrigin, true⟩ drifting).events =
        .passStarted 1 :: (first ++ .passStarted 2 :: second) ∧
      List.Forall₂ LabelShown driftingAssembly.labels.entries (Event.labelMessages first) ∧
      List.Forall₂ LabelShown driftingAssembly.labels.entries (Event.labelMessages second) ∧
      Event.labelMessages (first ++ second) =
        ["label start = $0080".toList, "label end = $C00B".toList, "label data = $C00B".toList,
          "label start = $0080".toList, "label end = $C00B".toList, "label data = $C00B".toList] := by
  obtain ⟨traced, _, same, told⟩ := trace_reports_placed defaultOrigin drifting
  have assembled : (assemble ⟨defaultOrigin, true⟩ drifting).outcome = .ok driftingAssembly :=
    same.trans assemble_drifting
  obtain ⟨first, second, split, _, survey, final⟩ := told true driftingAssembly assembled
  rw [assembled] at traced
  have lines : Event.labelMessages (first ++ second) =
      Event.labelMessages (assemble ⟨defaultOrigin, true⟩ drifting).events := by
    rw [split]
    simp [Event.labelMessages, Event.isLabel_iff]
  refine ⟨assembled, by decide +kernel, traced.shown, first, second, split, survey, final, ?_⟩
  rw [lines]
  decide +kernel

end Asm65
