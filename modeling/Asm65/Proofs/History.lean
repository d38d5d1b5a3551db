import Mathlib.Data.List.Induction
import Asm65.Session
import Asm65.Proofs.Trail

namespace Asm65.Session

namespace Call

def origin? : Call → Option UInt16
  | setOrigin origin => some origin
  | _ => none

def trace? : Call → Option Bool
  | setTrace trace => some trace
  | _ => none

def source? : Call → Option Text
  | image source | assembly source => some source
  | _ => none

end Call

/-- The settings after some calls: the last ones made, or those from the start. -/
def settled (config : Config) (calls : List Call) : Config where
  origin := (calls.filterMap Call.origin?).getLast?.getD config.origin
  trace := (calls.filterMap Call.trace?).getLast?.getD config.trace

def Idle (calls : List Call) : Prop :=
  ∀ call ∈ calls, call.source? = none

/-- The labels known after some calls: those of the last assembly, if there was one and it succeeded. -/
inductive Knows (config : Config) : List Call → LabelTable → Prop where
  | fresh {calls : List Call} (idle : Idle calls) : Knows config calls .empty
  | assembled {before after : List Call} {call : Call} {source : Text} {assembly : Assembly}
      (assembles : call.source? = some source) (idle : Idle after)
      (succeeds : (assemble (settled config before) source).outcome = .ok assembly) :
      Knows config (before ++ call :: after) assembly.labels
  | failed {before after : List Call} {call : Call} {source : Text} {error : SourceError}
      (assembles : call.source? = some source) (idle : Idle after)
      (fails : (assemble (settled config before) source).outcome = .error error) :
      Knows config (before ++ call :: after) .empty

/-- The outcome that a new session with these settings gives for a source. -/
def Makes (config : Config) (source : Text) (outcome : Except SourceError Assembly) : Prop :=
  ∃ run : Logged SourceError Assembly, (start config).replies [.assembly source] = [.assembly run] ∧
    run.outcome = outcome

/-- The reply to a call, from the calls before it. Tracing has no part in what an assembly gives. -/
inductive Answers (config : Config) (before : List Call) : Call → Reply → Prop where
  | setOrigin (origin : UInt16) : Answers config before (.setOrigin origin) (.originSet origin)
  | setTrace (trace : Bool) : Answers config before (.setTrace trace) (.traceSet trace)
  | config : Answers config before .config (.config (settled config before))
  | image {source : Text} {outcome : Except SourceError Assembly} {run : Logged SourceError (List UInt8)}
      (makes : ∀ trace, Makes { settled config before with trace } source outcome)
      (bytes : run.outcome = outcome.map Assembly.bytes) :
      Answers config before (.image source) (.image run)
  | assembly {source : Text} {run : Logged SourceError Assembly}
      (makes : ∀ trace, Makes { settled config before with trace } source run.outcome) :
      Answers config before (.assembly source) (.assembly run)
  | labels {table : LabelTable} (knows : Knows config before table) :
      Answers config before .labels (.labels table)
  | lookup {table : LabelTable} (knows : Knows config before table) (name : Text) :
      Answers config before (.lookup name) (.address (table.get? name))

section Settings

variable {config : Config} {calls : List Call} {call : Call} {table : LabelTable} {session : Session}

theorem make_run (source : Text) : (session.make source).1 = assemble session.config source := by
  simp only [make]
  split <;> rfl

theorem make_config (source : Text) : (session.make source).2.config = session.config := by
  simp only [make]
  split <;> rfl

/-- A call changes the settings if it sets them, and no call but such a one does. -/
theorem perform_config (here : session.config = settled config calls) :
    (session.perform call).2.config = settled config (calls ++ [call]) := by
  cases call with
  | setOrigin | setTrace => simp [perform, settled, here, Call.origin?, Call.trace?]
  | config | labels | lookup => simpa [perform, settled, Call.origin?, Call.trace?] using here
  | image | assembly => simpa [perform, make_config, settled, Call.origin?, Call.trace?] using here

theorem Idle.snoc (idle : Idle calls) (more : call.source? = none) : Idle (calls ++ [call]) := by
  intro other member
  rcases List.mem_append.mp member with member | member
  · exact idle other member
  · rw [List.mem_singleton.mp member]
    exact more

theorem Knows.snoc (knows : Knows config calls table) (idle : call.source? = none) :
    Knows config (calls ++ [call]) table := by
  cases knows with
  | fresh quiet => exact .fresh (quiet.snoc idle)
  | assembled assembles quiet succeeds =>
      rw [List.append_assoc, List.cons_append]
      exact .assembled assembles (quiet.snoc idle) succeeds
  | failed assembles quiet fails =>
      rw [List.append_assoc, List.cons_append]
      exact .failed assembles (quiet.snoc idle) fails

theorem knows_make {source : Text} (here : session.config = settled config calls)
    (assembles : call.source? = some source) :
    Knows config (calls ++ [call]) (session.make source).2.labels := by
  have quiet : Idle [] := List.forall_mem_nil _
  simp only [make, here]
  split
  next fails => exact .failed assembles quiet fails
  next succeeds => exact .assembled assembles quiet succeeds

theorem perform_knows (here : session.config = settled config calls)
    (knows : Knows config calls session.labels) :
    Knows config (calls ++ [call]) (session.perform call).2.labels := by
  cases call with
  | setOrigin | setTrace | config | labels | lookup => exact knows.snoc rfl
  | image | assembly => exact knows_make here rfl

theorem makes_assemble (config : Config) (source : Text) (trace : Bool) :
    Makes { config with trace } source (assemble config source).outcome := by
  refine ⟨assemble { config with trace } source, ?_, outcome_assemble_trace config trace source⟩
  simp only [replies, perform, make_run, start]

theorem perform_answers (here : session.config = settled config calls)
    (knows : Knows config calls session.labels) : Answers config calls call (session.perform call).1 := by
  cases call with
  | setOrigin origin => exact .setOrigin origin
  | setTrace trace => exact .setTrace trace
  | config =>
      simp only [perform, here]
      exact .config
  | image source =>
      simp only [perform, make_run, here]
      refine .image (makes_assemble (settled config calls) source) ?_
      rw [Logged.outcome_bind]
      cases (assemble (settled config calls) source).outcome <;> rfl
  | assembly source =>
      simp only [perform, make_run, here]
      exact .assembly (makes_assemble (settled config calls) source)
  | labels => exact .labels knows
  | lookup name => exact .lookup knows name

end Settings

def after (session : Session) : List Call → Session
  | [] => session
  | call :: rest => (session.perform call).2.after rest

section Replies

variable {session : Session} {before rest : List Call} {call : Call}

theorem after_snoc : session.after (before ++ [call]) = ((session.after before).perform call).2 := by
  induction before generalizing session with
  | nil => rfl
  | cons first before ih => exact ih

theorem replies_append :
    session.replies (before ++ rest) = session.replies before ++ (session.after before).replies rest := by
  induction before generalizing session with
  | nil => rfl
  | cons first before ih => exact congrArg (_ :: ·) ih

theorem length_replies : (session.replies before).length = before.length := by
  induction before generalizing session with
  | nil => rfl
  | cons first before ih => exact congrArg (· + 1) ih

/-- The reply at the place of a call is that of the session as the calls before left it. -/
theorem replies_getElem? :
    (session.replies (before ++ call :: rest))[before.length]? =
      some ((session.after before).perform call).1 := by
  rw [replies_append, List.getElem?_append_right (Nat.le_of_eq length_replies), length_replies, Nat.sub_self]
  rfl

theorem after_start (config : Config) (calls : List Call) :
    ((start config).after calls).config = settled config calls ∧
      Knows config calls ((start config).after calls).labels := by
  induction calls using List.reverseRec with
  | nil => exact ⟨rfl, .fresh (List.forall_mem_nil _)⟩
  | append_singleton calls call ih =>
      rw [after_snoc]
      exact ⟨perform_config ih.1, perform_knows ih.1 ih.2⟩

end Replies

/-- Every reply follows from the settings and the sources given before, as in a session that is new. -/
theorem replies_answer (config : Config) (before : List Call) (call : Call) (rest : List Call) :
    ∃ reply, ((start config).replies (before ++ call :: rest))[before.length]? = some reply ∧
      Answers config before call reply := by
  obtain ⟨here, knows⟩ := after_start config before
  exact ⟨_, replies_getElem?, perform_answers here knows⟩

end Asm65.Session
