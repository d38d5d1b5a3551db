import Asm65.Event

namespace Asm65

/-! Results that carry a log. The log is only ever added to, and no result depends on it. -/

/-- A result together with the events told on the way to it. A failed run keeps the events
that came before the failure. -/
structure Logged (ε α : Type) where
  events : List Event
  outcome : Except ε α

namespace Logged

variable {ε δ α β : Type}

def bind (run : Logged ε α) (next : α → Logged ε β) : Logged ε β :=
  match run.outcome with
  | .ok value =>
      let rest := next value
      { events := run.events ++ rest.events, outcome := rest.outcome }
  | .error error => { events := run.events, outcome := .error error }

/-- Changes the value and tells nothing. -/
def map (f : α → β) (run : Logged ε α) : Logged ε β :=
  { events := run.events, outcome := run.outcome.map f }

instance : Monad (Logged ε) where
  pure value := { events := [], outcome := .ok value }
  bind := bind
  map := map

/-- Tells one event. -/
def tell (event : Event) : Logged ε Unit :=
  { events := [event], outcome := .ok () }

/-- A result reached without telling anything. -/
def ofExcept (outcome : Except ε α) : Logged ε α :=
  { events := [], outcome }

def mapError (f : ε → δ) (run : Logged ε α) : Logged δ α :=
  { events := run.events, outcome := run.outcome.mapError f }

@[simp] theorem outcome_pure (value : α) : (pure value : Logged ε α).outcome = .ok value := rfl

@[simp] theorem events_pure (value : α) : (pure value : Logged ε α).events = [] := rfl

@[simp] theorem outcome_tell (event : Event) : (tell event : Logged ε Unit).outcome = .ok () := rfl

@[simp] theorem events_tell (event : Event) : (tell event : Logged ε Unit).events = [event] := rfl

@[simp] theorem outcome_ofExcept (outcome : Except ε α) : (ofExcept outcome).outcome = outcome :=
  rfl

@[simp] theorem events_ofExcept (outcome : Except ε α) : (ofExcept outcome).events = [] := rfl

@[simp] theorem outcome_map (f : α → β) (run : Logged ε α) :
    (f <$> run).outcome = run.outcome.map f := rfl

@[simp] theorem events_map (f : α → β) (run : Logged ε α) : (f <$> run).events = run.events := rfl

/-- Events never influence a result: the outcome of a sequence is the sequence of outcomes. -/
@[simp] theorem outcome_bind (run : Logged ε α) (next : α → Logged ε β) :
    (run >>= next).outcome = run.outcome.bind fun value => (next value).outcome := by
  cases reached : run.outcome <;> simp [Bind.bind, bind, reached, Except.bind]

theorem events_bind_of_ok {run : Logged ε α} {value : α} (next : α → Logged ε β)
    (reached : run.outcome = .ok value) :
    (run >>= next).events = run.events ++ (next value).events := by
  simp [Bind.bind, bind, reached]

theorem events_bind_of_error {run : Logged ε α} {error : ε} (next : α → Logged ε β)
    (failed : run.outcome = .error error) : (run >>= next).events = run.events := by
  simp [Bind.bind, bind, failed]

@[simp] theorem outcome_mapError (f : ε → δ) (run : Logged ε α) :
    (run.mapError f).outcome = run.outcome.mapError f := rfl

@[simp] theorem events_mapError (f : ε → δ) (run : Logged ε α) :
    (run.mapError f).events = run.events := rfl

instance : LawfulMonad (Logged ε) := LawfulMonad.mk' _
  (by
    rintro α ⟨events, outcome⟩
    cases outcome <;> rfl)
  (by
    intro α β value next
    simp [Bind.bind, bind, Pure.pure])
  (by
    rintro α β γ ⟨events, outcome⟩ next last
    cases outcome with
    | error error => simp [Bind.bind, bind]
    | ok value => cases reached : (next value).outcome <;> simp [Bind.bind, bind, reached])
  (fun _ _ => rfl)
  (fun _ _ => rfl)
  (fun _ _ => rfl)
  (by
    rintro α β f ⟨events, outcome⟩
    cases outcome <;> simp [Bind.bind, bind, Pure.pure, Functor.map, map, Except.map])

end Logged

end Asm65
