namespace Asm65.Outcome

variable {ε δ α β γ κ : Type}

theorem bind_eq_ok_iff {first : Except ε α} {next : α → Except ε β} {result : β} :
    first.bind next = .ok result ↔ ∃ value, first = .ok value ∧ next value = .ok result := by
  cases first <;> simp [Except.bind]

theorem bind_eq_error_iff {first : Except ε α} {next : α → Except ε β} {error : ε} :
    first.bind next = .error error ↔
      first = .error error ∨ ∃ value, first = .ok value ∧ next value = .error error := by
  cases first <;> simp [Except.bind]

theorem map_eq_ok_iff {f : α → β} {run : Except ε α} {result : β} :
    run.map f = .ok result ↔ ∃ value, run = .ok value ∧ f value = result := by
  cases run <;> simp [Except.map]

theorem map_eq_error_iff {f : α → β} {run : Except ε α} {error : ε} :
    run.map f = .error error ↔ run = .error error := by
  cases run <;> simp [Except.map]

theorem mapError_eq_ok_iff {f : ε → δ} {run : Except ε α} {result : α} :
    run.mapError f = .ok result ↔ run = .ok result := by
  cases run with
  | ok value =>
      change (.ok value : Except δ α) = .ok result ↔ _
      simp
  | error cause =>
      change (.error (f cause) : Except δ α) = .ok result ↔ _
      simp

theorem mapError_eq_error_iff {f : ε → δ} {run : Except ε α} {error : δ} :
    run.mapError f = .error error ↔ ∃ cause, run = .error cause ∧ f cause = error := by
  cases run with
  | ok value =>
      change (.ok value : Except δ α) = .error error ↔ _
      simp
  | error cause =>
      change (.error (f cause) : Except δ α) = .error error ↔ _
      simp

/-- Two computations that fail together or succeed together, with related results. -/
inductive Alike (Fails : ε → δ → Prop) (Gives : α → β → Prop) : Except ε α → Except δ β → Prop where
  | ok {value : α} {other : β} (gives : Gives value other) : Alike Fails Gives (.ok value) (.ok other)
  | error {cause : ε} {other : δ} (fails : Fails cause other) :
      Alike Fails Gives (.error cause) (.error other)

namespace Alike

variable {Fails : ε → δ → Prop} {Gives : α → β → Prop} {first : Except ε α} {second : Except δ β}

protected theorem refl {Fails : ε → ε → Prop} {Gives : α → α → Prop} (fails : ∀ cause, Fails cause cause)
    (gives : ∀ value, Gives value value) (run : Except ε α) : Alike Fails Gives run run := by
  cases run with
  | ok value => exact .ok (gives value)
  | error cause => exact .error (fails cause)

theorem of_ok {value : α} (alike : Alike Fails Gives first second) (succeeds : first = .ok value) :
    ∃ other, second = .ok other ∧ Gives value other := by
  cases alike with
  | ok gives =>
      cases succeeds
      exact ⟨_, rfl, gives⟩
  | error fails => contradiction

theorem of_error {cause : ε} (alike : Alike Fails Gives first second) (failed : first = .error cause) :
    ∃ other, second = .error other ∧ Fails cause other := by
  cases alike with
  | ok gives => contradiction
  | error fails =>
      cases failed
      exact ⟨_, rfl, fails⟩

theorem of_forall_ok (forward : ∀ value, first = .ok value → ∃ other, second = .ok other ∧ Gives value other)
    (backward : ∀ other, second = .ok other → ∃ value, first = .ok value) :
    Alike (fun _ _ => True) Gives first second := by
  cases first with
  | ok value =>
      obtain ⟨other, rfl, gives⟩ := forward value rfl
      exact .ok gives
  | error cause =>
      cases second with
      | ok other =>
          obtain ⟨value, succeeds⟩ := backward other rfl
          contradiction
      | error other => exact .error trivial

theorem bind {Makes : γ → κ → Prop} {next : α → Except ε γ} {after : β → Except δ κ}
    (alike : Alike Fails Gives first second)
    (follows : ∀ value other, Gives value other → Alike Fails Makes (next value) (after other)) :
    Alike Fails Makes (first.bind next) (second.bind after) := by
  cases alike with
  | ok gives => exact follows _ _ gives
  | error fails => exact .error fails

theorem imp {Worse : ε → δ → Prop} {Makes : α → β → Prop} (alike : Alike Fails Gives first second)
    (fails : ∀ cause other, Fails cause other → Worse cause other)
    (gives : ∀ value other, Gives value other → Makes value other) : Alike Worse Makes first second := by
  cases alike with
  | ok given => exact .ok (gives _ _ given)
  | error failed => exact .error (fails _ _ failed)

end Alike

end Asm65.Outcome
