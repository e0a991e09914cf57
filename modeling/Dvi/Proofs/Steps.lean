/-
# Dvi.Proofs.Steps — steps that may fail, one after another.

Writers, sessions and tracers all take steps that end in an answer or in an error, and leave a state
either way. The laws here say what two steps in sequence come to once it is known what the first one
does, from one state and not from all; they are the same for every kind of state. A property of states
that each of several steps maintains is maintained by all of them together (`Maintains.bind`).
-/

namespace Dvi

variable {ε σ α β : Type}

/-- After a step that answers, the next one goes on from its answer and its state. -/
theorem bind_of_ok {step : EStateM ε σ α} {before after : σ} {a : α}
    (h : step before = .ok a after) (next : α → EStateM ε σ β) :
    (step >>= next) before = next a after := by
  show EStateM.bind step next before = next a after
  rw [EStateM.bind, h]

/-- After a step that fails, nothing more is done. -/
theorem bind_of_error {step : EStateM ε σ α} {before after : σ} {e : ε}
    (h : step before = .error e after) (next : α → EStateM ε σ β) :
    (step >>= next) before = .error e after := by
  show EStateM.bind step next before = .error e after
  rw [EStateM.bind, h]

/-- If two steps in sequence answer, the first one did. -/
theorem ok_of_bind {step : EStateM ε σ α} {next : α → EStateM ε σ β} {before after : σ} {b : β}
    (h : (step >>= next) before = .ok b after) :
    ∃ a middle, step before = .ok a middle ∧ next a middle = .ok b after := by
  cases first : step before with
  | ok a middle => exact ⟨a, middle, rfl, by rwa [bind_of_ok first] at h⟩
  | error e middle =>
    rw [bind_of_error first] at h
    cases h

/-- The state that a step leaves, whether it answers or fails. -/
def leaves (step : EStateM ε σ α) (before : σ) : σ :=
  match step before with
  | .ok _ after => after
  | .error _ after => after

/-- To answer something else leaves the same state. -/
theorem leaves_bind_pure (step : EStateM ε σ α) (b : β) (before : σ) :
    leaves (step >>= fun _ => pure b) before = leaves step before := by
  unfold leaves
  cases run : step before with
  | ok => rw [bind_of_ok run]; rfl
  | error => rw [bind_of_error run]

/-- A step that leads from every state with a property to one that has it too. -/
def Maintains (P : σ → Prop) (step : EStateM ε σ α) : Prop :=
  ∀ before, P before → P (leaves step before)

variable {P : σ → Prop}

theorem maintains_pure (a : α) : Maintains P (pure a : EStateM ε σ α) :=
  fun _ h => h

theorem maintains_get : Maintains P (get : EStateM ε σ σ) :=
  fun _ h => h

/-- What two steps maintain, they do in sequence, wherever the first one fails. -/
theorem Maintains.bind {step : EStateM ε σ α} {next : α → EStateM ε σ β} (first : Maintains P step)
    (second : ∀ a, Maintains P (next a)) : Maintains P (step >>= next) := by
  intro before h
  have middle := first before h
  rw [leaves] at middle ⊢
  cases run : step before with
  | ok a after =>
    rw [run] at middle
    rw [bind_of_ok run]
    exact second a after middle
  | error e after =>
    rw [run] at middle
    rw [bind_of_error run]
    exact middle

end Dvi
