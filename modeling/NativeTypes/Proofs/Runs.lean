/-
NativeTypes.Proofs.Runs — runs that carry a state and may stop, step by step.

Resolving and exporting are runs of this kind. There is one equation for
each primitive step in front of a rest, and one inversion for sequencing: a
sequence returns exactly when its first run returns and the rest does
(`bind_eq_ok`). How a run on a fixed input ends can be decided, if the property
of the state it leaves can.
-/
namespace NativeTypes

section

variable {ε σ α β : Type} {s s' : σ}

@[simp] theorem run_pure (a : α) : (pure a : EStateM ε σ α) s = .ok a s := rfl

@[simp] theorem run_throw (e : ε) : (throw e : EStateM ε σ α) s = .error e s := rfl

@[simp] theorem run_get_bind (next : σ → EStateM ε σ α) : (get >>= next) s = next s s := rfl

@[simp] theorem run_set_bind (t : σ) (next : PUnit → EStateM ε σ α) :
    (set t >>= next) s = next ⟨⟩ t := rfl

@[simp] theorem run_modify (f : σ → σ) :
    (modify f : EStateM ε σ PUnit) s = .ok ⟨⟩ (f s) := rfl

@[simp] theorem run_modify_bind (f : σ → σ) (next : PUnit → EStateM ε σ α) :
    (modify f >>= next) s = next ⟨⟩ (f s) := rfl

variable {run : EStateM ε σ α} {next : α → EStateM ε σ β}

theorem run_bind_ok {a : α} (h : run s = .ok a s') : (run >>= next) s = next a s' := by
  show EStateM.bind run next s = _
  rw [EStateM.bind, h]

theorem run_bind_error {e : ε} (h : run s = .error e s') : (run >>= next) s = .error e s' := by
  show EStateM.bind run next s = _
  rw [EStateM.bind, h]

/-- A sequence returns through its first run. -/
theorem bind_eq_ok {b : β} {t : σ} (h : (run >>= next) s = .ok b t) :
    ∃ a s', run s = .ok a s' ∧ next a s' = .ok b t := by
  cases hr : run s with
  | ok a s' =>
    rw [run_bind_ok hr] at h
    exact ⟨a, s', rfl, h⟩
  | error e s' =>
    rw [run_bind_error hr] at h
    cases h

/-- The same for what carries no state. -/
theorem except_bind_eq_ok {x : Except ε α} {next : α → Except ε β} {b : β}
    (h : x >>= next = .ok b) : ∃ a, x = .ok a ∧ next a = .ok b := by
  cases x with
  | ok a => exact ⟨a, rfl, h⟩
  | error e => cases h

instance decidableReturns {r : EStateM.Result ε σ Unit} {P : σ → Prop} [DecidablePred P] :
    Decidable (∃ s, r = .ok () s ∧ P s) :=
  match r with
  | .ok () s =>
    decidable_of_iff (P s) ⟨fun h => ⟨s, rfl, h⟩, fun ⟨_, h, hp⟩ => by cases h; exact hp⟩
  | .error .. => isFalse fun ⟨_, h, _⟩ => by cases h

end

end NativeTypes
