namespace Mmltk.Foundation

/-! Runs whose every step is allowed in the state it is taken in. -/

variable {σ ε : Type} {step : σ → ε → σ} {allowed : σ → ε → Prop} {invariant : σ → Prop}

def Along (step : σ → ε → σ) (allowed : σ → ε → Prop) : σ → List ε → Prop
  | _, [] => True
  | state, event :: rest => allowed state event ∧ Along step allowed (step state event) rest

instance Along.decidable [∀ state event, Decidable (allowed state event)] (state : σ) :
    ∀ events : List ε, Decidable (Along step allowed state events)
  | [] => inferInstanceAs (Decidable True)
  | event :: rest =>
      have : Decidable (Along step allowed (step state event) rest) := decidable _ rest
      inferInstanceAs (Decidable (_ ∧ _))

/-- What every allowed step keeps holds in every state that such a run reaches. -/
theorem Along.keeps
    (hstep : ∀ state event, invariant state → allowed state event → invariant (step state event))
    {state : σ} {events : List ε} (hruns : Along step allowed state events)
    (h : invariant state) : invariant (events.foldl step state) := by
  induction events generalizing state with
  | nil => exact h
  | cons event rest ih => exact ih hruns.2 (hstep state event h hruns.1)

end Mmltk.Foundation
