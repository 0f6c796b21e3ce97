namespace Mmltk.Foundation

/-! Postconditions for code that may fail: `post` of a result, `allowed` of a failure. -/

def Meets {ε α : Type} (result : Except ε α) (post : α → Prop) (allowed : ε → Prop) : Prop :=
  match result with
  | .ok value => post value
  | .error failure => allowed failure

namespace Meets

variable {ε α β : Type} {allowed : ε → Prop}

theorem pure {value : α} {post : α → Prop} (h : post value) :
    Meets (.ok value : Except ε α) post allowed := h

theorem fail {failure : ε} {post : α → Prop} (h : allowed failure) :
    Meets (.error failure : Except ε α) post allowed := h

/-- Sequencing: what the first part establishes, the second may use. -/
theorem bind {first : Except ε α} {next : α → Except ε β} {middle : α → Prop}
    {post : β → Prop} (hfirst : Meets first middle allowed)
    (hnext : ∀ value, middle value → Meets (next value) post allowed) :
    Meets (first >>= next) post allowed := by
  cases first with
  | error failure => exact hfirst
  | ok value => exact hnext value hfirst

theorem weaken {result : Except ε α} {post wider : α → Prop}
    (h : Meets result post allowed) (hwider : ∀ value, post value → wider value) :
    Meets result wider allowed := by
  cases result with
  | error failure => exact h
  | ok value => exact hwider value h

theorem branch {condition : Prop} [Decidable condition] {yes no : Except ε α}
    {post : α → Prop} (hyes : condition → Meets yes post allowed)
    (hno : ¬ condition → Meets no post allowed) :
    Meets (if condition then yes else no) post allowed := by
  split
  · next h => exact hyes h
  · next h => exact hno h

/-- A guard that throws unless its condition is excluded. -/
theorem guard {condition : Prop} [Decidable condition] {failure : ε} {rest : Except ε α}
    {post : α → Prop} (hfailure : condition → allowed failure)
    (hrest : ¬ condition → Meets rest post allowed) :
    Meets (if condition then .error failure else rest) post allowed :=
  branch hfailure hrest

theorem of_eq_ok {result : Except ε α} {value : α} {post : α → Prop}
    (h : Meets result post allowed) (hvalue : result = .ok value) : post value := by
  rw [hvalue] at h
  exact h

theorem of_eq_error {result : Except ε α} {failure : ε} {post : α → Prop}
    (h : Meets result post allowed) (hfailure : result = .error failure) :
    allowed failure := by
  rw [hfailure] at h
  exact h

theorem iff {result : Except ε α} {post : α → Prop} :
    Meets result post allowed ↔
      (∀ value, result = .ok value → post value) ∧
        ∀ failure, result = .error failure → allowed failure := by
  constructor
  · intro h
    exact ⟨fun _ => h.of_eq_ok, fun _ => h.of_eq_error⟩
  · rintro ⟨hok, herror⟩
    cases result with
    | ok value => exact hok value rfl
    | error failure => exact herror failure rfl

end Meets

theorem bind_eq_ok {ε α β : Type} {first : Except ε α} {next : α → Except ε β} {result : β} :
    first >>= next = .ok result ↔ ∃ value, first = .ok value ∧ next value = .ok result := by
  cases first with
  | error failure =>
      constructor
      · intro h
        cases h
      · rintro ⟨value, hvalue, -⟩
        cases hvalue
  | ok value =>
      constructor
      · exact fun h => ⟨value, rfl, h⟩
      · rintro ⟨other, hother, h⟩
        cases hother
        exact h

theorem guard_eq_ok {ε α : Type} {condition : Prop} [Decidable condition] {failure : ε}
    {rest : Except ε α} {result : α} :
    (if condition then .error failure else rest) = .ok result ↔ ¬ condition ∧ rest = .ok result := by
  split
  next hcondition => exact ⟨fun h => (nomatch h), fun h => absurd hcondition h.1⟩
  next hcondition => exact ⟨fun h => ⟨hcondition, h⟩, fun h => h.2⟩

/-- Results that are the same, or the same failure. -/
def Alike {ε α β : Type} (same : α → β → Prop) (first : Except ε α) (second : Except ε β) : Prop :=
  match first, second with
  | .ok value, .ok other => same value other
  | .error failure, .error other => failure = other
  | _, _ => False

theorem Alike.bind {ε α β γ δ : Type} {same : α → β → Prop} {later : γ → δ → Prop}
    {first : Except ε α} {second : Except ε β} {next : α → Except ε γ} {other : β → Except ε δ}
    (h : Alike same first second)
    (hnext : ∀ value value', same value value' → Alike later (next value) (other value')) :
    Alike later (first >>= next) (second >>= other) := by
  cases first with
  | error failure =>
      cases second with
      | error failure' => exact h
      | ok value' => exact h.elim
  | ok value =>
      cases second with
      | error failure' => exact h.elim
      | ok value' => exact hnext value value' h

end Mmltk.Foundation
