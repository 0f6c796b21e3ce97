namespace Mmltk.Foundation

/-! Computations on a state that keep what they changed when they fail. -/

def Transaction (σ ε α : Type) : Type := σ → σ × Except ε α

namespace Transaction

variable {σ ε α β : Type}

protected def pure (value : α) : Transaction σ ε α := fun state => (state, .ok value)

protected def bind (first : Transaction σ ε α) (next : α → Transaction σ ε β) :
    Transaction σ ε β :=
  fun state =>
    match first state with
    | (middle, .ok value) => next value middle
    | (middle, .error failure) => (middle, .error failure)

instance : Monad (Transaction σ ε) where
  pure := Transaction.pure
  bind := Transaction.bind

def fail (failure : ε) : Transaction σ ε α := fun state => (state, .error failure)

def read : Transaction σ ε σ := fun state => (state, .ok state)

def modify (change : σ → σ) : Transaction σ ε Unit := fun state => (change state, .ok ())

def lift (result : Except ε α) : Transaction σ ε α := fun state => (state, result)

/-- Runs `handler` where `code` fails, and fails all the same. -/
def onFailure (code : Transaction σ ε α) (handler : Transaction σ ε Unit) : Transaction σ ε α :=
  fun state =>
    match code state with
    | (after, .ok value) => (after, .ok value)
    | (after, .error failure) => (handler >>= fun _ => fail failure) after

/-- Runs `code` on a part of the state, with its failures among those of the whole. -/
def focus {τ δ : Type} (get : σ → τ) (set : σ → τ → σ) (embed : δ → ε)
    (code : Transaction τ δ α) : Transaction σ ε α :=
  fun state => (set state (code (get state)).1, (code (get state)).2.mapError embed)

/-- From a state with `before`, a result satisfies `post` and a failure `failed`. -/
def Ensures (before : σ → Prop) (code : Transaction σ ε α) (post : α → σ → Prop)
    (failed : ε → σ → Prop) : Prop :=
  ∀ state, before state →
    match code state with
    | (after, .ok value) => post value after
    | (after, .error failure) => failed failure after

namespace Ensures

variable {before : σ → Prop} {failed : ε → σ → Prop}

theorem pure {value : α} {post : α → σ → Prop} (h : ∀ state, before state → post value state) :
    Ensures before (Pure.pure value) post failed :=
  h

theorem fail {failure : ε} {post : α → σ → Prop} (h : ∀ state, before state → failed failure state) :
    Ensures before (Transaction.fail failure) post failed :=
  h

theorem modify {change : σ → σ} {post : Unit → σ → Prop}
    (h : ∀ state, before state → post () (change state)) :
    Ensures before (Transaction.modify change) post failed :=
  h

theorem lift {result : Except ε α} {post : α → σ → Prop}
    (hok : ∀ value, result = .ok value → ∀ state, before state → post value state)
    (herror : ∀ failure, result = .error failure → ∀ state, before state → failed failure state) :
    Ensures before (Transaction.lift result) post failed := by
  intro state hbefore
  cases hresult : result with
  | ok value => exact hok value hresult state hbefore
  | error failure => exact herror failure hresult state hbefore

theorem bind {first : Transaction σ ε α} {next : α → Transaction σ ε β} {middle : α → σ → Prop}
    {post : β → σ → Prop} (hfirst : Ensures before first middle failed)
    (hnext : ∀ value, Ensures (middle value) (next value) post failed) :
    Ensures before (first >>= next) post failed := by
  intro state hbefore
  have hmiddle := hfirst state hbefore
  show match Transaction.bind first next state with
    | (after, .ok value) => post value after
    | (after, .error failure) => failed failure after
  rw [Transaction.bind]
  cases hrun : first state with
  | mk after result =>
      rw [hrun] at hmiddle
      cases result with
      | ok value => exact hnext value after hmiddle
      | error failure => exact hmiddle

theorem read {next : σ → Transaction σ ε β} {post : β → σ → Prop}
    (h : ∀ state, before state → Ensures (fun other => other = state) (next state) post failed) :
    Ensures before (Transaction.read >>= next) post failed :=
  fun state hbefore => h state hbefore state rfl

theorem modify_bind {change : σ → σ} {next : Unit → Transaction σ ε β} {post : β → σ → Prop}
    (h : ∀ state, before state → Ensures (fun other => other = change state) (next ()) post failed) :
    Ensures before (Transaction.modify change >>= next) post failed :=
  fun state hbefore => h state hbefore (change state) rfl

theorem lift_bind {result : Except ε α} {next : α → Transaction σ ε β} {post : β → σ → Prop}
    (hok : ∀ value, result = .ok value → Ensures before (next value) post failed)
    (herror : ∀ failure, result = .error failure → ∀ state, before state → failed failure state) :
    Ensures before (Transaction.lift result >>= next) post failed := by
  cases hresult : result with
  | ok value => exact hok value hresult
  | error failure => exact herror failure hresult

theorem consequence {before' : σ → Prop} {code : Transaction σ ε α} {post post' : α → σ → Prop}
    {failed' : ε → σ → Prop} (h : Ensures before' code post' failed')
    (hbefore : ∀ state, before state → before' state)
    (hpost : ∀ value state, post' value state → post value state)
    (hfailed : ∀ failure state, failed' failure state → failed failure state) :
    Ensures before code post failed := by
  intro state hstate
  have hrun := h state (hbefore state hstate)
  cases hcode : code state with
  | mk after result =>
      rw [hcode] at hrun
      cases result with
      | ok value => exact hpost value after hrun
      | error failure => exact hfailed failure after hrun

theorem branch {condition : Prop} [Decidable condition] {yes no : Transaction σ ε α}
    {post : α → σ → Prop} (hyes : condition → Ensures before yes post failed)
    (hno : ¬ condition → Ensures before no post failed) :
    Ensures before (if condition then yes else no) post failed := by
  split
  · next h => exact hyes h
  · next h => exact hno h

theorem onFailure {code : Transaction σ ε α} {handler : Transaction σ ε Unit}
    {post : α → σ → Prop} {broken : ε → σ → Prop} (hcode : Ensures before code post broken)
    (hhandler : ∀ failure, Ensures (broken failure) handler (fun _ state => failed failure state)
      failed) :
    Ensures before (code.onFailure handler) post failed := by
  intro state hbefore
  have hrun := hcode state hbefore
  rw [Transaction.onFailure]
  cases hresult : code state with
  | mk after result =>
      rw [hresult] at hrun
      cases result with
      | ok value => exact hrun
      | error failure => exact (hhandler failure).bind (fun _ => .fail fun _ h => h) after hrun

theorem focus {τ δ : Type} {get : σ → τ} {set : σ → τ → σ} {embed : δ → ε}
    {code : Transaction τ δ α} {post : α → σ → Prop} {state : σ}
    (h : Ensures (fun part => part = get state) code (fun value part => post value (set state part))
      fun failure part => failed (embed failure) (set state part)) :
    Ensures (fun other => other = state) (code.focus get set embed) post failed := by
  intro other heq
  subst heq
  have hrun := h (get other) rfl
  rw [Transaction.focus]
  cases hresult : code (get other) with
  | mk after result =>
      rw [hresult] at hrun
      cases result with
      | ok value => exact hrun
      | error failure => exact hrun

end Ensures

/-- From this state, `code` changes nothing where it fails. -/
def CleanAt (code : Transaction σ ε α) (state : σ) : Prop :=
  Ensures (fun other => other = state) code (fun _ _ => True) fun _ after => after = state

namespace CleanAt

variable {state : σ}

theorem eq_of_error {code : Transaction σ ε α} {failure : ε} (h : CleanAt code state)
    (herror : (code state).2 = .error failure) : (code state).1 = state := by
  have hrun := h state rfl
  cases hcode : code state with
  | mk after result =>
      rw [hcode] at hrun herror
      cases herror
      exact hrun

theorem of_eq {code : Transaction σ ε α}
    (h : ∀ failure, (code state).2 = .error failure → (code state).1 = state) :
    CleanAt code state := by
  intro other heq
  subst heq
  cases hcode : code other with
  | mk after result =>
      cases result with
      | ok value => trivial
      | error failure =>
          have hclean := h failure (by rw [hcode])
          rwa [hcode] at hclean

theorem pure {value : α} : CleanAt (Pure.pure value : Transaction σ ε α) state :=
  Ensures.pure fun _ _ => trivial

theorem fail {failure : ε} : CleanAt (Transaction.fail failure : Transaction σ ε α) state :=
  Ensures.fail fun _ h => h

/-- A change that nothing follows which may fail. -/
theorem modify_pure {change : σ → σ} {value : α} :
    CleanAt (Transaction.modify change >>= fun _ => Pure.pure value : Transaction σ ε α) state :=
  Ensures.modify_bind fun _ _ => Ensures.pure fun _ _ => trivial

theorem modify {change : σ → σ} : CleanAt (Transaction.modify change : Transaction σ ε Unit) state :=
  Ensures.modify fun _ _ => trivial

theorem read {next : σ → Transaction σ ε α} (h : CleanAt (next state) state) :
    CleanAt (Transaction.read >>= next) state :=
  Ensures.read fun other hother => by
    subst hother
    exact h

theorem lift {result : Except ε β} {next : β → Transaction σ ε α}
    (h : ∀ value, result = .ok value → CleanAt (next value) state) :
    CleanAt (Transaction.lift result >>= next) state :=
  Ensures.lift_bind h fun _ _ _ h => h

theorem branch {condition : Prop} [Decidable condition] {yes no : Transaction σ ε α}
    (hyes : condition → CleanAt yes state) (hno : ¬ condition → CleanAt no state) :
    CleanAt (if condition then yes else no) state :=
  Ensures.branch hyes hno

theorem bind {code : Transaction σ ε β} {next : β → Transaction σ ε α} (h : CleanAt code state)
    (hnext : ∀ value after, ∃ result, (next value after).2 = .ok result) :
    CleanAt (code >>= next) state := by
  refine Ensures.bind h fun value after _ => ?_
  obtain ⟨result, hresult⟩ := hnext value after
  cases hrun : next value after with
  | mk final outcome =>
      rw [hrun] at hresult
      cases hresult
      trivial

theorem iff_eq {code : Transaction σ ε α} :
    CleanAt code state ↔
      ∀ failure, (code state).2 = .error failure → (code state).1 = state :=
  ⟨fun h _ => h.eq_of_error, of_eq⟩

theorem bind_pure_iff {code : Transaction σ ε α} {f : α → β} :
    CleanAt (code >>= fun value => Pure.pure (f value)) state ↔ CleanAt code state := by
  constructor
  · intro h
    refine of_eq fun failure herror => ?_
    cases hcode : code state with
    | mk after result =>
        rw [hcode] at herror
        cases herror
        have hrun : (code >>= fun value => Pure.pure (f value)) state = (after, .error failure) := by
          change Transaction.bind code _ state = _
          rw [Transaction.bind, hcode]
        have hfailed : ((code >>= fun value => Pure.pure (f value)) state).2 = .error failure := by
          rw [hrun]
        have hclean := h.eq_of_error hfailed
        rwa [hrun] at hclean
  · exact fun h => h.bind fun value _ => ⟨f value, rfl⟩

theorem focus {τ δ : Type} {get : σ → τ} {set : σ → τ → σ} {embed : δ → ε}
    {code : Transaction τ δ α} (hset : set state (get state) = state)
    (h : CleanAt code (get state)) : CleanAt (code.focus get set embed) state :=
  Ensures.focus (h.consequence (fun _ h => h) (fun _ _ _ => trivial) fun _ after hafter => by
    rw [hafter, hset])

end CleanAt

end Transaction

end Mmltk.Foundation
