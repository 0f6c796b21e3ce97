import Mathlib.Data.List.Basic

namespace Mmltk.Foundation

/-! What the observer of one subject has been told: each value is final within its generation until
it is withdrawn, which begins the next. -/

structure Publication (β : Type) where
  generation : Nat
  terminal : Bool
  value : Option β
  deriving DecidableEq, Repr

namespace Publication

variable {β : Type} {first generation : Nat} {value : β} {final : Option β} {withdrawn : List β}
  {log : List (Publication β)}

/-- Values that were published and then withdrawn, one generation each. -/
def revisions (first : Nat) : List β → List (Publication β)
  | [] => []
  | value :: rest =>
      ⟨first, true, some value⟩ :: ⟨first + 1, false, none⟩ :: revisions (first + 1) rest

/-- Nothing is final in the current generation. -/
def Unsettled (first generation : Nat) (log : List (Publication β)) : Prop :=
  ∃ withdrawn, generation = first + withdrawn.length ∧ log = revisions first withdrawn

/-- The last word is the final value of the current generation, and it is the only one in it. -/
def Settled (first generation : Nat) (final : Option β) (log : List (Publication β)) : Prop :=
  ∃ withdrawn, generation = first + withdrawn.length ∧
    log = revisions first withdrawn ++ [⟨generation, true, final⟩]

theorem revisions_append (first : Nat) (withdrawn : List β) (value : β) :
    revisions first (withdrawn ++ [value]) =
      revisions first withdrawn ++
        [⟨first + withdrawn.length, true, some value⟩,
          ⟨first + withdrawn.length + 1, false, none⟩] := by
  induction withdrawn generalizing first with
  | nil => rfl
  | cons head rest ih =>
      rw [List.cons_append, revisions, revisions, ih, List.length_cons,
        Nat.add_right_comm, Nat.add_assoc first]
      rfl

theorem generation_of_mem_revisions {entry : Publication β}
    (h : entry ∈ revisions first withdrawn) :
    entry.generation ≤ first + withdrawn.length ∧
      (entry.terminal = true → entry.generation < first + withdrawn.length) := by
  induction withdrawn generalizing first with
  | nil => cases h
  | cons head rest ih =>
      rw [List.length_cons]
      cases h with
      | head => exact ⟨by dsimp only; omega, fun _ => by dsimp only; omega⟩
      | tail _ h =>
          cases h with
          | head => exact ⟨by dsimp only; omega, fun hterminal => nomatch hterminal⟩
          | tail _ h =>
              obtain ⟨hle, hlt⟩ := ih h
              exact ⟨by omega, fun hterminal => by
                have hbefore := hlt hterminal
                omega⟩

theorem unsettled_nil : Unsettled first first ([] : List (Publication β)) := ⟨[], rfl, rfl⟩

theorem Unsettled.publish (h : Unsettled first generation log) (final : Option β) :
    Settled first generation final (log ++ [⟨generation, true, final⟩]) := by
  obtain ⟨withdrawn, hgeneration, rfl⟩ := h
  exact ⟨withdrawn, hgeneration, rfl⟩

theorem Settled.withdraw (h : Settled first generation (some value) log) :
    Unsettled first (generation + 1) (log ++ [⟨generation + 1, false, none⟩]) := by
  obtain ⟨withdrawn, rfl, rfl⟩ := h
  refine ⟨withdrawn ++ [value], ?_, ?_⟩
  · rw [List.length_append, List.length_singleton, Nat.add_assoc]
  · rw [revisions_append, List.append_assoc]
    rfl

/-- The terminal publications of the current generation. -/
def terminals (generation : Nat) (log : List (Publication β)) : List (Publication β) :=
  log.filter fun entry => entry.terminal && entry.generation = generation

theorem Unsettled.terminals_eq (h : Unsettled first generation log) :
    terminals generation log = [] := by
  obtain ⟨withdrawn, rfl, rfl⟩ := h
  refine List.filter_eq_nil_iff.mpr fun entry hentry => ?_
  have hlt := (generation_of_mem_revisions hentry).2
  simp only [Bool.and_eq_true, decide_eq_true_eq, not_and]
  intro hterminal
  have hbefore := hlt hterminal
  omega

/-- Exactly one terminal publication of the current generation. -/
theorem Settled.terminals_eq (h : Settled first generation final log) :
    terminals generation log = [⟨generation, true, final⟩] := by
  obtain ⟨withdrawn, hgeneration, rfl⟩ := h
  have hbefore : terminals generation (revisions first withdrawn) = [] :=
    Unsettled.terminals_eq ⟨withdrawn, hgeneration, rfl⟩
  rw [terminals] at hbefore ⊢
  rw [List.filter_append, hbefore, List.nil_append]
  simp

theorem Settled.not_repeated (h : Settled first generation final log) (again : Option β) :
    ¬ Settled first generation again (log ++ [⟨generation, true, again⟩]) := by
  intro hagain
  have htwo := hagain.terminals_eq
  have hone := h.terminals_eq
  rw [terminals] at htwo hone
  rw [List.filter_append, hone] at htwo
  simp at htwo

end Publication

end Mmltk.Foundation
