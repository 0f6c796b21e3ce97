import Mathlib.Data.List.Basic
import Mathlib.Data.List.Pairwise
import Mmltk.Compile.ProgressDelivery

namespace Mmltk.Compile.ProgressDelivery

/-! Items in the order of their materialization, each stamped with the step that materialized it. -/

abbrev Stamped (α : Type) := Item (α × Nat)

/-- A flush that has begun: the sequence it waits for, and the step of the last change before it. -/
structure Waiter where
  through : Nat
  lastChange : Option Nat

/-- Whoever waits for `through` sees facts no older than the change. -/
def Covers {α : Type} (items : List (Stamped α)) (through clock : Nat) (lastChange : Option Nat) :
    Prop :=
  ∀ change, lastChange = some change → 0 < through ∧ change < clock ∧
    ∀ item ∈ items, through ≤ item.sequence → change ≤ item.value.2

structure Ledger {α : Type} (items accepted : List (Stamped α)) (submitted clock : Nat)
    (dirty : Bool) (lastChange : Option Nat) (waiters : List Waiter) : Prop where
  order : items.Pairwise fun earlier later => earlier.sequence < later.sequence
  bound : ∀ item ∈ items, item.sequence ≤ submitted
  below : dirty = true → ∀ item ∈ items, item.sequence < submitted
  lifecycle : items.filter Item.lifecycle = accepted
  stamped : ∀ item ∈ items, item.value.2 < clock
  fresh : Covers items submitted clock lastChange
  waiting : ∀ waiter ∈ waiters, waiter.through ≤ submitted ∧
    Covers items waiter.through clock waiter.lastChange

variable {α : Type} {items items' accepted front back : List (Stamped α)} {item : Stamped α}
  {submitted clock through : Nat} {dirty : Bool} {lastChange : Option Nat} {waiters : List Waiter}

theorem Covers.tick (h : Covers items through clock lastChange) :
    Covers items through (clock + 1) lastChange := by
  intro change hchange
  obtain ⟨hpositive, hbefore, hitems⟩ := h change hchange
  exact ⟨hpositive, Nat.lt_succ_of_lt hbefore, hitems⟩

theorem Covers.subset (h : Covers items through clock lastChange)
    (hsubset : ∀ item ∈ items', item ∈ items) : Covers items' through clock lastChange := by
  intro change hchange
  obtain ⟨hpositive, hbefore, hitems⟩ := h change hchange
  exact ⟨hpositive, hbefore, fun item hitem => hitems item (hsubset item hitem)⟩

/-- An item of the last step is as new as any change. -/
theorem Covers.append (h : Covers items through clock lastChange)
    (hstamp : item.value.2 + 1 = clock) : Covers (items ++ [item]) through clock lastChange := by
  intro change hchange
  obtain ⟨hpositive, hbefore, hitems⟩ := h change hchange
  refine ⟨hpositive, hbefore, fun other hother hthrough => ?_⟩
  cases List.mem_append.mp hother with
  | inl hmem => exact hitems other hmem hthrough
  | inr hlast =>
      rw [List.mem_singleton.mp hlast]
      omega

/-- Nothing was materialized under a number not yet given out. -/
theorem Covers.raise (h : Covers items submitted clock lastChange)
    (hbound : ∀ item ∈ items, item.sequence ≤ submitted) :
    Covers items (submitted + 1) (clock + 1) lastChange := by
  intro change hchange
  obtain ⟨-, hbefore, -⟩ := h change hchange
  refine ⟨Nat.succ_pos _, Nat.lt_succ_of_lt hbefore, fun item hitem hthrough => ?_⟩
  have hle := hbound item hitem
  omega

theorem Covers.now (hbound : ∀ item ∈ items, item.sequence ≤ submitted) :
    Covers items (submitted + 1) (clock + 1) (some clock) := by
  intro change hchange
  cases hchange
  refine ⟨Nat.succ_pos _, Nat.lt_succ_self _, fun item hitem hthrough => ?_⟩
  have hle := hbound item hitem
  omega

namespace Ledger

theorem initial : Ledger ([] : List (Stamped α)) [] 0 0 false none [] where
  order := List.Pairwise.nil
  bound := by simp
  below := by simp
  lifecycle := rfl
  stamped := by simp
  fresh := fun _ hchange => nomatch hchange
  waiting := by simp

theorem tick (h : Ledger items accepted submitted clock dirty lastChange waiters) :
    Ledger items accepted submitted (clock + 1) dirty lastChange waiters where
  order := h.order
  bound := h.bound
  below := h.below
  lifecycle := h.lifecycle
  stamped item hitem := Nat.lt_succ_of_lt (h.stamped item hitem)
  fresh := h.fresh.tick
  waiting waiter hwaiter := ⟨(h.waiting waiter hwaiter).1, (h.waiting waiter hwaiter).2.tick⟩

/-- A number is given out to nothing: the dirty facts of this step, or a change that failed. -/
theorem raise (h : Ledger items accepted submitted clock dirty lastChange waiters)
    (dirty' : Bool) {change : Option Nat} (hchange : change = lastChange ∨ change = some clock) :
    Ledger items accepted (submitted + 1) (clock + 1) dirty' change waiters where
  order := h.order
  bound item hitem := Nat.le_succ_of_le (h.bound item hitem)
  below _ item hitem := Nat.lt_succ_of_le (h.bound item hitem)
  lifecycle := h.lifecycle
  stamped item hitem := Nat.lt_succ_of_lt (h.stamped item hitem)
  fresh := by
    cases hchange with
    | inl hsame =>
        rw [hsame]
        exact h.fresh.raise h.bound
    | inr hnow =>
        rw [hnow]
        exact .now h.bound
  waiting waiter hwaiter :=
    ⟨Nat.le_succ_of_le (h.waiting waiter hwaiter).1, (h.waiting waiter hwaiter).2.tick⟩

theorem evict (h : Ledger (front ++ item :: back) accepted submitted clock dirty lastChange waiters)
    (hoptional : item.lifecycle = false) :
    Ledger (front ++ back) accepted submitted clock dirty lastChange waiters := by
  have hsublist : (front ++ back).Sublist (front ++ item :: back) := by simp
  have hsubset : ∀ other ∈ front ++ back, other ∈ front ++ item :: back :=
    fun other hother => hsublist.subset hother
  refine ⟨h.order.sublist hsublist, fun other hother => h.bound other (hsubset other hother),
    fun hdirty other hother => h.below hdirty other (hsubset other hother), ?_,
    fun other hother => h.stamped other (hsubset other hother), h.fresh.subset hsubset,
    fun waiter hwaiter => ⟨(h.waiting waiter hwaiter).1,
      (h.waiting waiter hwaiter).2.subset hsubset⟩⟩
  have hlifecycle := h.lifecycle
  rw [List.filter_append, List.filter_cons_of_neg (by simp [hoptional])] at hlifecycle
  rw [List.filter_append]
  exact hlifecycle

theorem append (item : Stamped α)
    (h : Ledger items accepted submitted clock true lastChange waiters)
    (hsequence : item.sequence = submitted) (hstamp : item.value.2 + 1 = clock) :
    Ledger (items ++ [item]) (accepted ++ [item].filter Item.lifecycle) submitted clock false
      lastChange waiters where
  order := by
    refine List.pairwise_append.mpr ⟨h.order, List.pairwise_singleton .., ?_⟩
    intro earlier hearlier later hlater
    rw [List.mem_singleton.mp hlater, hsequence]
    exact h.below rfl earlier hearlier
  bound other hother := by
    cases List.mem_append.mp hother with
    | inl hmem => exact h.bound other hmem
    | inr hlast =>
        rw [List.mem_singleton.mp hlast]
        exact Nat.le_of_eq hsequence
  below hdirty := absurd hdirty (by decide)
  lifecycle := by rw [List.filter_append, h.lifecycle]
  stamped other hother := by
    cases List.mem_append.mp hother with
    | inl hmem => exact h.stamped other hmem
    | inr hlast =>
        rw [List.mem_singleton.mp hlast]
        omega
  fresh := h.fresh.append hstamp
  waiting waiter hwaiter :=
    ⟨(h.waiting waiter hwaiter).1, (h.waiting waiter hwaiter).2.append hstamp⟩

theorem flush (h : Ledger items accepted submitted clock dirty lastChange waiters) :
    Ledger items accepted submitted clock dirty lastChange
      (waiters ++ [⟨submitted, lastChange⟩]) where
  order := h.order
  bound := h.bound
  below := h.below
  lifecycle := h.lifecycle
  stamped := h.stamped
  fresh := h.fresh
  waiting waiter hwaiter := by
    cases List.mem_append.mp hwaiter with
    | inl hmem => exact h.waiting waiter hmem
    | inr hlast =>
        rw [List.mem_singleton.mp hlast]
        exact ⟨Nat.le_refl _, h.fresh⟩

end Ledger

end Mmltk.Compile.ProgressDelivery
