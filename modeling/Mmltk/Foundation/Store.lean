import Mathlib.Algebra.Order.BigOperators.Group.Finset

namespace Mmltk.Foundation

/-! Objects by address: which addresses are alive, and what each one holds. -/

structure Store (α : Type) where
  live : Finset Nat
  get : Nat → α

namespace Store

variable {α : Type} {store : Store α} {id other : Nat} {value : α}

def empty (value : α) : Store α := ⟨∅, fun _ => value⟩

def construct (store : Store α) (id : Nat) (value : α) : Store α :=
  ⟨insert id store.live, Function.update store.get id value⟩

def modify (store : Store α) (id : Nat) (change : α → α) : Store α :=
  ⟨store.live, Function.update store.get id (change (store.get id))⟩

def destroy (store : Store α) (id : Nat) : Store α :=
  ⟨store.live.erase id, store.get⟩

/-- A measure summed over every live object. -/
def total (store : Store α) (measure : α → Nat) : Nat :=
  ∑ id ∈ store.live, measure (store.get id)

@[simp] theorem construct_live : (store.construct id value).live = insert id store.live := rfl

@[simp] theorem construct_get : (store.construct id value).get id = value := by
  simp [construct]

theorem construct_get_of_ne (h : other ≠ id) :
    (store.construct id value).get other = store.get other := by
  simp [construct, h]

@[simp] theorem modify_live {change : α → α} : (store.modify id change).live = store.live := rfl

@[simp] theorem modify_get {change : α → α} :
    (store.modify id change).get id = change (store.get id) := by
  simp [modify]

theorem modify_get_of_ne {change : α → α} (h : other ≠ id) :
    (store.modify id change).get other = store.get other := by
  simp [modify, h]

@[simp] theorem destroy_live : (store.destroy id).live = store.live.erase id := rfl

@[simp] theorem destroy_get : (store.destroy id).get = store.get := rfl

theorem total_construct (measure : α → Nat) (value : α) (h : id ∉ store.live) :
    (store.construct id value).total measure = store.total measure + measure value := by
  rw [total, construct_live, Finset.sum_insert h, construct_get, Nat.add_comm]
  congr 1
  apply Finset.sum_congr rfl
  intro other hother
  have hne : other ≠ id := fun heq => h (heq ▸ hother)
  rw [construct_get_of_ne hne]

theorem total_modify (measure : α → Nat) (change : α → α) (h : id ∈ store.live) :
    (store.modify id change).total measure + measure (store.get id) =
      store.total measure + measure (change (store.get id)) := by
  have hrest : ∑ other ∈ store.live.erase id, measure ((store.modify id change).get other) =
      ∑ other ∈ store.live.erase id, measure (store.get other) := by
    apply Finset.sum_congr rfl
    intro other hother
    rw [modify_get_of_ne (Finset.ne_of_mem_erase hother)]
  have hafter := Finset.add_sum_erase store.live
    (fun other => measure ((store.modify id change).get other)) h
  have hbefore := Finset.add_sum_erase store.live (fun other => measure (store.get other)) h
  rw [modify_get, hrest] at hafter
  show ∑ other ∈ store.live, measure ((store.modify id change).get other) + _ =
    ∑ other ∈ store.live, measure (store.get other) + _
  omega

theorem total_destroy (measure : α → Nat) (h : id ∈ store.live) :
    (store.destroy id).total measure + measure (store.get id) = store.total measure :=
  Finset.sum_erase_add store.live (fun other => measure (store.get other)) h

theorem le_total (measure : α → Nat) (h : id ∈ store.live) :
    measure (store.get id) ≤ store.total measure :=
  Finset.single_le_sum (f := fun other => measure (store.get other))
    (fun _ _ => Nat.zero_le _) h

theorem total_eq_zero {measure : α → Nat} (h : ∀ id ∈ store.live, measure (store.get id) = 0) :
    store.total measure = 0 :=
  Finset.sum_eq_zero h

theorem total_congr {store' : Store α} {measure measure' : α → Nat}
    (hlive : store'.live = store.live)
    (h : ∀ id ∈ store.live, measure' (store'.get id) = measure (store.get id)) :
    store'.total measure' = store.total measure := by
  rw [total, hlive]
  exact Finset.sum_congr rfl h

end Store

end Mmltk.Foundation
