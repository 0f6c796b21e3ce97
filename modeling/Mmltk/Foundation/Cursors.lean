import Mathlib.Data.List.TakeWhile

namespace Mmltk.Foundation

/-! A cursor that passes the items of a list which are done with. -/

variable {α : Type} {list : List α} {done : α → Bool} {cursor : Nat}

/-- Where a cursor comes to. -/
def passDone (done : α → Bool) (list : List α) (cursor : Nat) : Nat :=
  cursor + ((list.drop cursor).takeWhile done).length

theorem passDone_take (h : ∀ item ∈ list.take cursor, done item = true) :
    ∀ item ∈ list.take (passDone done list cursor), done item = true := by
  intro item hitem
  rw [passDone, List.take_add] at hitem
  rcases List.mem_append.mp hitem with hold | hnew
  · exact h item hold
  · rw [← List.prefix_iff_eq_take.mp (List.takeWhile_prefix _)] at hnew
    exact List.mem_takeWhile_imp hnew

theorem getElem?_takeWhile (list : List α) (done : α → Bool) :
    ∀ item, list[(list.takeWhile done).length]? = some item → done item = false := by
  induction list with
  | nil => exact nofun
  | cons first rest ih =>
      rw [List.takeWhile_cons]
      split
      next => exact ih
      next hnot =>
        intro item hitem
        cases hitem
        exact Bool.eq_false_iff.mpr hnot

/-- The item where the cursor comes to is the first that is not done with. -/
theorem passDone_item {item : α} (h : list[passDone done list cursor]? = some item) :
    done item = false := by
  rw [passDone, ← List.getElem?_drop] at h
  exact getElem?_takeWhile _ done item h

/-- The cursor comes to the end if all items are done with, and only then. -/
theorem passDone_lt_iff (h : ∀ item ∈ list.take cursor, done item = true) :
    passDone done list cursor < list.length ↔ ∃ item ∈ list, done item = false := by
  constructor
  · intro hless
    exact ⟨_, List.getElem_mem hless, passDone_item (List.getElem?_eq_getElem hless)⟩
  · intro ⟨item, hitem, hopen⟩
    refine Nat.lt_of_not_le fun hle => ?_
    have hdone := passDone_take h item (by rwa [List.take_of_length_le hle])
    rw [hopen] at hdone
    cases hdone

end Mmltk.Foundation
