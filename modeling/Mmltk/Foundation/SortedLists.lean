import Mathlib.Data.List.Sort

namespace Mmltk.Foundation

/-! What lists in some order are made of. -/

variable {α : Type}

/-- A list in which a predicate holds up to some point and not behind it. -/
theorem filter_append_filter {list : List α} {holds : α → Bool}
    (h : list.Pairwise fun first later => holds later = true → holds first = true) :
    list.filter holds ++ (list.filter fun item => !holds item) = list := by
  induction list with
  | nil => rfl
  | cons first rest ih =>
      obtain ⟨hfirst, hrest⟩ := List.pairwise_cons.mp h
      cases hholds : holds first with
      | true =>
          rw [List.filter_cons_of_pos hholds, List.filter_cons_of_neg (by rw [hholds]; decide),
            List.cons_append, ih hrest]
      | false =>
          have hnone : ∀ item ∈ rest, holds item = false := fun item hitem =>
            Bool.eq_false_iff.mpr fun htrue => by
              rw [hfirst item hitem htrue] at hholds
              cases hholds
          rw [List.filter_cons_of_neg (by rw [hholds]; decide),
            List.filter_cons_of_pos (by rw [hholds]; rfl),
            List.filter_eq_nil_iff.mpr fun item hitem => by rw [hnone item hitem]; decide,
            List.filter_eq_self.mpr fun item hitem => by rw [hnone item hitem]; rfl]
          rfl

/-- A list in the order of a rank is its parts of each rank, one after the other. -/
theorem flatMap_rank {list : List α} {rank : α → Nat} (count : Nat)
    (hsorted : list.Pairwise fun first later => rank first ≤ rank later)
    (hlt : ∀ item ∈ list, rank item < count) :
    ((List.range count).flatMap fun value => list.filter fun item => rank item = value) = list := by
  induction count generalizing list with
  | zero =>
      cases list with
      | nil => rfl
      | cons item rest => exact absurd (hlt item List.mem_cons_self) (Nat.not_lt_zero _)
  | succ count ih =>
      have hsplit : (list.filter fun item => decide (rank item < count)) ++
          (list.filter fun item => !decide (rank item < count)) = list :=
        filter_append_filter (hsorted.imp fun hle hless => by
          have hlater := of_decide_eq_true hless
          exact decide_eq_true (by omega))
      have hbelow := ih (hsorted.filter fun item => rank item < count) fun item hitem =>
        of_decide_eq_true (List.mem_filter.mp hitem).2
      have hlast : (list.filter fun item => !decide (rank item < count)) =
          list.filter fun item => rank item = count := by
        refine List.filter_congr fun item hitem => ?_
        have hless := hlt item hitem
        rw [← decide_not]
        exact decide_eq_decide.mpr (by omega)
      have hparts : ((List.range count).flatMap fun value =>
          (list.filter fun item => rank item < count).filter fun item => rank item = value) =
          (List.range count).flatMap fun value => list.filter fun item => rank item = value := by
        refine List.flatMap_congr fun value hvalue => ?_
        rw [List.filter_filter]
        refine List.filter_congr fun item _ => ?_
        have hless := List.mem_range.mp hvalue
        rw [← Bool.decide_and]
        exact decide_eq_decide.mpr (by omega)
      rw [List.range_succ, List.flatMap_append, List.flatMap_singleton, ← hparts, hbelow, ← hlast,
        hsplit]

/-- A list whose keys are distinct has one order by them. -/
theorem insertionSort_eq {β : Type} [LinearOrder β] {list sorted : List α} {key : α → β}
    (hperm : list.Perm sorted)
    (hsorted : sorted.Pairwise fun first later => key first ≤ key later)
    (hdistinct : (list.map key).Nodup) :
    (list.insertionSort fun first later => key first ≤ key later) = sorted := by
  have htotal : Std.Total fun first later : α => key first ≤ key later :=
    ⟨fun first later => le_total _ _⟩
  have htrans : IsTrans α fun first later => key first ≤ key later :=
    ⟨fun _ _ _ hfirst hlater => hfirst.trans hlater⟩
  have hown := List.perm_insertionSort (fun first later => key first ≤ key later) list
  refine (hown.trans hperm).eq_of_pairwise (fun first later hfirst hlater hle hge => ?_)
    (List.pairwise_insertionSort _ _) hsorted
  exact List.inj_on_of_nodup_map hdistinct (hown.mem_iff.mp hfirst) (hperm.mem_iff.mpr hlater)
    (le_antisymm hle hge)

end Mmltk.Foundation
