import Mathlib.Data.Set.Card
import Mmltk.Foundation.Intervals

namespace Mmltk.Foundation

/-! Half-open intervals in increasing order that may touch. -/

structure Ordered (intervals : List Interval) : Prop where
  valid : ∀ interval ∈ intervals, interval.1 < interval.2
  apart : intervals.Pairwise fun earlier later => earlier.2 ≤ later.1

namespace Ordered

variable {interval : Interval} {intervals front back : List Interval} {first last address : Nat}

theorem nil : Ordered [] := ⟨nofun, .nil⟩

theorem cons_iff : Ordered (interval :: intervals) ↔
    interval.1 < interval.2 ∧ (∀ later ∈ intervals, interval.2 ≤ later.1) ∧ Ordered intervals := by
  constructor
  · intro h
    obtain ⟨hfirst, hrest⟩ := List.pairwise_cons.mp h.apart
    exact ⟨h.valid interval List.mem_cons_self, hfirst,
      fun other hmem => h.valid other (List.mem_cons_of_mem _ hmem), hrest⟩
  · intro h
    obtain ⟨hvalid, hfirst, hrest⟩ := h
    refine ⟨fun other hmem => ?_, List.pairwise_cons.mpr ⟨hfirst, hrest.apart⟩⟩
    rcases List.mem_cons.mp hmem with heq | hlater
    · exact heq ▸ hvalid
    · exact hrest.valid other hlater

theorem of_separated {unit : Nat} (h : Separated unit intervals) : Ordered intervals :=
  ⟨fun interval hmem => (h.valid interval hmem).1, h.apart.imp Nat.le_of_lt⟩

theorem concat (h : Ordered intervals) (hlt : first < last)
    (hbefore : ∀ interval ∈ intervals, interval.2 ≤ first) :
    Ordered (intervals ++ [(first, last)]) := by
  refine ⟨fun interval hmem => ?_, List.pairwise_append.mpr ⟨h.apart, List.pairwise_singleton _ _,
    fun earlier hmem later hlater => ?_⟩⟩
  · rcases List.mem_append.mp hmem with hin | hlast
    · exact h.valid interval hin
    · rw [List.mem_singleton.mp hlast]
      exact hlt
  · rw [List.mem_singleton.mp hlater]
    exact hbefore earlier hmem

/-- An interval ends where its last address does. -/
theorem end_le (h : Ordered intervals) (hbelow : ∀ address, Covered intervals address → address < last) :
    ∀ interval ∈ intervals, interval.2 ≤ last := by
  intro interval hmem
  have hvalid := h.valid interval hmem
  have hlast := hbelow (interval.2 - 1) ⟨interval, hmem, by omega, by omega⟩
  omega

/-- Behind the first interval all addresses are behind its end. -/
theorem tail_ge (h : Ordered (interval :: intervals)) (hcovered : Covered intervals address) :
    interval.2 ≤ address := by
  obtain ⟨-, hlater, -⟩ := cons_iff.mp h
  obtain ⟨later, hmem, hin⟩ := hcovered
  exact (hlater later hmem).trans hin.1

theorem head_ge (h : Ordered (interval :: intervals))
    (hcovered : Covered (interval :: intervals) address) : interval.1 ≤ address := by
  rcases covered_cons.mp hcovered with hin | hrest
  · exact hin.1
  · exact (Nat.le_of_lt (cons_iff.mp h).1).trans (h.tail_ge hrest)

theorem finite (intervals : List Interval) : {address | Covered intervals address}.Finite := by
  induction intervals with
  | nil => exact Set.finite_empty.subset fun address hcovered => (covered_nil hcovered).elim
  | cons interval intervals ih =>
      refine ((Set.finite_Ico interval.1 interval.2).union ih).subset fun address hcovered => ?_
      exact covered_cons.mp hcovered

/-- Ordered intervals are as long as there are addresses in them. -/
theorem totalLength_eq (h : Ordered intervals) :
    totalLength intervals = {address | Covered intervals address}.ncard := by
  induction intervals with
  | nil =>
      have hempty : {address | Covered [] address} = ∅ :=
        Set.eq_empty_of_forall_notMem fun address hcovered => covered_nil hcovered
      rw [hempty, Set.ncard_empty]
      rfl
  | cons interval intervals ih =>
      have hsplit : {address | Covered (interval :: intervals) address} =
          Set.Ico interval.1 interval.2 ∪ {address | Covered intervals address} :=
        Set.ext fun address => covered_cons
      have hdisjoint : Disjoint (Set.Ico interval.1 interval.2)
          {address | Covered intervals address} := by
        refine Set.disjoint_left.mpr fun address hin hcovered => ?_
        exact absurd (h.tail_ge hcovered) (Nat.not_le.mpr hin.2)
      have hown : (Set.Ico interval.1 interval.2).ncard = interval.2 - interval.1 := by
        rw [← Finset.coe_Ico, Set.ncard_coe_finset, Nat.card_Ico]
      rw [hsplit, Set.ncard_union_eq hdisjoint (Set.finite_Ico _ _) (finite intervals), hown,
        ← ih (cons_iff.mp h).2.2]
      rfl

end Ordered

end Mmltk.Foundation
