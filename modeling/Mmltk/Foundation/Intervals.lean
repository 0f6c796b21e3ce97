import Mathlib.Algebra.GroupWithZero.Nat
import Mathlib.Order.Interval.Finset.Nat

namespace Mmltk.Foundation

/-! Half-open intervals in increasing order, with a gap between any two of them and all their
ends at multiples of a unit. -/

abbrev Interval := Nat × Nat

def Covered (intervals : List Interval) (address : Nat) : Prop :=
  ∃ interval ∈ intervals, interval.1 ≤ address ∧ address < interval.2

structure Separated (unit : Nat) (intervals : List Interval) : Prop where
  valid : ∀ interval ∈ intervals, interval.1 < interval.2 ∧ unit ∣ interval.1 ∧ unit ∣ interval.2
  apart : intervals.Pairwise fun earlier later => earlier.2 < later.1

def totalLength (intervals : List Interval) : Nat :=
  (intervals.map fun interval => interval.2 - interval.1).sum

variable {unit : Nat} {interval : Interval} {intervals front back : List Interval} {address : Nat}

theorem covered_nil : ¬ Covered [] address := by
  intro h
  obtain ⟨interval, hmem, -⟩ := h
  exact List.not_mem_nil hmem

theorem covered_cons :
    Covered (interval :: intervals) address ↔
      (interval.1 ≤ address ∧ address < interval.2) ∨ Covered intervals address := by
  constructor
  · intro h
    obtain ⟨other, hmem, hin⟩ := h
    rcases List.mem_cons.mp hmem with heq | hrest
    · exact .inl (heq ▸ hin)
    · exact .inr ⟨other, hrest, hin⟩
  · intro h
    rcases h with hin | ⟨other, hmem, hin⟩
    · exact ⟨interval, List.mem_cons_self, hin⟩
    · exact ⟨other, List.mem_cons_of_mem _ hmem, hin⟩

theorem covered_append :
    Covered (front ++ back) address ↔ Covered front address ∨ Covered back address := by
  induction front with
  | nil =>
      rw [List.nil_append]
      exact ⟨.inr, fun h => h.resolve_left covered_nil⟩
  | cons interval rest ih =>
      rw [List.cons_append, covered_cons, ih, covered_cons, or_assoc]

namespace Separated

theorem nil : Separated unit [] where
  valid _ hmem := (List.not_mem_nil hmem).elim
  apart := List.Pairwise.nil

theorem cons_iff :
    Separated unit (interval :: intervals) ↔
      (interval.1 < interval.2 ∧ unit ∣ interval.1 ∧ unit ∣ interval.2) ∧
        (∀ later ∈ intervals, interval.2 < later.1) ∧ Separated unit intervals := by
  constructor
  · intro h
    obtain ⟨hfirst, hrest⟩ := List.pairwise_cons.mp h.apart
    exact ⟨h.valid interval List.mem_cons_self, hfirst,
      ⟨fun other hmem => h.valid other (List.mem_cons_of_mem _ hmem), hrest⟩⟩
  · intro h
    obtain ⟨hvalid, hfirst, hrest⟩ := h
    refine ⟨?_, List.pairwise_cons.mpr ⟨hfirst, hrest.apart⟩⟩
    intro other hmem
    rcases List.mem_cons.mp hmem with heq | hlater
    · exact heq ▸ hvalid
    · exact hrest.valid other hlater

theorem append_iff :
    Separated unit (front ++ back) ↔ Separated unit front ∧ Separated unit back ∧
      ∀ earlier ∈ front, ∀ later ∈ back, earlier.2 < later.1 := by
  constructor
  · intro h
    obtain ⟨hfront, hback, hcross⟩ := List.pairwise_append.mp h.apart
    exact ⟨⟨fun other hmem => h.valid other (List.mem_append_left _ hmem), hfront⟩,
      ⟨fun other hmem => h.valid other (List.mem_append_right _ hmem), hback⟩, hcross⟩
  · intro h
    obtain ⟨hfront, hback, hcross⟩ := h
    refine ⟨?_, List.pairwise_append.mpr ⟨hfront.apart, hback.apart, hcross⟩⟩
    intro other hmem
    rcases List.mem_append.mp hmem with hin | hin
    · exact hfront.valid other hin
    · exact hback.valid other hin

theorem insert {first last : Nat} (h : Separated unit (front ++ back)) (hlt : first < last)
    (hfirst : unit ∣ first) (hlast : unit ∣ last) (hfront : ∀ earlier ∈ front, earlier.2 < first)
    (hback : ∀ later ∈ back, last < later.1) :
    Separated unit (front ++ (first, last) :: back) := by
  obtain ⟨hbefore, hafter, hcross⟩ := append_iff.mp h
  refine append_iff.mpr ⟨hbefore, cons_iff.mpr ⟨⟨hlt, hfirst, hlast⟩, hback, hafter⟩, ?_⟩
  intro earlier hmem later hin
  rcases List.mem_cons.mp hin with heq | hlater
  · exact heq ▸ hfront earlier hmem
  · exact hcross earlier hmem later hlater

/-- Separated intervals are no longer than the units they cover. -/
theorem totalLength_le (h : Separated unit intervals) (hunit : 0 < unit) (units : Finset Nat)
    (hunits : ∀ address, Covered intervals address → address / unit ∈ units) :
    totalLength intervals ≤ unit * units.card := by
  induction intervals generalizing units with
  | nil => exact Nat.zero_le _
  | cons interval rest ih =>
      obtain ⟨⟨hlt, ⟨first, hfirst⟩, ⟨last, hlast⟩⟩, hlater, hrest⟩ := cons_iff.mp h
      have hown : Finset.Ico first last ⊆ units := by
        intro index hindex
        obtain ⟨hge, hindex_lt⟩ := Finset.mem_Ico.mp hindex
        have hcovered : Covered (interval :: rest) (unit * index) := by
          refine ⟨interval, List.mem_cons_self, ?_, ?_⟩
          · rw [hfirst]
            exact Nat.mul_le_mul_left unit hge
          · rw [hlast]
            exact Nat.mul_lt_mul_of_pos_left hindex_lt hunit
        have hmem := hunits _ hcovered
        rwa [Nat.mul_div_cancel_left _ hunit] at hmem
      have htail := ih hrest (units \ Finset.Ico first last) fun address hcovered => by
        refine Finset.mem_sdiff.mpr ⟨hunits address (covered_cons.mpr (.inr hcovered)), ?_⟩
        intro hin
        obtain ⟨later, hmem, hge, -⟩ := hcovered
        have hafter := hlater later hmem
        have hindex := (Finset.mem_Ico.mp hin).2
        rw [Nat.div_lt_iff_lt_mul hunit, Nat.mul_comm, ← hlast] at hindex
        omega
      have hcard : (units \ Finset.Ico first last).card + (last - first) = units.card := by
        have hsdiff := Finset.card_sdiff_add_card_eq_card hown
        rwa [Nat.card_Ico] at hsdiff
      have hlength : interval.2 - interval.1 = unit * (last - first) := by
        rw [hfirst, hlast, Nat.mul_sub]
      rw [totalLength, List.map_cons, List.sum_cons, hlength, ← hcard, Nat.mul_add, Nat.add_comm]
      exact Nat.add_le_add_right htail _

end Separated

variable {others : List Interval} {first middle last : Nat}

namespace Separated

theorem le_last (h : Separated unit (front ++ [interval])) {other : Interval}
    (hmem : other ∈ front ++ [interval]) : other.2 ≤ interval.2 := by
  obtain ⟨-, hback, hcross⟩ := append_iff.mp h
  obtain hin | hlast := List.mem_append.mp hmem
  · have hbefore := hcross other hin interval List.mem_cons_self
    have hvalid := (hback.valid interval List.mem_cons_self).1
    omega
  · rw [List.mem_singleton.mp hlast]

theorem concat (h : Separated 1 intervals) (hlt : first < last)
    (hbefore : ∀ interval ∈ intervals, interval.2 < first) :
    Separated 1 (intervals ++ [(first, last)]) := by
  refine append_iff.mpr ⟨h, cons_iff.mpr ⟨⟨hlt, one_dvd _, one_dvd _⟩, nofun, .nil⟩, ?_⟩
  intro earlier hmem later hlater
  rw [List.mem_singleton.mp hlater]
  exact hbefore earlier hmem

theorem widen (h : Separated 1 (front ++ [(first, middle)])) (hle : middle ≤ last) :
    Separated 1 (front ++ [(first, last)]) := by
  obtain ⟨hfront, hback, hcross⟩ := append_iff.mp h
  have hvalid := (hback.valid _ List.mem_cons_self).1
  refine hfront.concat (by dsimp only at hvalid; omega) fun earlier hmem => ?_
  exact hcross earlier hmem _ List.mem_cons_self

end Separated

theorem covered_singleton : Covered [(first, last)] address ↔ first ≤ address ∧ address < last := by
  rw [covered_cons, or_iff_left covered_nil]

theorem covered_concat :
    Covered (intervals ++ [(first, last)]) address ↔
      Covered intervals address ∨ first ≤ address ∧ address < last := by
  rw [covered_append, covered_singleton]

theorem covered_widen (hfirst : first ≤ middle) (hle : middle ≤ last) :
    Covered (front ++ [(first, last)]) address ↔
      Covered (front ++ [(first, middle)]) address ∨ middle ≤ address ∧ address < last := by
  rw [covered_concat, covered_concat, or_assoc]
  refine or_congr_right ?_
  omega

namespace Separated

theorem head_le (h : Separated unit (interval :: intervals))
    (hcovered : Covered (interval :: intervals) address) : interval.1 ≤ address := by
  obtain ⟨hvalid, hlater, -⟩ := cons_iff.mp h
  obtain hin | ⟨later, hmem, hin⟩ := covered_cons.mp hcovered
  · exact hin.1
  · have hafter := hlater later hmem
    omega

theorem head_lt (h : Separated unit (interval :: intervals)) (hcovered : Covered intervals address) :
    interval.2 < address := by
  obtain ⟨-, hlater, -⟩ := cons_iff.mp h
  obtain ⟨later, hmem, hin⟩ := hcovered
  have hafter := hlater later hmem
  omega

theorem head_end (h : Separated unit (interval :: intervals)) :
    ¬ Covered (interval :: intervals) interval.2 := by
  intro hcovered
  obtain hin | hrest := covered_cons.mp hcovered
  · exact absurd hin.2 (lt_irrefl _)
  · exact absurd (h.head_lt hrest) (lt_irrefl _)

theorem head_unique {other : Interval} (h : Separated unit (interval :: intervals))
    (hother : Separated unit (other :: others))
    (hsame : ∀ address, Covered (interval :: intervals) address ↔
      Covered (other :: others) address) : interval = other := by
  have hvalid := (cons_iff.mp h).1.1
  have hvalidOther := (cons_iff.mp hother).1.1
  have hle := hother.head_le ((hsame _).mp (covered_cons.mpr (.inl ⟨le_refl _, hvalid⟩)))
  have hge := h.head_le ((hsame _).mpr (covered_cons.mpr (.inl ⟨le_refl _, hvalidOther⟩)))
  have hends : other.2 ≤ interval.2 := by
    by_contra hlong
    exact h.head_end ((hsame _).mpr (covered_cons.mpr (.inl ⟨by omega, by omega⟩)))
  have hendsOther : interval.2 ≤ other.2 := by
    by_contra hlong
    exact hother.head_end ((hsame _).mp (covered_cons.mpr (.inl ⟨by omega, by omega⟩)))
  exact Prod.ext (le_antisymm hge hle) (le_antisymm hendsOther hends)

/-- Separated intervals that cover the same addresses are the same. -/
theorem ext (h : Separated unit intervals) (hother : Separated unit others)
    (hsame : ∀ address, Covered intervals address ↔ Covered others address) :
    intervals = others := by
  induction intervals generalizing others with
  | nil =>
      cases others with
      | nil => rfl
      | cons other rest =>
          have hvalid := (cons_iff.mp hother).1.1
          exact absurd ((hsame other.1).mpr (covered_cons.mpr (.inl ⟨le_refl _, hvalid⟩))) covered_nil
  | cons interval rest ih =>
      cases others with
      | nil =>
          have hvalid := (cons_iff.mp h).1.1
          exact absurd ((hsame interval.1).mp (covered_cons.mpr (.inl ⟨le_refl _, hvalid⟩)))
            covered_nil
      | cons other others =>
          obtain rfl := h.head_unique hother hsame
          refine congrArg (interval :: ·) (ih (cons_iff.mp h).2.2 (cons_iff.mp hother).2.2 ?_)
          intro address
          have hboth := hsame address
          rw [covered_cons, covered_cons] at hboth
          constructor
          · intro hcovered
            have hafter := h.head_lt hcovered
            exact (hboth.mp (.inr hcovered)).resolve_left fun hin => by omega
          · intro hcovered
            have hafter := hother.head_lt hcovered
            exact (hboth.mpr (.inr hcovered)).resolve_left fun hin => by omega

end Separated

end Mmltk.Foundation
