import Mmltk.Benchmark.AnnotationSettled

namespace Mmltk.Benchmark.Annotations

open Mmltk.Foundation

/-! `discover`, and then `settle` or `download_unavailable`. -/

variable {I D E : Type} {admission : Split → CocoSplitAdmission} {first : Split → Nat}
  {files : Split → SplitFiles I D} {found : Split → Option D}

/-- The sink has received, for every selected split, exactly one terminal publication of its last
generation, with the index that is installed, and nothing after it; whatever it had received before
was withdrawn, each time into the next generation. -/
def Published (first : Split → Nat) (cache : CocoAnnotationCache I D) : Prop :=
  ∀ which, (cache.split which).admission ≠ .unselected →
    Publication.Settled (first which) (cache.split which).generation (cache.split which).index
      (cache.split which).published

structure SettledProperly (first : Split → Nat) (completed : Nat)
    (before : CocoAnnotationCache I D)
    (result : Settling I D × Except (SettleFailure E) Unit) : Prop where
  published : result.2 = .ok () → Published first result.1.cache
  retained : result.2 = .ok () → ∀ which index, (before.split which).index = some index →
    (result.1.cache.split which).index = some index
  sources : result.2 = .ok () → Sourced before.split result.1
  completed : result.2 = .ok () → result.1.completed =
    completed + [Split.validation, .train].countP fun which =>
      (before.split which).missing && (result.1.cache.split which).index.isSome
  throws : before.pending = true →
    (∀ exception, result.2 ≠ .error (.stopped (.raised exception))) →
    (result.2 ≠ .ok () ↔ result.1.cache.requiredMissing = true)

structure UnavailableProperly (first : Split → Nat) (before : CocoAnnotationCache I D)
    (result : CocoAnnotationCache I D × Except (Fault E) Unit) : Prop where
  published : result.2 = .ok () → Published first result.1
  retained : ∀ which, (result.1.split which).index = (before.split which).index
  throws : (∀ exception, result.2 ≠ .error (.raised exception)) →
    (result.2 ≠ .ok () ↔ result.1.requiredMissing = true)

theorem discover_split (which : Split) :
    let split := ((CocoAnnotationCache.construct admission first files).discover found).split which
    split.admission = admission which ∧ (split.admission = .unselected → split.index = none) ∧
      (split.admission ≠ .unselected → Logged (first which) False split) := by
  dsimp only [CocoAnnotationCache.discover, CocoAnnotationCache.construct]
  split
  next hunselected =>
    exact ⟨rfl, fun _ => rfl, fun hselected => absurd hunselected hselected⟩
  next hselected =>
    split
    · exact ⟨rfl, fun _ => rfl, fun _ => logged_none rfl Publication.unsettled_nil⟩
    next digest hfound =>
      refine ⟨rfl, fun hunselected => absurd hunselected hselected, fun _ => ?_⟩
      exact logged_some rfl (Publication.unsettled_nil.publish (some (⟨digest, none⟩ : Index I D)))

theorem discover_underway (archive : I) (completed : Nat) :
    let cache := (CocoAnnotationCache.construct admission first files).discover found
    Underway cache.split first completed False ⟨cache, archive, 0, completed⟩ ∧
      Back cache.split ⟨cache, archive, 0, completed⟩ := by
  intro cache
  have hback : Back cache.split ⟨cache, archive, 0, completed⟩ := fun which hmissing =>
    SplitState.index_eq_none hmissing
  refine ⟨⟨fun which => rfl, fun which _ => rfl, fun which hselected =>
    (discover_split which).2.2 hselected, ?_⟩, hback⟩
  have hnothing : [Split.validation, .train].countP (fun which =>
      (cache.split which).missing && (cache.split which).index.isSome) = 0 := by
    refine List.countP_eq_zero.mpr fun which _ hcounted => ?_
    rw [Bool.and_eq_true] at hcounted
    rw [SplitState.index_eq_none hcounted.1] at hcounted
    cases hcounted.2
  rw [hnothing, Nat.add_zero]

theorem discover_pending (which : Split)
    (hmissing : (((CocoAnnotationCache.construct admission first files).discover found).split
      which).missing = true) :
    ((CocoAnnotationCache.construct admission first files).discover found).pending = true :=
  List.any_eq_true.mpr ⟨which, Settling.mem_all which, hmissing⟩

theorem requiredMissing_settleMissing (cache : CocoAnnotationCache I D) :
    cache.settleMissingSplits.requiredMissing = cache.requiredMissing := by
  have hsplit : ∀ which, (cache.settleMissingSplits.split which).requiredMissing =
      (cache.split which).requiredMissing := by
    intro which
    obtain ⟨hindex, hadmission, -⟩ := settleMissing_index (cache.split which)
    have hsettled : cache.settleMissingSplits.split which = (cache.split which).settleMissing := rfl
    rw [hsettled, SplitState.requiredMissing, SplitState.requiredMissing, hindex, hadmission]
  simp only [CocoAnnotationCache.requiredMissing, CocoAnnotationCache.anySplit, hsplit]

/-- The end of `settle`: what is missing is published as such, for the first time. -/
theorem Underway.published {start : Split → SplitState I D} {completed : Nat}
    {settling : Settling I D} (h : Underway start first completed False settling) :
    Published first settling.cache.settleMissingSplits := by
  intro which hselected
  obtain ⟨hindex, hadmission, hgeneration⟩ := settleMissing_index (settling.cache.split which)
  have hsettled : settling.cache.settleMissingSplits.split which =
      (settling.cache.split which).settleMissing := rfl
  rw [hsettled, hadmission] at hselected
  rw [hsettled, hindex, hgeneration]
  exact settleMissing_settled hselected (h.logged which (h.admission which ▸ hselected))

theorem Underway.not_published {start : Split → SplitState I D} {completed : Nat} {closed : Prop}
    {settling : Settling I D} (h : Underway start first completed closed settling)
    (hclosed : closed) {which : Split} (hmissing : (settling.cache.split which).missing = true) :
    ¬ Published first settling.cache.settleMissingSplits := by
  intro hpublished
  obtain ⟨hselected, hnone⟩ := missing_eq_true.mp hmissing
  obtain ⟨hindex, hadmission, hgeneration⟩ := settleMissing_index (settling.cache.split which)
  have hsettled : settling.cache.settleMissingSplits.split which =
      (settling.cache.split which).settleMissing := rfl
  have hagain := hpublished which (hadmission.trans_ne hselected)
  rw [hsettled, hindex, hgeneration, SplitState.settleMissing, if_pos hmissing] at hagain
  have hlogged := h.logged which (h.admission which ▸ hselected)
  rw [Logged, hnone] at hlogged
  rw [hnone, SplitState.publish, hnone] at hagain
  exact (hlogged.1 hclosed).not_repeated none hagain

theorem downloadUnavailable_properly (cancelled : Option E) :
    let before := (CocoAnnotationCache.construct admission first files).discover found
    UnavailableProperly first before (before.downloadUnavailable cancelled) := by
  intro before
  unfold CocoAnnotationCache.downloadUnavailable
  cases cancelled with
  | some exception =>
      exact ⟨fun hok => (nomatch hok), fun which => rfl, fun hraised => absurd rfl (hraised exception)⟩
  | none =>
      dsimp only
      split
      next hrequired =>
        exact ⟨fun hok => (nomatch hok), fun which => rfl, fun _ =>
          iff_of_true (fun hok => (nomatch hok)) hrequired⟩
      next hrequired =>
        refine ⟨fun _ which hselected => ?_, fun which => (settleMissing_index _).1, fun _ =>
          iff_of_false (fun hthrows => hthrows rfl) ?_⟩
        · obtain ⟨hindex, hadmission, hgeneration⟩ := settleMissing_index (before.split which)
          have hsettled : before.settleMissingSplits.warnUnavailable.split which =
              (before.split which).settleMissing := rfl
          rw [hsettled, hadmission] at hselected
          rw [hsettled, hindex, hgeneration]
          exact settleMissing_settled hselected ((discover_split which).2.2 hselected)
        · have hsame : before.settleMissingSplits.warnUnavailable.requiredMissing =
              before.settleMissingSplits.requiredMissing := rfl
          rw [hsame, requiredMissing_settleMissing]
          exact hrequired

section

variable [DecidableEq I] [DecidableEq D]

/-- All of it but the publications, which are right unless an unavailable repair ended the call. -/
theorem settle_properly (digest : I → Split → Nat → D) (archive : I) (completed : Nat)
    (one two three : Attempt I E) :
    let before := (CocoAnnotationCache.construct admission first files).discover found
    SettledProperly first completed before
        (Settling.settle digest before archive completed one two three) ↔
      ¬ Unrepaired digest [one, two, three] ⟨before, archive, 0, completed⟩ := by
  intro before
  obtain ⟨hunderway, hback⟩ := @discover_underway _ _ admission first files found archive completed
  have hended := @attempts_ended _ _ _ _ _ _ _ digest _ _ one [two, three] hunderway hback
    fun hdeliveries => absurd rfl hdeliveries
  change Ended before.split first completed
    (Unrepaired digest [one, two, three] ⟨before, archive, 0, completed⟩) _ at hended
  have hpending : Unrepaired digest [one, two, three] ⟨before, archive, 0, completed⟩ →
      before.pending = true := by
    intro hunrepaired
    obtain ⟨which, -, hmissing⟩ := List.any_eq_true.mp hunrepaired.failing.looking
    exact discover_pending which hmissing
  unfold Settling.settle
  cases hwaiting : before.pending with
  | false =>
      refine iff_of_true ⟨fun hok => (by cases hok), fun hok => (by cases hok), fun hok => (by cases hok),
        fun hok => (by cases hok), fun hwaits => ?_⟩ fun hunrepaired => ?_
      · rw [hwaiting] at hwaits
        cases hwaits
      · rw [hpending hunrepaired] at hwaiting
        cases hwaiting
  | true =>
      simp only [Bool.not_true, Bool.false_eq_true, if_false]
      generalize Settling.attempts digest [one, two, three] ⟨before, archive, 0, completed⟩ =
        result at hended ⊢
      obtain ⟨settled, outcome⟩ := result
      cases outcome with
      | error fault =>
          refine iff_of_true ⟨fun hok => (by cases hok), fun hok => (by cases hok),
            fun hok => (by cases hok), fun hok => (by cases hok), fun _ hraised => ?_⟩ fun hunrepaired => ?_
          · cases fault with
            | raised exception => exact absurd rfl (hraised exception)
            | sourceUnavailable =>
                exact iff_of_true (fun hok => (by cases hok)) (hended.throws rfl)
          · cases (hended.twice hunrepaired).1
      | ok value =>
          obtain ⟨hsettled, hsourced, hrequired⟩ := hended.returns rfl
          refine ⟨fun hproperly hunrepaired => ?_, fun hunrepaired => ?_⟩
          · obtain ⟨-, which, hmissing⟩ := hended.twice hunrepaired
            exact hsettled.not_published hunrepaired hmissing (hproperly.published rfl)
          · have hopen := hsettled.congr (iff_of_false hunrepaired id)
            refine ⟨fun _ => hopen.published, fun _ which index hindex => ?_,
              fun _ which index hstart hindex => ?_, fun _ => ?_, fun _ _ =>
              iff_of_false (fun hthrows => hthrows rfl) ?_⟩
            · have hpresent : (before.split which).missing = false := by
                rw [SplitState.missing, hindex, Option.isNone_some, Bool.and_false]
              exact (settleMissing_index _).1.trans ((hopen.spared which hpresent).trans hindex)
            · exact hsourced which index hstart ((settleMissing_index _).1.symm.trans hindex)
            · refine hopen.completed.trans
                (congrArg (completed + ·) (List.countP_congr fun which _ => ?_))
              rw [← (settleMissing_index (settled.cache.split which)).1]
              exact Iff.rfl
            · have hsame := requiredMissing_settleMissing settled.cache
              exact fun hmissed => Bool.eq_false_iff.mp hrequired (hsame.symm.trans hmissed)

/-- Whatever the admissions, the files, what `discover` finds and what the attempts meet: both calls
keep the sink, the sources, the count and the required splits right, but for `settle` when a repair is
unavailable and no required split is missing. -/
theorem annotations_settled_iff (digest : I → Split → Nat → D)
    (admission : Split → CocoSplitAdmission) (first : Split → Nat) (files : Split → SplitFiles I D)
    (found : Split → Option D) (archive : I) (completed : Nat) (one two three : Attempt I E)
    (cancelled : Option E) :
    let before := (CocoAnnotationCache.construct admission first files).discover found
    SettledProperly first completed before
          (Settling.settle digest before archive completed one two three) ∧
        UnavailableProperly first before (before.downloadUnavailable cancelled) ↔
      ¬ Unrepaired digest [one, two, three] ⟨before, archive, 0, completed⟩ := by
  intro before
  have hsettle := @settle_properly _ _ _ admission first files found _ _ digest archive completed
    one two three
  exact ⟨fun h => hsettle.mp h.1, fun h =>
    ⟨hsettle.mpr h, downloadUnavailable_properly cancelled⟩⟩

end

/-- An archive without the members, whose repair is unavailable: the optional splits are published as
missing by `download_unavailable`, and once more at the end of `settle`. -/
theorem annotations_settled_twice :
    let before : CocoAnnotationCache Nat Nat :=
      (CocoAnnotationCache.construct (fun _ => .optional) (fun _ => 1) fun _ => .removed).discover
        fun _ => none
    let attempt : Attempt Nat Nat := ⟨[], none, fun _ => .ok (), none, .error .sourceUnavailable⟩
    ¬ SettledProperly (fun _ => 1) 0 before
      (Settling.settle (fun archive _ bytes => archive + bytes) before 0 0 attempt attempt
        attempt) := by
  intro before attempt h
  have hone := (h.published rfl .train (by decide)).terminals_eq
  revert hone
  decide

end Mmltk.Benchmark.Annotations
