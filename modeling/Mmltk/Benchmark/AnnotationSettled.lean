import Mmltk.Benchmark.AnnotationAttempt

namespace Mmltk.Benchmark.Annotations

open Mmltk.Foundation

/-! The attempts of `settle`, one after another. -/

variable {I D E : Type} {start : Split → SplitState I D} {first : Split → Nat} {completed : Nat}
  {settling : Settling I D} {which : Split} {digest : I → Split → Nat → D}

/-- What the sink knows of a split; `closed` tells whether it knows that nothing is coming. -/
def Logged (first : Nat) (closed : Prop) (state : SplitState I D) : Prop :=
  match state.index with
  | some index => Publication.Settled first state.generation (some index) state.published
  | none =>
      (closed → Publication.Settled first state.generation none state.published) ∧
        (¬ closed → Publication.Unsettled first state.generation state.published)

theorem Logged.of_index {first : Nat} {closed : Prop} {state : SplitState I D} {index : Index I D}
    (hindex : state.index = some index) (h : Logged first closed state) :
    Publication.Settled first state.generation (some index) state.published := by
  rw [Logged, hindex] at h
  exact h

theorem logged_some {first : Nat} {closed : Prop} {state : SplitState I D} {index : Index I D}
    (hindex : state.index = some index)
    (h : Publication.Settled first state.generation (some index) state.published) :
    Logged first closed state := by
  rw [Logged, hindex]
  exact h

theorem Logged.open_of_index {first : Nat} {state : SplitState I D} (hindex : state.index = none)
    (h : Logged first False state) :
    Publication.Unsettled first state.generation state.published := by
  rw [Logged, hindex] at h
  exact h.2 id

theorem logged_none {first : Nat} {state : SplitState I D} (hindex : state.index = none)
    (h : Publication.Unsettled first state.generation state.published) :
    Logged first False state := by
  rw [Logged, hindex]
  exact ⟨fun hclosed => hclosed.elim, fun _ => h⟩

/-- `settle` somewhere between its beginning and its end. -/
structure Underway (start : Split → SplitState I D) (first : Split → Nat) (completed : Nat)
    (closed : Prop) (settling : Settling I D) : Prop where
  admission : ∀ which, (settling.cache.split which).admission = (start which).admission
  spared : ∀ which, (start which).missing = false →
    (settling.cache.split which).index = (start which).index
  logged : ∀ which, (start which).admission ≠ .unselected →
    Logged (first which) closed (settling.cache.split which)
  completed : settling.completed =
    completed + [Split.validation, .train].countP fun which =>
      (start which).missing && (settling.cache.split which).index.isSome

/-- Every index that `settle` installed is from the archive it has now. -/
def Sourced (start : Split → SplitState I D) (settling : Settling I D) : Prop :=
  ∀ which index, (start which).index = none → (settling.cache.split which).index = some index →
    FromArchive settling.archive settling.deliveries index

/-- Nothing is built yet, or everything built is withdrawn. -/
def Back (start : Split → SplitState I D) (settling : Settling I D) : Prop :=
  ∀ which, (start which).missing = true → (settling.cache.split which).index = none

theorem missing_eq_true {state : SplitState I D} :
    state.missing = true ↔ state.admission ≠ .unselected ∧ state.index = none := by
  rw [SplitState.missing, Bool.and_eq_true, decide_eq_true_eq, Option.isNone_iff_eq_none]

/-- What is missing now is missing from the start, and the other way round once all is back. -/
theorem Underway.missing_iff {closed : Prop}
    (h : Underway start first completed closed settling) (hback : Back start settling)
    (which : Split) : (settling.cache.split which).missing = (start which).missing := by
  cases hmissing : (start which).missing with
  | true =>
      rw [missing_eq_true, h.admission which]
      exact ⟨(missing_eq_true.mp hmissing).1, hback which hmissing⟩
  | false =>
      rw [← hmissing, SplitState.missing, SplitState.missing, h.admission which,
        h.spared which hmissing]

theorem Underway.sourced_of_back {closed : Prop}
    (h : Underway start first completed closed settling) (hback : Back start settling) :
    Sourced start settling := by
  intro which index hstart hindex
  cases hmissing : (start which).missing with
  | true =>
      rw [hback which hmissing] at hindex
      cases hindex
  | false =>
      rw [h.spared which hmissing, hstart] at hindex
      cases hindex

theorem Underway.completed_of_back {closed : Prop}
    (h : Underway start first completed closed settling) (hback : Back start settling) :
    settling.completed = completed := by
  have hnothing : [Split.validation, .train].countP (fun which =>
      (start which).missing && (settling.cache.split which).index.isSome) = 0 := by
    refine List.countP_eq_zero.mpr fun which _ hcounted => ?_
    rw [Bool.and_eq_true] at hcounted
    rw [hback which hcounted.1] at hcounted
    cases hcounted.2
  rw [h.completed, hnothing, Nat.add_zero]

theorem Underway.attempted {joined : Joined I D E}
    (h : Underway start first completed False settling) (hback : Back start settling)
    (hattempted : Settling.Attempted settling joined) :
    Underway start first completed False joined.settling ∧ Sourced start joined.settling := by
  have hmissing := h.missing_iff hback
  have hspared : ∀ which, (start which).missing = false →
      joined.settling.cache.split which = settling.cache.split which := fun which hstart =>
    hattempted.spared which ((hmissing which).trans hstart)
  have hlooked := fun which (hstart : (start which).missing = true) =>
    hattempted.looked which ((hmissing which).trans hstart)
  refine ⟨⟨?_, ?_, ?_, ?_⟩, ?_⟩
  · intro which
    rw [← h.admission which]
    cases hstart : (start which).missing with
    | false => rw [hspared which hstart]
    | true =>
        cases hlooked which hstart with
        | inl hbuilt => exact hbuilt.admission
        | inr hunbuilt => exact hunbuilt.admission
  · intro which hstart
    rw [hspared which hstart]
    exact h.spared which hstart
  · intro which hselected
    have hlogged := h.logged which hselected
    cases hstart : (start which).missing with
    | false =>
        rw [hspared which hstart]
        exact hlogged
    | true =>
        have hopen := hlogged.open_of_index (hback which hstart)
        cases hlooked which hstart with
        | inl hbuilt =>
            obtain ⟨index, hindex, -, hpublished⟩ := hbuilt.built
            refine logged_some hindex ?_
            rw [hpublished, hbuilt.generation]
            exact hopen.publish (some index)
        | inr hunbuilt =>
            refine logged_none hunbuilt.index ?_
            rw [hunbuilt.published, hunbuilt.generation]
            exact hopen
  · rw [hattempted.completed, h.completed_of_back hback]
    simp only [Settling.training, hmissing]
  · intro which index hstart hindex
    cases hlooks : (start which).missing with
    | false =>
        rw [hspared which hlooks, h.spared which hlooks, hstart] at hindex
        cases hindex
    | true =>
        rw [hattempted.archive, hattempted.deliveries]
        cases hlooked which hlooks with
        | inl hbuilt =>
            obtain ⟨built, hbuilt, hfrom, -⟩ := hbuilt.built
            rw [hbuilt] at hindex
            cases hindex
            exact hfrom
        | inr hunbuilt =>
            rw [hunbuilt.index] at hindex
            cases hindex

theorem invalidateMissing_index (state : SplitState I D) :
    state.invalidateMissing.index = state.index ∧
      state.invalidateMissing.admission = state.admission ∧
      state.invalidateMissing.generation = state.generation ∧
      state.invalidateMissing.published = state.published := by
  rw [SplitState.invalidateMissing]
  split <;> exact ⟨rfl, rfl, rfl, rfl⟩

theorem logged_invalidateMissing {first : Nat} {closed : Prop} {state : SplitState I D}
    (h : Logged first closed state) : Logged first closed state.invalidateMissing := by
  obtain ⟨hindex, -, hgeneration, hpublished⟩ := invalidateMissing_index state
  rw [Logged, hindex, hgeneration, hpublished]
  exact h

theorem Underway.invalidateMissing {closed : Prop}
    (h : Underway start first completed closed settling) :
    Underway start first completed closed (settling.withCache (·.invalidateMissing)) where
  admission which := (invalidateMissing_index _).2.1.trans (h.admission which)
  spared which hstart := (invalidateMissing_index _).1.trans (h.spared which hstart)
  logged which hselected := logged_invalidateMissing (h.logged which hselected)
  completed := by
    refine h.completed.trans (congrArg (completed + ·) (List.countP_congr fun which _ => ?_))
    rw [← (invalidateMissing_index (settling.cache.split which)).1]
    exact Iff.rfl

theorem cleared_invalidateMissing :
    Cleared (settling.withCache (·.invalidateMissing)).cache.split := by
  intro which hmissing
  obtain ⟨hindex, hadmission, -⟩ := invalidateMissing_index (settling.cache.split which)
  have hbefore : (settling.cache.split which).missing = true := by
    rw [missing_eq_true] at hmissing ⊢
    rw [← hindex, ← hadmission]
    exact hmissing
  exact congrArg SplitState.files (if_pos hbefore)

theorem sourced_invalidateMissing (h : Sourced start settling) :
    Sourced start (settling.withCache (·.invalidateMissing)) := by
  intro which index hstart hindex
  exact h which index hstart ((invalidateMissing_index _).1.symm.trans hindex)

theorem missing_invalidateMissing (h : ∃ which, (settling.cache.split which).missing = true) :
    ∃ which,
      ((settling.withCache (·.invalidateMissing)).cache.split which).missing = true := by
  obtain ⟨which, hmissing⟩ := h
  obtain ⟨hindex, hadmission, -⟩ := invalidateMissing_index (settling.cache.split which)
  refine ⟨which, ?_⟩
  rw [missing_eq_true] at hmissing ⊢
  exact ⟨hadmission.trans_ne hmissing.1, hindex.trans hmissing.2⟩

/-- Whatever the attempt built is withdrawn, and the files of what is missing then are gone. -/
theorem Underway.withdrawAttempt (h : Underway start first completed False settling)
    {training : Split → Bool} (htraining : ∀ which, training which = (start which).missing) :
    Underway start first completed False (settling.withdrawAttempt training) ∧
      Back start (settling.withdrawAttempt training) ∧
      Cleared (settling.withdrawAttempt training).cache.split := by
  let withdrawn : Settling I D :=
    { settling with
      cache := { settling.cache with
        split := fun which =>
          if training which && (settling.cache.split which).index.isSome then
            (settling.cache.split which).withdraw
          else settling.cache.split which }
      completed := settling.completed - [Split.validation, .train].countP fun which =>
        training which && (settling.cache.split which).index.isSome }
  have hsame : settling.withdrawAttempt training =
      withdrawn.withCache (·.invalidateMissing) := rfl
  have hback : Back start withdrawn := by
    intro which hstart
    rw [← htraining which] at hstart
    dsimp only [withdrawn]
    rw [hstart, Bool.true_and]
    split
    · rfl
    next hnone => exact Option.not_isSome_iff_eq_none.mp hnone
  have hwithdrawn : Underway start first completed False withdrawn := by
    refine ⟨?_, ?_, ?_, ?_⟩
    · intro which
      rw [← h.admission which]
      dsimp only [withdrawn]
      split <;> rfl
    · intro which hstart
      dsimp only [withdrawn]
      rw [htraining which, hstart, Bool.false_and, if_neg Bool.false_ne_true]
      exact h.spared which hstart
    · intro which hselected
      have hlogged := h.logged which hselected
      dsimp only [withdrawn]
      split
      next hdepends =>
        rw [Bool.and_eq_true] at hdepends
        obtain ⟨index, hindex⟩ := Option.isSome_iff_exists.mp hdepends.2
        exact logged_none rfl (hlogged.of_index hindex).withdraw
      · exact hlogged
    · have hnothing : [Split.validation, .train].countP (fun which =>
          (start which).missing && (withdrawn.cache.split which).index.isSome) = 0 := by
        refine List.countP_eq_zero.mpr fun which _ hcounted => ?_
        rw [Bool.and_eq_true] at hcounted
        rw [hback which hcounted.1] at hcounted
        cases hcounted.2
      have hcompleted := h.completed
      have hcounts : [Split.validation, .train].countP (fun which =>
          training which && (settling.cache.split which).index.isSome) =
          [Split.validation, .train].countP fun which =>
            (start which).missing && (settling.cache.split which).index.isSome :=
        List.countP_congr fun which _ => by rw [htraining which]
      rw [hnothing]
      dsimp only [withdrawn]
      rw [hcounts, hcompleted]
      omega
  rw [hsame]
  refine ⟨hwithdrawn.invalidateMissing, ?_, cleared_invalidateMissing⟩
  intro which hstart
  exact (invalidateMissing_index _).1.trans (hback which hstart)

theorem requiredMissing_eq_false {cache : CocoAnnotationCache I D} :
    cache.requiredMissing = false ↔ ∀ which, (cache.split which).requiredMissing = false := by
  rw [CocoAnnotationCache.requiredMissing, CocoAnnotationCache.anySplit, List.any_eq_false]
  refine ⟨fun h which => ?_, fun h which _ => ?_⟩
  · exact Bool.eq_false_iff.mpr (h which (Settling.mem_all which))
  · rw [h which]
    exact Bool.false_ne_true

theorem requiredMissing_invalidateMissing (cache : CocoAnnotationCache I D) :
    cache.invalidateMissing.requiredMissing = cache.requiredMissing := by
  have hsplit : ∀ which, (cache.invalidateMissing.split which).requiredMissing =
      (cache.split which).requiredMissing := by
    intro which
    obtain ⟨hindex, hadmission, -⟩ := invalidateMissing_index (cache.split which)
    have hinvalidated : cache.invalidateMissing.split which =
        (cache.split which).invalidateMissing := rfl
    rw [hinvalidated, SplitState.requiredMissing, SplitState.requiredMissing, hindex, hadmission]
  simp only [CocoAnnotationCache.requiredMissing, CocoAnnotationCache.anySplit, hsplit]

theorem requiredMissing_of_complete {cache : CocoAnnotationCache I D}
    (h : ∀ which, (cache.split which).missing = false) : cache.requiredMissing = false := by
  refine requiredMissing_eq_false.mpr fun which => ?_
  have hwhich := h which
  rw [SplitState.missing, Bool.and_eq_false_iff, decide_eq_false_iff_not, not_not] at hwhich
  rw [SplitState.requiredMissing, Bool.and_eq_false_iff]
  cases hwhich with
  | inl hunselected =>
      refine .inl ?_
      rw [hunselected]
      rfl
  | inr hindex => exact .inr hindex

/-- An attempt that another follows fails, its repair is unavailable, and no required split is
missing then. -/
def Unrepaired [DecidableEq I] [DecidableEq D] (digest : I → Split → Nat → D) : List (Attempt I E) → Settling I D → Prop
  | attempt :: next :: rest, settling =>
      let joined := settling.attemptOnce digest attempt
      [Split.validation, .train].any settling.training = true ∧ joined.fatal = none ∧
        joined.failed = true ∧ attempt.cancelled = none ∧
        match attempt.repair with
        | .error .sourceUnavailable =>
            (Settling.afterFailure settling.training joined).cache.requiredMissing = false
        | .error (.raised _) => False
        | .ok archive =>
            Unrepaired digest (next :: rest)
              (Settling.repaired settling.training joined archive)
  | _, _ => False

theorem Underway.afterFailure {joined : Joined I D E}
    (h : Underway start first completed False settling) (hback : Back start settling)
    (hattempted : Settling.Attempted settling joined)
    (hlooking : [Split.validation, .train].any settling.training = true)
    (hfatal : joined.fatal = none) (hfailed : joined.failed = true) :
    Underway start first completed False (Settling.afterFailure settling.training joined) ∧
      Sourced start (Settling.afterFailure settling.training joined) ∧
      (joined.streamError = true → Back start (Settling.afterFailure settling.training joined)) ∧
      ∃ which, ((Settling.afterFailure settling.training joined).cache.split which).missing =
        true := by
  have hmissing := h.missing_iff hback
  obtain ⟨hjoined, hsourced⟩ := h.attempted hback hattempted
  rw [Settling.afterFailure]
  cases hstream : joined.streamError with
  | true =>
      obtain ⟨hwithdrawn, hgone, -⟩ := hjoined.withdrawAttempt hmissing
      refine ⟨hwithdrawn, hwithdrawn.sourced_of_back hgone, fun _ => hgone, ?_⟩
      obtain ⟨which, -, hlooks⟩ := List.any_eq_true.mp hlooking
      exact ⟨which, (hwithdrawn.missing_iff hgone which).trans ((hmissing which).symm.trans hlooks)⟩
  | false =>
      rw [if_neg Bool.false_ne_true]
      refine ⟨hjoined, hsourced, fun hstopped => (nomatch hstopped), ?_⟩
      obtain ⟨which, hlooks, hindex⟩ := hattempted.failing hfatal hfailed hstream
      refine ⟨which, missing_eq_true.mpr ⟨?_, hindex⟩⟩
      rw [hjoined.admission which, ← h.admission which]
      exact (missing_eq_true.mp hlooks).1

/-- After a repair everything is as it was, but for the archive and the files that are gone. -/
theorem Underway.repaired {joined : Joined I D E}
    (h : Underway start first completed False settling) (hback : Back start settling)
    (hattempted : Settling.Attempted settling joined)
    (hlooking : [Split.validation, .train].any settling.training = true)
    (hfatal : joined.fatal = none) (hfailed : joined.failed = true) (archive : I) :
    Underway start first completed False
        (Settling.repaired settling.training joined archive) ∧
      Back start (Settling.repaired settling.training joined archive) ∧
      Cleared (Settling.repaired settling.training joined archive).cache.split := by
  obtain ⟨hunderway, -, hgone, -⟩ := h.afterFailure hback hattempted hlooking hfatal hfailed
  have hinvalid := hunderway.invalidateMissing
  let renewed : Settling I D :=
    { (Settling.afterFailure settling.training joined).withCache (·.invalidateMissing) with
      archive
      deliveries := (Settling.afterFailure settling.training joined).deliveries + 1 }
  have hrenewed : Underway start first completed False renewed :=
    ⟨hinvalid.admission, hinvalid.spared, hinvalid.logged, hinvalid.completed⟩
  have hsame : Settling.repaired settling.training joined archive =
      if joined.streamError then renewed else renewed.withdrawAttempt settling.training := rfl
  rw [hsame]
  cases hstream : joined.streamError with
  | true =>
      refine ⟨hrenewed, fun which hstart => ?_, cleared_invalidateMissing⟩
      exact (invalidateMissing_index _).1.trans (hgone hstream which hstart)
  | false => exact hrenewed.withdrawAttempt (h.missing_iff hback)

theorem settleMissing_index (state : SplitState I D) :
    state.settleMissing.index = state.index ∧ state.settleMissing.admission = state.admission ∧
      state.settleMissing.generation = state.generation := by
  rw [SplitState.settleMissing]
  split <;> exact ⟨rfl, rfl, rfl⟩

/-- What is missing is told to be, and what is not was told before. -/
theorem settleMissing_settled {first : Nat} {state : SplitState I D}
    (hselected : state.admission ≠ .unselected) (h : Logged first False state) :
    Publication.Settled first state.generation state.index state.settleMissing.published := by
  cases hindex : state.index with
  | none =>
      have hmissing := missing_eq_true.mpr ⟨hselected, hindex⟩
      rw [SplitState.settleMissing, if_pos hmissing, SplitState.publish, hindex]
      exact (h.open_of_index hindex).publish none
  | some index =>
      have hpresent : ¬ state.missing = true := by
        rw [missing_eq_true, hindex]
        exact fun hmissing => nomatch hmissing.2
      rw [SplitState.settleMissing, if_neg hpresent]
      exact h.of_index hindex

theorem logged_settleMissing {first : Nat} {closed : Prop} {state : SplitState I D}
    (hclosed : closed) (hselected : state.admission ≠ .unselected) (h : Logged first False state) :
    Logged first closed state.settleMissing := by
  have hsettled := settleMissing_settled hselected h
  obtain ⟨hindex, -, hgeneration⟩ := settleMissing_index state
  rw [Logged, hindex, hgeneration]
  cases hstate : state.index with
  | none =>
      rw [hstate] at hsettled
      exact ⟨fun _ => hsettled, fun hopen => absurd hclosed hopen⟩
  | some index =>
      rw [hstate] at hsettled
      exact hsettled

theorem Underway.congr {closed closed' : Prop}
    (h : Underway start first completed closed settling) (hclosed : closed ↔ closed') :
    Underway start first completed closed' settling where
  admission := h.admission
  spared := h.spared
  logged which hselected := by
    have hlogged := h.logged which hselected
    rw [Logged] at hlogged ⊢
    split
    next index hindex =>
      rw [hindex] at hlogged
      exact hlogged
    next hindex =>
      rw [hindex] at hlogged
      exact ⟨fun h' => hlogged.1 (hclosed.mpr h'), fun h' => hlogged.2 (mt hclosed.mp h')⟩
  completed := h.completed

/-- What the attempts leave to the end of `settle`. -/
structure Ended (start : Split → SplitState I D) (first : Split → Nat) (completed : Nat)
    (unrepaired : Prop) (result : Settling I D × Except (Fault E) Unit) : Prop where
  returns : result.2 = .ok () →
    Underway start first completed unrepaired result.1 ∧ Sourced start result.1 ∧
      result.1.cache.requiredMissing = false
  throws : result.2 = .error .sourceUnavailable → result.1.cache.requiredMissing = true
  twice : unrepaired → result.2 = .ok () ∧
    ∃ which, (result.1.cache.split which).missing = true

theorem ended_ok {unrepaired : Prop} (hunrepaired : ¬ unrepaired)
    (h : Underway start first completed False settling) (hsourced : Sourced start settling)
    (hrequired : settling.cache.requiredMissing = false) :
    Ended start first completed unrepaired (settling, (.ok () : Except (Fault E) Unit)) where
  returns _ := ⟨h.congr (iff_of_false id hunrepaired), hsourced, hrequired⟩
  throws herror := nomatch herror
  twice h' := absurd h' hunrepaired

theorem ended_raised {unrepaired : Prop} (hunrepaired : ¬ unrepaired) (exception : E) :
    Ended start first completed unrepaired (settling, .error (.raised exception)) where
  returns hok := nomatch hok
  throws herror := nomatch herror
  twice h' := absurd h' hunrepaired

theorem ended_unavailable {unrepaired : Prop} (hunrepaired : ¬ unrepaired)
    (hrequired : settling.cache.requiredMissing = true) :
    Ended start first completed unrepaired
      (settling, (.error .sourceUnavailable : Except (Fault E) Unit)) where
  returns hok := nomatch hok
  throws _ := hrequired
  twice h' := absurd h' hunrepaired

theorem Underway.downloadUnavailable (unrepaired : Prop) (hunrepaired : unrepaired)
    (h : Underway start first completed False settling) (hsourced : Sourced start settling)
    (hrequired : settling.cache.requiredMissing = false)
    (hmissing : ∃ which, (settling.cache.split which).missing = true) :
    Ended start first completed unrepaired
      (settling.withCache (·.settleMissingSplits.warnUnavailable),
        (.ok () : Except (Fault E) Unit)) := by
  have hsettled : ∀ which,
      ((settling.withCache (·.settleMissingSplits.warnUnavailable)).cache.split which) =
        (settling.cache.split which).settleMissing := fun which => rfl
  have hindex := fun which => (settleMissing_index (settling.cache.split which)).1
  have hadmission := fun which => (settleMissing_index (settling.cache.split which)).2.1
  refine ⟨fun _ => ⟨⟨?_, ?_, ?_, ?_⟩, ?_, ?_⟩, fun herror => (nomatch herror), fun _ => ⟨rfl, ?_⟩⟩
  · intro which
    rw [hsettled, hadmission]
    exact h.admission which
  · intro which hstart
    rw [hsettled, hindex]
    exact h.spared which hstart
  · intro which hselected
    refine logged_settleMissing hunrepaired ?_ (h.logged which hselected)
    rw [h.admission which]
    exact hselected
  · refine h.completed.trans (congrArg (completed + ·) (List.countP_congr fun which _ => ?_))
    rw [hsettled, hindex]
  · intro which index hstart hinstalled
    rw [hsettled, hindex] at hinstalled
    exact hsourced which index hstart hinstalled
  · refine requiredMissing_eq_false.mpr fun which => ?_
    have hwhich := requiredMissing_eq_false.mp hrequired which
    rw [SplitState.requiredMissing] at hwhich ⊢
    rw [hsettled, hindex, hadmission]
    exact hwhich
  · obtain ⟨which, hwhich⟩ := hmissing
    refine ⟨which, ?_⟩
    rw [missing_eq_true] at hwhich ⊢
    rw [hsettled, hindex, hadmission]
    exact hwhich

/-- The attempt is made, fails for want of the source, and is not cancelled. -/
structure Failing [DecidableEq I] [DecidableEq D] (digest : I → Split → Nat → D)
    (attempt : Attempt I E) (settling : Settling I D) : Prop where
  looking : [Split.validation, .train].any settling.training = true
  fatal : (settling.attemptOnce digest attempt).fatal = none
  failed : (settling.attemptOnce digest attempt).failed = true
  cancelled : attempt.cancelled = none

theorem Unrepaired.failing [DecidableEq I] [DecidableEq D] {attempt : Attempt I E}
    {rest : List (Attempt I E)} (h : Unrepaired digest (attempt :: rest) settling) :
    Failing digest attempt settling := by
  cases rest with
  | nil => exact h.elim
  | cons next rest =>
      obtain ⟨hlooking, hfatal, hfailed, hcancelled, -⟩ := h
      exact ⟨hlooking, hfatal, hfailed, hcancelled⟩

/-- The other ways out of an attempt: nothing is missing any more, or something else is raised. -/
theorem attempts_otherwise [DecidableEq I] [DecidableEq D] {attempt : Attempt I E}
    {rest : List (Attempt I E)} (h : Underway start first completed False settling)
    (hback : Back start settling)
    (hcleared : settling.deliveries ≠ 0 → Cleared settling.cache.split)
    (hotherwise : ¬ Failing digest attempt settling) :
    Ended start first completed (Unrepaired digest (attempt :: rest) settling)
      (Settling.attempts digest (attempt :: rest) settling) := by
  have hunrepaired : ¬ Unrepaired digest (attempt :: rest) settling :=
    fun hunrepaired => hotherwise hunrepaired.failing
  have hattempted := Settling.attemptOnce_spec digest settling attempt hcleared
  obtain ⟨hjoined, hsourced⟩ := h.attempted hback hattempted
  unfold Settling.attempts
  cases hlooking : [Split.validation, .train].any settling.training with
  | false =>
      have hcomplete : settling.cache.requiredMissing = false := by
        refine requiredMissing_of_complete fun which => ?_
        exact Bool.eq_false_iff.mpr (List.any_eq_false.mp hlooking which (Settling.mem_all which))
      simp only [hlooking, Bool.not_false, if_true]
      exact ended_ok hunrepaired h (h.sourced_of_back hback) hcomplete
  | true =>
  cases hfatal : (settling.attemptOnce digest attempt).fatal with
  | some exception =>
      simp only [hlooking, Bool.not_true, Bool.false_eq_true, if_false, hfatal]
      exact ended_raised hunrepaired exception
  | none =>
  cases hfailed : (settling.attemptOnce digest attempt).failed with
  | false =>
      have hcomplete : (settling.attemptOnce digest attempt).settling.cache.requiredMissing =
          false := by
        refine requiredMissing_of_complete fun which => ?_
        cases hmissing : (settling.cache.split which).missing with
        | false => rw [hattempted.spared which hmissing, hmissing]
        | true =>
            have hbuilt := hattempted.succeeded hfatal hfailed which hmissing
            rw [Option.isSome_iff_exists] at hbuilt
            obtain ⟨index, hindex⟩ := hbuilt
            rw [SplitState.missing, hindex, Option.isNone_some, Bool.and_false]
      simp only [hlooking, Bool.not_true, Bool.false_eq_true, if_false, hfatal, hfailed,
        Bool.not_false, if_true]
      exact ended_ok hunrepaired hjoined hsourced hcomplete
  | true =>
  cases hcancelled : attempt.cancelled with
  | none => exact absurd ⟨hlooking, hfatal, hfailed, hcancelled⟩ hotherwise
  | some exception =>
      simp only [hlooking, Bool.not_true, Bool.false_eq_true, if_false, hfatal, hfailed]
      exact ended_raised hunrepaired exception

/-- The induction is over the attempts left; each begins with everything as it was at the start. -/
theorem attempts_ended [DecidableEq I] [DecidableEq D] (attempt : Attempt I E)
    (rest : List (Attempt I E)) (h : Underway start first completed False settling)
    (hback : Back start settling)
    (hcleared : settling.deliveries ≠ 0 → Cleared settling.cache.split) :
    Ended start first completed (Unrepaired digest (attempt :: rest) settling)
      (Settling.attempts digest (attempt :: rest) settling) := by
  induction rest generalizing settling attempt with
  | nil =>
      by_cases hfailing : Failing digest attempt settling
      · have hattempted := Settling.attemptOnce_spec digest settling attempt hcleared
        obtain ⟨hafter, hsourced, -⟩ := h.afterFailure hback hattempted hfailing.looking
          hfailing.fatal hfailing.failed
        unfold Settling.attempts
        simp only [hfailing.looking, hfailing.fatal, hfailing.failed, hfailing.cancelled,
          Bool.not_true, Bool.false_eq_true, if_false]
        cases hrequired : (Settling.afterFailure settling.training
            (settling.attemptOnce digest attempt)).cache.requiredMissing with
        | true => exact ended_unavailable id hrequired
        | false =>
            rw [if_neg Bool.false_ne_true]
            exact ended_ok id ⟨hafter.admission, hafter.spared, hafter.logged, hafter.completed⟩
              hsourced hrequired
      · exact attempts_otherwise h hback hcleared hfailing
  | cons next rest ih =>
      by_cases hfailing : Failing digest attempt settling
      · have hattempted := Settling.attemptOnce_spec digest settling attempt hcleared
        obtain ⟨hafter, hsourced, -, hmissing⟩ := h.afterFailure hback hattempted
          hfailing.looking hfailing.fatal hfailing.failed
        unfold Settling.attempts
        simp only [hfailing.looking, hfailing.fatal, hfailing.failed, hfailing.cancelled,
          Bool.not_true, Bool.false_eq_true, if_false]
        have hunrepaired : Unrepaired digest (attempt :: next :: rest) settling ↔
            match attempt.repair with
            | .error .sourceUnavailable =>
                (Settling.afterFailure settling.training
                  (settling.attemptOnce digest attempt)).cache.requiredMissing = false
            | .error (.raised _) => False
            | .ok archive =>
                Unrepaired digest (next :: rest) (Settling.repaired settling.training
                  (settling.attemptOnce digest attempt) archive) :=
          ⟨fun hunrepaired => hunrepaired.2.2.2.2, fun hrepair =>
            ⟨hfailing.looking, hfailing.fatal, hfailing.failed, hfailing.cancelled, hrepair⟩⟩
        have hinvalid := hafter.invalidateMissing
        have hrequired := requiredMissing_invalidateMissing (Settling.afterFailure
          settling.training (settling.attemptOnce digest attempt)).cache
        cases hrepair : attempt.repair with
        | error fault =>
            rw [hrepair] at hunrepaired
            cases fault with
            | raised exception => exact ended_raised hunrepaired.mp exception
            | sourceUnavailable =>
                dsimp only [Settling.withCache]
                rw [CocoAnnotationCache.downloadUnavailable, hrequired]
                split
                next hmissed =>
                  refine ended_unavailable (fun hopen => ?_) (hrequired.trans hmissed)
                  have hfalse := hunrepaired.mp hopen
                  rw [hmissed] at hfalse
                  cases hfalse
                next hkept =>
                  have hnone := Bool.eq_false_iff.mpr hkept
                  exact hinvalid.downloadUnavailable _ (hunrepaired.mpr hnone)
                    (sourced_invalidateMissing hsourced) (hrequired.trans hnone)
                    (missing_invalidateMissing hmissing)
        | ok archive =>
            rw [hrepair] at hunrepaired
            have hrepaired := h.repaired hback hattempted hfailing.looking hfailing.fatal
              hfailing.failed archive
            obtain ⟨hrenewed, hagain, hgone⟩ := hrepaired
            have hended := ih next hrenewed hagain (fun _ => hgone)
            rw [propext hunrepaired]
            exact hended
      · exact attempts_otherwise h hback hcleared hfailing

end Mmltk.Benchmark.Annotations
