import Mmltk.Dataset.MaskSteps

namespace Mmltk.Dataset

open Mmltk.Foundation

/-! A projection that fails or is destroyed leaves the output as it was. -/

namespace MaskRunEmitter

/-- What was there before is there, and what is stored is counted. -/
structure Kept (existing : List RLEPair) (emitter : MaskRunEmitter) : Prop where
  first : emitter.first = existing.length
  prefixed : existing <+: emitter.output
  counted : existing.length ≤ emitter.required
  stored : emitter.required ≤ emitter.maximum → emitter.output.length = emitter.required

variable {existing : List RLEPair} {emitter next : MaskRunEmitter} {first last : Nat}

theorem create_kept (existing : List RLEPair) (width maximum : Nat)
    (startError lengthError : String) :
    Kept existing (create existing existing.length width startError lengthError maximum) :=
  ⟨rfl, List.prefix_rfl, Nat.le_refl _, fun _ => rfl⟩

theorem extend_kept (h : Kept existing emitter) (hown : emitter.first < emitter.required)
    (hnext : emitter.extend last = .ok next) : Kept existing next := by
  obtain ⟨length, -, hnext⟩ := bind_eq_ok.mp hnext
  cases hnext
  refine ⟨h.first, ?_, h.counted, fun hroom => ?_⟩
  · dsimp only
    split
    next hroom =>
      -- The run that is written again is one of the mask's own.
      have hlength := h.stored hroom
      obtain ⟨own, hown'⟩ := h.prefixed
      have hsome : own ≠ [] := by
        rintro rfl
        rw [← hown', List.append_nil] at hlength
        rw [h.first] at hown
        omega
      rw [← hown', List.dropLast_append_of_ne_nil hsome, List.append_assoc]
      exact List.prefix_append _ _
    next => exact h.prefixed
  · dsimp only at hroom ⊢
    rw [if_pos hroom, List.length_append, List.length_dropLast, h.stored hroom,
      List.length_singleton]
    have hpos := h.counted
    omega

theorem append_kept (h : Kept existing emitter) (start length : Nat) :
    Kept existing (emitter.append start length) := by
  refine ⟨h.first, ?_, Nat.le_succ_of_le h.counted, fun hroom => ?_⟩
  · dsimp only [append]
    split
    next => exact h.prefixed.trans (List.prefix_append _ _)
    next => exact h.prefixed
  · dsimp only [append] at hroom ⊢
    rw [if_pos hroom, List.length_append, List.length_singleton,
      h.stored (Nat.le_of_succ_le hroom)]

theorem run_kept (h : Kept existing emitter) (hnext : emitter.run first last = .ok next) :
    Kept existing next := by
  rw [run] at hnext
  split at hnext
  next =>
    cases hnext
    exact h
  next =>
    obtain ⟨start, -, hnext⟩ := bind_eq_ok.mp hnext
    split at hnext
    next => cases hnext
    next =>
      obtain ⟨length, -, hnext⟩ := bind_eq_ok.mp hnext
      have hemitted : ∃ emitted, Kept existing emitted ∧
          (includeRowMajorMaskRun emitted.bounds first last emitted.width >>= fun bounds =>
            pure { emitted with bounds := bounds }) = .ok next := by
        dsimp only at hnext
        split at hnext
        next hown =>
          obtain ⟨emitted, hemitted, hnext⟩ := bind_eq_ok.mp hnext
          exact ⟨emitted, extend_kept h hown.1 hemitted, hnext⟩
        next => exact ⟨_, append_kept h start length, hnext⟩
      obtain ⟨emitted, hkept, hnext⟩ := hemitted
      obtain ⟨bounds, -, hnext⟩ := bind_eq_ok.mp hnext
      cases hnext
      exact ⟨hkept.first, hkept.prefixed, hkept.counted, hkept.stored⟩

end MaskRunEmitter

namespace RowMajorMaskProjection

open MaskRunEmitter

/-- The destructor: what is not finished is taken back. -/
def destroy (input : MaskProjectionInput) (projection : RowMajorMaskProjection) :
    RowMajorMaskProjection :=
  if !projection.finished && !projection.failed then projection.rollback input else projection

/-- Every call's bound and answer, and what it leaves. -/
def calls (input : MaskProjectionInput) : List Nat → RowMajorMaskProjection →
    List (Nat × Except MaskError Bool × RowMajorMaskProjection)
  | [], _ => []
  | maximumSteps :: rest, projection =>
      let (answer, left) := projection.step input maximumSteps
      (maximumSteps, answer, left) :: calls input rest left

variable {input : MaskProjectionInput} {source target : MaskDimensions}
  {geometry : ImageResizeGeometry} {existing pairs : List RLEPair} {maximum : Nat}
  {projection start next : RowMajorMaskProjection}

theorem partialRow_emitter (row first last : Nat) :
    (projection.partialRow input row first last).2.emitter = projection.emitter := by
  rw [partialRow]
  split <;> rfl

theorem stepSlab_kept {emitter emitted : MaskRunEmitter} {slab left : Slab} {done : Bool}
    (hkept : Kept existing emitter) (h : emitter.stepSlab slab = .ok (done, emitted, left)) :
    Kept existing emitted := by
  rw [stepSlab] at h
  split at h
  next =>
    cases h
    exact hkept
  next =>
    split at h
    next =>
      obtain ⟨ran, hran, hnext⟩ := bind_eq_ok.mp h
      cases hnext
      exact run_kept hkept hran
    next =>
      split at h
      next =>
        cases h
        exact hkept
      next =>
        obtain ⟨ran, hran, hnext⟩ := bind_eq_ok.mp h
        cases hnext
        exact run_kept hkept hran

theorem advance_kept (hkept : Kept existing projection.emitter)
    (h : projection.advance input = .ok next) : Kept existing next.emitter := by
  rw [advance] at h
  split at h
  next =>
    rw [advanceSlab] at h
    obtain ⟨⟨done, emitter, slab⟩, hstep, hnext⟩ := bind_eq_ok.mp h
    have hstepped := stepSlab_kept hkept hstep
    cases hnext
    cases done <;> exact hstepped
  next =>
    split at h
    next =>
      rw [advanceSource] at h
      split at h
      next =>
        cases h
        exact hkept
      next =>
        dsimp only at h
        split at h
        next => cases h
        next =>
          obtain ⟨bounds, -, hnext⟩ := bind_eq_ok.mp h
          split at hnext
          next =>
            obtain ⟨emitter, hran, hcopied⟩ := bind_eq_ok.mp hnext
            cases hcopied
            exact run_kept hkept hran
          next =>
            cases hnext
            exact hkept
    next =>
      cases h
      rw [advanceHead]
      split
      next => exact hkept
      next =>
        dsimp only
        split
        next =>
          dsimp only
          rwa [partialRow_emitter]
        next => rwa [partialRow_emitter]
    next =>
      cases h
      rw [advanceFull]
      dsimp only
      split <;> exact hkept
    next =>
      cases h
      exact hkept
    next =>
      cases h
      rw [advanceTail]
      split
      next => exact hkept
      next =>
        dsimp only
        split
        next =>
          dsimp only
          rwa [partialRow_emitter]
        next => rwa [partialRow_emitter]
    next =>
      cases h
      dsimp only
      split <;> exact hkept
    next =>
      obtain ⟨-, -, hnext⟩ := bind_eq_ok.mp h
      cases hnext
      exact hkept

theorem stepLoop_kept {count : Nat} (hkept : Kept existing projection.emitter)
    (h : projection.stepLoop input count = .ok next) : Kept existing next.emitter := by
  induction count generalizing projection with
  | zero =>
      cases h
      exact hkept
  | succ count ih =>
      rw [stepLoop] at h
      split at h
      next =>
        cases h
        exact hkept
      next =>
        split at h
        next middle hadvance => exact ih (advance_kept hkept hadvance) h
        next => cases h

/-- What a failed advance leaves is what it started from. -/
theorem stepLoop_kept_of_error {count : Nat} {failure : MaskError}
    (hkept : Kept existing projection.emitter)
    (h : projection.stepLoop input count = .error (failure, next)) :
    Kept existing next.emitter := by
  induction count generalizing projection with
  | zero => cases h
  | succ count ih =>
      rw [stepLoop] at h
      split at h
      next => cases h
      next =>
        split at h
        next middle hadvance => exact ih (advance_kept hkept hadvance) h
        next =>
          cases h
          exact hkept

/-- What was there before is there, or is all there is. -/
structure Held (existing : List RLEPair) (projection : RowMajorMaskProjection) : Prop where
  kept : projection.failed = false → Kept existing projection.emitter
  restored : projection.failed = true → projection.emitter.output = existing

theorem rollback_output (hfirst : input.first = existing.length)
    (hkept : Kept existing projection.emitter) :
    (projection.rollback input).emitter.output = existing := by
  obtain ⟨own, hown⟩ := hkept.prefixed
  rw [rollback]
  dsimp only
  rw [← hown, hfirst, List.take_left]

/-- A step keeps what was there, and restores it if it fails. -/
theorem step_held (hfirst : input.first = existing.length) (h : Held existing projection)
    (bound : Nat) : Held existing (projection.step input bound).2 ∧
      (0 < bound → ∀ failure, (projection.step input bound).1 = .error failure →
        (projection.step input bound).2.emitter.output = existing) := by
  rw [step]
  split
  next hzero => exact ⟨h, fun hpos => absurd hzero hpos.ne'⟩
  next =>
    split
    next hfailed => exact ⟨h, fun _ _ _ => h.restored hfailed⟩
    next hfailed =>
      rw [Bool.not_eq_true] at hfailed
      cases hloop : projection.stepLoop input bound with
      | ok next =>
          refine ⟨⟨fun _ => stepLoop_kept (h.kept hfailed) hloop, fun himpossible => ?_⟩,
            fun _ failure hfailure => by cases hfailure⟩
          rw [stepLoop_failed hloop, hfailed] at himpossible
          contradiction
      | error result =>
          obtain ⟨failure, left⟩ := result
          have houtput := rollback_output hfirst (stepLoop_kept_of_error (h.kept hfailed) hloop)
          exact ⟨⟨(by intros; contradiction), fun _ => houtput⟩, fun _ _ _ => houtput⟩

theorem destroy_output (hfirst : input.first = existing.length) (h : Held existing projection)
    (hunfinished : projection.finished = false) :
    (projection.destroy input).emitter.output = existing := by
  rw [destroy]
  cases hfailed : projection.failed with
  | false =>
      rw [hunfinished]
      exact rollback_output hfirst (h.kept hfailed)
  | true =>
      rw [hunfinished]
      exact h.restored hfailed

/-- At every call: a failure restores the output, and so does the end before it is finished. -/
theorem calls_held (hfirst : input.first = existing.length) (h : Held existing projection)
    (bounds : List Nat) : ∀ bound answer left, (bound, answer, left) ∈ calls input bounds projection →
      (0 < bound → ∀ failure, answer = .error failure → left.emitter.output = existing) ∧
        (left.finished = false → (left.destroy input).emitter.output = existing) := by
  induction bounds generalizing projection with
  | nil => exact fun bound answer left hmem => absurd hmem List.not_mem_nil
  | cons bound rest ih =>
      obtain ⟨hheld, hfailure⟩ := step_held hfirst h bound
      intro other answer left hmem
      rcases List.mem_cons.mp hmem with hhere | hlater
      · cases hhere
        exact ⟨hfailure, destroy_output hfirst hheld⟩
      · exact ih hheld other answer left hlater

theorem create_held {scratch : Option (List Interval)}
    (h : create pairs source target geometry scratch existing maximum = .ok (input, start)) :
    input.first = existing.length ∧ Held existing start := by
  have hemitter := create_kept existing target.width maximum "mask run start overflow"
    "mask run length overflow"
  rw [create] at h
  dsimp only at h
  split at h
  next => cases h
  next =>
    split at h
    next =>
      cases h
      exact ⟨rfl, fun _ => hemitter, (by intros; contradiction)⟩
    next =>
      obtain ⟨pixels, -, hrest⟩ := bind_eq_ok.mp h
      obtain ⟨-, -, hstart⟩ := bind_eq_ok.mp hrest
      cases hstart
      exact ⟨rfl, fun _ => hemitter, (by intros; contradiction)⟩

/-- The capacity is all that stops steps of any bounds, and it names what is needed. -/
def StopsAtCapacity (pairs existing : List RLEPair) (source target : MaskDimensions)
    (geometry : ImageResizeGeometry) (maximum : Nat) (input : MaskProjectionInput)
    (start : RowMajorMaskProjection) : Prop :=
  ∃ runs : List RLEPair, Separated 1 (runs.map RLEPair.interval) ∧
    (∀ pixel, Foreground runs pixel → pixel < target.width * target.height) ∧
    (∀ x < target.width, ∀ y, Foreground runs (y * target.width + x) ↔
      TargetPixel source geometry pairs x y) ∧
    ∃ count, ∀ bounds : List Nat, (∀ bound ∈ bounds, 0 < bound) →
      (bounds.sum < count → (steps input bounds start).1 = .ok false) ∧
      (count ≤ bounds.sum →
        (pairs ≠ [] ∧ maximum < existing.length + runs.length →
          (steps input bounds start).1 = .error (.capacity (existing.length + runs.length)) ∧
            (steps input bounds start).2.emitter.output = existing) ∧
        (¬ (pairs ≠ [] ∧ maximum < existing.length + runs.length) →
          (steps input bounds start).1 = .ok true ∧
            (steps input bounds start).2.emitter.output = existing ++ runs))

theorem stopsAtCapacity (h : ProjectsExactly pairs existing source target geometry maximum input
    start) : StopsAtCapacity pairs existing source target geometry maximum input start := by
  obtain ⟨runs, hseparated, hinside, hpixels, hpaths⟩ := h
  obtain ⟨count, final, hended, -, -, hsteps⟩ := hpaths false
  have hpath : choosePath input false = input := by
    rw [choosePath, Bool.not_false, Bool.and_true]
  rw [hpath] at hsteps
  refine ⟨runs, hseparated, hinside, hpixels, count, fun bounds hpositive => ?_⟩
  obtain ⟨hbefore, hafter⟩ := hsteps bounds hpositive
  refine ⟨fun hless => ?_, fun hmore => ?_⟩
  · obtain ⟨left, hleft⟩ := hbefore hless
    rw [hleft]
  · rw [hafter hmore]
    rw [Ended] at hended
    refine ⟨fun hfull => ?_, fun hroom => ?_⟩
    · rwa [if_neg fun hor => hor.elim hfull.1 (not_le.mpr hfull.2)] at hended
    · rwa [if_pos ((not_and_or.mp hroom).imp not_not.mp not_lt.mp)] at hended

/-- Without runs there is nothing to do and nothing to refuse. -/
theorem stopsAtCapacity_nil {scratch : Option (List Interval)}
    (h : create [] source target geometry scratch existing maximum = .ok (input, start)) :
    StopsAtCapacity [] existing source target geometry maximum input start := by
  have hstart : start.finished = true ∧ start.failed = false ∧ start.emitter.output = existing := by
    rw [create] at h
    dsimp only at h
    split at h
    next => cases h
    next =>
      cases h
      exact ⟨rfl, rfl, rfl⟩
  refine ⟨[], .nil, fun pixel hpixel => absurd hpixel covered_nil, fun x _ y =>
    iff_of_false covered_nil fun htarget => covered_nil htarget.2.2, 0, fun bounds hpositive =>
    ⟨fun hless => absurd hless (Nat.not_lt_zero _), fun _ => ⟨fun h => absurd rfl h.1, fun _ => ?_⟩⟩⟩
  rw [steps_eq bounds hpositive hstart.2.1, stepLoop_finished hstart.1, List.append_nil]
  exact ⟨congrArg Except.ok hstart.1, hstart.2.2⟩

theorem create_positive {scratch : Option (List Interval)} (hsome : pairs ≠ [])
    (h : create pairs source target geometry scratch existing maximum = .ok (input, start)) :
    0 < source.width ∧ 0 < source.height := by
  rw [create] at h
  dsimp only at h
  split at h
  next => cases h
  next =>
    obtain ⟨pixels, hpixels, -⟩ := bind_eq_ok.mp h
    rw [checkedPixelCount] at hpixels
    split at hpixels
    next => cases hpixels
    next hdimensions => omega

/-- The output is restored by every failure and by an early end, and it is refused exactly where
the target's runs are too many. -/
theorem projection_restores (pairs existing : List RLEPair) (source target : MaskDimensions)
    (geometry : ImageResizeGeometry) (scratch : Option (List Interval)) (maximum : Nat)
    (input : MaskProjectionInput) (start : RowMajorMaskProjection)
    (hcreate : create pairs source target geometry scratch existing maximum = .ok (input, start)) :
    (start.finished = false → (start.destroy input).emitter.output = existing) ∧
      (∀ bounds bound answer left, (bound, answer, left) ∈ calls input bounds start →
        (0 < bound → ∀ failure, answer = .error failure → left.emitter.output = existing) ∧
          (left.finished = false → (left.destroy input).emitter.output = existing)) ∧
      (target.width * target.height < 2 ^ 32 → ValidRuns (source.width * source.height) pairs →
        StopsAtCapacity pairs existing source target geometry maximum input start) := by
  obtain ⟨hfirst, hheld⟩ := create_held hcreate
  refine ⟨destroy_output hfirst hheld, calls_held hfirst hheld, fun hcount hvalid => ?_⟩
  rcases eq_or_ne pairs [] with rfl | hsome
  · exact stopsAtCapacity_nil hcreate
  · obtain ⟨hwidth, hheight⟩ := create_positive hsome hcreate
    exact stopsAtCapacity (projection_sound pairs existing source target geometry scratch maximum
      input start hwidth hheight hcount hvalid hcreate)

/-- A mask of three runs in its own canvas, of which two fit. -/
theorem projection_restores_narrow : ∃ input start,
    create [⟨0, 1⟩, ⟨2, 1⟩, ⟨4, 1⟩] ⟨6, 1, by decide, by decide⟩ ⟨6, 1, by decide, by decide⟩
      ⟨6, 1, 0, 0⟩ (some []) [⟨0, 9⟩] 3 = .ok (input, start) ∧
    StopsAtCapacity [⟨0, 1⟩, ⟨2, 1⟩, ⟨4, 1⟩] [⟨0, 9⟩] ⟨6, 1, by decide, by decide⟩
      ⟨6, 1, by decide, by decide⟩ ⟨6, 1, 0, 0⟩ 3 input start :=
  ⟨_, _, rfl, (projection_restores _ _ _ _ _ (some []) _ _ _ rfl).2.2 (by decide)
    ⟨by decide, by decide, by decide⟩⟩

/-- The answers and the output of calls. -/
def callOutputs (pairs existing : List RLEPair) (source target : MaskDimensions)
    (geometry : ImageResizeGeometry) (maximum : Nat) (bounds : List Nat) :
    Except MaskError (List (Except MaskError Bool × List RLEPair)) := do
  let (input, start) ← create pairs source target geometry (some []) existing maximum
  return (calls input bounds start).map fun call => (call.2.1, call.2.2.emitter.output)

/-- A step of no bound fails in the middle and restores nothing; an input without runs is not
refused where the output is too long before it; a run that starts behind 32 bits is another error
than the capacity. -/
theorem projection_refusals :
    callOutputs [⟨0, 1⟩, ⟨2, 1⟩] [] ⟨6, 1, by decide, by decide⟩ ⟨6, 1, by decide, by decide⟩
        ⟨6, 1, 0, 0⟩ 9 [1, 0] =
      .ok [(.ok false, [⟨0, 1⟩]),
        (.error (.invalidArgument "mask projection step requires a positive bound"), [⟨0, 1⟩])] ∧
    callOutputs [] [⟨0, 9⟩] ⟨6, 1, by decide, by decide⟩ ⟨6, 1, by decide, by decide⟩
        ⟨6, 1, 0, 0⟩ 0 [1] = .ok [(.ok true, [⟨0, 9⟩])] ∧
    callOutputs [⟨65536, 1⟩] [] ⟨1, 65537, by decide, by decide⟩ ⟨65536, 65537, by decide, by decide⟩
        ⟨65536, 65537, 0, 0⟩ 0 [20] =
      .ok [(.error (.overflow "mask run start overflow"), [])] := by
  decide

end RowMajorMaskProjection

end Mmltk.Dataset
