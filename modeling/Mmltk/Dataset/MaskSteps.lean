import Mmltk.Dataset.MaskSound

namespace Mmltk.Dataset

open Mmltk.Foundation MaskRunEmitter

namespace RowMajorMaskProjection

variable {input : MaskProjectionInput} {source target : MaskDimensions}
  {geometry : ImageResizeGeometry} {existing pairs own : List RLEPair} {maximum : Nat}
  {projection start next : RowMajorMaskProjection}

/-! Steps of any bounds. -/

theorem partialRow_failed (row first last : Nat) :
    (projection.partialRow input row first last).2.failed = projection.failed := by
  rw [partialRow]
  split <;> rfl

theorem advance_failed (h : projection.advance input = .ok next) :
    next.failed = projection.failed := by
  rw [advance] at h
  split at h
  next =>
    rw [advanceSlab] at h
    obtain ⟨⟨done, emitter, slab⟩, -, hnext⟩ := bind_eq_ok.mp h
    cases hnext
    cases done <;> rfl
  next =>
    split at h
    next =>
      rw [advanceSource] at h
      split at h
      next =>
        cases h
        rfl
      next =>
        dsimp only at h
        split at h
        next => cases h
        next =>
          obtain ⟨bounds, -, hnext⟩ := bind_eq_ok.mp h
          split at hnext
          next =>
            obtain ⟨emitter, -, hcopied⟩ := bind_eq_ok.mp hnext
            cases hcopied
            rfl
          next =>
            cases hnext
            rfl
    next =>
      cases h
      rw [advanceHead]
      split
      next => rfl
      next =>
        dsimp only
        split <;> exact partialRow_failed ..
    next =>
      cases h
      rw [advanceFull]
      dsimp only
      split <;> rfl
    next =>
      cases h
      rfl
    next =>
      cases h
      rw [advanceTail]
      split
      next => rfl
      next =>
        dsimp only
        split <;> exact partialRow_failed ..
    next =>
      cases h
      dsimp only
      split <;> rfl
    next =>
      obtain ⟨-, -, hnext⟩ := bind_eq_ok.mp h
      cases hnext
      rfl

theorem stepLoop_failed {count : Nat} (h : projection.stepLoop input count = .ok next) :
    next.failed = projection.failed := by
  induction count generalizing projection with
  | zero =>
      cases h
      rfl
  | succ count ih =>
      rw [stepLoop] at h
      split at h
      next =>
        cases h
        rfl
      next =>
        split at h
        next middle hadvance => exact (ih h).trans (advance_failed hadvance)
        next => cases h

/-- Only the sum of the bounds matters. -/
theorem steps_eq (bounds : List Nat) (hpositive : ∀ bound ∈ bounds, 0 < bound)
    (hfailed : projection.failed = false) :
    steps input bounds projection =
      match projection.stepLoop input bounds.sum with
      | .ok next => (.ok next.finished, next)
      | .error (failure, left) => (.error failure, left.rollback input) := by
  induction bounds generalizing projection with
  | nil => rfl
  | cons bound rest ih =>
      have hbound := hpositive bound List.mem_cons_self
      rw [steps, step, if_neg hbound.ne', hfailed, if_neg Bool.false_ne_true, List.sum_cons,
        stepLoop_add]
      cases hloop : projection.stepLoop input bound with
      | error failure => rfl
      | ok next =>
          exact ih (fun other hother => hpositive other (List.mem_cons_of_mem _ hother))
            ((stepLoop_failed hloop).trans hfailed)

/-! The end. -/

theorem Ending.advance (h : Ending input target existing maximum own projection) :
    projection.advance input =
      if maximum < existing.length + own.length then
        .error (.capacity (existing.length + own.length))
      else .ok { projection with finished := true } := by
  obtain ⟨limit, hemitted⟩ := h.emitted
  simp only [RowMajorMaskProjection.advance, h.inactive, h.stage, Bool.false_eq_true, if_false,
    finish, hemitted.maximumEq, hemitted.requiredEq]
  split
  · rfl
  · rfl

theorem stepLoop_finished (h : projection.finished = true) (count : Nat) :
    projection.stepLoop input count = .ok projection := by
  cases count with
  | zero => rfl
  | succ count => rw [stepLoop, if_pos h]

/-- Before its last step the loop goes on without a failure. -/
theorem stepLoop_before {count fewer : Nat} (hle : fewer ≤ count)
    (h : projection.stepLoop input count = .ok next) (hunfinished : next.finished = false) :
    ∃ left, projection.stepLoop input fewer = .ok left ∧ left.finished = false := by
  obtain ⟨more, rfl⟩ := Nat.exists_eq_add_of_le hle
  rw [stepLoop_add] at h
  cases hloop : projection.stepLoop input fewer with
  | error failure =>
      rw [hloop] at h
      exact nomatch h
  | ok left =>
      rw [hloop] at h
      refine ⟨left, rfl, ?_⟩
      by_contra hfinished
      have hsame : left.stepLoop input more = .ok left :=
        stepLoop_finished (by simpa using hfinished) more
      have hequal : left = next := Except.ok.inj (hsame.symm.trans h)
      exact hfinished (hequal ▸ hunfinished)

/-- After it, the result stays. -/
theorem stepLoop_after {count more : Nat} (hless : count < more)
    (h : projection.stepLoop input count = .ok next)
    (hending : Ending input target existing maximum own next) :
    projection.stepLoop input more =
      if maximum < existing.length + own.length then
        .error (.capacity (existing.length + own.length), next)
      else .ok { next with finished := true } := by
  obtain ⟨rest, rfl⟩ := Nat.exists_eq_add_of_lt hless
  rw [Nat.add_assoc, stepLoop_add, h]
  change next.stepLoop input (rest + 1) = _
  rw [stepLoop, if_neg (by simp [hending.unfinished]), hending.advance]
  by_cases hfull : maximum < existing.length + own.length
  · rw [if_pos hfull, if_pos hfull]
  · rw [if_neg hfull, if_neg hfull]
    exact stepLoop_finished rfl rest

/-- The constructor, for a mask without runs and for any other. -/
theorem create_cases {scratch : Option (List Interval)} (hsource : 0 < source.width)
    (hheight : 0 < source.height) (hcount : target.width * target.height < 2 ^ 32)
    (h : create pairs source target geometry scratch existing maximum = .ok (input, start)) :
    input.pairs = pairs ∧ input.sourceDimensions = source ∧ input.geometry = geometry ∧
      input.first = existing.length ∧
      ((pairs = [] ∧ start.finished = true ∧ start.failed = false ∧ start.source = {} ∧
          start.emitter.output = existing ∧ start.emitter.bounds = {}) ∨
        (pairs ≠ [] ∧ Accepted input target ∧
          (input.identity = true → IsIdentity input target) ∧
          Fresh target existing maximum start)) := by
  rw [create] at h
  dsimp only at h
  split at h
  next => exact nomatch h
  next hgeometry =>
    simp only [not_or, not_lt] at hgeometry
    obtain ⟨-, hresizedWidth, -, hwidth, hheightFits, hoffsetX, hoffsetY⟩ := hgeometry
    split at h
    next hpairs =>
      cases h
      exact ⟨rfl, rfl, rfl, rfl, .inl ⟨hpairs, rfl, rfl, rfl, rfl, rfl⟩⟩
    next hpairs =>
      obtain ⟨pixels, hpixels, hrest⟩ := bind_eq_ok.mp h
      obtain ⟨-, -, hstart⟩ := bind_eq_ok.mp hrest
      have hsize : pixels = source.width * source.height := by
        rw [checkedPixelCount] at hpixels
        split at hpixels
        · exact nomatch hpixels
        · exact (Except.ok.inj hpixels).symm
      cases hstart
      refine ⟨rfl, rfl, rfl, rfl, .inr ⟨hpairs, ⟨hsource, hheight, hsize,
        Nat.pos_of_ne_zero hresizedWidth, ?_, ?_, hcount, rfl⟩, fun hidentity => ?_,
        ⟨rfl, rfl, rfl, rfl, rfl, rfl, rfl, rfl, rfl⟩⟩⟩
      · dsimp only
        omega
      · dsimp only
        omega
      · obtain ⟨hsameWidth, hsameHeight, hresized, hresizedHeight, hx, hy⟩ :=
          of_decide_eq_true hidentity
        exact ⟨hsameWidth.symm, hsameHeight.symm, hresized, hresizedHeight, hx, hy⟩

theorem runs_unique {runs others : List RLEPair} (h : Separated 1 (runs.map RLEPair.interval))
    (hothers : Separated 1 (others.map RLEPair.interval))
    (hsame : ∀ pixel, Foreground runs pixel ↔ Foreground others pixel) : runs = others := by
  have hinjective : Function.Injective RLEPair.interval := by
    intro run other hequal
    obtain ⟨start, length⟩ := run
    obtain ⟨otherStart, otherLength⟩ := other
    obtain ⟨hstart, hend⟩ := Prod.ext_iff.mp hequal
    dsimp only [RLEPair.interval] at hstart hend
    obtain rfl := hstart
    rw [Nat.add_left_cancel hend]
  exact hinjective.list_map (h.ext hothers hsame)

/-- The runs and the answer that the steps end with. -/
def Ended (pairs existing runs : List RLEPair) (maximum : Nat)
    (result : Except MaskError Bool × RowMajorMaskProjection) : Prop :=
  if pairs = [] ∨ existing.length + runs.length ≤ maximum then
    result.1 = .ok true ∧ result.2.emitter.output = existing ++ runs
  else
    result.1 = .error (.capacity (existing.length + runs.length)) ∧
      result.2.emitter.output = existing

/-- The dense target mask. -/
def TargetPixel (source : MaskDimensions) (geometry : ImageResizeGeometry) (pairs : List RLEPair)
    (x y : Nat) : Prop :=
  (geometry.offsetX ≤ x ∧ x < geometry.offsetX + geometry.resizedWidth) ∧
    (geometry.offsetY ≤ y ∧ y < geometry.offsetY + geometry.resizedHeight) ∧
    Foreground pairs
      ((2 * (y - geometry.offsetY) + 1) * source.height / (2 * geometry.resizedHeight) *
          source.width +
        (2 * (x - geometry.offsetX) + 1) * source.width / (2 * geometry.resizedWidth))

theorem sampled_iff_targetPixel {x y : Nat} (hx : x < target.width)
    (hcolumns : geometry.resizedWidth + geometry.offsetX ≤ target.width) :
    Sampled source geometry target.width (Foreground pairs) (y * target.width + x) ↔
      TargetPixel source geometry pairs x y := by
  constructor
  · rintro ⟨column, row, hcolumn, hrow, hpixel, hforeground⟩
    have hparts : y = row + geometry.offsetY ∧ x = column + geometry.offsetX := by
      have hdiv := congrArg (· / target.width) hpixel
      have hmod := congrArg (· % target.width) hpixel
      have hless : column + geometry.offsetX < target.width := by omega
      rw [Nat.mul_add_mod', Nat.mul_add_mod', Nat.mod_eq_of_lt hx, Nat.mod_eq_of_lt hless] at hmod
      rw [Nat.add_comm, Nat.add_mul_div_right _ _ (by omega), Nat.div_eq_of_lt hx,
        Nat.add_comm _ (column + _), Nat.add_mul_div_right _ _ (by omega),
        Nat.div_eq_of_lt hless] at hdiv
      omega
    obtain ⟨rfl, rfl⟩ := hparts
    refine ⟨by omega, by omega, ?_⟩
    rw [Nat.add_sub_cancel, Nat.add_sub_cancel]
    exact hforeground
  · rintro ⟨⟨hleft, hright⟩, ⟨htop, hbottom⟩, hforeground⟩
    refine ⟨x - geometry.offsetX, y - geometry.offsetY, by omega, by omega, ?_, hforeground⟩
    rw [Nat.sub_add_cancel hleft, Nat.sub_add_cancel htop]

/-- With the identity path, or without it. -/
def choosePath (input : MaskProjectionInput) (general : Bool) : MaskProjectionInput :=
  { input with identity := input.identity && !general }

theorem Ending.foreground (h : Ending input target existing maximum own projection) (pixel : Nat) :
    Foreground own pixel ↔ Projected input target (Foreground input.pairs) pixel := by
  obtain ⟨limit, hemitted⟩ := h.emitted
  exact hemitted.covered pixel

theorem projected_lt (haccepted : Accepted input target) {processed : Nat → Prop} {pixel : Nat}
    (h : Projected input target processed pixel) : pixel < target.width * target.height := by
  obtain ⟨column, row, hcolumn, hrow, rfl, -⟩ := h
  have hcolumns := haccepted.columns
  have hrows := haccepted.rows
  have hless : row + input.geometry.offsetY + 1 ≤ target.height := by omega
  have hmul := Nat.mul_le_mul_left target.width hless
  rw [Nat.mul_add, Nat.mul_comm] at hmul
  omega

/-- The last state of the steps, and their answer. -/
def lastStep (input : MaskProjectionInput) (existing runs : List RLEPair) (maximum : Nat)
    (ending : RowMajorMaskProjection) : Except MaskError Bool × RowMajorMaskProjection :=
  if maximum < existing.length + runs.length then
    (.error (.capacity (existing.length + runs.length)), ending.rollback input)
  else (.ok true, { ending with finished := true })

theorem Ending.lastStep_ended (h : Ending input target existing maximum own projection)
    (hpairs : pairs ≠ []) (hfirst : input.first = existing.length) :
    Ended pairs existing own maximum (lastStep input existing own maximum projection) := by
  obtain ⟨limit, hemitted⟩ := h.emitted
  rw [Ended, lastStep]
  by_cases hfull : maximum < existing.length + own.length
  · rw [if_neg fun hor => hor.elim hpairs (not_le.mpr hfull), if_pos hfull]
    refine ⟨rfl, ?_⟩
    change projection.emitter.output.take input.first = existing
    rw [hemitted.outputEq, hfirst, List.take_left]
  · rw [if_pos (.inr (not_lt.mp hfull)), if_neg hfull]
    refine ⟨rfl, ?_⟩
    change projection.emitter.output = existing ++ own
    rw [hemitted.outputEq, List.take_of_length_le (by omega)]

theorem lastStep_bounds (input : MaskProjectionInput) (existing runs : List RLEPair) (maximum : Nat)
    (projection : RowMajorMaskProjection) :
    (lastStep input existing runs maximum projection).2.emitter.bounds = projection.emitter.bounds ∧
      (lastStep input existing runs maximum projection).2.source = projection.source := by
  rw [lastStep]
  split <;> exact ⟨rfl, rfl⟩

/-- However the work is cut into steps, they come to the same end. -/
theorem Ending.steps {count : Nat} (h : Ending input target existing maximum own next)
    (hloop : start.stepLoop input count = .ok next) (hfailed : start.failed = false)
    (bounds : List Nat) (hpositive : ∀ bound ∈ bounds, 0 < bound) :
    (bounds.sum < count + 1 → ∃ left, steps input bounds start = (.ok false, left)) ∧
      (count + 1 ≤ bounds.sum →
        steps input bounds start = lastStep input existing own maximum next) := by
  rw [steps_eq bounds hpositive hfailed]
  constructor
  · intro hless
    obtain ⟨left, hleft, hunfinished⟩ :=
      stepLoop_before (Nat.le_of_lt_succ hless) hloop h.unfinished
    rw [hleft]
    exact ⟨left, by dsimp only; rw [hunfinished]⟩
  · intro hmore
    rw [stepLoop_after hmore hloop h, lastStep]
    by_cases hfull : maximum < existing.length + own.length
    · rw [if_pos hfull, if_pos hfull]
    · rw [if_neg hfull, if_neg hfull]

/-- The appended runs are the canonical ones of the dense target mask, and the bounds are exact,
with either path and however the work is cut into steps. -/
def ProjectsExactly (pairs existing : List RLEPair) (source target : MaskDimensions)
    (geometry : ImageResizeGeometry) (maximum : Nat) (input : MaskProjectionInput)
    (start : RowMajorMaskProjection) : Prop :=
  ∃ runs : List RLEPair, Separated 1 (runs.map RLEPair.interval) ∧
    (∀ pixel, Foreground runs pixel → pixel < target.width * target.height) ∧
    (∀ x < target.width, ∀ y, Foreground runs (y * target.width + x) ↔
      TargetPixel source geometry pairs x y) ∧
    ∀ general, ∃ count final, Ended pairs existing runs maximum final ∧
      TightBounds target.width (Foreground runs) final.2.emitter.bounds ∧
      TightBounds source.width (Foreground pairs) final.2.source ∧
      ∀ bounds : List Nat, (∀ bound ∈ bounds, 0 < bound) →
        (bounds.sum < count →
          ∃ left, steps (choosePath input general) bounds start = (.ok false, left)) ∧
        (count ≤ bounds.sum → steps (choosePath input general) bounds start = final)

theorem projection_sound (pairs existing : List RLEPair) (source target : MaskDimensions)
    (geometry : ImageResizeGeometry) (scratch : Option (List Interval)) (maximum : Nat)
    (input : MaskProjectionInput) (start : RowMajorMaskProjection)
    (hwidth : 0 < source.width) (hheight : 0 < source.height)
    (hcount : target.width * target.height < 2 ^ 32)
    (hvalid : ValidRuns (source.width * source.height) pairs)
    (hcreate : create pairs source target geometry scratch existing maximum = .ok (input, start)) :
    ProjectsExactly pairs existing source target geometry maximum input start := by
  obtain ⟨hpairs, hdimensions, hgeometry, hfirst, hcases⟩ := create_cases hwidth hheight hcount hcreate
  subst hdimensions hgeometry
  obtain ⟨rfl, hfinished, hfailed, hsource, houtput, hbounds⟩ | ⟨hsome, haccepted, hidentity, hfresh⟩ :=
    hcases
  · refine ⟨[], .nil, fun pixel hpixel => absurd hpixel covered_nil, fun x hx y =>
      iff_of_false covered_nil fun htarget => covered_nil htarget.2.2, fun general => ?_⟩
    refine ⟨0, (.ok true, start), ?_, ?_, ?_, fun bounds hpositive => ⟨fun hless =>
      absurd hless (Nat.not_lt_zero _), fun _ => ?_⟩⟩
    · rw [Ended, if_pos (.inl rfl), List.append_nil]
      exact ⟨rfl, houtput⟩
    · rw [hbounds]
      exact TightBounds.nothing.congr fun _ => (iff_of_false covered_nil not_false).symm
    · rw [hsource]
      exact TightBounds.nothing.congr fun _ => (iff_of_false covered_nil not_false).symm
    · rw [steps_eq bounds hpositive hfailed, stepLoop_finished hfinished]
      dsimp only
      rw [hfinished]
  · have hend : ∀ general, ∃ own next count,
        start.stepLoop (choosePath input general) count = .ok next ∧
        Ending (choosePath input general) target existing maximum own next := fun general => by
      have hsame : Accepted (choosePath input general) target :=
        ⟨haccepted.sourceWidth, haccepted.sourceHeight, haccepted.pixels, haccepted.resizedWidth,
          haccepted.columns, haccepted.rows, haccepted.count, haccepted.full⟩
      have hruns : ValidRuns (choosePath input general).pixels (choosePath input general).pairs := by
        change ValidRuns input.pixels input.pairs
        rw [haccepted.pixels, hpairs]
        exact hvalid
      have hpath : (choosePath input general).identity = true →
          IsIdentity (choosePath input general) target := fun hmode => by
        obtain ⟨hplain, -⟩ := Bool.and_eq_true_iff.mp hmode
        obtain ⟨h1, h2, h3, h4, h5, h6⟩ := hidentity hplain
        exact ⟨h1, h2, h3, h4, h5, h6⟩
      obtain ⟨next, own, ⟨count, hcount⟩, hending⟩ := reaches_end hsame hruns hpath hfresh
      exact ⟨own, next, count, hcount, hending⟩
    obtain ⟨runs, plain, -, -, hplain⟩ := hend false
    obtain ⟨limit, hemitted⟩ := hplain.emitted
    have hforeground : ∀ pixel, Foreground runs pixel ↔
        Projected input target (Foreground pairs) pixel := fun pixel =>
      hpairs ▸ hplain.foreground pixel
    refine ⟨runs, hemitted.separated, fun pixel hpixel =>
      projected_lt haccepted ((hforeground pixel).mp hpixel), fun x hx y =>
      (hforeground _).trans (sampled_iff_targetPixel hx haccepted.columns), fun general => ?_⟩
    obtain ⟨own, next, count, hloop, hending⟩ := hend general
    obtain ⟨last, hown⟩ := hending.emitted
    have hsame : own = runs := runs_unique hown.separated hemitted.separated fun pixel =>
      (hending.foreground pixel).trans (hplain.foreground pixel).symm
    subst hsame
    obtain ⟨hboundsEq, hsourceEq⟩ :=
      lastStep_bounds (choosePath input general) existing own maximum next
    refine ⟨count + 1, lastStep (choosePath input general) existing own maximum next,
      hending.lastStep_ended hsome hfirst, ?_, ?_, hending.steps hloop hfresh.failed⟩
    · rw [hboundsEq]
      exact hown.bounds.congr fun pixel => (hending.foreground pixel).symm
    · rw [hsourceEq, ← hpairs]
      exact hending.source

theorem projection_sound_halved :
    ∃ input start,
      create [⟨1, 5⟩, ⟨6, 1⟩] ⟨4, 2, by decide, by decide⟩ ⟨3, 4, by decide, by decide⟩ ⟨2, 4, 1, 0⟩
        (some []) [⟨0, 9⟩] (2 ^ 64 - 1) = .ok (input, start) ∧
      ProjectsExactly [⟨1, 5⟩, ⟨6, 1⟩] [⟨0, 9⟩] ⟨4, 2, by decide, by decide⟩
        ⟨3, 4, by decide, by decide⟩ ⟨2, 4, 1, 0⟩ (2 ^ 64 - 1) input start :=
  ⟨_, _, rfl, projection_sound _ _ _ _ _ (some []) _ _ _ (by decide) (by decide) (by decide)
    ⟨by decide, by decide, by decide⟩ rfl⟩

end RowMajorMaskProjection

end Mmltk.Dataset
