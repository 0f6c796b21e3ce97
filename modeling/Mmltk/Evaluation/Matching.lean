import Mathlib.Data.Fin.VecNotation
import Mathlib.Data.List.Sort
import Mathlib.Tactic.NormNum

namespace Mmltk.Evaluation

/-! Predictions of one category matched with ground truths, all thresholds and areas at once. -/

inductive EvaluationArea where
  | all
  | small
  | medium
  | large
  deriving DecidableEq, Repr

abbrev iouCount : Nat := 10

def iouThresholds : Fin iouCount → ℚ :=
  ![50 / 100, 55 / 100, 60 / 100, 65 / 100, 70 / 100, 75 / 100, 80 / 100, 85 / 100, 90 / 100, 95 / 100]

abbrev ThresholdBits := BitVec 16

def allThresholdBits : ThresholdBits := (1#16 <<< iouCount) - 1#16

structure MatchCandidate where
  iou : ℚ
  groundTruthIndex : Nat
  groundTruthOrdinal : Nat
  eligibleThresholdBits : ThresholdBits

structure MatchRecord (S : Type) where
  score : S
  imageOrdinal : Nat
  predictionOrdinal : Nat
  categoryIndex : Nat
  categoryRank : Nat
  areaMatchedBits : EvaluationArea → ThresholdBits
  areaIgnoredBits : EvaluationArea → ThresholdBits

def eligibleThresholdBits (iou : ℚ) : ThresholdBits :=
  (List.finRange iouCount).foldl
    (fun bits threshold =>
      if iouThresholds threshold ≤ iou then bits ||| 1#16 <<< threshold.val else bits)
    0#16

/-- The ranges overlap exactly at 32² and 96². -/
def evaluationAreaContains (area : EvaluationArea) (value : ℚ) : Bool :=
  let (minimum, maximum) : ℚ × ℚ :=
    match area with
    | .all => (0, 10000000000)
    | .small => (0, 1024)
    | .medium => (1024, 9216)
    | .large => (9216, 10000000000)
  minimum ≤ value && value ≤ maximum

/-- What the matching asks of the ground truths and predictions of one image and category. -/
structure CategoryImage (S : Type) where
  groundTruthOrdinals : List Nat
  imageOrdinal : Nat
  categoryIndex : Nat
  score : Nat → S
  /-- Of a prediction and a ground truth, by their indices. -/
  iou : Nat → Nat → ℚ
  groundTruthArea : Nat → ℚ
  predictionArea : Nat → ℚ
  crowd : Nat → Bool

variable {S : Type}

namespace CategoryImage

variable (image : CategoryImage S)

/-- The ground truths of one prediction that reach the lowest threshold, in annotation order. -/
def reached (prediction : Nat) : List MatchCandidate :=
  image.groundTruthOrdinals.zipIdx.filterMap fun (ordinal, index) =>
    let iou := image.iou prediction index
    if iouThresholds 0 ≤ iou then some ⟨iou, index, ordinal, eligibleThresholdBits iou⟩ else none

/-- The larger IoU first, and of equal ones the later annotation. -/
def candidateLe (candidate other : MatchCandidate) : Bool :=
  other.iou < candidate.iou ||
    (candidate.iou = other.iou && other.groundTruthOrdinal ≤ candidate.groundTruthOrdinal)

def candidates (prediction : Nat) : List MatchCandidate :=
  (image.reached prediction).mergeSort candidateLe

/-- A ground truth that an area does not count. -/
def ignores (area : EvaluationArea) (index : Nat) : Bool :=
  image.crowd index || !evaluationAreaContains area (image.groundTruthArea index)

/-- One prediction in one area: the bits matched and ignored so far, and by ground truth the bits
that are still unmatched. -/
structure AreaState where
  matched : ThresholdBits
  ignored : ThresholdBits
  unmatched : Nat → ThresholdBits

def claim (ignoreGroup : Bool) (candidate : MatchCandidate) (state : AreaState) : AreaState :=
  let index := candidate.groundTruthIndex
  let available :=
    state.unmatched index &&& candidate.eligibleThresholdBits &&& ~~~state.matched
  { matched := state.matched ||| available
    ignored := if ignoreGroup then state.ignored ||| available else state.ignored
    unmatched :=
      if image.crowd index then state.unmatched
      else Function.update state.unmatched index (state.unmatched index &&& ~~~available) }

def matchGroup (area : EvaluationArea) (ignoreGroup : Bool) :
    List MatchCandidate → AreaState → AreaState
  | [], state => state
  | candidate :: rest, state =>
      if state.matched = allThresholdBits then state
      else if image.ignores area candidate.groundTruthIndex != ignoreGroup then
        matchGroup area ignoreGroup rest state
      else matchGroup area ignoreGroup rest (image.claim ignoreGroup candidate state)

/-- A ground truth that counts goes before every ignored one. -/
def matchGroups (area : EvaluationArea) (prediction : Nat) (unmatched : Nat → ThresholdBits) :
    AreaState :=
  let candidates := image.candidates prediction
  let counted := image.matchGroup area false candidates ⟨0#16, 0#16, unmatched⟩
  if counted.matched = allThresholdBits then counted
  else image.matchGroup area true candidates counted

def matchArea (area : EvaluationArea) (prediction : Nat) (unmatched : Nat → ThresholdBits) :
    AreaState :=
  let state := image.matchGroups area prediction unmatched
  if evaluationAreaContains area (image.predictionArea prediction) then state
  else { state with ignored := state.ignored ||| (allThresholdBits &&& ~~~state.matched) }

/-- The predictions from one rank on. -/
def matchFrom (unmatched : EvaluationArea → Nat → ThresholdBits) (rank : Nat) :
    List Nat → List (MatchRecord S)
  | [] => []
  | prediction :: rest =>
      let settled := fun area => image.matchArea area prediction (unmatched area)
      { score := image.score prediction
        imageOrdinal := image.imageOrdinal
        predictionOrdinal := prediction
        categoryIndex := image.categoryIndex
        categoryRank := rank
        areaMatchedBits := fun area => (settled area).matched
        areaIgnoredBits := fun area => (settled area).ignored } ::
        matchFrom (fun area => (settled area).unmatched) (rank + 1) rest

/-- The records, and how many IoUs were asked for. -/
def matchCategoryPredictions (predictionIndices : List Nat) : List (MatchRecord S) × Nat :=
  (image.matchFrom (fun _ _ => allThresholdBits) 0 predictionIndices,
    predictionIndices.length * image.groundTruthOrdinals.length)

end CategoryImage

/-! One bit of the masks. -/

theorem allThresholdBits_getLsbD {threshold : Nat} (hthreshold : threshold < iouCount) :
    allThresholdBits.getLsbD threshold = true := by
  have hall : ∀ threshold < 10, (((1#16 <<< 10) - 1#16 : BitVec 16)).getLsbD threshold = true := by
    decide
  exact hall threshold hthreshold

theorem not_getLsbD (bits : ThresholdBits) (threshold : Fin iouCount) :
    (~~~bits).getLsbD threshold = !bits.getLsbD threshold := by
  rw [BitVec.getLsbD_not, decide_eq_true (Nat.lt_trans threshold.isLt (by decide)), Bool.true_and]

theorem shifted_getLsbD (other threshold : Nat) (hthreshold : threshold < 16) :
    (1#16 <<< other).getLsbD threshold = decide (other = threshold) := by
  rw [BitVec.getLsbD_shiftLeft, BitVec.getLsbD_one, Bool.eq_iff_iff]
  simp only [Bool.and_eq_true, Bool.not_eq_true', decide_eq_true_eq, decide_eq_false_iff_not]
  omega

theorem eligible_fold (iou : ℚ) {threshold : Nat} (hthreshold : threshold < 16)
    (thresholds : List (Fin iouCount)) (bits : ThresholdBits) :
    (thresholds.foldl
        (fun bits threshold =>
          if iouThresholds threshold ≤ iou then bits ||| 1#16 <<< threshold.val else bits)
        bits).getLsbD threshold =
      (bits.getLsbD threshold ||
        thresholds.any fun other => other.val = threshold && iouThresholds other ≤ iou) := by
  induction thresholds generalizing bits with
  | nil => simp
  | cons other rest ih =>
      rw [List.foldl_cons, ih, List.any_cons, ← Bool.or_assoc]
      split
      next hreaches =>
        rw [BitVec.getLsbD_or, shifted_getLsbD other threshold hthreshold, decide_eq_true hreaches,
          Bool.and_true]
      next hbelow => rw [decide_eq_false hbelow, Bool.and_false, Bool.or_false]

theorem eligibleThresholdBits_getLsbD (iou : ℚ) (threshold : Fin iouCount) :
    (eligibleThresholdBits iou).getLsbD threshold = decide (iouThresholds threshold ≤ iou) := by
  rw [eligibleThresholdBits, eligible_fold iou (Nat.lt_trans threshold.isLt (by decide)),
    BitVec.getLsbD_zero, Bool.false_or, Bool.eq_iff_iff, List.any_eq_true, decide_eq_true_eq]
  constructor
  · intro ⟨other, _, hother⟩
    rw [Bool.and_eq_true, decide_eq_true_eq, decide_eq_true_eq] at hother
    exact Fin.ext hother.1 ▸ hother.2
  · intro hreaches
    exact ⟨threshold, List.mem_finRange threshold, by simp [hreaches]⟩

theorem iouThresholds_lowest (threshold : Fin iouCount) :
    iouThresholds 0 ≤ iouThresholds threshold := by
  revert threshold
  decide +kernel

/-! The last of the best ones, which is the only one of its kind. -/

/-- Of the indices with `free`, the choice has the largest IoU, and no later one has as much. -/
def LastBest (iou : Nat → ℚ) (free : Nat → Prop) : Option Nat → Prop
  | none => ∀ index, ¬ free index
  | some choice => free choice ∧
      ∀ other, free other → iou other < iou choice ∨ (iou other = iou choice ∧ other ≤ choice)

theorem LastBest.unique {iou : Nat → ℚ} {free : Nat → Prop} {first second : Option Nat}
    (hfirst : LastBest iou free first) (hsecond : LastBest iou free second) : first = second := by
  cases first with
  | none =>
      cases second with
      | none => rfl
      | some choice => exact absurd hsecond.1 (hfirst choice)
  | some choice =>
      cases second with
      | none => exact absurd hfirst.1 (hsecond choice)
      | some other =>
          have hle := hfirst.2 other hsecond.1
          have hge := hsecond.2 choice hfirst.1
          grind

/-- More indices make no difference if each of them is no better than one there. -/
theorem LastBest.widen {iou : Nat → ℚ} {free wider : Nat → Prop} {choice : Option Nat}
    (h : LastBest iou free choice) (hsub : ∀ index, free index → wider index)
    (hextra : ∀ index, wider index → free index ∨ ∃ other, free other ∧
      (iou index < iou other ∨ (iou index = iou other ∧ index ≤ other))) :
    LastBest iou wider choice := by
  cases choice with
  | none =>
      intro index hwider
      cases hextra index hwider with
      | inl hfree => exact h index hfree
      | inr hworse =>
          obtain ⟨other, hfree, -⟩ := hworse
          exact h other hfree
  | some choice =>
      refine ⟨hsub choice h.1, fun index hwider => ?_⟩
      cases hextra index hwider with
      | inl hfree => exact h.2 index hfree
      | inr hworse =>
          obtain ⟨other, hfree, hle⟩ := hworse
          have hother := h.2 other hfree
          grind

namespace CategoryImage

variable (image : CategoryImage S) (area : EvaluationArea) (threshold : Fin iouCount)

/-- A candidate of one group that the prediction may still take at a threshold. -/
def takes (area : EvaluationArea) (ignoreGroup : Bool) (threshold : Fin iouCount)
    (unmatched : Nat → ThresholdBits) (candidate : MatchCandidate) : Bool :=
  image.ignores area candidate.groundTruthIndex == ignoreGroup &&
    ((unmatched candidate.groundTruthIndex).getLsbD threshold &&
      candidate.eligibleThresholdBits.getLsbD threshold)

/-- The bits that are unmatched once a ground truth is taken; crowds can be taken again. -/
def freed (unmatched : Nat → ThresholdBits) (choice : Option Nat) (index : Nat) : Bool :=
  (unmatched index).getLsbD threshold && (image.crowd index || choice != some index)

theorem freed_none (unmatched : Nat → ThresholdBits) (index : Nat) :
    image.freed threshold unmatched none index = (unmatched index).getLsbD threshold := by
  have hother : (none != some index) = true := rfl
  rw [freed, hother, Bool.or_true, Bool.and_true]

theorem claim_bit (ignoreGroup : Bool) (candidate : MatchCandidate) (state : AreaState) :
    let after := image.claim ignoreGroup candidate state
    let takes := (state.unmatched candidate.groundTruthIndex).getLsbD threshold &&
      candidate.eligibleThresholdBits.getLsbD threshold && !state.matched.getLsbD threshold
    after.matched.getLsbD threshold = (state.matched.getLsbD threshold || takes) ∧
      after.ignored.getLsbD threshold =
        (state.ignored.getLsbD threshold || (ignoreGroup && takes)) ∧
      ∀ index, (after.unmatched index).getLsbD threshold =
        if takes then image.freed threshold state.unmatched (some candidate.groundTruthIndex) index
        else (state.unmatched index).getLsbD threshold := by
  intro after takes
  have havailable :
      (state.unmatched candidate.groundTruthIndex &&& candidate.eligibleThresholdBits &&&
        ~~~state.matched).getLsbD threshold = takes := by
    rw [BitVec.getLsbD_and, BitVec.getLsbD_and, not_getLsbD]
  refine ⟨?_, ?_, fun index => ?_⟩
  · simp only [after, claim, BitVec.getLsbD_or, havailable]
  · cases ignoreGroup with
    | false => simp only [after, claim, Bool.false_eq_true, if_false, Bool.false_and, Bool.or_false]
    | true => simp only [after, claim, if_true, BitVec.getLsbD_or, havailable, Bool.true_and]
  · simp only [after, claim, freed]
    by_cases hindex : index = candidate.groundTruthIndex
    · subst hindex
      cases hcrowd : image.crowd candidate.groundTruthIndex with
      | true => simp
      | false =>
          rw [if_neg (by decide), Function.update_self, BitVec.getLsbD_and, not_getLsbD, havailable]
          cases takes <;> simp
    · have hother : (some candidate.groundTruthIndex != some index) = true := by
        simp [Ne.symm hindex]
      rw [hother, Bool.or_true, Bool.and_true, ite_self]
      split
      · rfl
      · rw [Function.update_of_ne hindex]

/-- A prediction that is matched at a threshold takes nothing more there. -/
theorem matchGroup_settled (ignoreGroup : Bool) {state : AreaState}
    (hmatched : state.matched.getLsbD threshold = true) (candidates : List MatchCandidate) :
    let after := image.matchGroup area ignoreGroup candidates state
    after.matched.getLsbD threshold = true ∧
      after.ignored.getLsbD threshold = state.ignored.getLsbD threshold ∧
      ∀ index, (after.unmatched index).getLsbD threshold =
        (state.unmatched index).getLsbD threshold := by
  induction candidates generalizing state with
  | nil => exact ⟨hmatched, rfl, fun _ => rfl⟩
  | cons candidate rest ih =>
      intro after
      simp only [after, matchGroup]
      split
      · exact ⟨hmatched, rfl, fun _ => rfl⟩
      · split
        · exact ih hmatched
        · have hbit := image.claim_bit threshold ignoreGroup candidate state
          simp only [hmatched, Bool.not_true, Bool.and_false, Bool.or_false, Bool.false_eq_true,
            if_false] at hbit
          have hrest := ih hbit.1
          exact ⟨hrest.1, hrest.2.1.trans hbit.2.1,
            fun index => (hrest.2.2 index).trans (hbit.2.2 index)⟩

/-- At one threshold a group gives the prediction the first candidate that it takes. -/
theorem matchGroup_bit (ignoreGroup : Bool) (state : AreaState)
    (hopen : state.matched.getLsbD threshold = false) (candidates : List MatchCandidate) :
    let after := image.matchGroup area ignoreGroup candidates state
    let choice := (candidates.find? (image.takes area ignoreGroup threshold state.unmatched)).map
      (·.groundTruthIndex)
    after.matched.getLsbD threshold = choice.isSome ∧
      after.ignored.getLsbD threshold =
        (state.ignored.getLsbD threshold || (ignoreGroup && choice.isSome)) ∧
      ∀ index, (after.unmatched index).getLsbD threshold =
        image.freed threshold state.unmatched choice index := by
  induction candidates generalizing state with
  | nil => simp [matchGroup, hopen, freed]
  | cons candidate rest ih =>
      have hroom : state.matched ≠ allThresholdBits := fun hall => by
        rw [hall, allThresholdBits_getLsbD threshold.isLt] at hopen
        cases hopen
      have hbit := image.claim_bit threshold ignoreGroup candidate state
      intro after choice
      cases hgroup : image.ignores area candidate.groundTruthIndex == ignoreGroup with
      | false =>
          have hpass : image.takes area ignoreGroup threshold state.unmatched candidate = false := by
            rw [takes, hgroup, Bool.false_and]
          simp only [after, choice, matchGroup, if_neg hroom, bne, hgroup, Bool.not_false, if_true,
            List.find?_cons, hpass]
          exact ih state hopen
      | true =>
          simp only [after, choice, matchGroup, if_neg hroom, bne, hgroup, Bool.not_true,
            Bool.false_eq_true, if_false, List.find?_cons]
          cases htakes : image.takes area ignoreGroup threshold state.unmatched candidate with
          | true =>
              rw [takes, hgroup, Bool.true_and] at htakes
              simp only [htakes, hopen, Bool.not_false, Bool.and_true, Bool.or_true, if_true] at hbit
              have hrest := image.matchGroup_settled area threshold ignoreGroup hbit.1 rest
              refine ⟨hrest.1, ?_, fun index => (hrest.2.2 index).trans (hbit.2.2 index)⟩
              rw [hrest.2.1, hbit.2.1, Option.map_some, Option.isSome_some, Bool.and_true]
          | false =>
              have hsame : image.takes area ignoreGroup threshold
                  (image.claim ignoreGroup candidate state).unmatched =
                    image.takes area ignoreGroup threshold state.unmatched := by
                rw [takes, hgroup, Bool.true_and] at htakes
                simp only [htakes, Bool.false_and, Bool.false_eq_true, if_false] at hbit
                funext other
                rw [takes, takes, hbit.2.2]
              rw [takes, hgroup, Bool.true_and] at htakes
              simp only [htakes, hopen, Bool.false_and, Bool.and_false, Bool.or_false,
                Bool.false_eq_true, if_false] at hbit
              have hrest := ih (image.claim ignoreGroup candidate state) hbit.1
              simp only [hsame] at hrest
              refine ⟨hrest.1, hbit.2.1 ▸ hrest.2.1, fun index => (hrest.2.2 index).trans ?_⟩
              rw [freed, freed, hbit.2.2]

/-- The ground truth that a group has for a prediction at a threshold. -/
def groupChoice (area : EvaluationArea) (ignoreGroup : Bool) (threshold : Fin iouCount)
    (unmatched : Nat → ThresholdBits) (prediction : Nat) : Option Nat :=
  ((image.candidates prediction).find? (image.takes area ignoreGroup threshold unmatched)).map
    (·.groundTruthIndex)

def choice (area : EvaluationArea) (threshold : Fin iouCount) (unmatched : Nat → ThresholdBits)
    (prediction : Nat) : Option Nat :=
  (image.groupChoice area false threshold unmatched prediction).or
    (image.groupChoice area true threshold unmatched prediction)

theorem groupChoice_ignores {area : EvaluationArea} {ignoreGroup : Bool} {threshold : Fin iouCount}
    {unmatched : Nat → ThresholdBits} {prediction index : Nat}
    (h : image.groupChoice area ignoreGroup threshold unmatched prediction = some index) :
    image.ignores area index = ignoreGroup := by
  obtain ⟨candidate, hfind, rfl⟩ := Option.map_eq_some_iff.mp h
  have htakes := List.find?_some hfind
  rw [takes, Bool.and_eq_true] at htakes
  exact eq_of_beq htakes.1

theorem matchGroups_bit (unmatched : Nat → ThresholdBits) (prediction : Nat) :
    let after := image.matchGroups area prediction unmatched
    let choice := image.choice area threshold unmatched prediction
    after.matched.getLsbD threshold = choice.isSome ∧
      after.ignored.getLsbD threshold = choice.any (image.ignores area) ∧
      ∀ index, (after.unmatched index).getLsbD threshold =
        image.freed threshold unmatched choice index := by
  have hcounted := image.matchGroup_bit area threshold false ⟨0#16, 0#16, unmatched⟩
    BitVec.getLsbD_zero (image.candidates prediction)
  intro after choice
  cases hfirst : image.groupChoice area false threshold unmatched prediction with
  | some index =>
      have hchoice : choice = some index := by
        simp only [choice, CategoryImage.choice, hfirst, Option.some_or]
      have hignores := groupChoice_ignores image hfirst
      rw [groupChoice] at hfirst
      simp only [hfirst, Option.isSome_some, BitVec.getLsbD_zero, Bool.false_and, Bool.or_false]
        at hcounted
      rw [hchoice, Option.isSome_some, Option.any_some, hignores]
      simp only [after, matchGroups]
      split
      · exact hcounted
      · have hsettled := image.matchGroup_settled area threshold true hcounted.1
          (image.candidates prediction)
        exact ⟨hsettled.1, hsettled.2.1.trans hcounted.2.1,
          fun index => (hsettled.2.2 index).trans (hcounted.2.2 index)⟩
  | none =>
      have hchoice : choice = image.groupChoice area true threshold unmatched prediction := by
        simp only [choice, CategoryImage.choice, hfirst, Option.none_or]
      rw [groupChoice] at hfirst
      simp only [hfirst, Option.isSome_none, BitVec.getLsbD_zero, Bool.and_false, Bool.or_false]
        at hcounted
      have hroom : (image.matchGroup area false (image.candidates prediction)
          ⟨0#16, 0#16, unmatched⟩).matched ≠ allThresholdBits := fun hall => by
        rw [hall, allThresholdBits_getLsbD threshold.isLt] at hcounted
        cases hcounted.1
      have hignored := image.matchGroup_bit area threshold true _ hcounted.1
        (image.candidates prediction)
      have hsame : image.takes area true threshold (image.matchGroup area false
          (image.candidates prediction) ⟨0#16, 0#16, unmatched⟩).unmatched =
            image.takes area true threshold unmatched := by
        funext candidate
        rw [takes, takes, hcounted.2.2, freed_none]
      simp only [hsame, hcounted.2.1, Bool.false_or, Bool.true_and] at hignored
      simp only [after, matchGroups, if_neg hroom, hchoice]
      refine ⟨hignored.1, hignored.2.1.trans ?_, fun index => (hignored.2.2 index).trans ?_⟩
      · cases hsecond : image.groupChoice area true threshold unmatched prediction with
        | none =>
            rw [groupChoice] at hsecond
            rw [hsecond]
            rfl
        | some index =>
            have hignores := groupChoice_ignores image hsecond
            rw [groupChoice] at hsecond
            rw [hsecond, Option.isSome_some, Option.any_some, hignores]
      · rw [freed, freed, hcounted.2.2, freed_none]
        rfl

theorem matchArea_bit (unmatched : Nat → ThresholdBits) (prediction : Nat) :
    let after := image.matchArea area prediction unmatched
    let choice := image.choice area threshold unmatched prediction
    after.matched.getLsbD threshold = choice.isSome ∧
      after.ignored.getLsbD threshold = (choice.any (image.ignores area) ||
        (!choice.isSome && !evaluationAreaContains area (image.predictionArea prediction))) ∧
      ∀ index, (after.unmatched index).getLsbD threshold =
        image.freed threshold unmatched choice index := by
  have hgroups := image.matchGroups_bit area threshold unmatched prediction
  intro after choice
  simp only [after, matchArea]
  cases evaluationAreaContains area (image.predictionArea prediction) with
  | true =>
      refine ⟨hgroups.1, ?_, hgroups.2.2⟩
      rw [Bool.not_true, Bool.and_false, Bool.or_false]
      exact hgroups.2.1
  | false =>
      refine ⟨hgroups.1, ?_, hgroups.2.2⟩
      simp only [Bool.false_eq_true, if_false]
      rw [BitVec.getLsbD_or, BitVec.getLsbD_and, not_getLsbD, hgroups.1, hgroups.2.1,
        allThresholdBits_getLsbD threshold.isLt, Bool.true_and, Bool.not_false, Bool.and_true]

/-! The choice is the last best one of its group. -/

/-- A ground truth of a group that is free for a prediction at a threshold. -/
def Free (area : EvaluationArea) (ignoreGroup : Bool) (threshold : Fin iouCount)
    (unmatched : Nat → ThresholdBits) (prediction index : Nat) : Prop :=
  index < image.groundTruthOrdinals.length ∧ image.ignores area index = ignoreGroup ∧
    (unmatched index).getLsbD threshold = true ∧
    iouThresholds threshold ≤ image.iou prediction index

theorem mem_candidates {prediction : Nat} {candidate : MatchCandidate} :
    candidate ∈ image.candidates prediction ↔
      ∃ index, ∃ hindex : index < image.groundTruthOrdinals.length,
        iouThresholds 0 ≤ image.iou prediction index ∧
        candidate = ⟨image.iou prediction index, index, image.groundTruthOrdinals[index],
          eligibleThresholdBits (image.iou prediction index)⟩ := by
  rw [candidates, List.mem_mergeSort, reached, List.mem_filterMap]
  constructor
  · intro ⟨(ordinal, index), hmem, hcandidate⟩
    obtain ⟨hindex, hordinal⟩ := List.mem_zipIdx' hmem
    dsimp only at hcandidate
    split at hcandidate
    next hreaches => exact ⟨index, hindex, hreaches, hordinal ▸ (Option.some.inj hcandidate).symm⟩
    next hbelow => cases hcandidate
  · intro ⟨index, hindex, hreaches, hcandidate⟩
    refine ⟨(image.groundTruthOrdinals[index], index), ?_, by simp [hreaches, hcandidate]⟩
    exact List.mem_zipIdx_iff_getElem?.mpr (List.getElem?_eq_getElem hindex)

theorem candidates_pairwise (prediction : Nat) :
    (image.candidates prediction).Pairwise fun candidate other => candidateLe candidate other := by
  refine List.pairwise_mergeSort (fun first second third hfirst hsecond => ?_)
    (fun first second => ?_) _
  · simp only [candidateLe, Bool.or_eq_true, Bool.and_eq_true, decide_eq_true_eq] at *
    grind
  · simp only [candidateLe, Bool.or_eq_true, Bool.and_eq_true, decide_eq_true_eq]
    grind

theorem takes_free {area : EvaluationArea} {ignoreGroup : Bool} {threshold : Fin iouCount}
    {unmatched : Nat → ThresholdBits} {prediction : Nat} {candidate : MatchCandidate}
    (hmem : candidate ∈ image.candidates prediction)
    (htakes : image.takes area ignoreGroup threshold unmatched candidate) :
    image.Free area ignoreGroup threshold unmatched prediction candidate.groundTruthIndex := by
  obtain ⟨index, hindex, -, rfl⟩ := image.mem_candidates.mp hmem
  rw [takes, Bool.and_eq_true, Bool.and_eq_true, eligibleThresholdBits_getLsbD] at htakes
  exact ⟨hindex, eq_of_beq htakes.1, htakes.2.1, of_decide_eq_true htakes.2.2⟩

theorem Free.takes {area : EvaluationArea} {ignoreGroup : Bool} {threshold : Fin iouCount}
    {unmatched : Nat → ThresholdBits} {prediction index : Nat} {image : CategoryImage S}
    (h : image.Free area ignoreGroup threshold unmatched prediction index) :
    ∃ candidate ∈ image.candidates prediction, candidate.groundTruthIndex = index ∧
      image.takes area ignoreGroup threshold unmatched candidate := by
  obtain ⟨hindex, hignores, hunmatched, hreaches⟩ := h
  refine ⟨_, image.mem_candidates.mpr
    ⟨index, hindex, (iouThresholds_lowest threshold).trans hreaches, rfl⟩, rfl, ?_⟩
  rw [CategoryImage.takes, Bool.and_eq_true, Bool.and_eq_true, eligibleThresholdBits_getLsbD]
  exact ⟨beq_iff_eq.mpr hignores, hunmatched, decide_eq_true hreaches⟩

theorem candidateLe_index (hordinals : image.groundTruthOrdinals.Pairwise (· < ·))
    {prediction : Nat} {candidate other : MatchCandidate}
    (hcandidate : candidate ∈ image.candidates prediction)
    (hother : other ∈ image.candidates prediction) (hle : candidateLe candidate other) :
    image.iou prediction other.groundTruthIndex < image.iou prediction candidate.groundTruthIndex ∨
      (image.iou prediction other.groundTruthIndex =
          image.iou prediction candidate.groundTruthIndex ∧
        other.groundTruthIndex ≤ candidate.groundTruthIndex) := by
  obtain ⟨index, hindex, -, rfl⟩ := image.mem_candidates.mp hcandidate
  obtain ⟨index', hindex', -, rfl⟩ := image.mem_candidates.mp hother
  simp only [candidateLe, Bool.or_eq_true, Bool.and_eq_true, decide_eq_true_eq] at hle
  refine hle.imp_right fun hequal => ⟨hequal.1.symm, Nat.le_of_not_lt fun hlater => ?_⟩
  exact Nat.not_lt_of_le hequal.2
    (List.pairwise_iff_getElem.mp hordinals index index' hindex hindex' hlater)

/-- A group's choice has the largest IoU, and of equal ones it is the last annotation. -/
theorem groupChoice_lastBest (hordinals : image.groundTruthOrdinals.Pairwise (· < ·))
    (area : EvaluationArea) (ignoreGroup : Bool) (threshold : Fin iouCount)
    (unmatched : Nat → ThresholdBits) (prediction : Nat) :
    LastBest (image.iou prediction)
      (image.Free area ignoreGroup threshold unmatched prediction)
      (image.groupChoice area ignoreGroup threshold unmatched prediction) := by
  cases hfind : (image.candidates prediction).find?
      (image.takes area ignoreGroup threshold unmatched) with
  | none =>
      rw [groupChoice, hfind]
      intro index hfree
      obtain ⟨candidate, hmem, -, htakes⟩ := hfree.takes
      exact absurd htakes (List.find?_eq_none.mp hfind candidate hmem)
  | some candidate =>
      rw [groupChoice, hfind]
      have hmem := List.mem_of_find?_eq_some hfind
      refine ⟨image.takes_free hmem (List.find?_some hfind), fun index hfree => ?_⟩
      obtain ⟨other, hother, rfl, htakes⟩ := hfree.takes
      obtain ⟨-, before, after, hsplit, hbefore⟩ := List.find?_eq_some_iff_append.mp hfind
      have hpairs := image.candidates_pairwise prediction
      rw [hsplit, List.pairwise_append, List.pairwise_cons] at hpairs
      have hcases := hsplit ▸ hother
      rw [List.mem_append, List.mem_cons] at hcases
      cases hcases with
      | inl hearlier => exact absurd htakes (by simpa using hbefore other hearlier)
      | inr hlater =>
          cases hlater with
          | inl hsame => exact .inr ⟨hsame ▸ rfl, hsame ▸ Nat.le_refl _⟩
          | inr hafter =>
              exact image.candidateLe_index hordinals hmem hother (hpairs.2.1.1 other hafter)

end CategoryImage

end Mmltk.Evaluation
