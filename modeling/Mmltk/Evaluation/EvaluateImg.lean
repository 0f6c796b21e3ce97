import Mmltk.Evaluation.Matching

namespace Mmltk.Evaluation

/-! The plain COCO loop, which matches at one threshold in one area. -/

variable {S : Type}

namespace CategoryImage

variable (image : CategoryImage S) (area : EvaluationArea)

/-- The ground truths with the ignored ones last, each part in annotation order. -/
def evaluateOrder : List Nat :=
  let indices := List.range image.groundTruthOrdinals.length
  (indices.filter fun index => !image.ignores area index) ++
    indices.filter (image.ignores area)

/-- The best ground truth so far for one prediction, and the IoU to reach. -/
def bestMatch (matched : Nat → Bool) (iou : Nat → ℚ) (reach : ℚ) (best : Option Nat) :
    List Nat → Option Nat
  | [] => best
  | index :: rest =>
      if matched index && !image.crowd index then bestMatch matched iou reach best rest
      -- a match that counts is kept from the ignored ones on
      else if best.any (fun other => !image.ignores area other) && image.ignores area index then best
      else if iou index < reach then bestMatch matched iou reach best rest
      else bestMatch matched iou (iou index) (some index) rest

/-- Whether each prediction is matched, and whether it is ignored. -/
def evaluateFrom (threshold : ℚ) (matched : Nat → Bool) : List Nat → List (Bool × Bool)
  | [] => []
  | prediction :: rest =>
      match image.bestMatch area matched (image.iou prediction)
        (min threshold (1 - 1 / 10 ^ 10)) none (image.evaluateOrder area) with
      | none =>
          (false, !evaluationAreaContains area (image.predictionArea prediction)) ::
            evaluateFrom threshold matched rest
      | some index =>
          (true, image.ignores area index) ::
            evaluateFrom threshold (Function.update matched index true) rest

def evaluateImg (threshold : ℚ) (predictions : List Nat) : List (Bool × Bool) :=
  image.evaluateFrom area threshold (fun _ => false) predictions

/-! What one prediction gets. -/

/-- A ground truth that the loop does not skip. -/
def Reaches (matched : Nat → Bool) (iou : Nat → ℚ) (threshold : ℚ) (index : Nat) : Prop :=
  (matched index = true → image.crowd index = true) ∧ threshold ≤ iou index

theorem iouThresholds_capped (threshold : Fin iouCount) :
    min (iouThresholds threshold) (1 - 1 / 10 ^ 10) = iouThresholds threshold := by
  revert threshold
  decide +kernel

/-- The best so far, and the IoU that the next one must reach. -/
def reachOf (iou : Nat → ℚ) (threshold : ℚ) (best : Option Nat) : ℚ :=
  (best.map iou).getD threshold

/-- One part of the order, all of it ignored or none of it. -/
def scanPart (matched : Nat → Bool) (iou : Nat → ℚ) (threshold : ℚ) (best : Option Nat) :
    List Nat → Option Nat
  | [] => best
  | index :: rest =>
      if matched index && !image.crowd index then scanPart matched iou threshold best rest
      else if iou index < reachOf iou threshold best then scanPart matched iou threshold best rest
      else scanPart matched iou threshold (some index) rest

theorem bestMatch_counted {matched : Nat → Bool} {iou : Nat → ℚ} {threshold : ℚ}
    (best : Option Nat) {counted : List Nat}
    (hcounted : ∀ index ∈ counted, image.ignores area index = false) (ignored : List Nat) :
    image.bestMatch area matched iou (reachOf iou threshold best) best (counted ++ ignored) =
      image.bestMatch area matched iou
        (reachOf iou threshold (image.scanPart matched iou threshold best counted))
        (image.scanPart matched iou threshold best counted) ignored := by
  induction counted generalizing best with
  | nil => rfl
  | cons index rest ih =>
      have hrest := fun best => ih best fun other hother =>
        hcounted other (List.mem_cons_of_mem _ hother)
      simp only [List.cons_append, bestMatch, scanPart, hcounted index List.mem_cons_self,
        Bool.and_false, Bool.false_eq_true, if_false]
      split
      · exact hrest best
      · split
        · exact hrest best
        · exact hrest (some index)

theorem bestMatch_kept {matched : Nat → Bool} {iou : Nat → ℚ} {reach : ℚ} {best : Nat}
    (hbest : image.ignores area best = false) {ignored : List Nat}
    (hignored : ∀ index ∈ ignored, image.ignores area index = true) :
    image.bestMatch area matched iou reach (some best) ignored = some best := by
  induction ignored with
  | nil => rfl
  | cons index rest ih =>
      rw [bestMatch]
      split
      · exact ih fun other hother => hignored other (List.mem_cons_of_mem _ hother)
      · rw [Option.any_some, hbest, hignored index List.mem_cons_self]
        rfl

theorem bestMatch_ignored {matched : Nat → Bool} {iou : Nat → ℚ} {threshold : ℚ}
    (best : Option Nat) (hbest : ∀ index, best = some index → image.ignores area index = true)
    {ignored : List Nat} (hignored : ∀ index ∈ ignored, image.ignores area index = true) :
    image.bestMatch area matched iou (reachOf iou threshold best) best ignored =
      image.scanPart matched iou threshold best ignored := by
  induction ignored generalizing best with
  | nil => rfl
  | cons index rest ih =>
      have hrest := fun other hother => hignored other (List.mem_cons_of_mem index hother)
      have hcounts : (best.any fun other => !image.ignores area other) = false := by
        cases best with
        | none => rfl
        | some other => rw [Option.any_some, hbest other rfl]; rfl
      simp only [bestMatch, scanPart, hcounts, Bool.false_and, Bool.false_eq_true, if_false]
      split
      · exact ih best hbest hrest
      · split
        · exact ih best hbest hrest
        · refine ih (some index) (fun other hother => ?_) hrest
          rw [← Option.some.inj hother]
          exact hignored index List.mem_cons_self

/-- A part in ascending order gives the last of the best ones that reach the threshold. -/
theorem scanPart_lastBest {matched : Nat → Bool} {iou : Nat → ℚ} {threshold : ℚ}
    {part : List Nat} (hsorted : part.Pairwise (· < ·)) (best : Option Nat)
    (hbest : ∀ index, best = some index →
      image.Reaches matched iou threshold index ∧ ∀ other ∈ part, index < other) :
    LastBest iou
      (fun index => (best = some index ∨ index ∈ part) ∧ image.Reaches matched iou threshold index)
      (image.scanPart matched iou threshold best part) := by
  induction part generalizing best with
  | nil =>
      cases best with
      | none => exact fun index hindex => hindex.1.elim nofun (nomatch ·)
      | some index =>
          refine ⟨⟨.inl rfl, (hbest index rfl).1⟩, fun other hother => ?_⟩
          have hsame : index = other := hother.1.elim Option.some.inj (nomatch ·)
          exact .inr ⟨hsame ▸ rfl, hsame ▸ Nat.le_refl _⟩
  | cons index rest ih =>
      rw [List.pairwise_cons] at hsorted
      have hkept := ih hsorted.2 best fun other hother =>
        ⟨(hbest other hother).1, fun next hnext =>
          (hbest other hother).2 next (List.mem_cons_of_mem _ hnext)⟩
      have hwider : ∀ other, (best = some other ∨ other ∈ rest) ∧
          image.Reaches matched iou threshold other →
            (best = some other ∨ other ∈ index :: rest) ∧
              image.Reaches matched iou threshold other := fun other hother =>
        ⟨hother.1.imp_right (List.mem_cons_of_mem _), hother.2⟩
      rw [scanPart]
      split
      next htaken =>
        refine hkept.widen hwider fun other hother => .inl ⟨?_, hother.2⟩
        refine hother.1.imp_right fun hmem => (List.mem_cons.mp hmem).resolve_left fun hsame => ?_
        rw [Bool.and_eq_true, Bool.not_eq_true'] at htaken
        have hcrowd := hsame ▸ hother.2.1 (hsame ▸ htaken.1)
        rw [hcrowd] at htaken
        cases htaken.2
      next hopen =>
        have hfree : matched index = true → image.crowd index = true := fun htaken => by
          rw [htaken, Bool.true_and, Bool.not_eq_true', Bool.not_eq_false] at hopen
          exact hopen
        split
        next hbelow =>
          refine hkept.widen hwider fun other hother => ?_
          by_cases hsame : other = index
          · subst hsame
            cases best with
            | none => exact absurd hother.2.2 (not_le_of_gt hbelow)
            | some choice => exact .inr ⟨choice, ⟨.inl rfl, (hbest choice rfl).1⟩, .inl hbelow⟩
          · exact .inl ⟨hother.1.imp_right fun hmem =>
              (List.mem_cons.mp hmem).resolve_left hsame, hother.2⟩
        next hreaches =>
          have hindex : image.Reaches matched iou threshold index := by
            refine ⟨hfree, ?_⟩
            cases best with
            | none => exact not_lt.mp hreaches
            | some choice => exact (hbest choice rfl).1.2.trans (not_lt.mp hreaches)
          have htaken := ih hsorted.2 (some index) fun other hother =>
            Option.some.inj hother ▸ ⟨hindex, hsorted.1⟩
          refine htaken.widen (fun other hother => ⟨.inr ?_, hother.2⟩) fun other hother => ?_
          · exact hother.1.elim (fun hsame => Option.some.inj hsame ▸ List.mem_cons_self)
              (List.mem_cons_of_mem _)
          · cases hother.1 with
            | inl hbefore =>
                have hle : iou other ≤ iou index := by
                  rw [hbefore] at hreaches
                  exact not_lt.mp hreaches
                have hlt := (hbest other hbefore).2 index List.mem_cons_self
                exact .inr ⟨index, ⟨.inl rfl, hindex⟩,
                  hle.lt_or_eq.imp_right fun hequal => ⟨hequal, hlt.le⟩⟩
            | inr hmem =>
                exact .inl ⟨(List.mem_cons.mp hmem).imp_left fun hsame => congrArg some hsame.symm,
                  hother.2⟩

/-! The loop and the masks. -/

/-- A ground truth is matched in the loop when its bit is gone, unless it is a crowd. -/
def Agrees (threshold : Fin iouCount) (unmatched : Nat → ThresholdBits) (matched : Nat → Bool) :
    Prop :=
  ∀ index, image.crowd index = false → (unmatched index).getLsbD threshold = !matched index

variable {image area} {threshold : Fin iouCount} {unmatched : Nat → ThresholdBits}
  {matched : Nat → Bool}

/-- Where no crowd has lost its bit, a free ground truth is one that the loop does not skip. -/
theorem Agrees.free_iff (hagrees : image.Agrees threshold unmatched matched)
    (hcrowds : ∀ index, image.crowd index = true → (unmatched index).getLsbD threshold = true)
    (prediction : Nat) (ignoreGroup : Bool) (index : Nat) :
    image.Free area ignoreGroup threshold unmatched prediction index ↔
      index ∈ (List.range image.groundTruthOrdinals.length).filter
          (fun index => image.ignores area index == ignoreGroup) ∧
        image.Reaches matched (image.iou prediction) (iouThresholds threshold) index := by
  rw [List.mem_filter, List.mem_range, beq_iff_eq, and_assoc]
  refine and_congr_right fun _ => and_congr_right fun _ => and_congr_left fun _ => ?_
  cases hcrowd : image.crowd index with
  | true => exact ⟨fun _ _ => rfl, fun _ => hcrowds index hcrowd⟩
  | false =>
      rw [hagrees index hcrowd, Bool.not_eq_true']
      exact ⟨fun hopen htaken => absurd htaken (by rw [hopen]; decide),
        fun hskip => Bool.eq_false_of_not_eq_true fun htaken => nomatch hskip htaken⟩

theorem LastBest_congr {iou : Nat → ℚ} {free free' : Nat → Prop} {choice : Option Nat}
    (h : LastBest iou free choice) (hiff : ∀ index, free index ↔ free' index) :
    LastBest iou free' choice :=
  h.widen (fun index => (hiff index).mp) fun index hindex => .inl ((hiff index).mpr hindex)

/-- One part of the loop's order has the choice of the group. -/
theorem Agrees.groupChoice_eq (area : EvaluationArea)
    (hagrees : image.Agrees threshold unmatched matched)
    (hcrowds : ∀ index, image.crowd index = true → (unmatched index).getLsbD threshold = true)
    (hordinals : image.groundTruthOrdinals.Pairwise (· < ·)) (prediction : Nat)
    (ignoreGroup : Bool) :
    image.scanPart matched (image.iou prediction) (iouThresholds threshold) none
        ((List.range image.groundTruthOrdinals.length).filter
          (fun index => image.ignores area index == ignoreGroup)) =
      image.groupChoice area ignoreGroup threshold unmatched prediction := by
  have hsorted : ((List.range image.groundTruthOrdinals.length).filter
      fun index => image.ignores area index == ignoreGroup).Pairwise (· < ·) :=
    List.pairwise_lt_range.filter _
  refine (LastBest_congr (image.scanPart_lastBest hsorted none nofun)
    fun index => ?_).unique
      (image.groupChoice_lastBest hordinals area ignoreGroup threshold unmatched prediction)
  rw [hagrees.free_iff hcrowds, and_congr_left_iff]
  exact fun _ => or_iff_right nofun

theorem Agrees.choice_eq (hagrees : image.Agrees threshold unmatched matched)
    (hcrowds : ∀ index, image.crowd index = true → (unmatched index).getLsbD threshold = true)
    (hordinals : image.groundTruthOrdinals.Pairwise (· < ·)) (prediction : Nat) :
    image.bestMatch area matched (image.iou prediction)
        (min (iouThresholds threshold) (1 - 1 / 10 ^ 10)) none (image.evaluateOrder area) =
      image.choice area threshold unmatched prediction := by
  have hcounted := hagrees.groupChoice_eq area hcrowds hordinals prediction false
  have hignored := hagrees.groupChoice_eq area hcrowds hordinals prediction true
  have hfalse : ∀ index, (image.ignores area index == false) = !image.ignores area index :=
    fun index => by cases image.ignores area index <;> rfl
  have htrue : ∀ index, (image.ignores area index == true) = image.ignores area index :=
    fun index => by cases image.ignores area index <;> rfl
  simp only [hfalse] at hcounted
  simp only [htrue] at hignored
  rw [iouThresholds_capped, evaluateOrder]
  have hcounts : ∀ index ∈ (List.range image.groundTruthOrdinals.length).filter
      fun index => !image.ignores area index, image.ignores area index = false :=
    fun index hindex => by simpa using (List.mem_filter.mp hindex).2
  change image.bestMatch area matched (image.iou prediction)
    (reachOf (image.iou prediction) (iouThresholds threshold) none) none _ = _
  rw [image.bestMatch_counted area none hcounts, hcounted]
  have hpart : ∀ index ∈ (List.range image.groundTruthOrdinals.length).filter (image.ignores area),
      image.ignores area index = true := fun index hindex => (List.mem_filter.mp hindex).2
  cases hfirst : image.groupChoice area false threshold unmatched prediction with
  | some best =>
      rw [choice, hfirst, Option.some_or]
      exact image.bestMatch_kept area (groupChoice_ignores image hfirst) hpart
  | none =>
      rw [choice, hfirst, Option.none_or, ← hignored]
      exact image.bestMatch_ignored area none (by intros; contradiction) hpart

/-- The masks after a prediction agree with the loop after it. -/
theorem Agrees.next (area : EvaluationArea) (hagrees : image.Agrees threshold unmatched matched)
    (prediction : Nat) :
    image.Agrees threshold (image.matchArea area prediction unmatched).unmatched
      (match image.choice area threshold unmatched prediction with
      | none => matched
      | some index => Function.update matched index true) := by
  intro index hcrowd
  rw [(image.matchArea_bit area threshold unmatched prediction).2.2 index]
  cases image.choice area threshold unmatched prediction with
  | none => rw [freed_none, hagrees index hcrowd]
  | some choice =>
      rw [freed, hagrees index hcrowd, hcrowd, Bool.false_or]
      by_cases hsame : index = choice
      · subst hsame
        simp
      · simp [Function.update_of_ne hsame, Ne.symm hsame]

theorem crowds_next
    (hcrowds : ∀ index, image.crowd index = true → (unmatched index).getLsbD threshold = true)
    (prediction index : Nat) (hcrowd : image.crowd index = true) :
    ((image.matchArea area prediction unmatched).unmatched index).getLsbD threshold = true := by
  rw [(image.matchArea_bit area threshold unmatched prediction).2.2 index, freed,
    hcrowds index hcrowd, hcrowd]
  rfl

/-- The bits of a record at one threshold in one area. -/
def recordFlags (area : EvaluationArea) (threshold : Fin iouCount) (record : MatchRecord S) :
    Bool × Bool :=
  ((record.areaMatchedBits area).getLsbD threshold, (record.areaIgnoredBits area).getLsbD threshold)

theorem matchFrom_flags (hordinals : image.groundTruthOrdinals.Pairwise (· < ·))
    (unmatched : EvaluationArea → Nat → ThresholdBits)
    (hagrees : image.Agrees threshold (unmatched area) matched)
    (hcrowds : ∀ index, image.crowd index = true →
      (unmatched area index).getLsbD threshold = true) (rank : Nat) (predictions : List Nat) :
    (image.matchFrom unmatched rank predictions).map (recordFlags area threshold) =
      image.evaluateFrom area (iouThresholds threshold) matched predictions := by
  induction predictions generalizing unmatched matched rank with
  | nil => rfl
  | cons prediction rest ih =>
      have hbits := image.matchArea_bit area threshold (unmatched area) prediction
      have hnext := hagrees.next area prediction
      have hrest := ih
        (fun area => (image.matchArea area prediction (unmatched area)).unmatched)
        hnext (crowds_next hcrowds prediction) (rank + 1)
      rw [matchFrom, List.map_cons, evaluateFrom, hagrees.choice_eq hcrowds hordinals, hrest,
        recordFlags]
      simp only [hbits.1, hbits.2.1]
      cases image.choice area threshold (unmatched area) prediction with
      | none => rfl
      | some index => simp

/-- At every threshold and in every area the masks hold exactly what the plain loop finds. -/
theorem matchCategoryPredictions_evaluateImg (image : CategoryImage S)
    (hordinals : image.groundTruthOrdinals.Pairwise (· < ·)) (predictions : List Nat)
    (area : EvaluationArea) (threshold : Fin iouCount) :
    (image.matchCategoryPredictions predictions).1.map (recordFlags area threshold) =
      image.evaluateImg area (iouThresholds threshold) predictions :=
  matchFrom_flags hordinals _
    (fun _ _ => allThresholdBits_getLsbD threshold.isLt)
    (fun _ _ => allThresholdBits_getLsbD threshold.isLt) 0 predictions

/-- Two annotations that overlap the first prediction equally, and a crowd that the last one hits. -/
def threeAnnotations : CategoryImage Nat where
  groundTruthOrdinals := [1, 4, 6]
  imageOrdinal := 0
  categoryIndex := 0
  score := fun prediction => 10 - prediction
  iou := fun prediction index =>
    match prediction, index with
    | 0, 0 => 6 / 10
    | 0, 1 => 6 / 10
    | 1, 0 => 52 / 100
    | 1, 1 => 7 / 10
    | 2, 2 => 9 / 10
    | _, _ => 0
  groundTruthArea := fun _ => 400
  predictionArea := fun prediction => if prediction = 3 then 5000 else 400
  crowd := fun index => index = 2

/-- The later of the two is taken first, so the second prediction has the earlier one; the crowd
and the prediction outside the range are ignored. -/
theorem matchCategoryPredictions_evaluateImg_three :
    (threeAnnotations.matchCategoryPredictions [0, 1, 2, 3]).1.map (recordFlags .small 0) =
      [(true, false), (true, false), (true, true), (false, true)] :=
  (matchCategoryPredictions_evaluateImg threeAnnotations (by decide) [0, 1, 2, 3] .small 0).trans
    (by decide +kernel)

end CategoryImage

end Mmltk.Evaluation
