import Mathlib.Order.Basic
import Mmltk.ViewModel.Snapshots

namespace Mmltk.ViewModel

open Mmltk.Foundation Mmltk.Foundation.Transaction

/-! A rejected snapshot changes nothing, but for a training snapshot whose inspection was merged. -/

variable {V O S : Type} [DecidableEq V] {model : ApplicationModel V O}

theorem mergeObservation_clean {T : Type} [DecidableEq T] {revision : T → Nat} {family : String}
    {incoming : T} {target : Option T} :
    CleanAt (mergeObservation revision family incoming) target := by
  refine .read ?_
  cases target with
  | none => exact .modify_pure
  | some installed =>
      exact .branch (fun _ => .pure) fun _ =>
        .branch (fun _ => .branch (fun _ => .fail) fun _ => .pure) fun _ => .modify_pure

theorem mergePredictSnapshot_clean {incoming : PredictSnapshot V} {target : PredictTarget V} :
    CleanAt (mergePredictSnapshot incoming) target := by
  refine .read ?_
  match target with
  | (none, _) => exact .modify_pure
  | (some _, none) => exact .fail
  | (some installed, some previousFull) =>
      refine .branch (fun _ => .pure) fun _ => .branch (fun _ => ?_) fun _ =>
        .branch (fun _ => .pure) fun _ => .branch (fun _ => .fail) fun _ => .lift fun merged _ =>
          .branch (fun _ => .pure) fun _ => .branch (fun _ => .fail) fun _ => .lift fun _ _ =>
            .modify_pure
      exact .branch (fun _ => .fail) fun _ => .branch (fun _ => .pure) fun _ => .fail

theorem mergeDatasetState_clean {incoming : ArtifactUiState V}
    {target : Option (ArtifactUiState V)} : CleanAt (mergeDatasetState incoming) target := by
  refine .read ?_
  cases target with
  | none => exact .modify_pure
  | some installed =>
      exact .lift fun _ _ => .branch (fun _ => .modify_pure) fun _ => .pure

theorem installSettingsSnapshot_clean {snapshot : SettingsUiState V} :
    CleanAt (installSettingsSnapshot snapshot) model := by
  refine .bind (.focus rfl mergeObservation_clean) fun observation after => ⟨observation, ?_⟩
  rcases eq_or_ne observation .installed with hinstalled | hkept
  · rw [if_pos hinstalled]
    rfl
  · rw [if_neg hkept]
    rfl

theorem installPredictSnapshot_clean {snapshot : PredictSnapshot V} :
    CleanAt (installPredictSnapshot snapshot) model :=
  .focus rfl mergePredictSnapshot_clean

theorem installTrainingProgress_clean {progress : TrainingProgress V} :
    CleanAt (installTrainingProgress progress) model := by
  refine .read ?_
  cases model.training with
  | none => exact .pure
  | some installed =>
      exact .branch (fun _ => .pure) fun _ =>
        .branch (fun _ => .branch (fun _ => .fail) fun _ => .pure) fun _ => .modify_pure

theorem installDatasetProgress_clean {snapshot : ArtifactCompileState V} :
    CleanAt (installDatasetProgress snapshot) model := by
  refine .read ?_
  cases model.dataset with
  | none => exact .pure
  | some dataset => exact .lift fun _ _ => .branch (fun _ => .modify_pure) fun _ => .pure

theorem installDatasetSnapshot_clean {snapshot : ArtifactUiState V} :
    CleanAt (installDatasetSnapshot snapshot) model :=
  .focus rfl mergeDatasetState_clean

theorem installBootstrap_clean {generated : Generated V O S} {fingerprint : Nat × Nat}
    {snapshots : List (ApplicationSnapshot V S)} :
    CleanAt (installBootstrap generated fingerprint snapshots) model := by
  refine .branch (fun _ => .fail) fun _ => .branch (fun _ => .fail) fun _ => .read ?_
  match installSnapshots generated snapshots (generated.replacement model) with
  | (_, .error failure) => exact .fail
  | (replacement, .ok ()) => exact .modify

/-! Training snapshots. -/

section Inspections

variable {value current : TrainingCheckpointInspection V}

/-- The inspection contradicts the one of its generation. -/
def Conflicts (value current : TrainingCheckpointInspection V) : Prop :=
  value.generation = current.generation ∧ value ≠ current ∧
    (value.path ≠ current.path ∨ value.status ≠ .running ∧ current.status ≠ .running)

/-- The inspection takes the place of the current one. -/
def Supersedes (value current : TrainingCheckpointInspection V) : Prop :=
  current.generation < value.generation ∨
    value.generation = current.generation ∧ value.path = current.path ∧
      value.status ≠ .running ∧ current.status = .running

instance : Decidable (Supersedes value current) := inferInstanceAs (Decidable (_ ∨ _))

instance : Decidable (Conflicts value current) := inferInstanceAs (Decidable (_ ∧ _))

omit [DecidableEq V] in
theorem ne_of_supersedes (h : Supersedes value current) : value ≠ current := by
  intro heq
  subst heq
  cases h with
  | inl hlater => exact Nat.lt_irrefl _ hlater
  | inr hsame => exact hsame.2.2.1 hsame.2.2.2

theorem mergeCheckpointInspection_eq (value current : TrainingCheckpointInspection V) :
    mergeCheckpointInspection value current =
      if Supersedes value current then (value, .ok ())
      else if Conflicts value current then
        (current, .error (.protocol
          (if value.path ≠ current.path then "inconsistent checkpoint inspection path"
          else "inconsistent checkpoint inspection terminal")))
      else (current, .ok ()) := by
  have hrun : mergeCheckpointInspection value current =
      if value.generation < current.generation then (current, .ok ())
      else if value.generation = current.generation then
        if value = current then (current, .ok ())
        else if value.path ≠ current.path then
          (current, .error (.protocol "inconsistent checkpoint inspection path"))
        else if value.status = .running then (current, .ok ())
        else if current.status ≠ .running then
          (current, .error (.protocol "inconsistent checkpoint inspection terminal"))
        else (value, .ok ())
      else (value, .ok ()) := by
    change (ite _ _ _ : Reduction _ _) current = _
    split
    · rfl
    · split
      · split
        · rfl
        · split
          · rfl
          · split
            · rfl
            · split
              · rfl
              · rfl
      · rfl
  rw [hrun]
  unfold Supersedes Conflicts
  rcases Nat.lt_trichotomy value.generation current.generation with hold | hsame | hnew
  · simp [hold, Nat.ne_of_lt hold, Nat.lt_asymm hold]
  · by_cases hequal : value = current
    · subst hequal
      by_cases hrunning : value.status = .running
      · simp [hrunning]
      · simp [hrunning]
    · by_cases hpath : value.path = current.path
      · by_cases hrunning : value.status = .running
        · simp [hsame, hequal, hpath, hrunning]
        · by_cases hcurrent : current.status = .running
          · simp [hsame, hequal, hpath, hrunning, hcurrent]
          · simp [hsame, hequal, hpath, hrunning, hcurrent]
      · simp [hsame, hequal, hpath]
  · simp [hnew, Nat.lt_asymm hnew, Nat.ne_of_gt hnew]

/-- What is left after a merge. -/
def mergedInspection (value current : TrainingCheckpointInspection V) :
    TrainingCheckpointInspection V :=
  if Supersedes value current then value else current

theorem mergeCheckpointInspection_merged (h : ¬ Conflicts value current) :
    mergeCheckpointInspection value current = (mergedInspection value current, .ok ()) := by
  rw [mergeCheckpointInspection_eq, if_neg h, mergedInspection]
  split
  · rfl
  · rfl

theorem mergeCheckpointInspection_conflict (h : Conflicts value current) :
    ∃ failure, mergeCheckpointInspection value current = (current, .error failure) := by
  have hkept : ¬ Supersedes value current := by
    intro hsupersedes
    obtain ⟨hgeneration, -, hdiffers⟩ := h
    cases hsupersedes with
    | inl hlater => exact Nat.ne_of_gt hlater hgeneration
    | inr hsame =>
        cases hdiffers with
        | inl hpath => exact hpath hsame.2.1
        | inr hended => exact hended.2 hsame.2.2.2
  rw [mergeCheckpointInspection_eq, if_neg hkept, if_pos h]
  exact ⟨_, rfl⟩

/-- The continuation waits for this inspection, and is told something new by it. -/
def Continuation.Takes (continuation : Continuation V) (value : TrainingCheckpointInspection V) :
    Prop :=
  continuation.artifact = some value.path ∧
    match continuation.capability with
    | .pending _ none =>
        match continuation.observed with
        | some observed => Conflicts value observed ∨ Supersedes value observed
        | none => True
    | .pending _ (some generation) =>
        generation = value.generation ∧
          (value.status = .ready ∨ value.status = .failed ∨ value.status = .cancelled)
    | _ => False

theorem Continuation.observe_eq_iff {continuation : Continuation V} :
    continuation.observe value = continuation ↔ ¬ continuation.Takes value := by
  obtain ⟨mode, selection, artifact, capability, modeChosen, cancelNeeded, refreshRequested,
    observed⟩ := continuation
  unfold Continuation.observe Continuation.Takes
  dsimp only
  by_cases hartifact : artifact = some value.path
  · subst hartifact
    simp only [ne_eq, not_true_eq_false, if_false, true_and]
    cases capability with
    | idle => simp
    | ready checkpoint => simp
    | failed => simp
    | pending request awaited =>
        cases awaited with
        | none =>
            cases observed with
            | none => simp
            | some observed =>
                dsimp only
                by_cases hconflict : Conflicts value observed
                · obtain ⟨failure, hmerge⟩ := mergeCheckpointInspection_conflict hconflict
                  simp [hmerge, hconflict]
                · simp only [mergeCheckpointInspection_merged hconflict, hconflict, false_or]
                  by_cases hsupersedes : Supersedes value observed
                  · simp [mergedInspection, hsupersedes, ne_of_supersedes hsupersedes]
                  · simp [mergedInspection, hsupersedes]
        | some generation =>
            dsimp only
            by_cases hgeneration : generation = value.generation
            · subst hgeneration
              cases hstatus : value.status with
              | idle => simp
              | running => simp
              | failed => simp
              | cancelled => simp
              | ready =>
                  cases value.checkpoint with
                  | none => simp
                  | some checkpoint => simp
            · simp [hgeneration]
  · simp [hartifact]

end Inspections

section Training

variable {snapshot current : TrainingSnapshot V}

theorem installTrainingSnapshot_conflict (hcurrent : model.training = some current)
    (hconflict : Conflicts snapshot.inspection current.inspection) :
    (installTrainingSnapshot snapshot model).1 = model := by
  obtain ⟨failure, hmerge⟩ := mergeCheckpointInspection_conflict hconflict
  simp only [installTrainingSnapshot, bind, Transaction.bind, Transaction.read, hcurrent,
    Transaction.focus, hmerge, Except.mapError]
  rw [← hcurrent]

variable (snapshot) in
theorem installTrainingSnapshot_merged (hcurrent : model.training = some current)
    (hmerged : ¬ Conflicts snapshot.inspection current.inspection) :
    installTrainingSnapshot snapshot model =
      Transaction.focus ApplicationModel.training (fun model training => { model with training }) id
        (mergeObservation TrainingSnapshot.revision "Training"
          { snapshot with
            inspection := mergedInspection snapshot.inspection current.inspection })
        { model with
          training := some { current with
            inspection := mergedInspection snapshot.inspection current.inspection }
          trainContinuation := model.trainContinuation.observe
            (mergedInspection snapshot.inspection current.inspection) } := by
  have hmerge := mergeCheckpointInspection_merged hmerged
  simp only [installTrainingSnapshot, bind, Transaction.bind, Transaction.read, hcurrent,
    Transaction.focus, hmerge, Except.mapError, Transaction.modify, pure, Transaction.pure,
    Option.map_some, Option.getD_some]

/-- The snapshot has the revision of the one installed and differs from it, its inspection
contradicts nothing, and is newer than the one installed or awaited by the continuation. -/
def HalfApplied (model : ApplicationModel V O) (snapshot : TrainingSnapshot V) : Prop :=
  ∃ current, model.training = some current ∧
    ¬ Conflicts snapshot.inspection current.inspection ∧
    snapshot.revision = current.revision ∧
    { snapshot with inspection := current.inspection } ≠ current ∧
    (Supersedes snapshot.inspection current.inspection ∨
      model.trainContinuation.Takes (mergedInspection snapshot.inspection current.inspection))

theorem mergeObservation_some {T : Type} [DecidableEq T] (revision : T → Nat) (family : String)
    (incoming installed : T) :
    mergeObservation revision family incoming (some installed) =
      if revision incoming < revision installed then (some installed, .ok .stale)
      else if revision incoming = revision installed then
        if incoming ≠ installed then
          (some installed, .error (.protocol
            ("inconsistent " ++ family ++ " snapshot observation revision")))
        else (some installed, .ok .current)
      else (some incoming, .ok .installed) := by
  change (ite _ _ _ : Reduction _ _) (some installed) = _
  split
  · rfl
  · split
    · split
      · rfl
      · rfl
    · rfl

theorem installTrainingSnapshot_clean_iff :
    CleanAt (installTrainingSnapshot snapshot) model ↔ ¬ HalfApplied model snapshot := by
  cases hcurrent : model.training with
  | none =>
      refine iff_of_true (.of_eq fun failure herror => ?_) ?_
      · simp only [installTrainingSnapshot, bind, Transaction.bind, Transaction.read, hcurrent,
          Transaction.focus, Transaction.modify, pure, Transaction.pure, mergeObservation] at herror
        cases herror
      · rintro ⟨current, hsome, -⟩
        rw [hcurrent] at hsome
        cases hsome
  | some current =>
      by_cases hconflict : Conflicts snapshot.inspection current.inspection
      · refine iff_of_true (.of_eq fun _ _ => installTrainingSnapshot_conflict hcurrent hconflict) ?_
        rintro ⟨other, hother, hmerged, -⟩
        obtain rfl := Option.some.inj (hcurrent.symm.trans hother)
        exact hmerged hconflict
      · have hrun := installTrainingSnapshot_merged snapshot hcurrent hconflict
        rw [Transaction.focus, mergeObservation_some] at hrun
        dsimp only at hrun
        have hhalf : HalfApplied model snapshot ↔ snapshot.revision = current.revision ∧
            { snapshot with inspection := current.inspection } ≠ current ∧
            (Supersedes snapshot.inspection current.inspection ∨ model.trainContinuation.Takes
              (mergedInspection snapshot.inspection current.inspection)) := by
          constructor
          · rintro ⟨other, hother, -, hrest⟩
            obtain rfl := Option.some.inj (hcurrent.symm.trans hother)
            exact hrest
          · exact fun hrest => ⟨current, hcurrent, hconflict, hrest⟩
        have hsame : ∀ inspection, { snapshot with inspection := inspection } =
            { current with inspection := inspection } ↔
              { snapshot with inspection := current.inspection } = current := by
          intro inspection
          obtain ⟨⟩ := snapshot
          obtain ⟨⟩ := current
          simp
        rw [hhalf, not_and, not_and]
        by_cases hrejected : snapshot.revision = current.revision ∧
            { snapshot with inspection := current.inspection } ≠ current
        · obtain ⟨hrevision, hdiffers⟩ := hrejected
          rw [if_neg (Nat.not_lt.mpr (Nat.le_of_eq hrevision.symm)), if_pos hrevision,
            if_pos (fun hequal => hdiffers ((hsame _).mp hequal))] at hrun
          have hstate : (installTrainingSnapshot snapshot model).1 = model ↔
              ¬ (Supersedes snapshot.inspection current.inspection ∨ model.trainContinuation.Takes
                (mergedInspection snapshot.inspection current.inspection)) := by
            rw [hrun, not_or, ← Continuation.observe_eq_iff]
            constructor
            · intro hequal
              refine ⟨fun hsupersedes => ?_, congrArg ApplicationModel.trainContinuation hequal⟩
              have htraining := congrArg ApplicationModel.training hequal
              rw [hcurrent] at htraining
              have hmerged := congrArg TrainingSnapshot.inspection (Option.some.inj htraining)
              rw [mergedInspection, if_pos hsupersedes] at hmerged
              exact ne_of_supersedes hsupersedes hmerged
            · rintro ⟨hkept, hobserved⟩
              have hmerged : mergedInspection snapshot.inspection current.inspection =
                  current.inspection := if_neg hkept
              rw [hmerged] at hobserved ⊢
              rw [hobserved, ← hcurrent]
          constructor
          · intro hclean _ _
            exact hstate.mp (hclean.eq_of_error (by rw [hrun]; rfl))
          · intro hkept
            exact .of_eq fun _ _ => hstate.mpr (hkept hrevision hdiffers)
        · refine iff_of_true (.of_eq fun failure herror => ?_) fun hrevision hdiffers =>
            absurd ⟨hrevision, hdiffers⟩ hrejected
          rw [hrun] at herror
          split at herror
          · cases herror
          · split at herror
            next hrevision =>
              rw [if_neg (fun hdiffers => hrejected ⟨hrevision, fun hequal =>
                hdiffers ((hsame _).mpr hequal)⟩)] at herror
              cases herror
            · cases herror

end Training

/-! All of them. -/

inductive Incoming (V S : Type) where
  | trainingSnapshot (snapshot : TrainingSnapshot V)
  | trainingProgress (progress : TrainingProgress V)
  | predictSnapshot (snapshot : PredictSnapshot V)
  | datasetSnapshot (snapshot : ArtifactUiState V)
  | datasetProgress (progress : ArtifactCompileState V)
  | settingsSnapshot (snapshot : SettingsUiState V)
  | bootstrap (fingerprint : Nat × Nat) (snapshots : List (ApplicationSnapshot V S))

/-- The installation of what comes in; a bootstrap makes no observation. -/
def install (generated : Generated V O S) :
    Incoming V S → Reduction (ApplicationModel V O) (Option Observation)
  | .trainingSnapshot snapshot => installTrainingSnapshot snapshot >>= fun seen => pure (some seen)
  | .trainingProgress progress => installTrainingProgress progress >>= fun seen => pure (some seen)
  | .predictSnapshot snapshot => installPredictSnapshot snapshot >>= fun seen => pure (some seen)
  | .datasetSnapshot snapshot => installDatasetSnapshot snapshot >>= fun seen => pure (some seen)
  | .datasetProgress progress => installDatasetProgress progress >>= fun seen => pure (some seen)
  | .settingsSnapshot snapshot => installSettingsSnapshot snapshot >>= fun seen => pure (some seen)
  | .bootstrap fingerprint snapshots =>
      installBootstrap generated fingerprint snapshots >>= fun _ => pure none

/-- What comes in leaves the model as it was where it is rejected, exactly if it is no training
snapshot whose inspection is applied before the rest of it is rejected. -/
theorem install_clean_iff (generated : Generated V O S) (model : ApplicationModel V O)
    (incoming : Incoming V S) :
    (∀ failure, (install generated incoming model).2 = .error failure →
        (install generated incoming model).1 = model) ↔
      ∀ snapshot, incoming = .trainingSnapshot snapshot → ¬ HalfApplied model snapshot := by
  have hclean : ∀ {α : Type} {code : Reduction (ApplicationModel V O) α} {f : α → Option Observation},
      CleanAt code model ↔ ∀ failure, ((code >>= fun seen => pure (f seen)) model).2 =
        .error failure → ((code >>= fun seen => pure (f seen)) model).1 = model :=
    CleanAt.bind_pure_iff.symm.trans CleanAt.iff_eq
  cases incoming with
  | trainingSnapshot snapshot =>
      refine hclean.symm.trans (installTrainingSnapshot_clean_iff.trans ?_)
      constructor
      · intro hkept other hother
        cases hother
        exact hkept
      · exact fun hkept => hkept snapshot rfl
  | trainingProgress progress =>
      exact iff_of_true (hclean.mp installTrainingProgress_clean) (fun _ h => nomatch h)
  | predictSnapshot snapshot =>
      exact iff_of_true (hclean.mp installPredictSnapshot_clean) (fun _ h => nomatch h)
  | datasetSnapshot snapshot =>
      exact iff_of_true (hclean.mp installDatasetSnapshot_clean) (fun _ h => nomatch h)
  | datasetProgress progress =>
      exact iff_of_true (hclean.mp installDatasetProgress_clean) (fun _ h => nomatch h)
  | settingsSnapshot snapshot =>
      exact iff_of_true (hclean.mp installSettingsSnapshot_clean) (fun _ h => nomatch h)
  | bootstrap fingerprint snapshots =>
      exact iff_of_true (hclean.mp installBootstrap_clean) (fun _ h => nomatch h)

/-- A training snapshot that contradicts the one of its revision, with a newer inspection. -/
def contradiction : TrainingSnapshot Nat × TrainingSnapshot Nat :=
  let operation : ComputeUiState Nat := ⟨0, false, ⟨0, 0⟩, ⟨.idle, 0, 0⟩, 0⟩
  (⟨5, 0, operation, 0, 0, 0, 0, 0, ⟨1, "first.pt", .ready, none, ""⟩⟩,
    ⟨5, 1, operation, 0, 0, 0, 0, 0, ⟨2, "second.pt", .running, none, ""⟩⟩)

theorem install_halfApplied :
    let model : ApplicationModel Nat Unit :=
      { settingsSnapshot := none
        settingsRevision := none
        predict := (none, none)
        training := some contradiction.1
        trainContinuation := ⟨.transfer, none, none, .idle, false, false, false, none⟩
        dataset := none
        others := () }
    let generated : Generated Nat Unit Empty :=
      { schemaFingerprint := (0, 0)
        bootstrapComplete := fun _ => true
        replacement := id
        installOther := fun snapshot => nomatch snapshot }
    ¬ ∀ failure, (install generated (.trainingSnapshot contradiction.2) model).2 = .error failure →
      (install generated (.trainingSnapshot contradiction.2) model).1 = model := by
  intro model generated h
  have hclean := h (.protocol "inconsistent Training snapshot observation revision") (by decide)
  have htraining := congrArg ApplicationModel.training hclean
  revert htraining
  decide

end Mmltk.ViewModel
