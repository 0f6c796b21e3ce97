import Mmltk.Storage.StagedInvariant

namespace Mmltk.Storage

open Mmltk.Foundation Mmltk.Foundation.Transaction

namespace FileHandle

variable {bytes : Nat} {answer : Fallocate} {resized : Ftruncate} {file : File}

theorem checkedOffset_lift {α : Type} {message : String} {next : Unit → Call α}
    {before : File → Prop} {post : α → File → Prop} {failed : FileFailure → File → Prop}
    (h : bytes < offsetLimit → Ensures before (next ()) post failed)
    (hfailed : ∀ failure file, before file → failed failure file) :
    Ensures before (checked (checkedOffset bytes message) >>= next) post failed := by
  apply Ensures.lift_bind
  · intro _ hok
    cases hcheck : checkedOffset bytes message with
    | error failure =>
        rw [hcheck] at hok
        cases hok
    | ok _ => exact h (checkedOffset_ok hcheck)
  · exact fun failure _ state hbefore => hfailed failure state hbefore

theorem resizeSparse_ensures : Ensures (fun before => before = file) (resizeSparse bytes resized)
    (fun _ after => after = file.truncate bytes ∧ bytes < offsetLimit)
    fun _ after => after = file := by
  apply checkedOffset_lift
  · intro hbytes
    cases resized with
    | truncated => exact .modify fun after heq => ⟨congrArg (fun file => file.truncate bytes) heq, hbytes⟩
    | failed code => exact .fail fun after heq => heq
    | cancelled => exact .fail fun after heq => heq
  · exact fun _ after heq => heq

theorem preallocate_ensures : Ensures (fun before => before.size < offsetLimit)
    (preallocate bytes answer resized) (fun _ after => after.size < offsetLimit)
    fun _ after => after.size < offsetLimit := by
  have hsparse : ∀ gained : Finset Nat, Ensures (fun before => before.size < offsetLimit)
      (modify (fun file => file.gain gained) >>= fun _ => resizeSparse bytes resized)
      (fun _ after => after.size < offsetLimit) fun _ after => after.size < offsetLimit := by
    intro gained
    apply Ensures.modify_bind
    intro before hbefore
    apply resizeSparse_ensures.consequence
    · exact fun _ heq => heq
    · rintro _ _ ⟨rfl, hbytes⟩
      exact hbytes
    · rintro _ _ rfl
      exact hbefore
  apply checkedOffset_lift
  · intro hbytes
    cases answer with
    | granted =>
        apply Ensures.modify
        intro before hbefore
        exact Nat.max_lt.mpr ⟨hbefore, (Nat.zero_add bytes).symm ▸ hbytes⟩
    | failed code gained => exact hsparse gained
    | cancelled gained => exact hsparse gained
  · exact fun _ _ h => h

end FileHandle

namespace StagedArtifact

/-! Steps of a call. -/

/-- What holds of the map and the file, with the reservation still a live one. -/
def Stage (holds : List Interval → File → Prop) (artifact : StagedArtifact) : Prop :=
  artifact.reservation.destination.isSome ∧ holds artifact.occupied artifact.file

/-- Failures are raised ones, and leave what `holds`. -/
def Fails (holds : List Interval → File → Prop) : StagedFailure → StagedArtifact → Prop
  | .raised _, artifact => Stage holds artifact
  | .extraction, _ => False

/-- The reservation accounts for what `fstat` reports. -/
def Accounted (fstat : Fstat) (artifact : StagedArtifact) : Prop :=
  ∃ extra, fstat = .ok extra ∧ artifact.reservation.allocated =
    (artifact.file.allocated.card * (pageBytes / blockBytes) + extra) * blockBytes

variable {holds after failed : List Interval → File → Prop} {α : Type}

theorem Stage.imp {artifact : StagedArtifact} (h : Stage holds artifact)
    (himp : ∀ occupied file, holds occupied file → after occupied file) : Stage after artifact :=
  ⟨h.1, himp _ _ h.2⟩

/-- An operation of the reservation that leaves its filesystem alone. -/
def Keeps (operation : Ledgers → Nat → Settled) : Prop :=
  ∀ ledgers id, ((operation ledgers id).ledgers.reservations.get id).destination =
    (ledgers.reservations.get id).destination

theorem onAllocation_rule {operation : Ledgers → Nat → Settled}
    {before post : StagedArtifact → Prop} {broken : StagedFailure → StagedArtifact → Prop}
    (hdone : ∀ artifact, before artifact →
      (operation artifact.ledgers artifact.allocation).failure = none →
        post { artifact with ledgers := (operation artifact.ledgers artifact.allocation).ledgers })
    (hfailed : ∀ failure artifact, before artifact →
      broken (.raised failure) { artifact with
        ledgers := (operation artifact.ledgers artifact.allocation).ledgers }) :
    Ensures before (onAllocation operation) (fun _ => post) broken := by
  intro artifact hbefore
  rw [onAllocation]
  cases hfailure : (operation artifact.ledgers artifact.allocation).failure with
  | none => exact hdone artifact hbefore hfailure
  | some failure => exact hfailed _ artifact hbefore

theorem Stage.keeps {artifact : StagedArtifact} (h : Stage holds artifact)
    {operation : Ledgers → Nat → Settled} (hkeeps : Keeps operation) :
    Stage holds { artifact with
      ledgers := (operation artifact.ledgers artifact.allocation).ledgers } := by
  refine ⟨?_, h.2⟩
  rw [reservation, hkeeps]
  exact h.1

theorem onAllocation_ensures {operation : Ledgers → Nat → Settled} (h : Keeps operation) :
    Ensures (Stage holds) (onAllocation operation) (fun _ => Stage holds)
      (Fails holds) :=
  onAllocation_rule (fun _ hstage _ => hstage.keeps h) fun _ _ hstage => hstage.keeps h

theorem onFile_ensures {code : FileHandle.Call α} {holds' : α → List Interval → File → Prop}
    (h : ∀ occupied file, holds occupied file →
      Ensures (fun before => before = file) code (fun value => holds' value occupied)
        fun _ => failed occupied) :
    Ensures (Stage holds) (onFile code) (fun value => Stage (holds' value))
      (Fails failed) := by
  intro artifact hstage
  have hfile := h artifact.occupied artifact.file hstage.2
  apply Ensures.focus (hfile.consequence _ _ _) artifact rfl
  · exact fun _ heq => heq
  · exact fun _ _ hafter => ⟨hstage.1, hafter⟩
  · exact fun _ _ hafter => ⟨hstage.1, hafter⟩

theorem checked_bind {β : Type} {result : Except StorageFailure α} {next : α → Call β}
    {before : StagedArtifact → Prop} {post : β → StagedArtifact → Prop}
    {broken : StagedFailure → StagedArtifact → Prop}
    (hok : ∀ value, result = .ok value → Ensures before (next value) post broken)
    (hfailed : ∀ failure artifact, before artifact → broken (.raised failure) artifact) :
    Ensures before (checked result >>= next) post broken := by
  apply Ensures.lift_bind
  · intro value heq
    cases hresult : result with
    | error failure =>
        rw [hresult] at heq
        cases heq
    | ok other =>
        rw [hresult] at heq
        cases heq
        exact hok value hresult
  · intro failure heq artifact hbefore
    cases result with
    | error raised =>
        cases heq
        exact hfailed _ artifact hbefore
    | ok value => cases heq

theorem checked_ok_bind {β : Type} {value : α} {next : α → Call β} :
    (checked (.ok value) >>= next) = next value := rfl

theorem changeOccupied_ensures {change : List Interval → Option (List Interval × Nat)}
    {holds' : Nat → List Interval → File → Prop} {broken : StagedFailure → StagedArtifact → Prop}
    (h : ∀ occupied file, holds occupied file →
      ∃ changed left, change occupied = some (changed, left) ∧ holds' left changed file) :
    Ensures (Stage holds) (changeOccupied change) (fun left => Stage (holds' left)) broken := by
  apply Ensures.read
  intro artifact hstage
  obtain ⟨changed, left, hchange, hafter⟩ := h artifact.occupied artifact.file hstage.2
  rw [hchange]
  apply Ensures.modify_bind
  intro before heq
  apply Ensures.pure
  intro after hmodified
  rw [hmodified, heq]
  exact ⟨hstage.1, hafter⟩

theorem withdrawAllocation_ensures :
    Ensures (Stage holds) withdrawAllocation (fun _ => Stage holds) (Fails holds) :=
  onAllocation_ensures fun _ _ => Ledgers.reconcileAllocated_destination

theorem inspectAllocated_ensures {fstat : Fstat} :
    Ensures (Stage holds) (inspectAllocated fstat) (fun value artifact => Stage holds artifact ∧
        ∃ extra, fstat = .ok extra ∧
          value = (artifact.file.allocated.card * (pageBytes / blockBytes) + extra) * blockBytes)
      (Fails holds) := by
  apply Ensures.read
  intro artifact hstage
  apply Ensures.lift
  · intro value heq after hsame
    subst hsame
    refine ⟨hstage, ?_⟩
    cases fstat with
    | error code => cases heq
    | ok extra =>
        refine ⟨extra, rfl, ?_⟩
        simp only [statusOf, Except.map, Ledgers.allocatedBytes, if_true, checkedMultiply] at heq
        split at heq
        · cases heq
          rfl
        · cases heq
  · intro failure heq after hsame
    subst hsame
    cases hresult : Ledgers.allocatedBytes (statusOf after.file fstat) with
    | error raised =>
        rw [hresult] at heq
        cases heq
        exact hstage
    | ok value =>
        rw [hresult] at heq
        cases heq

theorem reconcileLocked_ensures {fstat : Fstat} :
    Ensures (Stage holds) (reconcileLocked fstat)
      (fun _ artifact => Stage holds artifact ∧ artifact.Accounted fstat) (Fails holds) := by
  apply Ensures.bind inspectAllocated_ensures
  intro allocated artifact hinspected
  obtain ⟨hstage, extra, hfstat, hvalue⟩ := hinspected
  have hkeeps : Keeps fun ledgers id => ledgers.reconcileAllocated id allocated :=
    fun _ _ => Ledgers.reconcileAllocated_destination
  have hsettled : Ensures (fun before => before = artifact)
      (onAllocation fun ledgers id => ledgers.reconcileAllocated id allocated)
      (fun _ after => Stage holds after ∧ after.Accounted fstat) (Fails holds) := by
    apply onAllocation_rule
    · intro before heq hdone
      subst heq
      refine ⟨hstage.keeps hkeeps, extra, hfstat, ?_⟩
      rw [reservation, Ledgers.reconcileAllocated_allocated hstage.1 hdone]
      exact hvalue
    · intro failure before heq
      subst heq
      exact hstage.keeps hkeeps
  exact (hsettled.bind fun _ => .pure fun _ h => h) artifact rfl

theorem resizeAllocation_ensures {promised : Nat} {description : String} {volume : VolumeStatus}
    {fstat : Fstat} :
    Ensures (fun artifact => Stage holds artifact ∧ artifact.Accounted fstat)
      (resizeAllocation promised description volume)
      (fun _ artifact => Stage holds artifact ∧ artifact.Accounted fstat)
      (Fails holds) := by
  have hkeeps : Keeps fun ledgers id => ledgers.resize id promised description volume :=
    fun _ _ => Ledgers.replace_destination
  apply onAllocation_rule
  · intro artifact hbefore _
    obtain ⟨hstage, extra, hfstat, hallocated⟩ := hbefore
    refine ⟨hstage.keeps hkeeps, extra, hfstat, ?_⟩
    rw [reservation, Ledgers.resize_allocated]
    exact hallocated
  · exact fun _ _ hbefore => hbefore.1.keeps hkeeps

/-- How the calls end that keep the promise at what is allocated. -/
theorem settle_ensures {fstat : Fstat} {description : String} {volume : VolumeStatus} :
    Ensures (Stage holds)
      (reconcileLocked fstat >>= fun allocated => resizeAllocation allocated description volume)
      (fun _ artifact => Stage holds artifact ∧ artifact.Accounted fstat) (Fails holds) :=
  reconcileLocked_ensures.bind fun _ => resizeAllocation_ensures

/-! Ranges. -/

variable {before : List Interval} {ranges : List FileRange}

theorem occupyRanges_ensures {prepared : Nat} (h : ∀ range ∈ ranges, range.Proper .coverPages)
    (hprepared : ranges.length ≤ prepared) :
    Ensures (Stage fun occupied file => Known before occupied file ∧ ∀ range ∈ ranges, file.Holds range)
      (occupyRanges prepared ranges) (fun _ => Stage (Known before))
      (Fails (Known before)) := by
  induction ranges generalizing prepared with
  | nil => exact .pure fun _ hstage => hstage.imp fun _ _ => And.left
  | cons range rest ih =>
      have hrange := h range List.mem_cons_self
      have hpositive := hrange.positive
      apply checked_bind
      · intro last hlast
        obtain ⟨heq, -⟩ := FileRange.last_ok hlast
        subst heq
        have hchange : Ensures
            (Stage fun occupied file =>
              Known before occupied file ∧ ∀ other ∈ range :: rest, file.Holds other)
            (changeOccupied fun occupied =>
              occupyRange range.offset (range.offset + range.bytes) occupied prepared)
            (fun left => Stage fun occupied file => left + 1 = prepared ∧
              Known before occupied file ∧ ∀ other ∈ rest, file.Holds other)
            (Fails (Known before)) := by
          apply changeOccupied_ensures
          intro occupied file hholds
          obtain ⟨hknown, hgranted⟩ := hholds
          rw [List.length_cons] at hprepared
          obtain ⟨after, hrun, hseparated, hcovered⟩ :=
            occupyRange_spec hknown.separated (Nat.lt_add_of_pos_right hpositive)
              (hrange.aligned rfl).1 (hrange.aligned rfl).2
              (Nat.lt_of_lt_of_le (Nat.succ_pos _) hprepared)
          refine ⟨after, prepared - 1, hrun, by omega, ?_, ?_⟩
          · exact hknown.occupy hrange (hgranted range List.mem_cons_self) hseparated hcovered
          · exact fun other hin => hgranted other (List.mem_cons_of_mem _ hin)
        apply hchange.bind
        intro left artifact hstage
        obtain ⟨hreserved, hleft, hknown⟩ := hstage
        rw [List.length_cons] at hprepared
        exact ih (fun other hin => h other (List.mem_cons_of_mem _ hin)) (by omega) artifact
          ⟨hreserved, hknown⟩
      · exact fun _ _ hstage => hstage.imp fun _ _ => And.left

theorem forgetRanges_ensures {prepared : Nat} (h : ∀ range ∈ ranges, range.Proper .exact)
    (hprepared : ranges.length ≤ prepared) :
    Ensures (Stage (Doubtful ranges before)) (forgetRanges prepared ranges)
      (fun _ => Stage (Known before)) (Fails (Known before)) := by
  induction ranges generalizing prepared with
  | nil => exact .pure fun _ hstage => hstage.imp fun _ _ => .of_doubtful
  | cons range rest ih =>
      have hrange := h range List.mem_cons_self
      have hoffset : range.offset < offsetLimit :=
        Nat.lt_of_le_of_lt (Nat.le_add_right _ _) hrange.bounded
      rw [forgetRanges, pageCeil_eq hoffset, checked_ok_bind, FileRange.last_eq hrange.bounded,
        checked_ok_bind]
      have hchange : Ensures (Stage (Doubtful (range :: rest) before))
          (changeOccupied fun occupied =>
            forgetRange ((range.offset + (pageBytes - 1)) / pageBytes * pageBytes)
              ((range.offset + range.bytes) / pageBytes * pageBytes) occupied prepared)
          (fun left => Stage fun occupied file => prepared ≤ left + 1 ∧
            Doubtful rest before occupied file) (Fails (Known before)) := by
        apply changeOccupied_ensures
        intro occupied file hdoubtful
        have hnode : 0 < prepared := Nat.lt_of_lt_of_le (Nat.succ_pos rest.length) hprepared
        obtain ⟨after, left, hrun, hleft, hseparated, hcovered⟩ :=
          forgetRange_spec hdoubtful.separated (Nat.dvd_mul_left _ _)
            (.inl ⟨Nat.dvd_mul_left _ _, hnode⟩)
        exact ⟨after, left, hrun, hleft, hdoubtful.forget hseparated hcovered⟩
      apply hchange.bind
      intro left artifact hstage
      obtain ⟨hreserved, hleft, hdoubtful⟩ := hstage
      rw [List.length_cons] at hprepared
      exact ih (fun other hin => h other (List.mem_cons_of_mem _ hin)) (by omega) artifact
        ⟨hreserved, hdoubtful⟩

theorem uncoveredRanges_mem {occupied : List Interval} {uncovered : Nat}
    {result : Nat × List FileRange} (h : uncoveredRanges occupied uncovered ranges = .ok result) :
    ∀ range ∈ result.2, range ∈ ranges := by
  induction ranges generalizing uncovered result with
  | nil =>
      cases h
      exact fun _ hmem => hmem
  | cons range rest ih =>
      rw [uncoveredRanges] at h
      split at h
      · exact fun other hmem => List.mem_cons_of_mem _ (ih h other hmem)
      · obtain ⟨sum, -, h⟩ := bind_eq_ok.mp h
        obtain ⟨later, hlater, h⟩ := bind_eq_ok.mp h
        cases h
        intro other hmem
        rcases List.mem_cons.mp hmem with heq | hin
        · exact heq ▸ List.mem_cons_self
        · exact List.mem_cons_of_mem _ (ih hlater other hin)

/-! Calls. -/

/-- Nothing is known. -/
def Cleared (occupied : List Interval) (file : File) : Prop :=
  occupied = [] ∧ file.size < offsetLimit

theorem Cleared.known {occupied : List Interval} {file : File} (h : Cleared occupied file) :
    Known before occupied file := h.1 ▸ Known.clear h.2

theorem clearOccupied_ensures {broken : StagedFailure → StagedArtifact → Prop} :
    Ensures (Stage (Known before)) clearOccupied (fun _ => Stage Cleared) broken :=
  .modify fun _ hstage => ⟨hstage.1, rfl, hstage.2.bounded⟩

theorem onFile_preallocate {bytes : Nat} {answer : Fallocate} {resized : Ftruncate} :
    Ensures (Stage Cleared) (onFile (FileHandle.preallocate bytes answer resized))
      (fun _ => Stage Cleared) (Fails (Known before)) := by
  apply onFile_ensures
  intro occupied file hcleared
  apply FileHandle.preallocate_ensures.consequence
  · exact fun _ heq => heq ▸ hcleared.2
  · exact fun _ after hsize => ⟨hcleared.1, hsize⟩
  · exact fun _ after hsize => Cleared.known ⟨hcleared.1, hsize⟩

theorem reconcile_ensures {fstat : Fstat} :
    Ensures (Stage holds) (reconcile fstat)
      (fun _ artifact => Stage holds artifact ∧ artifact.Accounted fstat) (Fails holds) :=
  reconcileLocked_ensures.bind fun _ => .pure fun _ h => h

theorem preallocate_ensures {bytes : Nat} {volume : VolumeStatus} {answer : Fallocate}
    {resized : Ftruncate} {fstat : Fstat} :
    Ensures (Stage (Known before)) (preallocate bytes volume answer resized fstat)
      (fun _ artifact => Stage (Known before) artifact ∧ artifact.Accounted fstat)
      (Fails (Known before)) := by
  have hgrow : Keeps fun ledgers id => ledgers.grow id bytes "staged allocation" volume := by
    intro ledgers id
    simp only [Ledgers.grow]
    split
    · exact Ledgers.replace_destination
    · rfl
  apply (onAllocation_ensures hgrow).bind
  intro _
  apply withdrawAllocation_ensures.bind
  intro _
  apply clearOccupied_ensures.bind
  intro _
  apply onFile_preallocate.bind
  intro _
  exact reconcile_ensures.consequence (fun _ hstage => hstage.imp fun _ _ => Cleared.known)
    (fun _ _ h => h) fun _ _ h => h

theorem resize_ensures {bytes : Nat} {description : String} {first fstat : Fstat}
    {volume : VolumeStatus} {shortened resized : Ftruncate} {answer : Fallocate} :
    Ensures (Stage (Known before))
      (resize bytes description first volume shortened answer resized fstat)
      (fun _ artifact => Stage (Known before) artifact ∧ artifact.Accounted fstat)
      (Fails (Known before)) := by
  have hresize : Keeps fun ledgers id => ledgers.resize id bytes description volume :=
    fun _ _ => Ledgers.replace_destination
  have hshorten : Ensures (Stage Cleared) (onFile (FileHandle.resizeSparse bytes shortened))
      (fun _ => Stage Cleared) (Fails (Known before)) := by
    apply onFile_ensures
    intro occupied file hcleared
    apply FileHandle.resizeSparse_ensures.consequence
    · exact fun _ heq => heq
    · intro _ after hafter
      rw [hafter.1]
      exact ⟨hcleared.1, hafter.2⟩
    · exact fun _ after heq => heq ▸ hcleared.known
  apply reconcileLocked_ensures.bind
  intro _
  apply Ensures.bind ((onAllocation_ensures hresize).consequence (fun _ h => h.1) (fun _ _ h => h)
    fun _ _ h => h)
  intro _
  apply withdrawAllocation_ensures.bind
  intro _
  apply clearOccupied_ensures.bind
  intro _
  apply hshorten.bind
  intro _
  have hallocate : Ensures (Stage Cleared)
      (if bytes ≠ 0 then onFile (FileHandle.preallocate bytes answer resized) else pure ())
      (fun _ => Stage Cleared) (Fails (Known before)) :=
    .branch (fun _ => onFile_preallocate) fun _ => .pure fun _ h => h
  apply hallocate.bind
  intro _
  exact reconcile_ensures.consequence (fun _ hstage => hstage.imp fun _ _ => Cleared.known)
    (fun _ _ h => h) fun _ _ h => h

theorem resizeSparse_ensures {bytes : Nat} {resized : Ftruncate} {fstat : Fstat}
    {volume : VolumeStatus} :
    Ensures (Stage (Known before)) (resizeSparse bytes resized fstat volume)
      (fun _ artifact => Stage (Known before) artifact ∧ artifact.Accounted fstat)
      (Fails (Known before)) := by
  -- the file is cut while the map still covers what lay past the cut
  have hcut : Ensures (Stage (Known before)) (onFile (FileHandle.resizeSparse bytes resized))
      (fun _ => Stage fun occupied file => ∃ whole : File, Known before occupied whole ∧
        file = whole.truncate bytes ∧ bytes < offsetLimit) (Fails (Known before)) := by
    apply onFile_ensures
    intro occupied file hknown
    apply FileHandle.resizeSparse_ensures.consequence
    · exact fun _ heq => heq
    · exact fun _ after hafter => ⟨file, hknown, hafter⟩
    · exact fun _ after heq => heq ▸ hknown
  apply checked_bind
  · intro occupiedEnd hend
    have hceil := pageCeil_ok hend
    subst hceil
    apply withdrawAllocation_ensures.bind
    intro _
    apply hcut.bind
    intro _
    apply Ensures.bind
    · apply changeOccupied_ensures
      intro occupied file hshort
      obtain ⟨whole, hknown, hfile, hbytes⟩ := hshort
      have hends : ∀ range ∈ occupied, range.2 ≤ wordLimit - 1 := by
        intro range hmem
        have hvalid := (hknown.separated.valid range hmem).1
        have hlast := hknown.extent (range.2 - 1) ⟨range, hmem, by omega, by omega⟩
        have := File.extent_lt hknown.bounded
        omega
      obtain ⟨after, left, hrun, -, hseparated, hcovered⟩ :=
        forgetRange_spec hknown.separated (Nat.dvd_mul_left _ _) (.inr hends)
      refine ⟨after, left, hrun, ?_⟩
      exact hfile ▸ hknown.truncate hbytes hseparated hcovered
    · exact fun _ => settle_ensures
  · exact fun _ _ hstage => hstage

theorem cancelIf_ensures {cancelled : Bool} {message : String} :
    Ensures (Stage holds) (cancelIf cancelled message) (fun _ => Stage holds)
      (Fails holds) :=
  .branch (fun _ => .fail fun _ h => h) fun _ => .pure fun _ h => h

/-- An early return, with the artifact as the call found it. -/
theorem unchanged_ensures {artifact : StagedArtifact} {fstat : Fstat}
    (h : Stage holds artifact) :
    Ensures (fun found => found = artifact) (pure () : Call Unit)
      (fun _ after => Stage holds after ∧ (after = artifact ∨ after.Accounted fstat))
      (Fails holds) :=
  .pure fun _ heq => ⟨heq ▸ h, .inl heq⟩

theorem allocateRanges_ensures {artifact : StagedArtifact} {input : List FileRange}
    {cancelled : Bool} {first fstat : Fstat} {admitted volume : VolumeStatus}
    {answers : Nat → Fallocate} (h : Stage (Known before) artifact) :
    Ensures (fun found => found = artifact)
      (allocateRanges input cancelled first admitted answers fstat volume)
      (fun _ after => Stage (Known before) after ∧ (after = artifact ∨ after.Accounted fstat))
      (Fails (Known before)) := by
  apply checked_bind
  · intro normalized hnormalized
    have hproper := FileHandle.normalizeRanges_ok hnormalized
    apply Ensures.branch
    · exact fun _ => unchanged_ensures h
    intro _
    apply Ensures.read
    intro found hfound
    subst hfound
    apply checked_bind
    · intro missing hmissing
      have hmissing_proper : ∀ range ∈ missing.2, range.Proper .coverPages :=
        fun range hmem => hproper range (uncoveredRanges_mem hmissing range hmem)
      apply Ensures.branch
      · exact fun _ => unchanged_ensures h
      intro _
      have hgranted : Ensures (Stage (Known before))
          (onFile (FileHandle.allocateRanges missing.2 answers))
          (fun _ => Stage fun occupied file =>
            Known before occupied file ∧ ∀ range ∈ missing.2, file.Holds range)
          (Fails (Known before)) := by
        apply onFile_ensures
        intro occupied file hknown
        apply (FileHandle.allocateRanges_ensures hmissing_proper).consequence
        · exact fun _ heq => heq
        · exact fun _ after hafter => ⟨hknown.grown hafter.1, hafter.2⟩
        · exact fun _ after hafter => hknown.grown hafter
      have hrest : Ensures (Stage (Known before))
          (cancelIf cancelled "staged allocation cancelled" >>= fun _ =>
            inspectAllocated first >>= fun allocated =>
            (onAllocation fun ledgers id => ledgers.reserveGrowth id allocated missing.1
              "occupied staged extent" admitted) >>= fun _ =>
            onFile (FileHandle.allocateRanges missing.2 answers) >>= fun _ =>
            occupyRanges missing.2.length missing.2 >>= fun _ =>
            reconcileLocked fstat >>= fun allocated =>
            resizeAllocation allocated "occupied staged allocation" volume)
          (fun _ after => Stage (Known before) after ∧ after.Accounted fstat)
          (Fails (Known before)) := by
        apply cancelIf_ensures.bind
        intro _
        apply inspectAllocated_ensures.bind
        intro allocated
        have hgrowth : Keeps fun ledgers id => ledgers.reserveGrowth id allocated missing.1
            "occupied staged extent" admitted := by
          intro ledgers id
          simp only [Ledgers.reserveGrowth]
          split
          · rfl
          · exact Ledgers.replace_destination
        apply ((onAllocation_ensures hgrowth).consequence (fun _ h => h.1) (fun _ _ h => h)
          fun _ _ h => h).bind
        intro _
        apply hgranted.bind
        intro _
        apply (occupyRanges_ensures hmissing_proper (Nat.le_refl _)).bind
        intro _
        exact settle_ensures
      exact hrest.consequence (fun _ heq => heq ▸ h) (fun _ _ hafter => ⟨hafter.1, .inr hafter.2⟩)
        fun _ _ hafter => hafter
    · exact fun _ _ heq => heq ▸ h
  · exact fun _ _ heq => heq ▸ h

theorem reclaimRanges_ensures {artifact : StagedArtifact} {input : List FileRange}
    {cancelled : Bool} {fstat : Fstat} {volume : VolumeStatus} {answers : Nat → PunchHole}
    (h : Stage (Known before) artifact) :
    Ensures (fun found => found = artifact)
      (reclaimRanges input cancelled answers fstat volume)
      (fun _ after => Stage (Known before) after ∧ (after = artifact ∨ after.Accounted fstat))
      (Fails (Known before)) := by
  apply checked_bind
  · intro normalized hnormalized
    have hproper := FileHandle.normalizeRanges_ok hnormalized
    apply Ensures.branch
    · exact fun _ => .pure fun _ heq => ⟨heq ▸ h, .inl heq⟩
    intro _
    have hpunched : Ensures (Stage (Known before))
        ((onFile (FileHandle.punchHoles normalized answers)).onFailure
          (forgetRanges normalized.length normalized))
        (fun result => Stage (Doubtful (normalized.take result.2) before))
        (Fails (Known before)) := by
      have hpunch : Ensures (Stage (Known before))
          (onFile (FileHandle.punchHoles normalized answers))
          (fun result => Stage (Doubtful (normalized.take result.2) before))
          (Fails (Doubtful normalized before)) := by
        apply onFile_ensures
        intro occupied file hknown
        apply (FileHandle.punchHoles_ensures hproper).consequence
        · exact fun _ heq => heq
        · exact fun _ after hshed => hknown.doubtful hshed
        · exact fun _ after hshed => hknown.doubtful hshed
      apply hpunch.onFailure
      intro failure
      cases failure with
      | raised raised =>
          exact (forgetRanges_ensures hproper (Nat.le_refl _)).consequence (fun _ h => h)
            (fun _ _ h => h) fun _ _ h => h
      | extraction => exact fun _ h => h.elim
    have hrest : Ensures (Stage (Known before))
        (cancelIf cancelled "staged reclamation cancelled" >>= fun _ =>
          withdrawAllocation >>= fun _ =>
          (onFile (FileHandle.punchHoles normalized answers)).onFailure
            (forgetRanges normalized.length normalized) >>= fun reclaimed =>
          forgetRanges normalized.length (normalized.take reclaimed.2) >>= fun _ =>
          reconcileLocked fstat >>= fun allocated =>
          resizeAllocation allocated "reclaimed staged allocation" volume >>= fun _ =>
          pure reclaimed.1)
        (fun _ after => Stage (Known before) after ∧ after.Accounted fstat)
        (Fails (Known before)) := by
      apply cancelIf_ensures.bind
      intro _
      apply withdrawAllocation_ensures.bind
      intro _
      apply hpunched.bind
      intro reclaimed
      apply (forgetRanges_ensures (fun range hmem => hproper range (List.mem_of_mem_take hmem))
        (List.length_take_le' _ _)).bind
      exact fun _ => reconcileLocked_ensures.bind fun _ => resizeAllocation_ensures.bind
        fun _ => .pure fun _ h => h
    exact hrest.consequence (fun _ heq => heq ▸ h) (fun _ _ hafter => ⟨hafter.1, .inr hafter.2⟩)
      fun _ _ hafter => hafter
  · exact fun _ _ heq => heq ▸ h

/-! Runs. -/

theorem begin_stage {artifact : StagedArtifact}
    (h : Stage (Known artifact.occupied) artifact) :
    Stage (Known artifact.occupied) (StagedCall.begin artifact) :=
  ⟨h.1, ⟨h.2.separated, h.2.extent, fun _ hin => .inl hin, h.2.bounded⟩, h.2.backed⟩

/-- What a call leaves when it returns, and what it leaves when it throws. -/
theorem code_ensures {artifact : StagedArtifact} (call : StagedCall)
    (h : Stage (Known before) artifact) :
    Ensures (fun found => found = artifact) call.code
      (fun _ after => Stage (Known before) after ∧
        (after = artifact ∨ after.Accounted call.settlement))
      (Fails (Known before)) := by
  have hsettled : ∀ {code : Call Unit},
      Ensures (Stage (Known before)) code
        (fun _ after => Stage (Known before) after ∧ after.Accounted call.settlement)
        (Fails (Known before)) →
      Ensures (fun found => found = artifact) code
        (fun _ after => Stage (Known before) after ∧
          (after = artifact ∨ after.Accounted call.settlement))
        (Fails (Known before)) := fun hcode =>
    hcode.consequence (fun _ heq => heq ▸ h) (fun _ _ hafter => ⟨hafter.1, .inr hafter.2⟩)
      fun _ _ hafter => hafter
  cases call with
  | preallocate bytes volume answer resized fstat => exact hsettled preallocate_ensures
  | resize bytes description first volume shortened answer resized fstat =>
      exact hsettled resize_ensures
  | resizeSparse bytes resized fstat volume =>
      exact hsettled resizeSparse_ensures
  | allocateRanges input cancelled first admitted answers fstat volume =>
      exact allocateRanges_ensures h
  | reclaimRanges input cancelled answers fstat volume =>
      apply Ensures.bind (reclaimRanges_ensures h)
      intro _
      exact .pure fun _ hafter => hafter
  | reconcile fstat => exact hsettled reconcile_ensures

theorem Stage.of_failed {artifact : StagedArtifact} {call : StagedCall}
    (h : Stage (Known artifact.occupied) artifact) :
    Stage (Known artifact.occupied) (call.run artifact).1 := by
  have hrun := code_ensures call (begin_stage h) _ rfl
  rw [StagedCall.run]
  cases hresult : call.code (StagedCall.begin artifact) with
  | mk after result =>
      rw [hresult] at hrun
      cases result with
      | ok value => exact hrun.1
      | error failure =>
          cases failure with
          | raised raised => exact hrun
          | extraction => exact hrun.elim

theorem Reachable.stage {artifact : StagedArtifact} (h : Reachable artifact) :
    Stage (Known artifact.occupied) artifact := by
  induction h with
  | created h =>
      refine ⟨h.reserved, ?_⟩
      rw [h.occupied]
      apply Known.clear
      rw [h.size]
      decide
  | call call _ ih =>
      obtain ⟨hreserved, hknown⟩ := @Stage.of_failed _ call ih
      exact ⟨hreserved, ⟨hknown.separated, hknown.extent, fun _ hin => .inl hin, hknown.bounded⟩,
        hknown.backed⟩
  | write size pages _ hsize hbounded ih =>
      exact ⟨ih.1, ih.2.grown ⟨hsize, fun _ => hbounded, Finset.subset_union_left,
        Finset.Subset.refl _⟩⟩
  | others ledgers _ hsame ih =>
      refine ⟨?_, ih.2⟩
      rw [reservation, hsame]
      exact ih.1

theorem Accounted.totalLength_le {artifact : StagedArtifact} {fstat : Fstat}
    (h : artifact.Accounted fstat) (hknown : Known before artifact.occupied artifact.file) :
    totalLength artifact.occupied ≤ artifact.reservation.allocated := by
  obtain ⟨extra, -, hallocated⟩ := h
  calc totalLength artifact.occupied
      ≤ pageBytes * artifact.file.allocated.card :=
        hknown.separated.totalLength_le pageBytes_pos _ hknown.backed
    _ = artifact.file.allocated.card * (pageBytes / blockBytes) * blockBytes := by
        rw [Nat.mul_assoc, Nat.mul_comm]
        rfl
    _ ≤ artifact.reservation.allocated := by
        rw [hallocated]
        exact Nat.mul_le_mul_right _ (Nat.le_add_right _ _)

/-- The ranges a run has recorded are sorted, apart from each other, page aligned, inside the
pages of the file and backed.  A call that settles has the reservation account for what the file
system reports, which is no less than their total.  One that fails has had its nodes, and has
recorded nothing that was not recorded before or granted to it. -/
theorem occupied_backed {artifact : StagedArtifact} (h : Reachable artifact) :
    Separated pageBytes artifact.occupied ∧
      (∀ range ∈ artifact.occupied, range.2 ≤ artifact.file.extent) ∧
      (∀ address, Covered artifact.occupied address →
        address / pageBytes ∈ artifact.file.allocated) ∧
      ∀ call : StagedCall,
        ((call.run artifact).2 = .ok () →
          (call.run artifact).1 = StagedCall.begin artifact ∨
            (call.run artifact).1.Accounted call.settlement ∧
              totalLength (call.run artifact).1.occupied ≤
                (call.run artifact).1.reservation.allocated) ∧
        ∀ failure, (call.run artifact).2 = .error failure → failure ≠ .extraction ∧
          ∀ address, Covered (call.run artifact).1.occupied address →
            Covered artifact.occupied address ∨
              address / pageBytes ∈ (call.run artifact).1.file.granted := by
  obtain ⟨hreserved, hknown⟩ := h.stage
  refine ⟨hknown.separated, ?_, hknown.backed, ?_⟩
  · intro range hmem
    have hvalid := (hknown.separated.valid range hmem).1
    have hlast := hknown.extent (range.2 - 1) ⟨range, hmem, by omega, by omega⟩
    omega
  · intro call
    have hrun := code_ensures call (begin_stage ⟨hreserved, hknown⟩) _ rfl
    rw [StagedCall.run]
    cases hresult : call.code (StagedCall.begin artifact) with
    | mk after result =>
        rw [hresult] at hrun
        cases result with
        | ok value =>
            refine ⟨fun _ => ?_, fun _ heq => nomatch heq⟩
            obtain ⟨⟨-, hafter⟩, heq | haccounted⟩ := hrun
            · exact .inl heq
            · exact .inr ⟨haccounted, haccounted.totalLength_le hafter⟩
        | error failure =>
            refine ⟨fun heq => (nomatch heq), fun _ heq => ?_⟩
            cases heq
            cases failure with
            | raised raised => exact ⟨nofun, hrun.2.source⟩
            | extraction => exact hrun.elim

/-- A new artifact on an empty volume of two pages. -/
def fresh : StagedArtifact where
  ledgers := ((Operation.reserve 0 ⟨0, 7⟩ 4096 "staging" 0 (.ok (2, 4096))).run .initial).ledgers
  allocation := 0
  occupied := []
  file := ⟨0, ∅, ∅⟩

theorem fresh_reachable : Reachable fresh :=
  .created ⟨by decide, by decide, rfl, rfl, rfl⟩

/-- Ranges are recorded in whole pages. -/
def staged : StagedArtifact :=
  ((StagedCall.allocateRange 100 4000 (.ok 0) (.ok (2, 4096)) (fun _ => .granted) (.ok 0)
    (.ok (2, 4096))).run fresh).1

theorem occupied_backed_staged :
    staged.occupied = [(0, 8192)] ∧ ∀ address, Covered staged.occupied address →
      address / pageBytes ∈ staged.file.allocated :=
  ⟨by decide +kernel, (occupied_backed (.call _ fresh_reachable)).2.2.1⟩

/-- Preallocation accounts for backing it records no range of. -/
theorem preallocated_unrecorded : ∃ artifact : StagedArtifact, Reachable artifact ∧
    artifact.reservation.allocated = 4096 ∧ totalLength artifact.occupied = 0 :=
  ⟨_, .call (.preallocate 4096 (.ok (2, 4096)) .granted .truncated (.ok 0)) fresh_reachable,
    by decide, by decide⟩

end StagedArtifact

end Mmltk.Storage
