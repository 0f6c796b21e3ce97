import Mmltk.Benchmark.SegmentedSound
import Mmltk.Foundation.GuardedRuns

namespace Mmltk.Benchmark.Segmented

open Mmltk.Foundation

/-! Any sequence of segmented runs, each ended anywhere, the partial file removed between any two. -/

variable {V ι : Type} {remote : RemoteObject V} {request : DownloadRequest}
  {artifact : ArtifactIdentity ι} {run : Run V}

/-! What the server promises. -/

/-- A header block precedes its body; a range whose validator matches is of that version, from its
first byte on; the body is that version's. -/
def Run.Honest (remote : RemoteObject V) (run : Run V) : Event V → Prop
  | .line index _ => ∀ transfer ∈ run.transfer? index, transfer.writeOffset = transfer.rangeBegin
  | .endOfHeaders index version => ∀ transfer ∈ run.transfer? index,
      transfer.writeOffset = transfer.rangeBegin ∧
        (transfer.http.responseCode = 206 →
          transfer.responseIdentityMatches run.identity = true →
            version = run.identity.version remote)
  | .body index chunk => ∀ transfer ∈ run.transfer? index, transfer.responseHeadersValid = true →
      ∀ version ∈ transfer.served, (remote.content version).Holds transfer.sent chunk
  | _ => True

/-- The total that a range names is the size of the version that it is of. -/
def Honest (remote : RemoteObject V) (request : DownloadRequest) (download : Download V ι)
    (event : Event V) : Prop :=
  match download.phase with
  | .probing _ =>
      match event with
      | .probed http ok =>
          Download.validProbe request http ok = true →
            (remote.content
              (remote.ifRange (strongEtag http.etag) http.lastModified)).size =
              request.expectedSize
      | _ => True
  | .running run => run.Honest remote event
  | _ => True

/-- No run takes over completed bytes from a checkpoint that an interrupted reset has left behind. -/
def Trusted (request : DownloadRequest) (download : Download V ι) (event : Event V) : Prop :=
  match event, download.phase with
  | .advance, .loading cached identity =>
      download.superseded = true →
        ∀ segments ∈ Download.admittedSegments request identity cached download.partSize,
          ∀ segment ∈ segments, segment.completed = 0
  | _, _ => True

def Allowed (remote : RemoteObject V) (request : DownloadRequest) (download : Download V ι)
    (event : Event V) : Prop :=
  Honest remote request download event ∧ Trusted request download event

instance [DecidableEq V] (event : Event V) : Decidable (run.Honest remote event) :=
  match event with
  | .line .. | .endOfHeaders .. | .body .. => inferInstanceAs (Decidable (∀ _ ∈ _, _))
  | .start .. | .advance | .probed .. | .launch _ | .report _ | .callbackFails _ | .settle ..
  | .persistFails | .raise | .stop | .removePart => inferInstanceAs (Decidable True)

instance [DecidableEq V] (download : Download V ι) (event : Event V) :
    Decidable (Honest remote request download event) :=
  match hphase : download.phase, event with
  | .probing _, .probed http ok =>
      decidable_of_iff
        (Download.validProbe request http ok = true →
          (remote.content (remote.ifRange (strongEtag http.etag) http.lastModified)).size =
            request.expectedSize)
        (by simp only [Honest, hphase])
  | .running run, event =>
      decidable_of_iff (run.Honest remote event) (by simp only [Honest, hphase])
  | .probing _, .start .. | .probing _, .advance | .probing _, .launch _ | .probing _, .line ..
  | .probing _, .endOfHeaders .. | .probing _, .body .. | .probing _, .report _
  | .probing _, .callbackFails _ | .probing _, .settle .. | .probing _, .persistFails
  | .probing _, .raise | .probing _, .stop | .probing _, .removePart
  | .idle, _ | .validating, _ | .removingDestination, _ | .removingComplete, _ | .reading, _
  | .opening .., _ | .loading .., _ | .emptying _, _ | .extending _, _ | .publishing _, _
  | .completing _, _ | .concluding, _ | .removingPart, _ | .removingMetadata, _ =>
      isTrue (by simp only [Honest, hphase])

instance (download : Download V ι) (event : Event V) :
    Decidable (Trusted request download event) :=
  match event, hphase : download.phase with
  | .advance, .loading cached identity =>
      decidable_of_iff
        (download.superseded = true →
          ∀ segments ∈ Download.admittedSegments request identity cached download.partSize,
            ∀ segment ∈ segments, segment.completed = 0)
        (by simp only [Trusted, hphase])
  | .advance, .idle | .advance, .validating | .advance, .removingDestination
  | .advance, .removingComplete | .advance, .reading | .advance, .probing _ | .advance, .opening ..
  | .advance, .emptying _ | .advance, .extending _ | .advance, .running _ | .advance, .publishing _
  | .advance, .completing _ | .advance, .concluding | .advance, .removingPart
  | .advance, .removingMetadata | .start .., _ | .probed .., _ | .launch _, _ | .line .., _
  | .endOfHeaders .., _ | .body .., _ | .report _, _ | .callbackFails _, _ | .settle .., _
  | .persistFails, _ | .raise, _ | .stop, _ | .removePart, _ =>
      isTrue (by simp only [Trusted, hphase])

instance [DecidableEq V] (download : Download V ι) (event : Event V) :
    Decidable (Allowed remote request download event) :=
  inferInstanceAs (Decidable (_ ∧ _))

/-! The invariant. -/

/-- A checkpoint divides the artifact, and what it counts was there when it was written: it still is,
unless the partial file has been emptied or removed since. -/
structure FilesSound (remote : RemoteObject V) (request : DownloadRequest) (download : Download V ι) :
    Prop where
  divided : ∀ metadata, download.files.partMetadata = some metadata →
    segmentsCover request.expectedSize 0 metadata.segments = true
  counted : ∀ metadata, download.files.partMetadata = some metadata → download.superseded = false →
    (remote.content (remote.ifRange metadata.etag metadata.lastModified)).size =
        request.expectedSize ∧
      Present remote request (remote.ifRange metadata.etag metadata.lastModified)
        metadata.segments download.files.part
  published : ∀ content, download.files.destination = some content →
    ∃ version, content.Same (remote.content version)

/-- The run's accounts: every byte count is the sum of its parts, so that none is taken off it that
it does not have, and what is reported is within the artifact. -/
def Counted (request : DownloadRequest) : Phase V → Prop
  | .running run => Accounts run.state ∧
      run.state.committedBytes + run.state.inFlightBytes ≤ request.expectedSize
  | _ => True

def Sized (remote : RemoteObject V) (request : DownloadRequest) (identity : RemoteArtifactIdentity) :
    Prop :=
  segmentedDownloadThreshold ≤ request.expectedSize ∧
    (remote.content (identity.version remote)).size = request.expectedSize

def PhaseSound (remote : RemoteObject V) (request : DownloadRequest) (download : Download V ι) : Prop :=
  match download.phase with
  | .probing cached =>
      segmentedDownloadThreshold ≤ request.expectedSize ∧ cached = download.files.partMetadata
  | .opening cached identity =>
      Sized remote request identity ∧ cached = download.files.partMetadata
  | .loading cached identity =>
      Sized remote request identity ∧ cached = download.files.partMetadata ∧
        download.files.part.isSome
  | .emptying identity => Sized remote request identity ∧ download.files.part.isSome
  | .extending identity =>
      Sized remote request identity ∧ download.files.part.isSome ∧ download.superseded = true
  | .running run =>
      RunSound remote request download.files.part run ∧
        ∀ metadata, download.files.partMetadata = some metadata → download.superseded = false →
          metadata.etag = run.identity.etag ∧ metadata.lastModified = run.identity.lastModified
  | .publishing run =>
      ∃ content, download.files.part = some content ∧
        content.Same (remote.content (run.identity.version remote))
  | _ => True

structure Sound (remote : RemoteObject V) (request : DownloadRequest) (download : Download V ι) :
    Prop where
  files : FilesSound remote request download
  phase : PhaseSound remote request download

/-- A division without its attempts is the same division. -/
theorem segmentsCover_attempts {size next : Nat} {segments : List DownloadSegment} :
    segmentsCover size next (segments.map fun segment => { segment with attempts := 0 }) =
      segmentsCover size next segments := by
  induction segments generalizing next with
  | nil => rfl
  | cons head rest ih => simp only [List.map_cons, segmentsCover, ih]

/-- What a run takes over from a checkpoint that still stands. -/
theorem admitted_present {cached : Option PartialMetadata} {identity : RemoteArtifactIdentity}
    {download : Download V ι} {segments : List DownloadSegment}
    (hfiles : FilesSound remote request download) (hcached : cached = download.files.partMetadata)
    (hpart : download.files.part.isSome)
    (hadmitted : Download.admittedSegments request identity cached download.partSize = some segments)
    (htrusted : download.superseded = true → ∀ segment ∈ segments, segment.completed = 0) :
    segmentsCover request.expectedSize 0 segments = true ∧
      Present remote request (identity.version remote) segments download.files.part ∧
      ∀ metadata, download.files.partMetadata = some metadata →
        metadata.etag = identity.etag ∧ metadata.lastModified = identity.lastModified := by
  obtain ⟨metadata, hmetadata, hguard⟩ := Option.bind_eq_some_iff.mp hadmitted
  split at hguard
  next hvalid =>
    obtain ⟨hsize, -, -, -, -, hetag, hlast, -, -, hcovers⟩ := hvalid
    cases hguard
    have hstored := hcached.symm.trans hmetadata
    refine ⟨segmentsCover_attempts.trans hcovers, ?_, fun other hother => ?_⟩
    · cases hsuperseded : download.superseded with
      | false =>
          obtain ⟨-, content, hcontent, hextent, hbytes⟩ := hfiles.counted metadata hstored hsuperseded
          refine ⟨content, hcontent, hextent, fun segment hmem => ?_⟩
          obtain ⟨before, hbefore, rfl⟩ := List.mem_map.mp hmem
          rw [RemoteArtifactIdentity.version, ← hetag, ← hlast]
          exact hbytes before hbefore
      | true =>
          obtain ⟨content, hcontent⟩ := Option.isSome_iff_exists.mp hpart
          rw [Download.partSize, hcontent] at hsize
          refine ⟨content, hcontent, hsize, fun segment hmem position hstart hstop => ?_⟩
          rw [htrusted hsuperseded segment hmem] at hstop
          exact absurd hstart (Nat.not_le.mpr hstop)
    · cases hstored.symm.trans hother
      exact ⟨hetag, hlast⟩
  · cases hguard

theorem initialFrom_completed {base remainder index next left : Nat} {segment : DownloadSegment}
    (h : segment ∈ initialFrom base remainder index next left) : segment.completed = 0 := by
  induction left generalizing index next with
  | zero => cases h
  | succ left ih =>
      cases List.mem_cons.mp h with
      | inl hhead => exact hhead ▸ rfl
      | inr hrest => exact ih hrest

/-- All of the ranges are there: so is the artifact. -/
theorem RunSound.whole {part : Option ByteContent} (h : RunSound remote request part run)
    (hfailure : run.failure = none) (hpending : run.pending = []) (hactive : run.active = []) :
    ∃ content, part = some content ∧
      content.Same (remote.content (run.identity.version remote)) := by
  obtain ⟨content, hpart, hextent, hbytes⟩ := h.present
  refine ⟨content, hpart, hextent.trans h.extent.symm, fun position _ hposition => ?_⟩
  obtain ⟨segment, hmem, hstart, hlast⟩ :=
    segmentsCover_at h.covers (Nat.zero_le _) (hextent ▸ hposition)
  obtain ⟨place, hget⟩ := List.getElem?_of_mem hmem
  have hcomplete : segment.completed = segment.extent := by
    by_contra hopen
    have howed := h.unfinished hfailure place segment hget hopen
    rw [hpending, hactive] at howed
    exact howed.elim List.not_mem_nil List.not_mem_nil
  refine hbytes segment hmem position hstart ?_
  rw [hcomplete, DownloadSegment.extent]
  omega

theorem FilesSound.of_files {download changed : Download V ι}
    (h : FilesSound remote request download) (hfiles : changed.files = download.files)
    (hsuperseded : changed.superseded = download.superseded) :
    FilesSound remote request changed where
  divided := hfiles ▸ h.divided
  counted := hfiles ▸ hsuperseded ▸ h.counted
  published := hfiles ▸ h.published

/-- The partial file is emptied, removed or published. -/
theorem FilesSound.supersede {download : Download V ι} (h : FilesSound remote request download)
    (part destination : Option ByteContent) (phase : Phase V)
    (hpublished : ∀ content, destination = some content →
      ∃ version, content.Same (remote.content version)) :
    FilesSound remote request
      { download with
        files := { download.files with part, destination }
        phase
        superseded := true } where
  divided := h.divided
  counted _ _ hsuperseded := nomatch hsuperseded
  published := hpublished

theorem FilesSound.withoutCheckpoint {download : Download V ι}
    (h : FilesSound remote request download) (phase : Phase V) :
    FilesSound remote request
      { download with files := { download.files with partMetadata := none }, phase } where
  divided _ hmetadata := nomatch hmetadata
  counted _ hmetadata := nomatch hmetadata
  published := h.published

theorem advance_running [DecidableEq ι] {download : Download V ι}
    (hphase : download.phase = .running run) (hfiles : FilesSound remote request download)
    (hrun : RunSound remote request download.files.part run)
    (hours : ∀ metadata, download.files.partMetadata = some metadata → download.superseded = false →
      metadata.etag = run.identity.etag ∧ metadata.lastModified = run.identity.lastModified) :
    Sound remote request (download.advance artifact request) := by
  unfold Download.advance
  rw [hphase]
  dsimp only
  split
  next segments hsnapshot =>
    have hsegments := hrun.snapshot segments hsnapshot
    subst hsegments
    refine ⟨⟨fun metadata hmetadata => ?_, fun metadata hmetadata _ => ?_, hfiles.published⟩,
      hrun.written, fun metadata hmetadata _ => ?_⟩
    · cases hmetadata
      exact hrun.covers
    · cases hmetadata
      exact ⟨hrun.extent, hrun.present⟩
    · cases hmetadata
      exact ⟨rfl, rfl⟩
  next unsupported _ _ =>
    split
    · exact ⟨hfiles, by rw [PhaseSound, hphase]; exact ⟨hrun, hours⟩⟩
    · cases unsupported with
      | true => exact ⟨hfiles.of_files rfl rfl, trivial⟩
      | false => exact ⟨hfiles.of_files rfl rfl, trivial⟩
  next hfailure =>
    split
    · exact ⟨hfiles, by rw [PhaseSound, hphase]; exact ⟨hrun, hours⟩⟩
    next hover =>
      rw [not_or, not_not, not_not] at hover
      exact ⟨hfiles.of_files rfl rfl, hrun.whole hfailure hover.2 hover.1⟩

theorem advance_sound [DecidableEq ι] {download : Download V ι}
    (h : Sound remote request download) (htrusted : Trusted request download .advance) :
    Sound remote request (download.advance artifact request) := by
  obtain ⟨hfiles, hphase⟩ := h
  cases hcase : download.phase with
  | running run =>
      rw [PhaseSound, hcase] at hphase
      exact advance_running hcase hfiles hphase.1 hphase.2
  | idle | probing _ =>
      unfold Download.advance
      rw [hcase]
      exact ⟨hfiles, hphase⟩
  | validating =>
      unfold Download.advance
      rw [hcase]
      dsimp only
      split
      · exact ⟨hfiles.of_files rfl rfl, trivial⟩
      · exact ⟨hfiles.of_files rfl rfl, trivial⟩
  | removingDestination =>
      unfold Download.advance
      rw [hcase]
      exact ⟨⟨hfiles.divided, hfiles.counted, fun _ hnone => (nomatch hnone)⟩, trivial⟩
  | removingComplete =>
      unfold Download.advance
      rw [hcase]
      exact ⟨⟨hfiles.divided, hfiles.counted, hfiles.published⟩, trivial⟩
  | reading =>
      unfold Download.advance
      rw [hcase]
      dsimp only
      split
      next hlarge => exact ⟨hfiles.of_files rfl rfl, hlarge.1, rfl⟩
      · exact ⟨hfiles.of_files rfl rfl, trivial⟩
  | opening cached identity =>
      rw [PhaseSound, hcase] at hphase
      unfold Download.advance
      rw [hcase]
      refine ⟨⟨hfiles.divided, fun metadata hmetadata hstands => ?_, hfiles.published⟩, hphase.1,
        hphase.2, rfl⟩
      obtain ⟨hsize, content, hpart, hpresent⟩ := hfiles.counted metadata hmetadata hstands
      refine ⟨hsize, content, ?_, hpresent⟩
      dsimp only
      rw [hpart]
      rfl
  | loading cached identity =>
      rw [PhaseSound, hcase] at hphase
      simp only [Trusted, hcase] at htrusted
      obtain ⟨hsized, hcached, hpart⟩ := hphase
      unfold Download.advance
      rw [hcase]
      dsimp only
      cases hadmitted :
          Download.admittedSegments request identity cached download.partSize with
      | none => exact ⟨hfiles.of_files rfl rfl, hsized, hpart⟩
      | some segments =>
          obtain ⟨hcovers, hpresent, hours⟩ := admitted_present hfiles hcached hpart hadmitted
            fun hsuperseded => htrusted hsuperseded segments hadmitted
          exact ⟨hfiles.of_files rfl rfl, runSound_begin hsized.2 hcovers hpresent,
            fun metadata hmetadata _ => hours metadata hmetadata⟩
  | emptying identity =>
      rw [PhaseSound, hcase] at hphase
      unfold Download.advance
      rw [hcase]
      refine ⟨hfiles.supersede _ _ _ hfiles.published, hphase.1, ?_, rfl⟩
      dsimp only
      rw [Option.isSome_map]
      exact hphase.2
  | extending identity =>
      rw [PhaseSound, hcase] at hphase
      obtain ⟨hsized, hpart, hsuperseded⟩ := hphase
      obtain ⟨content, hcontent⟩ := Option.isSome_iff_exists.mp hpart
      have hpositive : 0 < request.expectedSize := Nat.lt_of_lt_of_le (by decide) hsized.1
      have hresized : download.files.part.map (·.resize request.expectedSize) =
          some (content.resize request.expectedSize) := by
        rw [hcontent]
        rfl
      unfold Download.advance
      rw [hcase]
      refine ⟨⟨hfiles.divided, fun _ _ hstands => ?_, hfiles.published⟩,
        runSound_begin hsized.2 (initialSegments_cover (initialSegmentCount_pos _)
          (initialSegmentCount_le _ hpositive)) ?_, fun _ _ hstands => ?_⟩
      · cases hsuperseded.symm.trans hstands
      · refine ⟨content.resize request.expectedSize, hresized, rfl,
          fun segment hmem position hstart hstop => ?_⟩
        rw [initialFrom_completed hmem] at hstop
        exact absurd hstart (Nat.not_le.mpr hstop)
      · cases hsuperseded.symm.trans hstands
  | publishing run =>
      rw [PhaseSound, hcase] at hphase
      obtain ⟨content, hcontent, hsame⟩ := hphase
      unfold Download.advance
      rw [hcase]
      refine ⟨hfiles.supersede _ _ _ fun published hpublished => ?_, trivial⟩
      cases hcontent.symm.trans hpublished
      exact ⟨_, hsame⟩
  | completing run =>
      unfold Download.advance
      rw [hcase]
      exact ⟨⟨hfiles.divided, hfiles.counted, hfiles.published⟩, trivial⟩
  | concluding =>
      unfold Download.advance
      rw [hcase]
      exact ⟨hfiles.withoutCheckpoint _, trivial⟩
  | removingPart =>
      unfold Download.advance
      rw [hcase]
      exact ⟨hfiles.supersede _ _ _ hfiles.published, trivial⟩
  | removingMetadata =>
      unfold Download.advance
      rw [hcase]
      exact ⟨hfiles.withoutCheckpoint _, trivial⟩

/-- A callback that leaves the files as they are. -/
theorem Sound.change {download : Download V ι} {changed : Run V} (h : Sound remote request download)
    (hphase : download.phase = .running run)
    (hrun : RunSound remote request download.files.part changed)
    (hidentity : changed.identity = run.identity) :
    Sound remote request (download.change changed) := by
  have hbefore := h.phase
  rw [PhaseSound, hphase] at hbefore
  refine ⟨h.files.of_files rfl rfl, hrun, fun metadata hmetadata hstands => ?_⟩
  rw [hidentity]
  exact hbefore.2 metadata hmetadata hstands

/-- Bytes of a body, into the partial file: the checkpoint's are of the same version. -/
theorem write_sound {download : Download V ι} {transfer : SegmentTransfer V} {chunk : List UInt8}
    (h : Sound remote request download) (hphase : download.phase = .running run)
    (hfound : run.transfer? transfer.index = some transfer)
    (hhonest : transfer.responseHeadersValid = true → ∀ version ∈ transfer.served,
      (remote.content version).Holds transfer.sent chunk) :
    Sound remote request (download.write run transfer chunk) := by
  have hbefore := h.phase
  rw [PhaseSound, hphase] at hbefore
  obtain ⟨hrun, hours⟩ := hbefore
  unfold Download.write
  split
  · exact h
  next hvalid =>
  rw [Bool.not_eq_true, Bool.not_eq_false'] at hvalid
  split
  · exact h.change hphase (hrun.withError _) rfl
  next hfits =>
    refine ⟨⟨h.files.divided, fun metadata hmetadata hstands => ?_, h.files.published⟩,
      hrun.body hfound hvalid (Nat.not_lt.mp hfits) (hhonest hvalid), hours⟩
    obtain ⟨hsize, hpresent⟩ := h.files.counted metadata hmetadata hstands
    obtain ⟨hetag, hlast⟩ := hours metadata hmetadata hstands
    obtain ⟨content, hpart, -, -⟩ := hrun.present
    obtain ⟨hserved, hsent⟩ :=
      (hrun.transfers content hpart transfer (transfer?_mem hfound).1).following hvalid
    refine ⟨hsize, hpresent.write (h.files.divided metadata hmetadata) hsize ?_⟩
    rw [hetag, hlast, ← hsent]
    exact hhonest hvalid _ hserved

theorem callback_sound {download : Download V ι} {event : Event V}
    (h : Sound remote request download) (hphase : download.phase = .running run)
    (hhonest : run.Honest remote event) :
    Sound remote request (download.callback request run event) := by
  have hrun := h.phase
  rw [PhaseSound, hphase] at hrun
  replace hrun := hrun.1
  cases event with
  | start | advance | probed | stop | removePart => exact h
  | line index header =>
      rw [Download.callback]
      split
      · exact h
      · exact h.change hphase (hrun.line index header) rfl
  | endOfHeaders index version =>
      exact h.change hphase (hrun.endOfHeaders index hhonest) rfl
  | body index chunk =>
      rw [Download.callback]
      split
      next transfer hfound =>
        split
        · exact h
        · have hown : run.transfer? transfer.index = some transfer := by
            rw [(transfer?_mem hfound).2]
            exact hfound
          exact write_sound h hphase hown (hhonest transfer hfound)
      · exact h
  | report index =>
      rw [Download.callback]
      split
      next transfer hfound =>
        split
        · exact h.change hphase (hrun.report hfound) rfl
        · exact h
      · exact h
  | callbackFails index => exact h.change hphase (hrun.withError index) rfl
  | launch index =>
      refine h.change hphase (hrun.launch _ index) ?_
      unfold Run.launch
      split
      · rfl
      split
      · rfl
      · dsimp only
        split <;> rfl
  | settle index ok =>
      refine h.change hphase (hrun.settle index ok) ?_
      unfold Run.settle
      split
      · rfl
      split
      · rfl
      · dsimp only
        split <;> rfl
  | persistFails =>
      rw [Download.callback]
      split
      · exact h.change hphase (hrun.written.fail false) rfl
      · exact h
  | raise => exact h.change hphase (hrun.fail false) rfl

theorem step_sound [DecidableEq ι] {download : Download V ι} {event : Event V}
    (h : Sound remote request download) (hallowed : Allowed remote request download event) :
    Sound remote request (download.step artifact request event) := by
  obtain ⟨hhonest, htrusted⟩ := hallowed
  unfold Download.step
  split
  · exact ⟨h.files.of_files rfl rfl, trivial⟩
  next hidle =>
    refine ⟨h.files.supersede _ _ _ h.files.published, ?_⟩
    rw [PhaseSound, hidle]
    trivial
  · exact advance_sound h htrusted
  · exact ⟨h.files.of_files rfl rfl, trivial⟩
  next http ok cached hphase =>
    have hbefore := h.phase
    rw [PhaseSound, hphase] at hbefore
    rw [Honest, hphase] at hhonest
    unfold Download.probe
    dsimp only
    split
    next hvalid =>
      exact ⟨h.files.of_files rfl rfl, ⟨hbefore.1, hhonest hvalid.1⟩, hbefore.2⟩
    · split
      · exact ⟨h.files.of_files rfl rfl, trivial⟩
      · exact h
  next _ _ run _ _ hphase =>
    refine callback_sound h hphase ?_
    unfold Honest at hhonest
    rw [hphase] at hhonest
    exact hhonest
  · exact h

theorem initial_sound : Sound remote request (Download.initial : Download V ι) where
  files :=
    { divided := fun _ hmetadata => nomatch hmetadata
      counted := fun _ hmetadata => nomatch hmetadata
      published := fun _ hcontent => nomatch hcontent }
  phase := trivial

theorem Sound.counted {download : Download V ι} (h : Sound remote request download) :
    Counted request download.phase := by
  have hphase := h.phase
  rw [PhaseSound] at hphase
  cases hcase : download.phase with
  | running run =>
      rw [hcase] at hphase
      exact ⟨hphase.1.accounts, hphase.1.counted_le⟩
  | _ => trivial

/-- As long as no run takes over a checkpoint that an interrupted reset has left behind, whatever is
published is one version, and every checkpoint counts what is there. -/
theorem segmented_runs_sound [DecidableEq ι] (remote : RemoteObject V) (artifact : ArtifactIdentity ι)
    (request : DownloadRequest) (events : List (Event V))
    (hruns : Along (Download.step artifact request) (Allowed remote request) .initial events) :
    FilesSound remote request (events.foldl (Download.step artifact request) .initial) ∧
      Counted request (events.foldl (Download.step artifact request) .initial).phase := by
  have hsound := hruns.keeps (fun _ _ => step_sound) initial_sound
  exact ⟨hsound.files, hsound.counted⟩

/-! One version of the smallest size that is segmented, its bytes all one. -/

def largeRemote : RemoteObject Unit where
  content _ := ⟨segmentedDownloadThreshold, fun _ => 1⟩
  etagOwner _ := ()
  lastModifiedOwner _ := ()

def largeRequest : DownloadRequest := ⟨"u".toList, segmentedDownloadThreshold, 3⟩

def sizeIdentity : ArtifactIdentity Nat := fun _ size _ _ => size

/-- The start of a run, up to the end of its probe. -/
def probeRun : List (Event Unit) :=
  .start 2 true :: List.replicate 4 .advance ++
    [.probed ⟨206, some ⟨0, 0, segmentedDownloadThreshold, false⟩, "\"a\"".toList, []⟩ true]

/-- A new partial file, of which the first byte arrives. -/
def firstByte : List (Event Unit) :=
  probeRun ++ List.replicate 5 .advance ++
    [.launch 0, .line 0 "HTTP/1.1 206 Partial Content\r\n".toList,
      .line 0 "ETag: \"a\"\r\n".toList,
      .line 0 "Content-Range: bytes 0-268435455/536870912\r\n".toList, .endOfHeaders 0 (),
      .body 0 [1], .report 0, .settle 0 false, .advance, .raise, .advance]

/-- The file is removed; the next run dies before its first checkpoint, and the one after trusts it. -/
def interruptedReset : List (Event Unit) :=
  firstByte ++ [.removePart] ++ probeRun ++ List.replicate 4 .advance ++ [.stop] ++ probeRun ++
    List.replicate 3 .advance

/-- Every response is honest, and yet the last checkpoint counts a byte that is not there. -/
theorem interruptedReset_counted :
    Along (Download.step sizeIdentity largeRequest) (Honest largeRemote largeRequest) .initial
        interruptedReset ∧
      ¬ FilesSound largeRemote largeRequest
        (interruptedReset.foldl (Download.step sizeIdentity largeRequest) .initial) := by
  refine ⟨by decide, fun hsound => ?_⟩
  obtain ⟨-, content, hpart, -, hbytes⟩ := hsound.counted _ rfl (by decide)
  have hbyte : (interruptedReset.foldl (Download.step sizeIdentity largeRequest)
      .initial).files.part.map (fun content => content.byte 0) = some 0 := by decide
  rw [hpart, Option.map_some, Option.some.injEq] at hbyte
  have hcounted := hbytes ⟨0, 268435455, 1, 0⟩ (by decide) 0 (by decide) (by decide)
  exact absurd (hbyte.symm.trans hcounted) (by decide)

/-- Without the removal, the next run goes on from the byte that is there. -/
def resumedRun : List (Event Unit) := firstByte ++ probeRun ++ List.replicate 4 .advance

theorem segmented_runs_sound_resumed :
    FilesSound largeRemote largeRequest
        (resumedRun.foldl (Download.step sizeIdentity largeRequest) .initial) ∧
      Counted largeRequest
        (resumedRun.foldl (Download.step sizeIdentity largeRequest) .initial).phase :=
  segmented_runs_sound largeRemote sizeIdentity largeRequest resumedRun (by decide)

end Mmltk.Benchmark.Segmented
