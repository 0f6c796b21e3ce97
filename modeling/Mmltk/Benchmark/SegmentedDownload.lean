import Mmltk.Benchmark.SegmentPlan

namespace Mmltk.Benchmark

open Mmltk.Foundation

/-! An artifact over several ranged requests: `download_segmented_artifact`, one file operation or one
callback of the transport after the other. The controller's settlements and its checkpoints are apart,
since the other transfers' callbacks run on in between; a run may stop between any two operations. -/

namespace Segmented

structure RemoteArtifactIdentity where
  etag : Text
  lastModified : Text
  deriving DecidableEq, Repr

/-- An entity tag that a ranged request may be made on. -/
def strongEtag (etag : Text) : Text :=
  if startsWithCaseInsensitive etag "W/".toList then [] else etag

/-- `SegmentedDownloadState`, but for what only the progress reports read. -/
structure SegmentedDownloadState where
  segments : List DownloadSegment
  inFlight : List Nat
  committedBytes : Nat
  inFlightBytes : Nat
  deriving DecidableEq, Repr

structure SegmentTransfer (V : Type) where
  index : Nat
  rangeBegin : Nat
  rangeEnd : Nat
  writeOffset : Nat
  attempt : Nat
  http : HttpResponseHeaderFields
  responseHeadersValid : Bool
  callbackError : Bool
  served : Option V
  sent : Nat

/-- The controller's loop: ranges to start, transfers under way, the checkpoint that it is about to
write, and how it failed, which may be that the server does not support ranges. -/
structure Run (V : Type) where
  identity : RemoteArtifactIdentity
  state : SegmentedDownloadState
  pending : List Nat
  active : List (SegmentTransfer V)
  snapshot : Option (List DownloadSegment)
  failure : Option Bool

inductive Phase (V : Type) where
  | idle
  | validating
  | removingDestination
  | removingComplete
  | reading
  | probing (cached : Option PartialMetadata)
  | opening (cached : Option PartialMetadata) (identity : RemoteArtifactIdentity)
  | loading (cached : Option PartialMetadata) (identity : RemoteArtifactIdentity)
  | emptying (identity : RemoteArtifactIdentity)
  | extending (identity : RemoteArtifactIdentity)
  | running (run : Run V)
  | publishing (run : Run V)
  | completing (run : Run V)
  | concluding
  | removingPart
  | removingMetadata

/-- `superseded` is no field of the source: the partial file has been emptied or removed since the
checkpoint beside it was written. -/
structure Download (V ι : Type) where
  files : DownloadFiles ι
  phase : Phase V
  concurrency : Nat
  observed : Bool
  superseded : Bool

inductive Event (V : Type) where
  | start (concurrency : Nat) (observed : Bool)
  | advance
  | probed (http : HttpResponseHeaderFields) (ok : Bool)
  | launch (index : Nat)
  | line (index : Nat) (header : Text)
  | endOfHeaders (index : Nat) (version : V)
  | body (index : Nat) (chunk : List UInt8)
  | report (index : Nat)
  | callbackFails (index : Nat)
  | settle (index : Nat) (ok : Bool)
  | persistFails
  | raise
  | stop
  | removePart

variable {V ι : Type}

namespace SegmentedDownloadState

def begin (segments : List DownloadSegment) : SegmentedDownloadState where
  segments
  inFlight := segments.map fun _ => 0
  committedBytes := (segments.map DownloadSegment.completed).sum
  inFlightBytes := 0

/-- `report_in_flight`: what one transfer has in flight, in place of what it had. -/
def reportInFlight (state : SegmentedDownloadState) (index bytes : Nat) : SegmentedDownloadState :=
  { state with
    inFlight := state.inFlight.set index bytes
    inFlightBytes := state.inFlightBytes - (state.inFlight[index]?).getD 0 + bytes }

/-- `commit_attempt`, up to its checkpoint. -/
def commitAttempt (state : SegmentedDownloadState) (index attemptBegin transferred attempt : Nat) :
    Option SegmentedDownloadState :=
  state.segments[index]?.bind fun segment =>
    let expectedBegin := segment.start + segment.completed
    if attemptBegin ≠ expectedBegin ∨ segment.last + 1 - expectedBegin < transferred then none
    else
      let settled := state.reportInFlight index 0
      some
        { settled with
          segments :=
            state.segments.set index
              { segment with
                completed := segment.completed + transferred
                attempts := max segment.attempts attempt }
          committedBytes := state.committedBytes + transferred }

/-- `abandon_attempt`, up to its checkpoint. -/
def abandonAttempt (state : SegmentedDownloadState) (index attempt : Nat) :
    Option SegmentedDownloadState :=
  state.segments[index]?.map fun segment =>
    let settled := state.reportInFlight index 0
    { settled with
      segments :=
        state.segments.set index { segment with attempts := max segment.attempts attempt } }

end SegmentedDownloadState

namespace SegmentTransfer

def begin (index rangeBegin rangeEnd attempt : Nat) : SegmentTransfer V where
  index
  rangeBegin
  rangeEnd
  writeOffset := rangeBegin
  attempt
  http := .none
  responseHeadersValid := false
  callbackError := false
  served := none
  sent := 0

def transferred (transfer : SegmentTransfer V) : Nat := transfer.writeOffset - transfer.rangeBegin

/-- The transport has completed it, and all of its range has arrived. -/
def complete (transfer : SegmentTransfer V) (ok : Bool) : Bool :=
  ok && transfer.responseHeadersValid && transfer.writeOffset = transfer.rangeEnd + 1

def responseIdentityMatches (identity : RemoteArtifactIdentity) (transfer : SegmentTransfer V) :
    Bool :=
  if identity.etag ≠ [] then transfer.http.etag = identity.etag
  else transfer.http.lastModified = identity.lastModified

/-- `on_header`, but for the end of the block. -/
def onHeader (transfer : SegmentTransfer V) (header : Text) : SegmentTransfer V :=
  let (http, kind) := transfer.http.apply header
  if kind = .statusLine then { transfer with http, responseHeadersValid := false }
  else { transfer with http }

def acceptsHeaders (request : DownloadRequest) (identity : RemoteArtifactIdentity)
    (transfer : SegmentTransfer V) : Bool :=
  transfer.http.responseCode = 206 &&
    (transfer.http.range.any fun range =>
      !range.unsatisfied && range.start = transfer.rangeBegin && range.last = transfer.rangeEnd &&
        range.total = request.expectedSize) &&
    transfer.responseIdentityMatches identity

/-- The end of a header block of a response that serves `version`. -/
def onEndOfHeaders (request : DownloadRequest) (identity : RemoteArtifactIdentity)
    (transfer : SegmentTransfer V) (version : V) : SegmentTransfer V :=
  { transfer with
    responseHeadersValid := transfer.acceptsHeaders request identity
    served := some version
    sent := (transfer.http.range.map ParsedContentRange.start).getD 0 }

end SegmentTransfer

namespace Run

def transfer? (run : Run V) (index : Nat) : Option (SegmentTransfer V) :=
  run.active.find? fun transfer => transfer.index = index

def update (run : Run V) (index : Nat) (change : SegmentTransfer V → SegmentTransfer V) : Run V :=
  { run with
    active := run.active.map fun transfer =>
      if transfer.index = index then change transfer else transfer }

def fail (run : Run V) (unsupported : Bool) : Run V :=
  { run with failure := run.failure <|> some unsupported }

/-- The first checkpoint of a run is of what it starts from. -/
def begin (identity : RemoteArtifactIdentity) (segments : List DownloadSegment) : Run V where
  identity
  state := .begin segments
  pending :=
    (List.range segments.length).filter fun index =>
      segments[index]?.any fun segment => segment.completed ≠ segment.extent
  active := []
  snapshot := some segments
  failure := none

def launch (request : DownloadRequest) (concurrency : Nat) (run : Run V) (index : Nat) : Run V :=
  if run.failure.isSome ∨ run.snapshot.isSome ∨ concurrency ≤ run.active.length ∨
      index ∉ run.pending then
    run
  else
    match run.state.segments[index]? with
    | none => run
    | some segment =>
        let taken := { run with pending := run.pending.erase index }
        let rangeBegin := segment.start + segment.completed
        if request.maximumAttempts < segment.attempts + 1 ∨ segment.last < rangeBegin then
          taken.fail false
        else
          { taken with
            active := .begin index rangeBegin segment.last (segment.attempts + 1) :: run.active }

/-- What the completion of a transfer means for the run. -/
def verdict (request : DownloadRequest) (transfer : SegmentTransfer V) (ok : Bool) : Option Bool :=
  if transfer.callbackError then some false
  else if transfer.http.responseCode = 200 then some true
  else if transfer.complete ok then none
  else if request.maximumAttempts ≤ transfer.attempt then some false
  else none

/-- A transfer that is over, be it that it completed or that the run is being abandoned. -/
def settle (request : DownloadRequest) (run : Run V) (index : Nat) (ok : Bool) : Run V :=
  match run.transfer? index with
  | none => run
  | some transfer =>
      if run.snapshot.isSome then run
      else
        let rest := { run with active := run.active.filter fun other => other.index ≠ index }
        let settled :=
          if transfer.responseHeadersValid then
            run.state.commitAttempt index transfer.rangeBegin transfer.transferred transfer.attempt
          else run.state.abandonAttempt index transfer.attempt
        match settled with
        | none => rest.fail false
        | some state =>
            let outcome := verdict request transfer ok
            { rest with
              state
              snapshot := some state.segments
              pending :=
                if transfer.complete ok ∨ outcome.isSome then run.pending else index :: run.pending
              failure := run.failure <|> outcome }

end Run

namespace Download

def partSize (download : Download V ι) : Nat := (download.files.part.map ByteContent.size).getD 0

def checkpoint (request : DownloadRequest) (identity : RemoteArtifactIdentity)
    (segments : List DownloadSegment) : PartialMetadata where
  schemaVersion := downloadSchemaVersion
  mode := segmentedMode
  url := request.url
  size := request.expectedSize
  etag := identity.etag
  lastModified := identity.lastModified
  bytes := 0
  segments

/-- What `load_resume_state` takes over from a checkpoint: all but the attempts. -/
def admittedSegments (request : DownloadRequest) (identity : RemoteArtifactIdentity)
    (cached : Option PartialMetadata) (partSize : Nat) : Option (List DownloadSegment) :=
  cached.bind fun metadata =>
    if partSize = request.expectedSize ∧ metadata.schemaVersion = downloadSchemaVersion ∧
        metadata.mode = segmentedMode ∧ metadata.url = request.url ∧
        metadata.size = request.expectedSize ∧ metadata.etag = identity.etag ∧
        metadata.lastModified = identity.lastModified ∧ metadata.segments ≠ [] ∧
        metadata.segments.length ≤ min 8 (segmentsForSize request.expectedSize) ∧
        segmentsCover request.expectedSize 0 metadata.segments then
      some (metadata.segments.map fun segment => { segment with attempts := 0 })
    else none

def validProbe (request : DownloadRequest) (http : HttpResponseHeaderFields) (ok : Bool) : Bool :=
  ok && http.responseCode = 206 && http.range.any fun range =>
    !range.unsatisfied && range.start = 0 && range.last = 0 && range.total = request.expectedSize

/-- A response to the probe; the next attempt is made in the same phase. -/
def probe (request : DownloadRequest) (download : Download V ι) (cached : Option PartialMetadata)
    (http : HttpResponseHeaderFields) (ok : Bool) : Download V ι :=
  let identified := strongEtag http.etag ≠ [] ∨ http.lastModified ≠ []
  if validProbe request http ok ∧ identified then
    { download with phase := .opening cached ⟨strongEtag http.etag, http.lastModified⟩ }
  else if http.responseCode = 200 ∨ (validProbe request http ok ∧ ¬ identified) then
    { download with phase := .removingPart }
  else download

/-- The next operation of the run. -/
def advance [DecidableEq ι] (identity : ArtifactIdentity ι) (request : DownloadRequest)
    (download : Download V ι) : Download V ι :=
  let files := download.files
  match download.phase with
  | .idle => download
  | .validating =>
      if validateCompleteArtifact identity request files then { download with phase := .idle }
      else { download with phase := .removingDestination }
  | .removingDestination =>
      { download with files := { files with destination := none }, phase := .removingComplete }
  | .removingComplete =>
      { download with files := { files with complete := none }, phase := .reading }
  | .reading =>
      let stored := files.partMetadata.any fun metadata => metadata.mode = segmentedMode
      if segmentedDownloadThreshold ≤ request.expectedSize ∧
          (1 < download.concurrency ∨ stored) then
        { download with phase := .probing files.partMetadata }
      else { download with phase := .idle }
  | .probing _ => download
  | .opening cached remote =>
      { download with
        files := { files with part := some (files.part.getD .empty) }
        phase := .loading cached remote }
  | .loading cached remote =>
      match admittedSegments request remote cached download.partSize with
      | some segments => { download with phase := .running (.begin remote segments) }
      | none => { download with phase := .emptying remote }
  | .emptying remote =>
      { download with
        files := { files with part := files.part.map (·.resize 0) }
        phase := .extending remote
        superseded := true }
  | .extending remote =>
      let count := initialSegmentCount download.concurrency request.expectedSize
      { download with
        files := { files with part := files.part.map (·.resize request.expectedSize) }
        phase := .running (.begin remote (initialSegments request.expectedSize count)) }
  | .running run =>
      match run.snapshot, run.failure with
      | some segments, _ =>
          { download with
            files := { files with partMetadata := some (checkpoint request run.identity segments) }
            phase := .running { run with snapshot := none }
            superseded := false }
      | none, some unsupported =>
          if run.active ≠ [] then download
          else { download with phase := if unsupported then .removingPart else .idle }
      | none, none =>
          if run.active ≠ [] ∨ run.pending ≠ [] then download
          else { download with phase := .publishing run }
  | .publishing run =>
      { download with
        files := { files with destination := files.part, part := none }
        phase := .completing run
        superseded := true }
  | .completing run =>
      { download with
        files :=
          { files with
            complete :=
              some
                { schemaVersion := downloadSchemaVersion
                  complete := true
                  url := request.url
                  size := request.expectedSize
                  identity :=
                    identity request.url request.expectedSize run.identity.etag
                      run.identity.lastModified
                  etag := run.identity.etag
                  lastModified := run.identity.lastModified } }
        phase := .concluding }
  | .concluding => { download with files := { files with partMetadata := none }, phase := .idle }
  | .removingPart =>
      { download with
        files := { files with part := none }
        phase := .removingMetadata
        superseded := true }
  | .removingMetadata =>
      { download with files := { files with partMetadata := none }, phase := .idle }

def change (download : Download V ι) (run : Run V) : Download V ι :=
  { download with phase := .running run }

/-- The write callback. -/
def write (download : Download V ι) (run : Run V) (transfer : SegmentTransfer V)
    (chunk : List UInt8) : Download V ι :=
  if !transfer.responseHeadersValid then download
  else if transfer.rangeEnd + 1 - transfer.writeOffset < chunk.length then
    download.change (run.update transfer.index fun transfer => { transfer with callbackError := true })
  else
    { download with
      files :=
        { download.files with
          part := download.files.part.map fun part => part.write transfer.writeOffset chunk }
      phase :=
        .running
          (run.update transfer.index fun transfer =>
            { transfer with
              writeOffset := transfer.writeOffset + chunk.length
              sent := transfer.sent + chunk.length }) }

/-- A callback of the run's transfers. -/
def callback (request : DownloadRequest) (download : Download V ι) (run : Run V) :
    Event V → Download V ι
  | .line index header =>
      if isHeaderBlockTerminator header then download
      else download.change (run.update index fun transfer => transfer.onHeader header)
  | .endOfHeaders index version =>
      download.change
        (run.update index fun transfer => transfer.onEndOfHeaders request run.identity version)
  | .body index chunk =>
      match run.transfer? index with
      | some transfer => if transfer.callbackError then download else download.write run transfer chunk
      | none => download
  | .report index =>
      match run.transfer? index with
      | some transfer =>
          if download.observed then
            download.change
              { run with state := run.state.reportInFlight index transfer.transferred }
          else download
      | none => download
  | .callbackFails index =>
      download.change (run.update index fun transfer => { transfer with callbackError := true })
  | .launch index => download.change (run.launch request download.concurrency index)
  | .settle index ok => download.change (run.settle request index ok)
  | .persistFails =>
      if run.snapshot.isSome then download.change ({ run with snapshot := none }.fail false)
      else download
  | .raise => download.change (run.fail false)
  | .start .. | .advance | .probed .. | .stop | .removePart => download

def step [DecidableEq ι] (identity : ArtifactIdentity ι) (request : DownloadRequest)
    (download : Download V ι) (event : Event V) : Download V ι :=
  match event, download.phase with
  | .start concurrency observed, .idle =>
      { download with phase := .validating, concurrency, observed }
  | .removePart, .idle =>
      { download with files := { download.files with part := none }, superseded := true }
  | .advance, _ => download.advance identity request
  | .stop, _ => { download with phase := .idle }
  | .probed http ok, .probing cached => download.probe request cached http ok
  | _, .running run => download.callback request run event
  | _, _ => download

def initial : Download V ι := ⟨.none, .idle, 0, false, false⟩

end Download

end Segmented

end Mmltk.Benchmark
