import Mmltk.Benchmark.Download

namespace Mmltk.Benchmark

open Mmltk.Foundation

/-! An artifact over one connection: `download_locked_artifact` without segments, one file operation
or one callback of the transport after the other. A run may stop between any two of them. -/

namespace Ordinary

/-- `Transfer`. An error of a callback may be one that resets the partial file and tries again. The
last two fields are the server's: the version it serves, and how far into it the body is. -/
structure Transfer (V : Type) where
  attempt : Nat
  requestedResumeOffset : Nat
  writeOffset : Nat
  responseTotal : Nat
  responseHeadersValid : Bool
  callbackError : Option Bool
  http : HttpResponseHeaderFields
  resumeEtag : Text
  resumeLastModified : Text
  served : Option V
  sent : Nat

/-- What comes next. -/
inductive Phase (V : Type) where
  | idle
  | validating
  | removingDestination
  | removingComplete
  | preparing (attempt : Nat)
  | discardingPart (attempt : Nat)
  | discardingMetadata (attempt : Nat)
  | opening (attempt : Nat) (etag lastModified : Text)
  | admittingSize (attempt : Nat) (etag lastModified : Text)
  | admittingValidators (attempt : Nat) (etag lastModified : Text)
  | recording (transfer : Transfer V)
  | transferring (transfer : Transfer V)
  | persisting (transfer : Transfer V) (final : Bool)
  | resettingPart (attempt : Nat) (final : Bool)
  | resettingMetadata (attempt : Nat) (final : Bool)
  | publishing (transfer : Transfer V)
  | completing (transfer : Transfer V)
  | concluding

structure Download (V ι : Type) where
  files : DownloadFiles ι
  phase : Phase V

/-- `advance` is the run's own next operation; the rest is what the transport calls back, an operation
that fails, and the end of the run wherever it is. -/
inductive Event (V : Type) where
  | start
  | advance
  | line (header : Text)
  | endOfHeaders (version : V)
  | body (chunk : List UInt8)
  | finished (ok : Bool)
  | abandon
  | fail
  | stop

variable {V ι : Type}

namespace Transfer

def begin (attempt offset : Nat) (etag lastModified : Text) : Transfer V where
  attempt
  requestedResumeOffset := offset
  writeOffset := offset
  responseTotal := 0
  responseHeadersValid := false
  callbackError := none
  http := .none
  resumeEtag := etag
  resumeLastModified := lastModified
  served := none
  sent := 0

def effectiveEtag (transfer : Transfer V) : Text :=
  if ¬ transfer.responseHeadersValid ∨ transfer.http.etag = [] then transfer.resumeEtag
  else transfer.http.etag

def effectiveLastModified (transfer : Transfer V) : Text :=
  if ¬ transfer.responseHeadersValid ∨ transfer.http.lastModified = [] then
    transfer.resumeLastModified
  else transfer.http.lastModified

/-- `on_header`, but for the end of the block. -/
def onHeader (transfer : Transfer V) (header : Text) : Transfer V :=
  let (http, kind) := transfer.http.apply header
  match kind with
  | .statusLine => { transfer with http, responseTotal := 0, responseHeadersValid := false }
  | .contentRange =>
      match http.range with
      | some range => { transfer with http, responseTotal := range.total }
      | none => { transfer with http }
  | _ => { transfer with http }

/-- What `finish_header_block` accepts. -/
def acceptsHeaders (request : DownloadRequest) (transfer : Transfer V) : Bool :=
  let ranged :=
    if transfer.http.responseCode = 206 then
      transfer.requestedResumeOffset ≠ 0 && transfer.http.range.any fun range =>
        !range.unsatisfied && range.start = transfer.requestedResumeOffset &&
          range.last = range.total - 1
    else if transfer.http.responseCode = 416 then
      transfer.requestedResumeOffset ≠ 0 && transfer.http.range.any fun range =>
        range.unsatisfied && range.total = transfer.requestedResumeOffset
    else true
  if ranged && request.expectedSize ≠ 0 &&
      (transfer.http.responseCode = 206 || transfer.http.responseCode = 416) then
    transfer.responseTotal = request.expectedSize
  else ranged

def final (transfer : Transfer V) : Bool :=
  transfer.http.responseCode = 200 || transfer.http.responseCode = 206 ||
    transfer.http.responseCode = 416

/-- The extent that the body may not exceed, if one is known. -/
def expectedTotal (request : DownloadRequest) (transfer : Transfer V) : Nat :=
  if request.expectedSize ≠ 0 then request.expectedSize else transfer.responseTotal

def successfulStatus (transfer : Transfer V) (size : Nat) : Bool :=
  transfer.responseHeadersValid &&
    (transfer.http.responseCode = 200 || transfer.http.responseCode = 206 ||
      (transfer.http.responseCode = 416 && transfer.responseTotal ≠ 0 &&
        size = transfer.responseTotal))

def completeRange (transfer : Transfer V) (size : Nat) : Bool :=
  transfer.http.responseCode ≠ 206 ||
    (transfer.responseTotal ≠ 0 && size = transfer.responseTotal)

end Transfer

namespace Download

def partSize (download : Download V ι) : Nat := (download.files.part.map ByteContent.size).getD 0

def truncated (download : Download V ι) : DownloadFiles ι :=
  { download.files with part := download.files.part.map fun _ => .empty }

/-- After an attempt that did not publish. -/
def retried (request : DownloadRequest) (attempt : Nat) (final : Bool) : Phase V :=
  if final ∨ attempt = request.maximumAttempts then .idle else .preparing (attempt + 1)

/-- The validators that `prepare_partial` reads, if the document is one of its own. -/
def resumable (request : DownloadRequest) (files : DownloadFiles ι) : Option (Text × Text) :=
  files.partMetadata.bind fun metadata =>
    if metadata.schemaVersion = downloadSchemaVersion ∧ metadata.url = request.url ∧
        metadata.mode ≠ segmentedMode then
      some (metadata.etag, metadata.lastModified)
    else none

def checkpoint (request : DownloadRequest) (etag lastModified : Text) (bytes : Nat) :
    PartialMetadata where
  schemaVersion := downloadSchemaVersion
  mode := []
  url := request.url
  size := 0
  etag
  lastModified
  bytes
  segments := []

/-- The next operation of the run. -/
def advance [DecidableEq ι] (identity : ArtifactIdentity ι) (request : DownloadRequest)
    (download : Download V ι) : Download V ι :=
  let files := download.files
  match download.phase with
  | .idle => download
  | .validating =>
      if validateCompleteArtifact identity request files then ⟨files, .idle⟩
      else ⟨files, .removingDestination⟩
  | .removingDestination => ⟨{ files with destination := none }, .removingComplete⟩
  | .removingComplete => ⟨{ files with complete := none }, .preparing 1⟩
  | .preparing attempt =>
      match resumable request files with
      | some (etag, lastModified) => ⟨files, .opening attempt etag lastModified⟩
      | none => ⟨files, .discardingPart attempt⟩
  | .discardingPart attempt => ⟨{ files with part := none }, .discardingMetadata attempt⟩
  | .discardingMetadata attempt => ⟨{ files with partMetadata := none }, .opening attempt [] []⟩
  | .opening attempt etag lastModified =>
      ⟨{ files with part := some (files.part.getD .empty) },
        .admittingSize attempt etag lastModified⟩
  | .admittingSize attempt etag lastModified =>
      if request.expectedSize ≠ 0 ∧ request.expectedSize < download.partSize then
        ⟨download.truncated, .admittingValidators attempt etag lastModified⟩
      else ⟨files, .admittingValidators attempt etag lastModified⟩
  | .admittingValidators attempt etag lastModified =>
      if download.partSize ≠ 0 ∧ etag = [] ∧ lastModified = [] then
        ⟨download.truncated, .recording (.begin attempt 0 etag lastModified)⟩
      else ⟨files, .recording (.begin attempt download.partSize etag lastModified)⟩
  | .recording transfer =>
      ⟨{ files with
          partMetadata :=
            some (checkpoint request transfer.resumeEtag transfer.resumeLastModified
              transfer.requestedResumeOffset) },
        .transferring transfer⟩
  | .transferring _ => download
  | .persisting transfer final =>
      ⟨{ files with
          partMetadata :=
            some (checkpoint request transfer.effectiveEtag transfer.effectiveLastModified
              transfer.writeOffset) },
        retried request transfer.attempt final⟩
  | .resettingPart attempt final => ⟨{ files with part := none }, .resettingMetadata attempt final⟩
  | .resettingMetadata attempt final =>
      ⟨{ files with partMetadata := none }, retried request attempt final⟩
  | .publishing transfer =>
      ⟨{ files with destination := files.part, part := none }, .completing transfer⟩
  | .completing transfer =>
      let size := (files.destination.map ByteContent.size).getD 0
      ⟨{ files with
          complete :=
            some
              { schemaVersion := downloadSchemaVersion
                complete := true
                url := request.url
                size
                identity :=
                  identity request.url size transfer.effectiveEtag transfer.effectiveLastModified
                etag := transfer.effectiveEtag
                lastModified := transfer.effectiveLastModified } },
        .concluding⟩
  | .concluding => ⟨{ files with partMetadata := none }, .idle⟩

/-- `finish_header_block`: a complete response to a request for the rest starts over. -/
def finishHeaderBlock (request : DownloadRequest) (download : Download V ι)
    (transfer : Transfer V) (version : V) : Download V ι :=
  if !transfer.acceptsHeaders request then
    ⟨download.files, .transferring { transfer with callbackError := some true }⟩
  else
    let accepted :=
      { transfer with
        responseHeadersValid := transfer.final
        served := some version
        sent :=
          if transfer.http.responseCode = 206 then
            (transfer.http.range.map ParsedContentRange.start).getD 0
          else 0 }
    if transfer.http.responseCode = 200 ∧ transfer.requestedResumeOffset ≠ 0 then
      ⟨download.truncated, .transferring { accepted with writeOffset := 0 }⟩
    else ⟨download.files, .transferring accepted⟩

/-- The write callback. -/
def write (request : DownloadRequest) (download : Download V ι) (transfer : Transfer V)
    (chunk : List UInt8) : Download V ι :=
  if transfer.http.responseCode ≠ 200 ∧ transfer.http.responseCode ≠ 206 then download
  else if !transfer.responseHeadersValid then
    ⟨download.files, .transferring { transfer with callbackError := some true }⟩
  else
    let total := transfer.expectedTotal request
    if total ≠ 0 ∧
        (total < transfer.writeOffset ∨ total - transfer.writeOffset < chunk.length) then
      ⟨download.files, .transferring { transfer with callbackError := some true }⟩
    else
      ⟨{ download.files with
          part := download.files.part.map fun part => part.write transfer.writeOffset chunk },
        .transferring
          { transfer with
            writeOffset := transfer.writeOffset + chunk.length
            sent := transfer.sent + chunk.length }⟩

/-- What follows a transfer that the transport has completed. -/
def finish (request : DownloadRequest) (download : Download V ι) (transfer : Transfer V)
    (ok : Bool) : Phase V :=
  match transfer.callbackError with
  | some true => .resettingPart transfer.attempt false
  | some false => .persisting transfer true
  | none =>
      let size := download.partSize
      if ok && transfer.successfulStatus size && transfer.completeRange size then
        if size = 0 ∨ (request.expectedSize ≠ 0 ∧ size ≠ request.expectedSize) then
          .resettingPart transfer.attempt false
        else .publishing transfer
      else .persisting transfer false

def step [DecidableEq ι] (identity : ArtifactIdentity ι) (request : DownloadRequest)
    (download : Download V ι) : Event V → Download V ι
  | .start =>
      match download.phase with
      | .idle => { download with phase := .validating }
      | _ => download
  | .advance => download.advance identity request
  | .line header =>
      match download.phase with
      | .transferring transfer =>
          if transfer.callbackError.isSome || isHeaderBlockTerminator header then download
          else { download with phase := .transferring (transfer.onHeader header) }
      | _ => download
  | .endOfHeaders version =>
      match download.phase with
      | .transferring transfer =>
          if transfer.callbackError.isSome then download
          else download.finishHeaderBlock request transfer version
      | _ => download
  | .body chunk =>
      match download.phase with
      | .transferring transfer =>
          if transfer.callbackError.isSome then download
          else download.write request transfer chunk
      | _ => download
  | .finished ok =>
      match download.phase with
      | .transferring transfer => { download with phase := download.finish request transfer ok }
      | _ => download
  | .abandon =>
      match download.phase with
      | .transferring transfer => { download with phase := .persisting transfer true }
      | _ => download
  | .fail =>
      match download.phase with
      | .transferring transfer =>
          if transfer.callbackError.isSome then download
          else { download with phase := .transferring { transfer with callbackError := some false } }
      | .persisting transfer final =>
          { download with phase := .resettingPart transfer.attempt final }
      | _ => download
  | .stop => { download with phase := .idle }

def initial : Download V ι := ⟨.none, .idle⟩

end Download

end Ordinary

end Mmltk.Benchmark
